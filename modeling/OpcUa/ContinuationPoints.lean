import OpcUa.Heaps
import OpcUa.SessionBrowses

namespace OpcUa.ContinuationPoints

open StatusCodes NodeIds DataTypes AddressSpaces SubTypes Browsing NodeManagement NodeCreation SessionBrowses
  SessionBrowses.Access Heaps
open NodePointers (Access)

/-- `UA_Session`, with the addresses of the entries in the order of the list. -/
structure Session where
  continuationPoints : List Nat
  entries : Heap ContinuationPointEntry
  availableContinuationPoints : UInt16

def maxContinuationPoints : UInt16 := 5

namespace Session

def init : Session := ⟨[], Heap.empty, maxContinuationPoints⟩

def read (session : Session) (cp : Nat) : Access ContinuationPointEntry :=
  (session.entries cp).elim .dangling .done

end Session

/-- What the memory grants a browse: the array of the references, their members,
an entry at an address, and the copies of the description and of the identifier.
There is always memory for the identifier itself, for which the source does not
ask. -/
structure Memory where
  references : Bool
  members : Bool
  entry : Option Nat
  browseDescription : Bool
  continuationPoint : Bool

section Services

variable (memory : Memory) (session : Session)

def removeCp (cp : Nat) : Access Session :=
  (session.read cp).map fun _ =>
    { continuationPoints := session.continuationPoints.erase cp
      entries := session.entries.free cp
      availableContinuationPoints := session.availableContinuationPoints + 1 }

/-- A description none of whose members could be copied. -/
def nullDescription : BrowseDescription := ⟨nullId, browseForward, nullId, false, 0, 0⟩

def createCp (identifier : List UInt8) (descr : BrowseDescription) (maxrefs : UInt32)
    (references : List ReferenceDescription) : BrowseResult × Session :=
  if maxrefs != 0 && references.length ≥ maxrefs.toNat then
    if session.availableContinuationPoints == 0 then (⟨badNoContinuationPoints, none, references⟩, session)
    else
      match session.entries.allocate memory.entry with
      | none => (⟨badNoContinuationPoints, none, references⟩, session)
      | some cp =>
          let entry : ContinuationPointEntry :=
            { identifier := identifier
              browseDescription := if memory.browseDescription then descr else nullDescription
              continuationIndex := UInt32.ofNat references.length
              maxReferences := maxrefs }
          (⟨good, if memory.continuationPoint then some identifier else none, references⟩,
            { continuationPoints := cp :: session.continuationPoints
              entries := session.entries.store cp entry
              availableContinuationPoints := session.availableContinuationPoints - 1 })
  else (⟨good, none, references⟩, session)

def continueCp (cp : Nat) (references : List ReferenceDescription) (referencesIndex referencesSize : Nat) :
    Access (BrowseResult × Session) :=
  if referencesIndex = referencesSize then
    (removeCp session cp).map (fun session => (⟨good, none, references⟩, session))
  else
    (session.read cp).map fun entry =>
      (⟨good, if memory.continuationPoint then some entry.identifier else none, references⟩,
        { session with
          entries := session.entries.modify cp fun entry =>
            { entry with continuationIndex := entry.continuationIndex + UInt32.ofNat references.length } })

/-- `Service_Browse_single` from its arguments, or from the members of the entry. -/
def browseFrom (fuel : Nat) (s : AddressSpace) (identifier : List UInt8) (cp : Option Nat) (descr : BrowseDescription)
    (maxrefs continuationIndex : UInt32) : Access (BrowseResult × Session) :=
  (Access.ofOption (collectReferences fuel s descr maxrefs continuationIndex)).bind fun
    | .returned status => .done (⟨status, none, []⟩, session)
    | .collected references index size =>
        if !memory.references || (!memory.members && !references.isEmpty) then
          .done (⟨badOutOfMemory, none, []⟩, session)
        else
          match cp with
          | some cp => continueCp memory session cp references index size
          | none => .done (createCp memory session identifier descr maxrefs references)

def browseSingle (fuel : Nat) (s : AddressSpace) (identifier : List UInt8) (cp : Option Nat) (descr : BrowseDescription)
    (maxrefs : UInt32) : Access (BrowseResult × Session) :=
  match cp with
  | none => browseFrom memory session fuel s identifier none descr maxrefs 0
  | some a =>
      (session.read a).bind fun entry =>
        browseFrom memory session fuel s identifier (some a) entry.browseDescription entry.maxReferences
          entry.continuationIndex

/-- The search of `Service_BrowseNext` through the list. -/
def findCp (continuationPoint : UaString) : List Nat → Access (Option Nat)
  | [] => .done none
  | cp :: rest =>
      (session.read cp).bind fun entry =>
        if stringEqual (some entry.identifier) continuationPoint then .done (some cp)
        else findCp continuationPoint rest

end Services

/-- A browse that was made: what was available, whether there was memory for an
entry, and the result. -/
structure Attempt where
  availableContinuationPoints : UInt16
  entry : Bool
  statusCode : StatusCode

/-- A session and the browses made for it. -/
structure Account where
  session : Session
  attempts : List Attempt

section Calls

variable (host : Host) (memory : Nat → Memory) (fuel : Nat)

def attempt (s : AddressSpace) (identifier : List UInt8) (account : Account) (cp : Option Nat)
    (descr : BrowseDescription)
    (maxrefs : UInt32) : Access (BrowseResult × Account) :=
  let granted := memory account.attempts.length
  (browseSingle granted account.session fuel s identifier cp descr maxrefs).map fun r =>
    (r.1, ⟨r.2, account.attempts ++ [⟨account.session.availableContinuationPoints,
      (account.session.entries.allocate granted.entry).isSome, r.1.statusCode⟩]⟩)

def typesBrowse : Browse Account := fun fuel s i account descr =>
  (attempt memory fuel s (host.identifiers i) account none descr 100).map (fun r => (r.1.references, r.2))

def browseItem (v : Served Account) (cp : Option Nat) (descr : BrowseDescription) (maxrefs : UInt32) :
    Access (BrowseResult × Served Account) :=
  (attempt memory fuel v.state.space (host.identifiers v.state.browses) v.session cp descr maxrefs).map fun r =>
    (r.1, ⟨{ v.state with browses := v.state.browses + 1 }, r.2⟩)

/-- One pass of the loop of `Service_BrowseNext`. -/
def browseNextSingle (releaseContinuationPoints : Bool) (v : Served Account) (continuationPoint : UaString) :
    Access (BrowseResult × Served Account) :=
  (findCp v.session.session continuationPoint v.session.session.continuationPoints).bind fun
    | none => .done (⟨badContinuationPointInvalid, none, []⟩, v)
    | some cp =>
        if !releaseContinuationPoints then browseItem host memory fuel v (some cp) nullDescription 0
        else
          (removeCp v.session.session cp).map fun session =>
            (⟨good, none, []⟩, { v with session := { v.session with session := session } })

def each {σ α β : Type} (f : σ → α → Access (β × σ)) : σ → List α → Access (List β × σ)
  | s, [] => .done ([], s)
  | s, a :: rest => (f s a).bind fun r => (each f r.2 rest).map (fun later => (r.1 :: later.1, later.2))

/-- The results of a request that has items, if there is memory for them. -/
def answerEach {α β : Type} (f : Served Account → α → Access (β × Served Account)) (results : Bool) (v : Served Account)
    (items : List α) : Access (Response β × Served Account) :=
  if items.length = 0 then .done (⟨badNothingToDo, []⟩, v)
  else if !results then .done (⟨badOutOfMemory, []⟩, v)
  else (each f v items).map (fun r => (⟨good, r.1⟩, r.2))

def browse (v : Served Account) (viewId : NodeId) (nodesToBrowse : List BrowseDescription)
    (maxReferencesPerNode : UInt32)
    (results : Bool) : Access (Response BrowseResult × Served Account) :=
  if !isNull viewId then .done (⟨badViewIdUnknown, []⟩, v)
  else answerEach (fun v descr => browseItem host memory fuel v none descr maxReferencesPerNode) results v nodesToBrowse

def browseNext (v : Served Account) (releaseContinuationPoints : Bool) (continuationPoints : List UaString)
    (results : Bool) : Access (Response BrowseResult × Served Account) :=
  answerEach (browseNextSingle host memory fuel releaseContinuationPoints) results v continuationPoints

def addNodes (v : Served Account) (nodesToAdd : List AddNodesItem) (results : Bool) :
    Access (Response AddNodesResult × Served Account) :=
  answerEach (addNodesSingle host (typesBrowse host memory) fuel) results v nodesToAdd

/-- The calls on a session. Between them the address space may be changed by
others. -/
inductive Call
  | browse (viewId : NodeId) (nodesToBrowse : List BrowseDescription) (maxReferencesPerNode : UInt32) (results : Bool)
  | browseNext (releaseContinuationPoints : Bool) (continuationPoints : List UaString) (results : Bool)
  | addNodes (nodesToAdd : List AddNodesItem) (results : Bool)
  | others (space : AddressSpace)

def serve (v : Served Account) : Call → Access (Served Account)
  | .browse viewId nodesToBrowse maxReferencesPerNode results =>
      (browse host memory fuel v viewId nodesToBrowse maxReferencesPerNode results).map (·.2)
  | .browseNext releaseContinuationPoints continuationPoints results =>
      (browseNext host memory fuel v releaseContinuationPoints continuationPoints results).map (·.2)
  | .addNodes nodesToAdd results => (addNodes host memory fuel v nodesToAdd results).map (·.2)
  | .others space => .done (v.withState { v.state with space := space })

def run (v : Served Account) (calls : List Call) : Access (Served Account) := calls.foldlM (serve host memory fuel) v

end Calls

section Balance

variable {memory : Memory} {session session' : Session} {cp : Nat}

/-- The entries of the list are the stored ones, and with those that are still
available they are as many as there may be. -/
structure Balanced (session : Session) : Prop where
  nodup : session.continuationPoints.Nodup
  stored : ∀ cp, cp ∈ session.continuationPoints ↔ (session.entries cp).isSome
  budget : session.availableContinuationPoints.toNat + session.continuationPoints.length = maxContinuationPoints.toNat

theorem balanced_init : Balanced Session.init where
  nodup := List.nodup_nil
  stored cp := by simp [Session.init, Heap.empty]
  budget := rfl

theorem read_sound (h : Balanced session) (hcp : cp ∈ session.continuationPoints) :
    Sound (fun entry => session.entries cp = some entry) (session.read cp) := by
  obtain ⟨entry, hentry⟩ := Option.isSome_iff_exists.mp ((h.stored cp).mp hcp)
  rw [Session.read, hentry]
  rfl

theorem removeCp_sound (h : Balanced session) (hcp : cp ∈ session.continuationPoints) :
    Sound Balanced (removeCp session cp) := by
  refine (read_sound h hcp).map (fun entry hentry => ?_)
  have hlength : (session.continuationPoints.erase cp).length + 1 = session.continuationPoints.length := by
    rw [List.length_erase_of_mem hcp]
    exact Nat.sub_add_cancel (List.length_pos_of_mem hcp)
  have hbudget := h.budget
  refine ⟨h.nodup.erase cp, fun other => ?_, ?_⟩
  · rw [h.nodup.mem_erase_iff, h.stored other]
    by_cases hother : other = cp <;> simp [Heap.free, hother]
  · have hadd : (session.availableContinuationPoints + 1).toNat = session.availableContinuationPoints.toNat + 1 := by
      rw [UInt16.toNat_add]
      apply Nat.mod_eq_of_lt
      have hmax : maxContinuationPoints.toNat = 5 := rfl
      have hone : (1 : UInt16).toNat = 1 := rfl
      omega
    rw [hadd]
    dsimp only
    omega

theorem balanced_createCp (h : Balanced session) (identifier : List UInt8)
    (descr : BrowseDescription) (maxrefs : UInt32)
    (references : List ReferenceDescription) :
    Balanced (createCp memory session identifier descr maxrefs references).2 := by
  rw [createCp]
  split
  · split
    · exact h
    · rename_i havailable
      cases hcp : session.entries.allocate memory.entry with
      | none => exact h
      | some cp =>
          obtain ⟨_, hfree⟩ := allocate_eq_some.mp hcp
          have hfresh : cp ∉ session.continuationPoints := by
            rw [h.stored cp, hfree]
            exact nofun
          refine ⟨List.nodup_cons.mpr ⟨hfresh, h.nodup⟩, fun other => ?_, ?_⟩
          · rw [List.mem_cons, h.stored other]
            by_cases hother : other = cp <;> simp [Heap.store, hother]
          · have hbudget := h.budget
            have hpositive : session.availableContinuationPoints.toNat ≠ 0 := by
              intro hzero
              exact havailable (by simpa [← UInt16.toNat_inj] using hzero)
            have hsub : (session.availableContinuationPoints - 1).toNat =
              session.availableContinuationPoints.toNat - 1 := by
              rw [UInt16.toNat_sub_of_le]
              · rfl
              · rw [UInt16.le_iff_toNat_le]
                exact Nat.one_le_iff_ne_zero.mpr hpositive
            simp only [List.length_cons]
            omega
  · exact h

theorem continueCp_sound (h : Balanced session) (hcp : cp ∈ session.continuationPoints)
    (references : List ReferenceDescription) (index size : Nat) :
    Sound (fun r => Balanced r.2 ∧ r.1.statusCode = good) (continueCp memory session cp references index size) := by
  rw [continueCp]
  split
  · exact (removeCp_sound h hcp).map (fun _ h => ⟨h, rfl⟩)
  · refine (read_sound h hcp).map (fun entry hentry => ⟨⟨h.nodup, fun other => ?_, h.budget⟩, rfl⟩)
    rw [h.stored other]
    by_cases hother : other = cp <;> simp [Heap.modify, hother]

theorem findCp_sound (h : Balanced session) (continuationPoint : UaString) {cps : List Nat}
    (hcps : ∀ cp ∈ cps, cp ∈ session.continuationPoints) :
    Sound (fun found => ∀ cp, found = some cp → cp ∈ session.continuationPoints)
      (findCp session continuationPoint cps) := by
  induction cps with
  | nil => exact nofun
  | cons cp rest ih =>
      rw [findCp]
      refine (read_sound h (hcps cp List.mem_cons_self)).bind (fun entry _ => ?_)
      split
      · intro found hfound
        cases hfound
        exact hcps cp List.mem_cons_self
      · exact ih (fun cp hcp => hcps cp (List.mem_cons_of_mem _ hcp))

end Balance

section Statuses

variable {memory : Memory} {session : Session} {fuel : Nat} {s : AddressSpace}

theorem findSubTypes_status {root : NodeId} {status : StatusCode}
    (h : findSubTypes fuel s root = some (.error status)) :
    status = badNoMatch ∨ status = badReferenceTypeIdInvalid := by
  rw [findSubTypes] at h
  split at h
  · cases h
    exact .inl rfl
  · split at h
    · cases h
      exact .inr rfl
    · obtain ⟨_, _, hok⟩ := Option.map_eq_some_iff.mp h
      cases hok

theorem relevantTypes_status {descr : BrowseDescription} {status : StatusCode}
    (h : relevantTypes fuel s descr = some (.error status)) :
    status = badNoMatch ∨ status = badReferenceTypeIdInvalid := by
  rw [relevantTypes] at h
  split at h
  · cases h
  · split at h
    · obtain ⟨outcome, hfound, hmap⟩ := Option.map_eq_some_iff.mp h
      cases outcome with
      | error status' =>
          cases hmap
          exact findSubTypes_status hfound
      | ok types => cases hmap
    · right
      split at h
      · cases h
        rfl
      · split at h <;> cases h
        rfl

theorem collectReferences_status {descr : BrowseDescription} {maxrefs k : UInt32} {status : StatusCode}
    (h : collectReferences fuel s descr maxrefs k = some (.returned status)) : status ≠ badNoContinuationPoints := by
  rw [collectReferences] at h
  split at h
  · cases h
    decide
  · cases htypes : relevantTypes fuel s descr with
    | none =>
        rw [htypes] at h
        cases h
    | some outcome =>
        rw [htypes] at h
        cases outcome with
        | error status' =>
            cases h
            rcases relevantTypes_status htypes with rfl | rfl <;> decide
        | ok relevant =>
            dsimp only at h
            split at h
            · cases h
              decide
            · split at h
              · cases h
                decide
              · split at h <;> cases h
                decide

/-- A browse fails for want of continuation points if no more are available, or
if there is no memory for one. -/
def Refused (session : Session) (memory : Memory) (status : StatusCode) : Prop :=
  status = badNoContinuationPoints →
    session.availableContinuationPoints = 0 ∨ (session.entries.allocate memory.entry).isSome = false

theorem refused_of_ne {status : StatusCode} (h : status ≠ badNoContinuationPoints) : Refused session memory status :=
  fun hstatus => absurd hstatus h

theorem good_ne : good ≠ badNoContinuationPoints := by decide

theorem createCp_status (identifier : List UInt8) (descr : BrowseDescription) (maxrefs : UInt32)
    (references : List ReferenceDescription) :
    Refused session memory (createCp memory session identifier descr maxrefs references).1.statusCode := by
  rw [createCp]
  split
  · split
    · rename_i havailable
      exact fun _ => .inl (beq_iff_eq.mp havailable)
    · cases hcp : session.entries.allocate memory.entry with
      | none => exact fun _ => .inr (congrArg Option.isSome hcp)
      | some cp => exact refused_of_ne good_ne
  · exact refused_of_ne good_ne

variable {cp : Option Nat}

theorem browseFrom_sound (h : Balanced session) (hcp : ∀ a, cp = some a → a ∈ session.continuationPoints)
    (identifier : List UInt8) (descr : BrowseDescription) (maxrefs continuationIndex : UInt32) :
    Sound (fun r => Balanced r.2 ∧ Refused session memory r.1.statusCode)
      (browseFrom memory session fuel s identifier cp descr maxrefs continuationIndex) := by
  refine (sound_ofOption (fun _ hcollected => hcollected)).bind (fun collected hcollected => ?_)
  cases collected with
  | returned status => exact ⟨h, refused_of_ne (collectReferences_status hcollected)⟩
  | collected references index size =>
      dsimp only
      split
      · exact ⟨h, refused_of_ne (show badOutOfMemory ≠ badNoContinuationPoints by decide)⟩
      · cases cp with
        | none =>
            exact ⟨balanced_createCp h identifier descr maxrefs references,
              createCp_status identifier descr maxrefs references⟩
        | some a =>
            refine Sound.imp (continueCp_sound h (hcp a rfl) references index size) (fun r hr => ⟨hr.1, ?_⟩)
            rw [hr.2]
            exact refused_of_ne good_ne

theorem browseSingle_sound (h : Balanced session) (hcp : ∀ a, cp = some a → a ∈ session.continuationPoints)
    (identifier : List UInt8) (descr : BrowseDescription) (maxrefs : UInt32) :
    Sound (fun r => Balanced r.2 ∧ Refused session memory r.1.statusCode)
      (browseSingle memory session fuel s identifier cp descr maxrefs) := by
  cases cp with
  | none => exact browseFrom_sound h hcp identifier descr maxrefs 0
  | some a => exact (read_sound h (hcp a rfl)).bind (fun entry _ => browseFrom_sound h hcp identifier _ _ _)

end Statuses

section Refinement

variable {memory : Memory} {session : Session} {fuel : Nat} {s : AddressSpace} {cp : Nat}
  {entry : ContinuationPointEntry}
  {pre post : List Nat}

def Session.listed (session : Session) : Continuations :=
  ⟨session.continuationPoints.filterMap session.entries, session.availableContinuationPoints⟩

def listedAnswer (r : BrowseResult × Session) : BrowseResult × Continuations := (r.1, r.2.listed)

/-- Whatever a browse asks for is granted. -/
structure Granted (memory : Memory) (session : Session) : Prop where
  references : memory.references = true
  members : memory.members = true
  entry : (session.entries.allocate memory.entry).isSome
  browseDescription : memory.browseDescription = true
  continuationPoint : memory.continuationPoint = true

theorem filterMap_elsewhere {entries entries' : Heap ContinuationPointEntry} {cps : List Nat}
    (h : ∀ other, other ≠ cp → entries' other = entries other) (hcp : cp ∉ cps) :
    cps.filterMap entries' = cps.filterMap entries := by
  refine List.filterMap_congr (fun other hother => h other ?_)
  rintro rfl
  exact hcp hother

/-- An entry of the list, with those before it and behind it. -/
structure Listed (session : Session) (pre : List Nat) (cp : Nat) (post : List Nat) (entry : ContinuationPointEntry) :
    Prop where
  split : session.continuationPoints = pre ++ cp :: post
  entry : session.entries cp = some entry
  notMem : cp ∉ pre ∧ cp ∉ post
  length : (pre.filterMap session.entries).length = pre.length

theorem listed_of_split (h : Balanced session) (hsplit : session.continuationPoints = pre ++ cp :: post)
    (hentry : session.entries cp = some entry) : Listed session pre cp post entry := by
  have hnodup := hsplit ▸ h.nodup
  obtain ⟨_, hpost, hapart⟩ := List.nodup_append.mp hnodup
  refine ⟨hsplit, hentry, ⟨?_, (List.nodup_cons.mp hpost).1⟩, ?_⟩
  · intro hmem
    exact hapart cp hmem cp List.mem_cons_self rfl
  · rw [List.length_filterMap_eq_countP, List.countP_eq_length]
    intro other hother
    exact (h.stored other).mp (hsplit ▸ List.mem_append_left _ hother)

theorem filterMap_split (h : Listed session pre cp post entry) : session.continuationPoints.filterMap session.entries =
    pre.filterMap session.entries ++ entry :: post.filterMap session.entries := by
  rw [h.split, List.filterMap_append, List.filterMap_cons_some h.entry]

theorem removeCp_listed (h : Listed session pre cp post entry) :
    (removeCp session cp).map Session.listed = .done (Browsing.removeCp pre.length session.listed) := by
  have hfree : ∀ other, other ≠ cp → session.entries.free cp other = session.entries other :=
    fun _ hother => if_neg hother
  rw [removeCp, Session.read, h.entry]
  refine congrArg Access.done ?_
  rw [Session.listed, Session.listed, Browsing.removeCp, Continuations.mk.injEq]
  refine ⟨?_, rfl⟩
  dsimp only
  rw [filterMap_split h, h.split, List.erase_append_right _ h.notMem.1, List.erase_cons_head, List.filterMap_append,
    filterMap_elsewhere hfree h.notMem.1, filterMap_elsewhere hfree h.notMem.2,
    List.eraseIdx_append_of_length_le (Nat.le_of_eq h.length), h.length, Nat.sub_self, List.eraseIdx_cons_zero]

theorem continueCp_listed (hmem : Granted memory session) (h : Listed session pre cp post entry)
    (references : List ReferenceDescription) (index size : Nat) :
    (continueCp memory session cp references index size).map listedAnswer =
      .done (Browsing.continueCp pre.length entry session.listed references index size) := by
  rw [continueCp, Browsing.continueCp]
  split
  · have hremove := congrArg (Access.map (fun cs => ((⟨good, none, references⟩ : BrowseResult), cs)))
      (removeCp_listed h)
    rw [Access.map_map] at hremove ⊢
    exact hremove
  · have helsewhere : ∀ f other, other ≠ cp → session.entries.modify cp f other = session.entries other :=
      fun _ _ hother => modify_of_ne hother
    rw [Session.read, h.entry, hmem.continuationPoint]
    refine congrArg (fun cps => Access.done ((⟨good, some entry.identifier, references⟩ : BrowseResult),
      (⟨cps, session.availableContinuationPoints⟩ : Continuations))) ?_
    dsimp only
    rw [Session.listed, filterMap_split h, h.split, List.filterMap_append, List.filterMap_cons_some (modify_self.trans
      (congrArg (Option.map _) h.entry)), filterMap_elsewhere (helsewhere _) h.notMem.1,
      filterMap_elsewhere (helsewhere _) h.notMem.2, List.set_append_right _ _ (Nat.le_of_eq h.length), h.length,
      Nat.sub_self, List.set_cons_zero]

theorem createCp_listed (h : Balanced session) (hmem : Granted memory session) (identifier : List UInt8)
    (descr : BrowseDescription) (maxrefs : UInt32) (references : List ReferenceDescription) :
    listedAnswer (createCp memory session identifier descr maxrefs references) =
      Browsing.createCp identifier session.listed descr maxrefs references := by
  obtain ⟨cp, hcp⟩ := Option.isSome_iff_exists.mp hmem.entry
  obtain ⟨_, hfree⟩ := allocate_eq_some.mp hcp
  have hnotMem : cp ∉ session.continuationPoints := by
    rw [h.stored cp, hfree]
    exact Bool.false_ne_true
  have hstored : ∀ entry, session.entries.store cp entry cp = some entry := fun _ => if_pos rfl
  have hstore : ∀ entry other, other ≠ cp → session.entries.store cp entry other = session.entries other :=
    fun _ _ hother => if_neg hother
  rw [createCp, Browsing.createCp, hcp, hmem.browseDescription, hmem.continuationPoint]
  split
  · rw [Session.listed]
    split
    · rfl
    · rw [listedAnswer, Session.listed]
      dsimp only
      rw [List.filterMap_cons_some (hstored _), filterMap_elsewhere (hstore _) hnotMem]
      rfl
  · rfl

theorem findCp_listed (continuationPoint : UaString) (k : Nat) {cps : List Nat}
    (h : ∀ cp ∈ cps, (session.entries cp).isSome) :
    (findCp session continuationPoint cps = .done none ∧
      ((cps.filterMap session.entries).zipIdx k).find? (fun p => stringEqual (some p.1.identifier) continuationPoint) =
        none) ∨
    ∃ pre cp post entry, cps = pre ++ cp :: post ∧ session.entries cp = some entry ∧
      findCp session continuationPoint cps = .done (some cp) ∧
      ((cps.filterMap session.entries).zipIdx k).find? (fun p => stringEqual (some p.1.identifier) continuationPoint) =
        some (entry, k + pre.length) := by
  induction cps generalizing k with
  | nil => exact .inl ⟨rfl, rfl⟩
  | cons cp rest ih =>
      obtain ⟨entry, hentry⟩ := Option.isSome_iff_exists.mp (h cp List.mem_cons_self)
      rw [findCp, Session.read, hentry, List.filterMap_cons_some hentry, List.zipIdx_cons, List.find?_cons,
        Option.elim_some, Access.done_bind]
      dsimp only
      cases hsame : stringEqual (some entry.identifier) continuationPoint with
      | true => exact .inr ⟨[], cp, rest, entry, rfl, hentry, rfl, rfl⟩
      | false =>
          rcases ih (k + 1) (fun cp hcp => h cp (List.mem_cons_of_mem _ hcp)) with hnone | hsome
          · exact .inl hnone
          · obtain ⟨pre, found, post, entry', hsplit, hentry', hfound, hfind⟩ := hsome
            refine .inr ⟨cp :: pre, found, post, entry', congrArg (cp :: ·) hsplit, hentry', hfound, ?_⟩
            rw [hfind, List.length_cons, Nat.add_right_comm, Nat.add_assoc]

theorem agrees_browseFrom (hmem : Granted memory session) {identifier : List UInt8} {cp : Option Nat}
    {descr : BrowseDescription} {maxrefs k : UInt32} {finish : Collected → BrowseResult × Continuations}
    (hreturned : ∀ status, finish (.returned status) = (⟨status, none, []⟩, session.listed))
    (hcollected : ∀ references index size,
      (cp.elim (.done (createCp memory session identifier descr maxrefs references))
        (fun cp => continueCp memory session cp references index size)).map listedAnswer =
          .done (finish (.collected references index size))) :
    Agrees listedAnswer (browseFrom memory session fuel s identifier cp descr maxrefs k)
      ((collectReferences fuel s descr maxrefs k).map finish) := by
  rw [Agrees, browseFrom]
  cases collectReferences fuel s descr maxrefs k with
  | none => rfl
  | some collected =>
      cases collected with
      | returned status => exact congrArg Access.done (hreturned status).symm
      | collected references index size =>
          rw [hmem.references, hmem.members]
          refine Eq.trans ?_ (hcollected references index size)
          cases cp <;> rfl

theorem agrees_browseSingle (h : Balanced session) (hmem : Granted memory session) (identifier : List UInt8)
    (descr : BrowseDescription) (maxrefs : UInt32) :
    Agrees listedAnswer (browseSingle memory session fuel s identifier none descr maxrefs)
      (Browsing.browseSingle fuel s identifier session.listed descr maxrefs) := by
  rw [browseSingle, Browsing.browseSingle]
  exact agrees_browseFrom hmem (fun _ => rfl)
    (fun references _ _ => congrArg Access.done (createCp_listed h hmem identifier descr maxrefs references))

theorem agrees_browseContinue (hmem : Granted memory session) (h : Listed session pre cp post entry)
    (identifier : List UInt8) (descr : BrowseDescription) (maxrefs : UInt32) :
    Agrees listedAnswer (browseSingle memory session fuel s identifier (some cp) descr maxrefs)
      (browseContinue fuel s session.listed pre.length entry) := by
  rw [browseSingle, browseContinue, Session.read, h.entry, Option.elim_some, Access.done_bind]
  exact agrees_browseFrom hmem (fun _ => rfl) (continueCp_listed hmem h)

theorem agrees_browseNextSingle {host : Host} {memory : Nat → Memory} {v : Served Account}
    (h : Balanced v.session.session)
    (hmem : Granted (memory v.session.attempts.length) v.session.session) (releaseContinuationPoints : Bool)
    (continuationPoint : UaString) :
    Agrees (fun r => (r.1, r.2.session.session.listed))
      (browseNextSingle host memory fuel releaseContinuationPoints v continuationPoint)
      (Browsing.browseNextSingle fuel v.state.space releaseContinuationPoints v.session.session.listed
        continuationPoint) := by
  rw [Agrees, browseNextSingle, Browsing.browseNextSingle, Browsing.findCp, Session.listed]
  rcases findCp_listed continuationPoint 0 (fun cp hcp => (h.stored cp).mp hcp) with
    ⟨hfound, hfind⟩ | ⟨pre, cp, post, entry, hsplit, hentry, hfound, hfind⟩
  · rw [hfound, hfind]
    rfl
  · have hlisted := listed_of_split h hsplit hentry
    rw [hfound, hfind, Nat.zero_add]
    cases releaseContinuationPoints with
    | true =>
        have hremove := congrArg (Access.map (fun cs => ((⟨good, none, []⟩ : BrowseResult), cs)))
          (removeCp_listed hlisted)
        rw [Access.map_map] at hremove
        rw [Access.done_bind]
        dsimp only
        rw [Bool.not_true, if_neg Bool.false_ne_true, if_pos rfl, Access.map_map]
        exact hremove
    | false =>
        rw [Access.done_bind]
        dsimp only
        rw [Bool.not_false, if_pos rfl, if_neg Bool.false_ne_true, browseItem, attempt, Access.map_map, Access.map_map]
        exact agrees_browseContinue hmem hlisted (host.identifiers v.state.browses) nullDescription 0

end Refinement

section Runs

/-- What holds of a session and of the browses made for it. -/
structure Kept (account : Account) : Prop where
  balanced : Balanced account.session
  attempts : ∀ attempt ∈ account.attempts, attempt.statusCode = badNoContinuationPoints →
    attempt.availableContinuationPoints = 0 ∨ attempt.entry = false

variable {host : Host} {memory : Nat → Memory} {fuel : Nat} {s : AddressSpace} {account : Account} {cp : Option Nat}
  {v : Served Account}

theorem attempt_sound (h : Kept account) (hcp : ∀ a, cp = some a → a ∈ account.session.continuationPoints)
    (identifier : List UInt8) (descr : BrowseDescription) (maxrefs : UInt32) :
    Sound (fun r => Kept r.2) (attempt memory fuel s identifier account cp descr maxrefs) := by
  refine (browseSingle_sound h.balanced hcp identifier descr maxrefs).map (fun r hr => ⟨hr.1, ?_⟩)
  intro attempt hattempt
  rcases List.mem_append.mp hattempt with hbefore | hnow
  · exact h.attempts attempt hbefore
  · rw [List.mem_singleton.mp hnow]
    exact hr.2

theorem typesBrowse_sound (i : Nat) (descr : BrowseDescription) (h : Kept account) :
    Sound (fun r => Kept r.2) (typesBrowse host memory fuel s i account descr) :=
  (attempt_sound h (fun _ hcp => by cases hcp) (host.identifiers i) descr 100).map (fun _ h => h)

theorem browseItem_sound (h : Kept v.session) (hcp : ∀ a, cp = some a → a ∈ v.session.session.continuationPoints)
    (descr : BrowseDescription) (maxrefs : UInt32) : Keeps Kept (browseItem host memory fuel v cp descr maxrefs) :=
  (attempt_sound h hcp (host.identifiers v.state.browses) descr maxrefs).map (fun _ h => h)

theorem browseNextSingle_sound (releaseContinuationPoints : Bool) (continuationPoint : UaString) (h : Kept v.session) :
    Keeps Kept (browseNextSingle host memory fuel releaseContinuationPoints v continuationPoint) := by
  refine (findCp_sound h.balanced continuationPoint (fun _ hcp => hcp)).bind (fun found hfound => ?_)
  cases found with
  | none => exact h
  | some cp =>
      dsimp only
      split
      · exact browseItem_sound h hfound nullDescription 0
      · exact (removeCp_sound h.balanced (hfound cp rfl)).map (fun _ hbalanced => ⟨hbalanced, h.attempts⟩)

theorem each_sound {σ α β : Type} {P : σ → Prop} {f : σ → α → Access (β × σ)}
    (h : ∀ s a, P s → Sound (fun r => P r.2) (f s a)) (items : List α) {s : σ} (hs : P s) :
    Sound (fun r => P r.2) (each f s items) := by
  induction items generalizing s with
  | nil => exact hs
  | cons a rest ih =>
      rw [each]
      exact (h s a hs).bind (fun r hr => (ih hr).map (fun _ h => h))

theorem answerEach_sound {α β : Type} {f : Served Account → α → Access (β × Served Account)}
    (hf : ∀ v a, Kept v.session → Keeps Kept (f v a)) (results : Bool) (items : List α) (h : Kept v.session) :
    Keeps Kept (answerEach f results v items) := by
  rw [answerEach]
  split
  · exact h
  · split
    · exact h
    · exact (each_sound (P := fun v : Served Account => Kept v.session) hf items h).map (fun _ h => h)

theorem serve_sound (host : Host) (memory : Nat → Memory) (fuel : Nat) (call : Call) (h : Kept v.session) :
    Sound (fun v => Kept v.session) (serve host memory fuel v call) := by
  cases call with
  | browse viewId nodesToBrowse maxReferencesPerNode results =>
      rw [serve, browse]
      split
      · exact h
      · refine (answerEach_sound (fun v descr h => ?_) results _ h).map (fun _ h => h)
        exact browseItem_sound h (fun _ hcp => by cases hcp) descr _
  | browseNext releaseContinuationPoints continuationPoints results =>
      exact (answerEach_sound (fun v cp h => browseNextSingle_sound _ cp h) results _ h).map (fun _ h => h)
  | addNodes nodesToAdd results =>
      refine (answerEach_sound (fun v item h => ?_) results _ h).map (fun _ h => h)
      exact keeps_addNodesSingle (fun fuel s i account descr h => typesBrowse_sound i descr h) host item h
  | others space => exact h

def initial (st : State) : Served Account := ⟨st, ⟨Session.init, []⟩⟩

/-- From the initialisation on, the points that are available and those that are
stored make up the budget, none is read after it was removed, and a browse fails
for want of them only without budget or without memory. -/
theorem continuation_points_budgeted (host : Host) (memory : Nat → Memory) (fuel : Nat)
    (st : State) (calls : List Call) :
    Sound (fun v => v.session.session.availableContinuationPoints.toNat + v.session.session.continuationPoints.length =
        maxContinuationPoints.toNat ∧
      ∀ attempt ∈ v.session.attempts, attempt.statusCode = badNoContinuationPoints →
        attempt.availableContinuationPoints = 0 ∨ attempt.entry = false) (run host memory fuel (initial st) calls) := by
  have hrun : Sound (fun v => Kept v.session) (run host memory fuel (initial st) calls) :=
    sound_foldlM (fun v call h => serve_sound host memory fuel call h) ⟨balanced_init, nofun⟩
  exact hrun.imp (fun v h => ⟨h.balanced.budget, h.attempts⟩)

def samplePage : Call := .browse nullId [⟨numericId 1 1, browseForward, nullId, false, 0, 0⟩] 1 true

def sampleState : State := ⟨samplePair, adminSession, 0, 0, []⟩

/-- Without memory for an entry, no continuation point is to be had although the
whole budget is. -/
theorem unbudgeted_samplePage : ¬ ∀ (host : Host) (memory : Nat → Memory) (fuel : Nat) (st : State) (calls : List Call),
    Sound (fun v => v.session.session.availableContinuationPoints.toNat + v.session.session.continuationPoints.length =
        maxContinuationPoints.toNat ∧
      ∀ attempt ∈ v.session.attempts, attempt.statusCode = badNoContinuationPoints →
        attempt.availableContinuationPoints = 0) (run host memory fuel (initial st) calls) := by
  intro h
  obtain ⟨v, hrun, hattempts⟩ : ∃ v, run sampleHost (fun _ => ⟨true, true, none, true, true⟩) 0 (initial sampleState)
      [samplePage] = .done v ∧ v.session.attempts = [⟨maxContinuationPoints, false, badNoContinuationPoints⟩] :=
    ⟨_, rfl, rfl⟩
  have hsound := h sampleHost (fun _ => ⟨true, true, none, true, true⟩) 0 sampleState [samplePage]
  rw [hrun] at hsound
  have hzero : maxContinuationPoints = 0 := hsound.2 _ (hattempts ▸ List.mem_singleton_self _) rfl
  exact absurd hzero (by decide)

end Runs

end OpcUa.ContinuationPoints
