import OpcUa.Browsing

namespace OpcUa.BrowsePages

open StatusCodes NodeIds DataTypes AddressSpaces SubTypes Browsing Paging Batches

/-- `Service_BrowseNext` is called with the continuation point of the last
result until none is returned. `none` if the calls are used up. -/
def browseRest (fuel : Nat) (s : AddressSpace) : Nat → Continuations → UaString →
    Option (List BrowseResult × Continuations)
  | 0, _, _ => none
  | calls + 1, session, continuationPoint =>
      match browseNext fuel s session false [continuationPoint] with
      | some (⟨_, [r]⟩, session') =>
          if r.continuationPoint = none then some ([r], session')
          else (browseRest fuel s calls session' r.continuationPoint).map (fun p => (r :: p.1, p.2))
      | _ => none

def browsePages (calls fuel : Nat) (s : AddressSpace) (identifier : List UInt8) (session : Continuations)
    (descr : BrowseDescription) (maxrefs : UInt32) : Option (List BrowseResult × Continuations) :=
  match browseSingle fuel s identifier session descr maxrefs with
  | none => none
  | some (r, session') =>
      if r.continuationPoint = none then some ([r], session')
      else (browseRest fuel s calls session' r.continuationPoint).map (fun p => (r :: p.1, p.2))

variable {fuel : Nat} {s : AddressSpace} {descr : BrowseDescription} {relevant : RelevantTypes} {n : Node}
  {identifier : List UInt8} {session : Continuations} {maxrefs k : UInt32}

theorem realMaxrefs_zero {size : Nat} (hsize : size < 2 ^ 32) : (realMaxrefs 0 size).toNat = size := by
  have hcut : (UInt32.ofNat size).toNat = size := UInt32.toNat_ofNat_of_lt' hsize
  simp [realMaxrefs, hcut]

section Continuing

/-- The session with a continuation point of its own in front. -/
def continuing (identifier : List UInt8) (session : Continuations) (descr : BrowseDescription)
    (maxrefs k : UInt32) : Continuations where
  continuationPoints := ⟨identifier, descr, k, maxrefs⟩ :: session.continuationPoints
  availableContinuationPoints := session.availableContinuationPoints - 1

theorem findCp_continuing :
    findCp (continuing identifier session descr maxrefs k) (some identifier) =
      some (⟨identifier, descr, k, maxrefs⟩, 0) := by
  rw [findCp, continuing, List.zipIdx_cons, List.find?_cons_of_pos]
  simp [stringEqual]

theorem removeCp_continuing : removeCp 0 (continuing identifier session descr maxrefs k) = session := by
  simp [removeCp, continuing]

theorem browseNext_continuing :
    browseNext fuel s (continuing identifier session descr maxrefs k) false [some identifier] =
      (browseContinue fuel s (continuing identifier session descr maxrefs k) 0 ⟨identifier, descr, k, maxrefs⟩).map
        (fun r => (⟨good, [r.1]⟩, r.2)) := by
  have hone : browseNextSingle fuel s false (continuing identifier session descr maxrefs k) (some identifier) =
      browseContinue fuel s (continuing identifier session descr maxrefs k) 0 ⟨identifier, descr, k, maxrefs⟩ := by
    rw [browseNextSingle, findCp_continuing]
    rfl
  rw [browseNext, if_neg (by simp)]
  cases hcontinue : browseContinue fuel s (continuing identifier session descr maxrefs k) 0
      ⟨identifier, descr, k, maxrefs⟩ with
  | none =>
      rw [hcontinue] at hone
      rw [batch, hone]
      rfl
  | some r =>
      rw [hcontinue] at hone
      rw [batch_singleton hone]
      rfl

end Continuing

section Pages

def Full (maxrefs : UInt32) (r : BrowseResult) : Prop :=
  r.statusCode = good ∧ (r.continuationPoint ≠ none → r.references.length = maxrefs.toNat)

theorem browseLoop_page (hmax : maxrefs ≠ 0)
    (hlimit : maxrefs.toNat ≤ (n.references.filterMap (describe s descr relevant)).length) (k : UInt32) :
    (browseLoop s descr relevant n maxrefs k).1 = n.references.length ∧
      (browseLoop s descr relevant n maxrefs k).2 = (n.references.filterMap (describe s descr relevant)).drop k.toNat ∨
    (browseLoop s descr relevant n maxrefs k).1 ≠ n.references.length ∧
      (browseLoop s descr relevant n maxrefs k).2.length = maxrefs.toNat ∧
      (browseLoop s descr relevant n maxrefs k).2 =
        ((n.references.filterMap (describe s descr relevant)).drop k.toNat).take maxrefs.toNat := by
  have hfits := hlimit.trans (List.length_filterMap_le _ _)
  rw [browseLoop, realMaxrefs_of_ne hmax, Nat.min_eq_left hfits]
  by_cases hend : (collect (describe s descr relevant) k.toNat maxrefs.toNat n.references 0 0 []).1 =
      n.references.length
  · exact .inl ⟨hend, collect_end hend⟩
  · exact .inr ⟨hend, collect_stopped hend, collect_start ..⟩

variable (hcollect : ∀ maxrefs k, collectReferences fuel s descr maxrefs k =
    some (.collected (browseLoop s descr relevant n maxrefs k).2 (browseLoop s descr relevant n maxrefs k).1
      n.references.length))
  (hsize : n.references.length ≤ mostReferences) (hmax : maxrefs ≠ 0)

include hcollect hsize hmax

theorem browseRest_continuing (identifier : List UInt8) (session : Continuations)
    (hlimit : maxrefs.toNat ≤ (n.references.filterMap (describe s descr relevant)).length)
    (hk : k.toNat ≤ (n.references.filterMap (describe s descr relevant)).length) :
    ∃ calls pages, browseRest fuel s calls (continuing identifier session descr maxrefs k) (some identifier) =
        some (pages, session) ∧
      pages.flatMap (·.references) = (n.references.filterMap (describe s descr relevant)).drop k.toNat ∧
      ∀ r ∈ pages, Full maxrefs r := by
  have hpage := browseLoop_page hmax hlimit
  generalize hvisible : n.references.filterMap (describe s descr relevant) = visible at hlimit hk hpage ⊢
  have hfits : visible.length ≤ n.references.length := by
    rw [← hvisible]
    exact List.length_filterMap_le _ _
  rw [mostReferences] at hsize
  have hpositive : 0 < maxrefs.toNat := Nat.pos_of_ne_zero (fun h => hmax (UInt32.toNat_inj.mp h))
  induction hleft : visible.length - k.toNat using Nat.strong_induction_on generalizing k with
  | _ left ih =>
      specialize hpage k
      generalize hr : browseLoop s descr relevant n maxrefs k = r at hpage
      have hcontinue : browseContinue fuel s (continuing identifier session descr maxrefs k) 0
          ⟨identifier, descr, k, maxrefs⟩ = some (continueCp 0 ⟨identifier, descr, k, maxrefs⟩
            (continuing identifier session descr maxrefs k) r.2 r.1 n.references.length) := by
        rw [browseContinue, hcollect, hr]
        rfl
      rcases hpage with ⟨hend, hall⟩ | ⟨hend, hfull, hpage⟩
      · -- the loop has run to the end of the references
        refine ⟨1, [⟨good, none, r.2⟩], ?_, by simp [hall], by simp [Full]⟩
        rw [browseRest, browseNext_continuing, hcontinue, continueCp, if_pos hend, removeCp_continuing]
        rfl
      · have hroom : k.toNat + maxrefs.toNat ≤ visible.length := by
          have hlength := congrArg List.length hpage
          rw [hfull, List.length_take, List.length_drop] at hlength
          omega
        have hnext : (k + UInt32.ofNat r.2.length).toNat = k.toNat + maxrefs.toNat := by
          rw [hfull, UInt32.ofNat_toNat, UInt32.toNat_add, Nat.mod_eq_of_lt (by omega)]
        obtain ⟨calls, pages, hpages, hflat, hfulls⟩ :=
          ih (visible.length - (k.toNat + maxrefs.toNat)) (by omega) (k := k + UInt32.ofNat r.2.length)
            (by rw [hnext]; exact hroom) (by rw [hnext])
        refine ⟨calls + 1, ⟨good, some identifier, r.2⟩ :: pages, ?_, ?_, ?_⟩
        · have hmoved : continueCp 0 ⟨identifier, descr, k, maxrefs⟩ (continuing identifier session descr maxrefs k)
              r.2 r.1 n.references.length = (⟨good, some identifier, r.2⟩,
                continuing identifier session descr maxrefs (k + UInt32.ofNat r.2.length)) := by
            rw [continueCp, if_neg hend]
            rfl
          rw [browseRest, browseNext_continuing, hcontinue, hmoved]
          simp [hpages]
        · rw [List.flatMap_cons, hflat, hnext]
          dsimp only
          rw [hpage, ← List.drop_drop, List.take_append_drop]
        · intro p hp
          rcases List.mem_cons.mp hp with rfl | hp
          · exact ⟨rfl, fun _ => hfull⟩
          · exact hfulls p hp

theorem browsePages_collected (identifier : List UInt8) (hroom : session.availableContinuationPoints ≠ 0 ∨
      (n.references.filterMap (describe s descr relevant)).length < maxrefs.toNat) :
    ∃ calls pages, browsePages calls fuel s identifier session descr maxrefs = some (pages, session) ∧
      pages.flatMap (·.references) = n.references.filterMap (describe s descr relevant) ∧
      ∀ r ∈ pages, Full maxrefs r := by
  generalize hvisible : n.references.filterMap (describe s descr relevant) = visible at hroom ⊢
  have hfits : visible.length ≤ n.references.length := by
    rw [← hvisible]
    exact List.length_filterMap_le _ _
  have hfirst : browseSingle fuel s identifier session descr maxrefs =
      some (createCp identifier session descr maxrefs (visible.take maxrefs.toNat)) := by
    have hpage : visible.take (min maxrefs.toNat n.references.length) = visible.take maxrefs.toNat := by
      rw [List.take_eq_take_iff]
      omega
    rw [browseSingle, hcollect, browseLoop, realMaxrefs_of_ne hmax, collect_start, hvisible, UInt32.toNat_zero,
      List.drop_zero, hpage]
    rfl
  by_cases hless : visible.length < maxrefs.toNat
  · refine ⟨0, [⟨good, none, visible⟩], ?_, by simp, by simp [Full]⟩
    have hnone : createCp identifier session descr maxrefs visible = (⟨good, none, visible⟩, session) := by
      rw [createCp, if_neg]
      simpa using fun _ => hless
    rw [browsePages, hfirst, List.take_of_length_le hless.le, hnone]
    rfl
  · have hlimit : maxrefs.toNat ≤ visible.length := Nat.not_lt.mp hless
    have hlength : (visible.take maxrefs.toNat).length = maxrefs.toNat := by
      rw [List.length_take, Nat.min_eq_left hlimit]
    have hcreated : createCp identifier session descr maxrefs (visible.take maxrefs.toNat) =
        (⟨good, some identifier, visible.take maxrefs.toNat⟩, continuing identifier session descr maxrefs maxrefs) := by
      have havailable : session.availableContinuationPoints ≠ 0 := hroom.resolve_right hless
      rw [createCp, if_pos (by simp [hmax, hlength]), if_neg (by simpa using havailable), hlength,
        UInt32.ofNat_toNat]
      rfl
    obtain ⟨calls, pages, hpages, hflat, hfulls⟩ :=
      browseRest_continuing hcollect hsize hmax identifier session (k := maxrefs)
        (by rw [hvisible]; exact hlimit) (by rw [hvisible]; exact hlimit)
    refine ⟨calls, ⟨good, some identifier, visible.take maxrefs.toNat⟩ :: pages, ?_, ?_, ?_⟩
    · rw [browsePages, hfirst, hcreated]
      simp [hpages]
    · rw [List.flatMap_cons, hflat, hvisible, List.take_append_drop]
    · intro p hp
      rcases List.mem_cons.mp hp with rfl | hp
      · exact ⟨rfl, fun _ => hlength⟩
      · exact hfulls p hp

end Pages

theorem browseNext_gone (h : ∀ cp ∈ session.continuationPoints, cp.identifier ≠ identifier) :
    browseNext fuel s session false [some identifier] =
      some (⟨good, [⟨badContinuationPointInvalid, none, []⟩]⟩, session) := by
  have hnone : findCp session (some identifier) = none := by
    rw [findCp, List.find?_eq_none]
    intro p hp
    rw [stringEqual_iff]
    exact h p.1 (List.fst_mem_of_mem_zipIdx hp)
  have hone : browseNextSingle fuel s false session (some identifier) =
      some (⟨badContinuationPointInvalid, none, []⟩, session) := by
    rw [browseNextSingle, hnone]
  rw [browseNext, if_neg (by simp), batch_singleton hone]
  rfl

/-- Where the limit matters at all, the pages of a browse are the references of
the browse without a limit, every page with a continuation point is full, and
the session is left as it was. -/
theorem pages_lossless (fuel : Nat) (s : AddressSpace) (identifier : List UInt8) (session : Continuations)
    (descr : BrowseDescription) (maxrefs : UInt32) (hmax : maxrefs ≠ 0)
    (hsize : ∀ n, s.get descr.nodeId = some n → n.references.length ≤ mostReferences) :
    (browseSingle fuel s identifier session descr 0 = none →
        browseSingle fuel s identifier session descr maxrefs = none) ∧
      ∀ whole session₀, browseSingle fuel s identifier session descr 0 = some (whole, session₀) →
        session.availableContinuationPoints ≠ 0 ∨ whole.references.length < maxrefs.toNat →
        ∃ calls pages, browsePages calls fuel s identifier session descr maxrefs = some (pages, session) ∧
          pages.flatMap (·.references) = whole.references ∧
          (∀ r ∈ pages, r.statusCode = whole.statusCode) ∧
          (∀ r ∈ pages, r.continuationPoint ≠ none → r.references.length = maxrefs.toNat) ∧
          ((∀ cp ∈ session.continuationPoints, cp.identifier ≠ identifier) →
            browseNext fuel s session false [some identifier] =
              some (⟨good, [⟨badContinuationPointInvalid, none, []⟩]⟩, session)) := by
  rcases collectReferences_cases fuel s descr with hnone | ⟨status, hstatus⟩ | ⟨n, relevant, hn, hcollect⟩
  · refine ⟨fun _ => by rw [browseSingle, hnone]; rfl, ?_⟩
    intro whole session₀ hwhole
    rw [browseSingle, hnone] at hwhole
    cases hwhole
  · have hboth : ∀ maxrefs, browseSingle fuel s identifier session descr maxrefs =
        some (⟨status, none, []⟩, session) := by
      intro maxrefs
      rw [browseSingle, hstatus]
      rfl
    refine ⟨fun h => absurd ((hboth 0).symm.trans h) (by simp), ?_⟩
    intro whole session₀ hwhole _
    rw [hboth] at hwhole
    cases hwhole
    refine ⟨0, [⟨status, none, []⟩], ?_, rfl, by simp, by simp, browseNext_gone⟩
    rw [browsePages, hboth]
    rfl
  · have hbound : n.references.length ≤ 546133 := hsize n hn
    have hcollect' : ∀ maxrefs k, collectReferences fuel s descr maxrefs k =
        some (.collected (browseLoop s descr relevant n maxrefs k).2 (browseLoop s descr relevant n maxrefs k).1
          n.references.length) := by
      intro maxrefs k
      rw [hcollect, exceedsArray_of_few hbound, if_neg Bool.false_ne_true]
    have hunlimited : browseSingle fuel s identifier session descr 0 =
        some (⟨good, none, n.references.filterMap (describe s descr relevant)⟩, session) := by
      have hpage : (n.references.filterMap (describe s descr relevant)).take n.references.length =
          n.references.filterMap (describe s descr relevant) :=
        List.take_of_length_le (List.length_filterMap_le _ _)
      rw [browseSingle, hcollect', browseLoop, realMaxrefs_zero (by omega), collect_start, UInt32.toNat_zero,
        List.drop_zero, hpage]
      rfl
    refine ⟨fun h => absurd (hunlimited.symm.trans h) (by simp), ?_⟩
    intro whole session₀ hwhole hroom
    rw [hunlimited] at hwhole
    cases hwhole
    obtain ⟨calls, pages, hpages, hflat, hfulls⟩ :=
      browsePages_collected hcollect' hbound hmax identifier hroom
    exact ⟨calls, pages, hpages, hflat, fun r hr => (hfulls r hr).1, fun r hr => (hfulls r hr).2, browseNext_gone⟩

def sampleBrowse : BrowseDescription := ⟨numericId 1 1, browseBoth, nullId, false, 0, 0⟩

def sampleIdentifier : List UInt8 := List.replicate 16 7

def sampleDescription (target : NodeId) : ReferenceDescription :=
  ⟨nullId, false, ⟨target, none, 0⟩, ⟨0, none⟩, ⟨none, none⟩, 0, nullExpandedNodeId⟩

theorem pages_lossless_samplePair :
    ∃ calls pages, browsePages calls 0 samplePair sampleIdentifier ⟨[], 5⟩ sampleBrowse 1 = some (pages, ⟨[], 5⟩) ∧
      pages.flatMap (·.references) = [sampleDescription (numericId 1 2), sampleDescription (numericId 1 3)] := by
  have hsize : ∀ n, samplePair.get sampleBrowse.nodeId = some n → n.references.length ≤ mostReferences := by
    intro n hn
    obtain rfl := Option.some.inj hn
    decide
  have hpages := (pages_lossless 0 samplePair sampleIdentifier ⟨[], 5⟩ sampleBrowse 1 (by decide) hsize).2
  obtain ⟨calls, pages, hpages, hflat, _⟩ := hpages
    ⟨good, none, [sampleDescription (numericId 1 2), sampleDescription (numericId 1 3)]⟩ ⟨[], 5⟩ rfl (.inl (by decide))
  exact ⟨calls, pages, hpages, hflat⟩

/-- One reference more than fit into an array. -/
def crowdedFolder : AddressSpace := sampleFolder (List.replicate 546134 (organizes (numericId 1 2)))

theorem collect_sampleFolder {references : List ReferenceNode} (h : references.length ≠ 0) (maxrefs : UInt32) :
    collectReferences 0 (sampleFolder references) sampleBrowse maxrefs 0 =
      if exceedsArray (realMaxrefs maxrefs references.length) then some (.returned badOutOfMemory)
      else
        let r := browseLoop (sampleFolder references) sampleBrowse none (plainObject (numericId 1 1) references)
          maxrefs 0
        some (.collected r.2 r.1 references.length) :=
  if_neg h

/-- Without a continuation point at hand the second reference is never
delivered. A browse without a limit is refused where the references of the node
do not fit into an array, while one with a limit delivers the first of them. -/
theorem pages_lossy :
    browsePages 2 0 samplePair sampleIdentifier ⟨[], 0⟩ sampleBrowse 1 =
        some ([⟨badNoContinuationPoints, none, [sampleDescription (numericId 1 2)]⟩], ⟨[], 0⟩) ∧
      browseSingle 0 samplePair sampleIdentifier ⟨[], 0⟩ sampleBrowse 0 = some (⟨good, none,
        [sampleDescription (numericId 1 2), sampleDescription (numericId 1 3)]⟩, ⟨[], 0⟩) ∧
      browseSingle 0 crowdedFolder sampleIdentifier ⟨[], 5⟩ sampleBrowse 0 =
        some (⟨badOutOfMemory, none, []⟩, ⟨[], 5⟩) ∧
      (browseSingle 0 crowdedFolder sampleIdentifier ⟨[], 5⟩ sampleBrowse 1).map (·.1.references) =
        some [sampleDescription (numericId 1 2)] := by
  have hlength : (List.replicate 546134 (organizes (numericId 1 2))).length = 546134 := List.length_replicate
  have hcrowded : (List.replicate 546134 (organizes (numericId 1 2))).length ≠ 0 := by
    rw [hlength]
    decide
  refine ⟨rfl, rfl, ?_, ?_⟩
  · have hlarge : exceedsArray (realMaxrefs 0 546134) = true := by decide
    rw [browseSingle, crowdedFolder, collect_sampleFolder hcrowded, hlength, hlarge, if_pos rfl]
    rfl
  · have hsmall : exceedsArray (realMaxrefs 1 546134) = false := by decide
    have hfirst : List.replicate 546134 (organizes (numericId 1 2)) =
        organizes (numericId 1 2) :: List.replicate 546133 (organizes (numericId 1 2)) := List.replicate_succ
    have hdescribed : ∀ references, describe (sampleFolder references) sampleBrowse none (organizes (numericId 1 2)) =
        some (sampleDescription (numericId 1 2)) := fun _ => rfl
    rw [browseSingle, crowdedFolder, collect_sampleFolder hcrowded, hlength, hsmall, if_neg Bool.false_ne_true]
    simp only [Option.map_some, createCp_references, browseLoop, collect_start]
    change some (List.take (realMaxrefs 1 (List.replicate 546134 (organizes (numericId 1 2))).length).toNat
      (List.drop 0 ((List.replicate 546134 (organizes (numericId 1 2))).filterMap _))) = _
    rw [hlength, realMaxrefs_of_ne (by decide), List.drop_zero, hfirst, List.filterMap_cons_some (hdescribed _)]
    rfl

end OpcUa.BrowsePages
