import OpcUa.NodeStoreGrowth

namespace OpcUa.OptimisticReplace

open StatusCodes NodeIds OpenAddressing NodeStores NodeStoreGrowth

/-- What an editor keeps of the node that it got: its address, and the version
that was stored there. -/
structure Fetched where
  node : NodePtr
  version : Nat
deriving DecidableEq

/-- A call of `UA_NodeStore_replace`: the version that the editor started from,
the version stored under the id when the call is made, and the answer. -/
structure Attempt where
  base : Nat
  current : Option Nat
  status : StatusCode
deriving DecidableEq

variable {ι α : Type}

/-- A node together with the number of the call that stored it. The store
copies the content as it is and never looks at it. -/
abbrev Versioned (α : Type) := Node (α × Nat)

def stamped (clock : Nat) (node : Node α) : Versioned α :=
  ⟨node.nodeId, node.nodeClass, node.content, clock⟩

inductive Step (ι α : Type)
  | get (editor : ι) (id : NodeId)
  | replace (editor : ι) (node : Node α)
  | insert (mem : Option Nat) (node : Node α)
  | remove (mem : Option Nat) (id : NodeId)

structure State (ι α : Type) where
  store : NodeStore (α × Nat)
  clock : Nat
  fetched : ι → Option Fetched
  attempts : List Attempt

def initial (ι α : Type) (block : Nat) : State ι α := ⟨new block, 0, fun _ => none, []⟩

/-- `UA_NodeStore_get`, with the pointer that it returns. -/
def fetch (ns : NodeStore (α × Nat)) (id : NodeId) : Option (Option Fetched) :=
  match containsNodeId ns id with
  | none => none
  | some (false, _) => some none
  | some (true, i) => some ((slot ns.entries i).map (fun e => ⟨⟨ns.block, i⟩, e.content.2⟩))

def storedVersion (ns : NodeStore (α × Nat)) (id : NodeId) : Option Nat :=
  match containsNodeId ns id with
  | some (true, i) => (slot ns.entries i).map (fun e => e.content.2)
  | _ => none

section Steps

variable [DecidableEq ι]

/-- One call, whole. A replace takes the pointer of the editor's last get,
which is not used again. -/
def step (s : State ι α) : Step ι α → Option (State ι α)
  | .get editor id =>
      (fetch s.store id).map fun f => { s with fetched := Function.update s.fetched editor f }
  | .replace editor node =>
      match s.fetched editor with
      | none => some s
      | some f =>
          (NodeStores.replace s.store f.node (stamped s.clock node)).map fun o =>
            { store := o.store, clock := s.clock + 1
              fetched := Function.update s.fetched editor none
              attempts := s.attempts ++ [⟨f.version, storedVersion s.store node.nodeId, o.status⟩] }
  | .insert mem node =>
      (NodeStores.insert mem s.store (stamped s.clock node)).map fun o =>
        { s with store := o.store, clock := s.clock + 1 }
  | .remove mem id => (NodeStores.remove mem s.store id).map fun o => { s with store := o.store }

def run : State ι α → List (Step ι α) → Option (State ι α)
  | s, [] => some s
  | s, x :: steps => (step s x).bind (run · steps)

/-- The search for the node's id ends in the slot that the editor fetched, and
the slot has been filled again since. -/
def reusesSlot (s : State ι α) : Step ι α → Bool
  | .replace editor node =>
      match s.fetched editor, containsNodeId s.store node.nodeId with
      | some f, some (true, i) =>
          decide (f.node = ⟨s.store.block, i⟩) &&
            decide ((slot s.store.entries i).map (fun e => e.content.2) ≠ some f.version)
      | _, _ => false
  | _ => false

def neverReuses : State ι α → List (Step ι α) → Bool
  | _, [] => true
  | s, x :: steps => !reusesSlot s x && match step s x with
      | none => true
      | some s' => neverReuses s' steps

end Steps

/-- The contract: what is replaced is the version that the editor started
from, so that of two replaces of one version at most one succeeds. -/
structure ComparesAndSwaps (attempts : List Attempt) : Prop where
  current : ∀ a ∈ attempts, a.status = good → a.current = some a.base
  once : ((attempts.filter (fun a => a.status = good)).map Attempt.base).Nodup

section Contents

variable {β : Type} {ns ns' : NodeStore β}

theorem contents_set_subperm (table : List (Option (Node β))) (s : Nat) (e : Node β) :
    (contents (table.set s (some e))).Subperm (e :: contents table) := by
  by_cases hs : s < table.length
  · exact (List.sublist_append_right _ _).subperm.trans (contents_set hs (some e)).subperm
  · rw [List.set_eq_of_length_le (Nat.le_of_not_lt hs)]
    exact (List.sublist_cons_self _ _).subperm

theorem contents_vacate_subperm (table : List (Option (Node β))) (s : Nat) :
    (contents (table.set s none)).Subperm (contents table) := by
  by_cases hs : s < table.length
  · exact (List.sublist_append_right _ _).subperm.trans (contents_set hs none).subperm
  · rw [List.set_eq_of_length_le (Nat.le_of_not_lt hs)]

theorem refill_subperm {count : Nat} (rest : List (Option (Node β))) (j : Nat) (ns : NodeStore β)
    (hrun : refill count rest j ns = some ns') :
    (contents ns'.entries).Subperm (contents rest ++ contents ns.entries) := by
  induction rest generalizing j ns with
  | nil =>
      cases hrun
      exact List.Subperm.refl _
  | cons x rest ih =>
      cases x with
      | none =>
          rw [refill] at hrun
          split at hrun
          · exact ih j ns hrun
          · cases hrun
            exact (List.sublist_append_right _ _).subperm
      | some e =>
          rw [refill] at hrun
          split at hrun
          · split at hrun
            · cases hrun
            · next found s hfind =>
                have hfill := contents_set_subperm ns.entries s e
                have hrest := ih (j + 1) (fillEntry ns s e) hrun
                have hmid : (contents rest ++ e :: contents ns.entries).Subperm
                    (contents (some e :: rest) ++ contents ns.entries) := List.perm_middle.subperm
                exact (hrest.trans ((List.subperm_append_left _).mpr hfill)).trans hmid
          · cases hrun
            exact (List.sublist_append_right _ _).subperm

theorem expand_subperm {mem : Option Nat} {status : StatusCode}
    (hrun : expand mem ns = some (status, ns')) :
    (contents ns'.entries).Subperm (contents ns.entries) := by
  rw [expand] at hrun
  split at hrun
  · cases hrun
    exact List.Subperm.refl _
  · dsimp only at hrun
    split at hrun
    · cases hrun
      exact List.Subperm.refl _
    · split at hrun
      · cases hrun
      · next hrefill =>
          cases hrun
          have h := refill_subperm _ _ _ hrefill
          rwa [contents_replicate, List.append_nil] at h

theorem insertEntry_subperm {node : Node β} {o : Outcome β} (hrun : insertEntry ns node = some o) :
    ∃ id, (contents o.store.entries).Subperm ({ node with nodeId := id } :: contents ns.entries) := by
  rw [insertEntry] at hrun
  split at hrun
  · dsimp only at hrun
    split at hrun
    · cases hrun
    · cases hrun
      exact ⟨_, contents_set_subperm _ _ _⟩
  · split at hrun
    · cases hrun
    · cases hrun
      exact ⟨node.nodeId, (List.sublist_cons_self _ _).subperm⟩
    · cases hrun
      exact ⟨node.nodeId, contents_set_subperm _ _ _⟩

theorem insert_subperm {mem : Option Nat} {node : Node β} {o : Outcome β}
    (hrun : NodeStores.insert mem ns node = some o) :
    ∃ id, (contents o.store.entries).Subperm ({ node with nodeId := id } :: contents ns.entries) := by
  have hcons (id : NodeId) : (contents ns.entries).Subperm
      ({ node with nodeId := id } :: contents ns.entries) := (List.sublist_cons_self _ _).subperm
  rw [NodeStores.insert] at hrun
  split at hrun
  · split at hrun
    · cases hrun
    · next hexp =>
        have hsub := expand_subperm hexp
        split at hrun
        · obtain ⟨id, hid⟩ := insertEntry_subperm hrun
          exact ⟨id, hid.trans ((List.subperm_cons _).mpr hsub)⟩
        · cases hrun
          exact ⟨node.nodeId, hsub.trans (hcons _)⟩
  · exact insertEntry_subperm hrun

theorem remove_subperm {mem : Option Nat} {id : NodeId} {o : Outcome β}
    (hrun : NodeStores.remove mem ns id = some o) :
    (contents o.store.entries).Subperm (contents ns.entries) := by
  rw [NodeStores.remove] at hrun
  split at hrun
  · cases hrun
  · cases hrun
    exact List.Subperm.refl _
  · next s _ =>
      have hvacate := contents_vacate_subperm ns.entries s
      rw [downsize] at hrun
      split at hrun
      · split at hrun
        · cases hrun
        · next hexp =>
            cases hrun
            exact (expand_subperm hexp).trans hvacate
      · cases hrun
        exact hvacate

/-- A replace succeeds exactly if the search ends in the given slot, whatever
is stored there. -/
theorem replace_cases {oldNode : NodePtr} {node : Node β} {o : Outcome β}
    (hrun : NodeStores.replace ns oldNode node = some o) :
    (o.status ≠ good ∧ o.store = ns ∧
      ∀ i, containsNodeId ns node.nodeId = some (true, i) → oldNode ≠ ⟨ns.block, i⟩) ∨
    ∃ i e, o.status = good ∧ containsNodeId ns node.nodeId = some (true, i) ∧
      oldNode = ⟨ns.block, i⟩ ∧ slot ns.entries i = some e ∧
      (e :: contents o.store.entries).Perm (node :: contents ns.entries) := by
  rw [NodeStores.replace] at hrun
  split at hrun
  · cases hrun
  · next hfind =>
      cases hrun
      refine Or.inl ⟨fun h => absurd (show badNodeIdUnknown = good from h) (by decide), rfl, ?_⟩
      intro i hi
      rw [hfind] at hi
      cases hi
  · next i hfind =>
      split at hrun
      · next hne =>
          cases hrun
          refine Or.inl ⟨fun h => absurd (show badInternalError = good from h) (by decide), rfl, ?_⟩
          intro j hj heq
          rw [hfind] at hj
          cases hj
          exact hne heq.symm
      · next heq =>
          cases hrun
          obtain ⟨_, e, hslot, _⟩ | ⟨hfalse, _⟩ := containsNodeId_sound hfind
          · refine Or.inr ⟨i, e, rfl, hfind, (not_not.mp heq).symm, hslot, ?_⟩
            have hset := contents_set (lt_length_of_slot hslot) (some node)
            rw [hslot] at hset
            simpa [fillEntry, deleteEntry] using hset
          · cases hfalse

end Contents

section Runs

variable {s s' : State ι α}

def versions (ns : NodeStore (α × Nat)) : List Nat :=
  (contents ns.entries).map (fun e => e.content.2)

/-- Every stored version is there once, and a version that was replaced never
comes back. -/
structure Inv (s : State ι α) : Prop where
  distinct : (versions s.store).Nodup
  old : ∀ v ∈ versions s.store, v < s.clock
  gone : ∀ a ∈ s.attempts, a.status = good → a.base < s.clock ∧ a.base ∉ versions s.store
  swaps : ComparesAndSwaps s.attempts

theorem nodup_of_subperm {l₁ l₂ : List Nat} (h : l₁.Subperm l₂) (hn : l₂.Nodup) : l₁.Nodup := by
  obtain ⟨l, hperm, hsub⟩ := h
  exact hperm.nodup_iff.mp (hn.sublist hsub)

theorem versions_subperm {l₁ l₂ : List (Node (α × Nat))} (h : l₁.Subperm l₂) :
    (l₁.map (fun e => e.content.2)).Subperm (l₂.map (fun e => e.content.2)) := by
  obtain ⟨l, hperm, hsub⟩ := h
  exact ⟨_, hperm.map _, hsub.map _⟩

theorem inv_initial (block : Nat) : Inv (initial ι α block) := by
  have hnone : versions (initial ι α block).store = [] := by
    simp [versions, initial, new, contents_replicate]
  refine ⟨?_, ?_, ?_, ?_, ?_⟩
  · rw [hnone]
    exact List.nodup_nil
  · rw [hnone]
    simp
  · simp [initial]
  · simp [initial]
  · simp [initial]

theorem Inv.fill (h : Inv s) {store : NodeStore (α × Nat)} {f : ι → Option Fetched}
    (hsub : (versions store).Subperm (s.clock :: versions s.store)) :
    Inv ⟨store, s.clock + 1, f, s.attempts⟩ := by
  have hnew : (s.clock :: versions s.store).Nodup := by
    refine List.nodup_cons.mpr ⟨?_, h.distinct⟩
    intro hmem
    exact absurd (h.old _ hmem) (Nat.lt_irrefl _)
  refine ⟨nodup_of_subperm hsub hnew, ?_, ?_, h.swaps⟩
  · intro v hv
    rcases List.mem_cons.mp (hsub.subset hv) with rfl | hmem
    · exact Nat.lt_succ_self _
    · exact (h.old v hmem).trans (Nat.lt_succ_self _)
  · intro a ha hgood
    obtain ⟨hlt, hnot⟩ := h.gone a ha hgood
    refine ⟨hlt.trans (Nat.lt_succ_self _), ?_⟩
    intro hmem
    rcases List.mem_cons.mp (hsub.subset hmem) with heq | hold
    · exact absurd heq hlt.ne
    · exact hnot hold

theorem Inv.shrink (h : Inv s) {store : NodeStore (α × Nat)} {f : ι → Option Fetched}
    (hsub : (versions store).Subperm (versions s.store)) :
    Inv ⟨store, s.clock, f, s.attempts⟩ := by
  refine ⟨nodup_of_subperm hsub h.distinct, ?_, ?_, h.swaps⟩
  · intro v hv
    exact h.old v (hsub.subset hv)
  · intro a ha hgood
    obtain ⟨hlt, hnot⟩ := h.gone a ha hgood
    exact ⟨hlt, fun hmem => hnot (hsub.subset hmem)⟩

theorem swaps_append_failed {attempts : List Attempt} (h : ComparesAndSwaps attempts) {a : Attempt}
    (ha : a.status ≠ good) : ComparesAndSwaps (attempts ++ [a]) := by
  refine ⟨?_, ?_⟩
  · intro b hb hgood
    rcases List.mem_append.mp hb with hold | hnew
    · exact h.current b hold hgood
    · rw [List.mem_singleton.mp hnew] at hgood
      exact absurd hgood ha
  · simpa [List.filter_append, ha] using h.once

theorem swaps_append_good {attempts : List Attempt} (h : ComparesAndSwaps attempts) {a : Attempt}
    (hcur : a.current = some a.base)
    (hfirst : ∀ b ∈ attempts, b.status = good → b.base ≠ a.base) :
    ComparesAndSwaps (attempts ++ [a]) := by
  refine ⟨?_, ?_⟩
  · intro b hb hgood
    rcases List.mem_append.mp hb with hold | hnew
    · exact h.current b hold hgood
    · rw [List.mem_singleton.mp hnew]
      exact hcur
  · by_cases hgood : a.status = good
    · simp only [List.filter_append, List.filter_cons, hgood, decide_true, if_true, List.filter_nil,
        List.map_append, List.map_cons, List.map_nil]
      refine List.Nodup.append h.once (List.nodup_singleton _) ?_
      intro v hv hmem
      obtain ⟨b, hb, rfl⟩ := List.mem_map.mp hv
      obtain ⟨hbmem, hbgood⟩ := List.mem_filter.mp hb
      exact hfirst b hbmem (by simpa using hbgood) (List.mem_singleton.mp hmem)
    · simpa [List.filter_append, hgood] using h.once

variable [DecidableEq ι]

theorem inv_replace (h : Inv s) {editor : ι} {node : Node α}
    (hkeep : reusesSlot s (.replace editor node) = false)
    (hrun : step s (.replace editor node) = some s') : Inv s' := by
  rw [step] at hrun
  cases hf : s.fetched editor with
  | none =>
      rw [hf] at hrun
      cases hrun
      exact h
  | some f =>
      simp only [hf, Option.map_eq_some_iff] at hrun
      obtain ⟨o, hreplace, rfl⟩ := hrun
      rcases replace_cases hreplace with ⟨hbad, hsame, _⟩ | ⟨i, e, hgood, hfind, hptr, hslot, hperm⟩
      · refine ⟨?_, ?_, ?_, swaps_append_failed h.swaps hbad⟩
        · rw [hsame]
          exact h.distinct
        · intro v hv
          rw [hsame] at hv
          exact (h.old v hv).trans (Nat.lt_succ_self _)
        · intro a ha hagood
          rcases List.mem_append.mp ha with hold | hnew
          · obtain ⟨hlt, hnot⟩ := h.gone a hold hagood
            rw [hsame]
            exact ⟨hlt.trans (Nat.lt_succ_self _), hnot⟩
          · rw [List.mem_singleton.mp hnew] at hagood
            exact absurd hagood hbad
      · have hfind' : containsNodeId s.store node.nodeId = some (true, i) := hfind
        have hversion : f.version = e.content.2 := by
          simp only [reusesSlot, hf, hfind', hptr, hslot, Option.map_some, decide_true, Bool.true_and,
            decide_eq_false_iff_not, not_not, Option.some.injEq] at hkeep
          exact hkeep.symm
        have hmem : e ∈ contents s.store.entries := mem_contents.mpr ⟨i, hslot⟩
        have hswap : (f.version :: versions o.store).Perm (s.clock :: versions s.store) := by
          have hmap := hperm.map (fun e => e.content.2)
          simpa [versions, hversion, stamped] using hmap
        have hfilled := h.fill (f := Function.update s.fetched editor none)
          (List.sublist_cons_self f.version _ |>.subperm.trans hswap.subperm)
        have hbase : f.version ∈ versions s.store := by
          rw [hversion]
          exact List.mem_map_of_mem hmem
        have hout : f.version ∉ versions o.store := by
          have hnew : (s.clock :: versions s.store).Nodup := by
            refine List.nodup_cons.mpr ⟨?_, h.distinct⟩
            intro hc
            exact absurd (h.old _ hc) (Nat.lt_irrefl _)
          exact (List.nodup_cons.mp (hswap.nodup_iff.mpr hnew)).1
        refine ⟨hfilled.distinct, hfilled.old, ?_, ?_⟩
        · intro a ha hagood
          rcases List.mem_append.mp ha with hold | hnew
          · exact hfilled.gone a hold hagood
          · rw [List.mem_singleton.mp hnew]
            exact ⟨(h.old _ hbase).trans (Nat.lt_succ_self _), hout⟩
        · refine swaps_append_good h.swaps ?_ ?_
          · simp only [storedVersion, hfind', hslot, Option.map_some, hversion]
          · intro b hb hbgood heq
            exact (h.gone b hb hbgood).2 (heq ▸ hbase)

theorem inv_step (h : Inv s) {x : Step ι α} (hkeep : reusesSlot s x = false)
    (hrun : step s x = some s') : Inv s' := by
  cases x with
  | get editor id =>
      obtain ⟨f, _, rfl⟩ := Option.map_eq_some_iff.mp hrun
      exact ⟨h.distinct, h.old, h.gone, h.swaps⟩
  | replace editor node => exact inv_replace h hkeep hrun
  | insert mem node =>
      obtain ⟨o, hinsert, rfl⟩ := Option.map_eq_some_iff.mp hrun
      obtain ⟨id, hsub⟩ := insert_subperm hinsert
      exact h.fill (versions_subperm hsub)
  | remove mem id =>
      obtain ⟨o, hremove, rfl⟩ := Option.map_eq_some_iff.mp hrun
      exact h.shrink (versions_subperm (remove_subperm hremove))

theorem inv_run (steps : List (Step ι α)) (h : Inv s) (hkeep : neverReuses s steps = true)
    (hrun : run s steps = some s') : Inv s' := by
  induction steps generalizing s with
  | nil =>
      cases hrun
      exact h
  | cons x steps ih =>
      obtain ⟨s₁, hstep, hrest⟩ := Option.bind_eq_some_iff.mp hrun
      rw [neverReuses, hstep] at hkeep
      simp only [Bool.and_eq_true, Bool.not_eq_true'] at hkeep
      exact ih (inv_step h hkeep.1 hstep) hkeep.2 hrest

theorem attempts_prefix_step {x : Step ι α} (hrun : step s x = some s') :
    s.attempts <+: s'.attempts := by
  cases x with
  | get editor id =>
      obtain ⟨f, _, rfl⟩ := Option.map_eq_some_iff.mp hrun
      exact List.prefix_rfl
  | replace editor node =>
      rw [step] at hrun
      cases hf : s.fetched editor with
      | none =>
          rw [hf] at hrun
          cases hrun
          exact List.prefix_rfl
      | some f =>
          simp only [hf, Option.map_eq_some_iff] at hrun
          obtain ⟨o, _, rfl⟩ := hrun
          exact List.prefix_append _ _
  | insert mem node =>
      obtain ⟨o, _, rfl⟩ := Option.map_eq_some_iff.mp hrun
      exact List.prefix_rfl
  | remove mem id =>
      obtain ⟨o, _, rfl⟩ := Option.map_eq_some_iff.mp hrun
      exact List.prefix_rfl

theorem attempts_prefix_run (steps : List (Step ι α)) (hrun : run s steps = some s') :
    s.attempts <+: s'.attempts := by
  induction steps generalizing s with
  | nil =>
      cases hrun
      exact List.prefix_rfl
  | cons x steps ih =>
      obtain ⟨s₁, hstep, hrest⟩ := Option.bind_eq_some_iff.mp hrun
      exact (attempts_prefix_step hstep).trans (ih hrest)

/-- A replace through a slot that was filled again succeeds on a version that
its editor never saw. -/
theorem stale_attempt {x : Step ι α} (hreuse : reusesSlot s x = true) (hrun : step s x = some s') :
    ∃ a ∈ s'.attempts, a.status = good ∧ a.current ≠ some a.base := by
  cases x with
  | get editor id => simp [reusesSlot] at hreuse
  | insert mem node => simp [reusesSlot] at hreuse
  | remove mem id => simp [reusesSlot] at hreuse
  | replace editor node =>
      rw [step] at hrun
      cases hf : s.fetched editor with
      | none => simp [reusesSlot, hf] at hreuse
      | some f =>
          simp only [hf, Option.map_eq_some_iff] at hrun
          obtain ⟨o, hreplace, rfl⟩ := hrun
          cases hfind : containsNodeId s.store node.nodeId with
          | none => simp [reusesSlot, hf, hfind] at hreuse
          | some r =>
              obtain ⟨found, i⟩ := r
              cases found with
              | false => simp [reusesSlot, hf, hfind] at hreuse
              | true =>
                  simp only [reusesSlot, hf, hfind, Bool.and_eq_true, decide_eq_true_eq] at hreuse
                  obtain ⟨hptr, hver⟩ := hreuse
                  refine ⟨_, List.mem_append_right _ (List.mem_singleton_self _), ?_, ?_⟩
                  · rcases replace_cases hreplace with ⟨_, _, hne⟩ | ⟨_, _, hgood, _⟩
                    · exact absurd hptr (hne i hfind)
                    · exact hgood
                  · simpa only [storedVersion, hfind] using hver

theorem neverReuses_of_swaps (steps : List (Step ι α)) (hrun : run s steps = some s')
    (h : ComparesAndSwaps s'.attempts) : neverReuses s steps = true := by
  induction steps generalizing s with
  | nil => rfl
  | cons x steps ih =>
      obtain ⟨s₁, hstep, hrest⟩ := Option.bind_eq_some_iff.mp hrun
      rw [neverReuses, hstep]
      simp only [Bool.and_eq_true, Bool.not_eq_true']
      refine ⟨?_, ih hrest⟩
      by_contra hreuse
      obtain ⟨a, ha, hgood, hcur⟩ := stale_attempt (by simpa using hreuse) hstep
      exact hcur (h.current a ((attempts_prefix_run steps hrest).subset ha) hgood)

/-- In every interleaving of the editors and of other calls, replacing is a
compare-and-swap exactly if no replace goes through a slot that was filled
again since it was fetched. -/
theorem replace_comparesAndSwaps_iff (block : Nat) (steps : List (Step ι α))
    (hrun : run (initial ι α block) steps = some s) :
    ComparesAndSwaps s.attempts ↔ neverReuses (initial ι α block) steps = true := by
  constructor
  · exact neverReuses_of_swaps steps hrun
  · intro hkeep
    exact (inv_run steps (inv_initial block) hkeep hrun).swaps

end Runs

def edited (n : Nat) : Node Nat := ⟨numericId 1 1, .object, n⟩

def turns : List (Step Bool Nat) :=
  [.insert none (edited 0), .get false (numericId 1 1), .replace false (edited 1),
   .get true (numericId 1 1), .replace true (edited 2)]

theorem replace_comparesAndSwaps_turns : ∃ s, run (initial Bool Nat 0) turns = some s ∧
    s.attempts = [⟨0, some 0, good⟩, ⟨1, some 1, good⟩] ∧ ComparesAndSwaps s.attempts := by
  have hsome : (run (initial Bool Nat 0) turns).map State.attempts =
      some [⟨0, some 0, good⟩, ⟨1, some 1, good⟩] := by decide +kernel
  obtain ⟨s, hrun, hattempts⟩ := Option.map_eq_some_iff.mp hsome
  exact ⟨s, hrun, hattempts, (replace_comparesAndSwaps_iff 0 turns hrun).mpr (by decide +kernel)⟩

/-- Both editors get the node before either replaces it. -/
def overlap : List (Step Bool Nat) :=
  [.insert none (edited 0), .get false (numericId 1 1), .get true (numericId 1 1),
   .replace false (edited 1), .replace true (edited 2)]

theorem attempts_overlap : (run (initial Bool Nat 0) overlap).map State.attempts =
    some [⟨0, some 0, good⟩, ⟨0, some 1, good⟩] := by
  decide +kernel

/-- The second editor overwrites the first one's version without seeing it. -/
theorem replace_loses_update : ¬ ∀ (steps : List (Step Bool Nat)) (s : State Bool Nat),
    run (initial Bool Nat 0) steps = some s → ComparesAndSwaps s.attempts := by
  intro h
  obtain ⟨s, hrun, hattempts⟩ := Option.map_eq_some_iff.mp attempts_overlap
  have hswaps := h overlap s hrun
  rw [hattempts] at hswaps
  have hcur := hswaps.current ⟨0, some 1, good⟩ (by simp) rfl
  simp at hcur

end OpcUa.OptimisticReplace
