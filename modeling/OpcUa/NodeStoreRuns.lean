import OpcUa.NodeStoreResize
import OpcUa.NodeMaps

namespace OpcUa.NodeStoreRuns

open StatusCodes NodeIds OpenAddressing NodeStores NodeStoreSizes NodeStoreResize NodeMaps

section Steps

variable {α : Type} {ns ns' : NodeStore α} {m : NodeMap α}

theorem Represents.perm (h : Represents ns m)
    (hperm : (contents ns'.entries).Perm (contents ns.entries)) : Represents ns' m := by
  intro id n
  rw [h id n, hperm.mem_iff]

theorem Represents.update (h : Represents ns m) {node : Node α}
    (hnew : ∀ e ∈ contents ns.entries, sameNode e node = false)
    (hperm : (contents ns'.entries).Perm (node :: contents ns.entries)) :
    Represents ns' (update m node) := by
  intro id n
  rw [hperm.mem_iff, List.mem_cons, NodeMaps.update]
  by_cases hid : nodeIdEqual node.nodeId id = true
  · rw [if_pos hid, Option.some_inj]
    constructor
    · rintro rfl
      exact ⟨Or.inl rfl, hid⟩
    · rintro ⟨rfl | hmem, heq⟩
      · rfl
      · have hsame := hnew n hmem
        rw [sameNode, nodeIdEqual_congr_right hid, heq] at hsame
        cases hsame
  · rw [if_neg hid, h id n]
    constructor
    · rintro ⟨hmem, heq⟩
      exact ⟨Or.inr hmem, heq⟩
    · rintro ⟨rfl | hmem, heq⟩
      · exact absurd heq hid
      · exact ⟨hmem, heq⟩

theorem Represents.erase (h : Represents ns m) {e : Node α} {key : NodeId}
    (hkey : nodeIdEqual e.nodeId key = true)
    (hpair : (e :: contents ns'.entries).Pairwise (fun a b => sameNode a b = false))
    (hperm : (contents ns.entries).Perm (e :: contents ns'.entries)) :
    Represents ns' (erase m key) := by
  intro id n
  rw [NodeMaps.erase]
  have hkeys : nodeIdEqual e.nodeId id = nodeIdEqual key id := by
    rw [nodeIdEqual_comm, nodeIdEqual_congr_right hkey, nodeIdEqual_comm]
  by_cases hid : nodeIdEqual key id = true
  · rw [if_pos hid]
    constructor
    · intro hn
      cases hn
    · rintro ⟨hmem, heq⟩
      have hsame := (List.pairwise_cons.mp hpair).1 n hmem
      rw [sameNode, nodeIdEqual_congr_right heq, hkeys, hid] at hsame
      cases hsame
  · rw [if_neg hid, h id n, hperm.mem_iff, List.mem_cons]
    constructor
    · rintro ⟨rfl | hmem, heq⟩
      · rw [hkeys] at heq
        exact absurd heq hid
      · exact ⟨hmem, heq⟩
    · rintro ⟨hmem, heq⟩
      exact ⟨Or.inr hmem, heq⟩

theorem Represents.none_iff (h : Represents ns m) {id : NodeId} :
    m id = none ↔ ∀ e ∈ contents ns.entries, nodeIdEqual e.nodeId id = false := by
  rw [Option.eq_none_iff_forall_ne_some]
  constructor
  · intro hnone e he
    by_contra heq
    exact hnone e ((h id e).mpr ⟨he, by simpa using heq⟩)
  · intro hall e he
    obtain ⟨hmem, heq⟩ := (h id e).mp he
    rw [hall e hmem] at heq
    cases heq

theorem fresh_of_contents {entries : List (Option (Node α))} {node : Node α}
    (h : ∀ e ∈ contents entries, sameNode e node = false) : Fresh entries node :=
  fun s e hs => h e (mem_contents.mpr ⟨s, hs⟩)

theorem search_cases (hw : Wf ns) (hr : Represents ns m) (id : NodeId)
    (hhash : ∀ e ∈ contents ns.entries, nodeIdEqual e.nodeId id = true → hash e.nodeId = hash id) :
    (m id = none ∧ ∃ s, containsNodeId ns id = some (false, s)) ∨
      ∃ s e, m id = some e ∧ slot ns.entries s = some e ∧ nodeIdEqual e.nodeId id = true ∧
        containsNodeId ns id = some (true, s) := by
  cases hm : m id with
  | none =>
      have habs := (Represents.none_iff hr).mp hm
      obtain ⟨s, _, hfind, _⟩ := containsNodeId_absent (hw.table.searchable hw.room)
        (fun s e hs => habs e (mem_contents.mpr ⟨s, hs⟩))
      exact Or.inl ⟨rfl, s, hfind⟩
  | some e =>
      obtain ⟨hmem, heq⟩ := (hr id e).mp hm
      obtain ⟨s, hs⟩ := mem_contents.mp hmem
      exact Or.inr ⟨s, e, rfl, hs, heq, hw.table.found hw.room hs heq (hhash e hmem heq)⟩

theorem store_step (hw : Wf ns) (hr : Represents ns m) (hroom : ns.count + 1 < ns.size)
    (node : Node α) {s : Nat} (hfree : m node.nodeId = none)
    (hfind : containsNodeId ns node.nodeId = some (false, s)) :
    Wf (store ns s node).store ∧ Represents (store ns s node).store (update m node) ∧
      deref (store ns s node).store ⟨ns.block, s⟩ = some node := by
  have hnew := (Represents.none_iff hr).mp hfree
  obtain ⟨t, ht, hfind', hslot, htable, hperm⟩ := hw.table.place hw.room (fresh_of_contents hnew)
  have hts : t = s := by
    rw [hfind] at hfind'
    cases hfind'
    rfl
  subst hts
  have hmax := (size_bounds hw.table.size_mem).2
  simp only [maxSize] at hmax
  have hcount : u32 (ns.count + 1) = ns.count + 1 := u32_of_lt (by omega)
  refine ⟨⟨?_, ?_⟩, Represents.update hr hnew hperm, ?_⟩
  · change Table _ (u32 (ns.count + 1))
    rw [hcount]
    exact ⟨htable.1, htable.2, htable.3, htable.4, htable.5⟩
  · change u32 (ns.count + 1) < ns.size
    rw [hcount]
    exact hroom
  · simp only [deref, store, fillEntry, if_true]
    exact slot_set_self (by rw [hw.table.entries_length]; exact ht) _

/-- A call returns, keeps the invariant and answers as the map does. -/
def Simulates (ns : NodeStore α) (m : NodeMap α) (op : Op α) : Prop :=
  ∃ reply ns' m', perform ns op = some (reply, ns') ∧ Wf ns' ∧ Represents ns' m' ∧
    MapStep (deref ns) (deref ns') m op reply m'

theorem insertEntry_step (hw : Wf ns) (hr : Represents ns m) (hroom : ns.count + 1 < ns.size)
    (node : Node α) (before : NodePtr → Option (Node α)) (mem : Option Nat)
    (hhash : ∀ e ∈ contents ns.entries, nodeIdEqual e.nodeId node.nodeId = true →
      hash e.nodeId = hash node.nodeId) :
    ∃ o m', insertEntry ns node = some o ∧ Wf o.store ∧ Represents o.store m' ∧
      MapStep before (deref o.store) m (.insert mem node) (.status o.status o.inserted) m' := by
  have hmax := (size_bounds hw.table.size_mem).2
  simp only [maxSize] at hmax
  by_cases hnull : hasNullIdentifier node.nodeId = true
  · obtain ⟨nsIndex, hns⟩ : ∃ nsIndex, nsIndex =
        if node.nodeId.namespaceIndex = 0 then 1 else node.nodeId.namespaceIndex := ⟨_, rfl⟩
    obtain ⟨identifier, s, hrun, hunused, hfind⟩ :=
      freshId_unused hw.table hw.room nsIndex hroom
    have hfree : m (numericId nsIndex (UInt32.ofNat identifier)) = none := by
      rw [Represents.none_iff hr]
      intro e he
      obtain ⟨t, ht⟩ := mem_contents.mp he
      by_contra heq
      exact hunused ⟨t, e, ht, by simpa using heq⟩
    obtain ⟨hw', hr', hp⟩ := store_step hw hr hroom
      { node with nodeId := numericId nsIndex (UInt32.ofNat identifier) } hfree hfind
    refine ⟨_, _, ?_, hw', hr', MapStep.insertedFresh hnull hns hfree hp⟩
    rw [insertEntry, if_pos hnull]
    simp only [← hns, u32_of_lt (show ns.count + 1 < 4294967296 by omega), hrun]
  · rw [insertEntry, if_neg hnull]
    have hid : hasNullIdentifier node.nodeId = false := by simpa using hnull
    rcases search_cases hw hr node.nodeId hhash with ⟨hfree, s, hfind⟩ | ⟨s, e, hused, _, _, hfind⟩
    · obtain ⟨hw', hr', hp⟩ := store_step hw hr hroom node hfree hfind
      exact ⟨_, _, by rw [hfind], hw', hr', MapStep.inserted hid hfree hp⟩
    · exact ⟨_, m, by rw [hfind], hw, hr, MapStep.insertExists hid hused⟩

theorem insert_step (hw : Wf ns) (hr : Represents ns m) {mem : Option Nat} {node : Node α}
    (hlim : WithinLimits ns (.insert mem node)) (hhash : HashesAgree ns (.insert mem node)) :
    Simulates ns m (.insert mem node) := by
  obtain ⟨hcount, hmem⟩ := hlim
  obtain ⟨block, rfl⟩ := Option.isSome_iff_exists.mp hmem
  obtain ⟨hmin, hmax⟩ := size_bounds hw.table.size_mem
  simp only [maxSize] at hmax
  have hagree := hhash node.nodeId rfl
  have hguard : (u32 (ns.size * 3) ≤ u32 (ns.count * 4)) ↔ ns.size * 3 ≤ ns.count * 4 := by
    rw [u32_of_lt (by omega), u32_of_lt (by omega)]
  by_cases hfull : ns.size * 3 ≤ ns.count * 4
  · have hresize : ¬ KeepsTable ns := by
      rintro ⟨hhalf, _⟩
      omega
    obtain ⟨big, hrun, hbig, hhalf, hcnt, hperm⟩ := expand_rebuilds block hcount
      hw.table.contents_length hw.table.separated hresize
    have hmin' := (size_bounds hbig.table.size_mem).1
    obtain ⟨o, m', ho, hw', hr', hstep⟩ := insertEntry_step hbig (Represents.perm hr hperm)
      (by omega) node (deref ns) (some block)
      (fun e he => hagree e (hperm.mem_iff.mp he))
    refine ⟨_, _, m', ?_, hw', hr', hstep⟩
    simp only [perform, NodeStores.insert, hguard.mpr hfull, if_true, hrun, ho]
    rfl
  · obtain ⟨o, m', ho, hw', hr', hstep⟩ := insertEntry_step hw hr (by omega) node (deref ns)
      (some block) hagree
    refine ⟨_, _, m', ?_, hw', hr', hstep⟩
    simp only [perform, NodeStores.insert, mt hguard.mp hfull, if_false, ho]
    rfl

theorem get_step (hw : Wf ns) (hr : Represents ns m) {id : NodeId}
    (hhash : HashesAgree ns (.get id)) : Simulates ns m (.get id) := by
  refine ⟨.node (m id), ns, m, ?_, hw, hr, MapStep.get id⟩
  rcases search_cases hw hr id (hhash id rfl) with
    ⟨hnone, s, hfind⟩ | ⟨s, e, hsome, hs, _, hfind⟩
  · simp [perform, NodeStores.get, hfind, hnone]
  · simp [perform, NodeStores.get, hfind, hs, hsome]

theorem iterate_step (hw : Wf ns) (hr : Represents ns m) : Simulates ns m .iterate :=
  ⟨_, ns, m, rfl, hw, hr, MapStep.iterate ⟨contents_pairwise hw.table.separated, hr⟩⟩

theorem vacated_pairwise {entries : List (Option (Node α))} (h : Separated sameNode entries)
    {s : Nat} {e : Node α} (hs : slot entries s = some e) :
    (e :: contents (entries.set s none)).Pairwise (fun a b => sameNode a b = false) := by
  refine (contents_vacate hs).pairwise (contents_pairwise h) ?_
  intro a b hab
  rw [sameNode_comm]
  exact hab

theorem slot_of_deref {p : NodePtr} {e : Node α} (h : deref ns p = some e) :
    p.block = ns.block ∧ slot ns.entries p.index = some e := by
  by_cases hb : p.block = ns.block
  · rw [deref, if_pos hb] at h
    exact ⟨hb, h⟩
  · rw [deref, if_neg hb] at h
    cases h

theorem deref_iff (hw : Wf ns) {s : Nat} {e : Node α} (hs : slot ns.entries s = some e)
    (p : NodePtr) : deref ns p = some e ↔ (⟨ns.block, s⟩ : NodePtr) = p := by
  constructor
  · intro h
    obtain ⟨hb, hp⟩ := slot_of_deref h
    have := hw.table.separated p.index s e e hp hs (nodeIdEqual_refl _)
    rcases p with ⟨block, index⟩
    simp_all
  · rintro rfl
    rw [deref, if_pos rfl, hs]

theorem overwrite_wf (hw : Wf ns) {s : Nat} {e node : Node α} (hs : slot ns.entries s = some e)
    (heq : nodeIdEqual e.nodeId node.nodeId = true) (hhash : hash e.nodeId = hash node.nodeId) :
    Wf (fillEntry (deleteEntry ns s) s node) := by
  have hlen := lt_length_of_slot hs
  have hentries : (fillEntry (deleteEntry ns s) s node).entries = ns.entries.set s (some node) := by
    simp [fillEntry, deleteEntry]
  have hlen' : s < (ns.entries.set s none).length := by simpa using hlen
  have hfill := contents_fill hlen' (slot_vacated _ _) node
  rw [List.set_set] at hfill
  have hsep : Separated sameNode (ns.entries.set s (some node)) := by
    have hother : ∀ t w, t ≠ s → slot ns.entries t = some w → sameNode w node = false := by
      intro t w hts hw'
      by_contra hsame
      refine hts (hw.table.separated t s w e hw' hs ?_)
      rw [sameNode, nodeIdEqual_congr_right heq]
      simpa [sameNode] using hsame
    refine hw.table.separated.fill hlen ?_ hother
    intro t w hts hw'
    rw [sameNode_comm]
    exact hother t w hts hw'
  have hlead : Leads ns.entries (probeNode ns.size node) s := by
    have hpath : probeNode ns.size node = probeNode ns.size e := by
      simp only [probeNode, probe, hhash]
    exact hpath ▸ hw.table.linked s e hs
  refine ⟨⟨hw.table.size_mem, ?_, ?_, ?_, hentries ▸ hsep⟩, hw.room⟩
  · rw [hentries, List.length_set]
    exact hw.table.entries_length
  · rw [hentries, hfill.length_eq, List.length_cons, ← List.length_cons (a := e),
      ← (contents_vacate hs).length_eq]
    exact hw.table.contents_length
  · rw [hentries]
    exact hw.table.linked.fill hlen hlead

theorem update_erase {key : NodeId} {node : Node α} (h : nodeIdEqual node.nodeId key = true) :
    update (erase m key) node = update m node := by
  funext id
  by_cases hid : nodeIdEqual node.nodeId id = true
  · simp [NodeMaps.update, hid]
  · have hkey : ¬ nodeIdEqual key id = true := fun hk => hid (nodeIdEqual_trans h hk)
    simp [NodeMaps.update, NodeMaps.erase, hid, hkey]

theorem replace_step (hw : Wf ns) (hr : Represents ns m) {oldNode : NodePtr} {node : Node α}
    (hhash : HashesAgree ns (.replace oldNode node)) : Simulates ns m (.replace oldNode node) := by
  have hagree := hhash node.nodeId rfl
  rcases search_cases hw hr node.nodeId hagree with
    ⟨hnone, s, hfind⟩ | ⟨s, e, hused, hs, heq, hfind⟩
  · refine ⟨_, ns, m, ?_, hw, hr, MapStep.replaceUnknown hnone⟩
    simp only [perform, NodeStores.replace, hfind]
    rfl
  · by_cases hold : (⟨ns.block, s⟩ : NodePtr) = oldNode
    · have hw' := overwrite_wf hw hs heq (hagree e (mem_contents.mpr ⟨s, hs⟩) heq)
      have hpair := vacated_pairwise hw.table.separated hs
      have herase : Represents (deleteEntry ns s) (erase m node.nodeId) :=
        Represents.erase hr heq hpair (contents_vacate hs)
      have hr' : Represents (fillEntry (deleteEntry ns s) s node) (update m node) := by
        rw [← update_erase (nodeIdEqual_refl node.nodeId)]
        refine Represents.update herase ?_ ?_
        · intro w hmem
          have hne := (List.pairwise_cons.mp hpair).1 w hmem
          rw [sameNode, ← nodeIdEqual_congr_right heq, nodeIdEqual_comm]
          exact hne
        · exact contents_fill (by simpa [deleteEntry] using lt_length_of_slot hs)
            (slot_vacated _ _) node
      refine ⟨_, _, _, ?_, hw', hr', MapStep.replaced (p := ⟨ns.block, s⟩) hused
        ((deref_iff hw hs oldNode).mpr hold) ?_⟩
      · simp only [perform, NodeStores.replace, hfind, hold, ne_eq, not_true_eq_false, if_false]
        rfl
      · simp only [deref, fillEntry, deleteEntry, if_true]
        exact slot_set_self (by simpa using lt_length_of_slot hs) _
    · refine ⟨_, ns, m, ?_, hw, hr, MapStep.replaceOther hused ?_⟩
      · simp only [perform, NodeStores.replace, hfind, ne_eq, hold, not_false_eq_true, if_true]
        rfl
      · rwa [ne_eq, deref_iff hw hs]

def vacated (ns : NodeStore α) (s : Nat) : NodeStore α :=
  { deleteEntry ns s with count := ns.count - 1 }

theorem vacated_length (hw : Wf ns) {s : Nat} {e : Node α} (hs : slot ns.entries s = some e) :
    (contents (vacated ns s).entries).length + 1 = ns.count := by
  have h := (contents_vacate hs).length_eq
  rw [hw.table.contents_length, List.length_cons] at h
  exact h.symm

theorem vacated_wf (hw : Wf ns) {s : Nat} {e : Node α} (hs : slot ns.entries s = some e)
    (havoid : ∀ t w, t ≠ s → slot ns.entries t = some w → ¬ Passes (probeNode ns.size w) s t) :
    Wf (vacated ns s) := by
  have hlen := vacated_length hw hs
  refine ⟨⟨hw.table.size_mem, ?_, Nat.eq_sub_of_add_eq hlen, hw.table.linked.vacate havoid,
    hw.table.separated.vacate s⟩, ?_⟩
  · simpa [vacated, deleteEntry] using hw.table.entries_length
  · exact (Nat.sub_le _ _).trans_lt hw.room

theorem remove_found {mem : Option Nat} {id : NodeId} {s : Nat}
    (hfind : containsNodeId ns id = some (true, s)) (hpos : 0 < ns.count)
    (hcount : ns.count < 2 ^ 28) : remove mem ns id = downsize mem (vacated ns s) := by
  have hdec : sub32 ns.count 1 = ns.count - 1 := sub32_of_le hpos (by omega)
  rw [remove, hfind, vacated, ← hdec]

theorem downsize_spec {block : Nat} (hcount : ns.count < 2 ^ 28)
    (hlen : (contents ns.entries).length = ns.count) (hsep : Separated sameNode ns.entries)
    (h : (ns.count * 8 < ns.size ∧ minSize < ns.size) ∨ Wf ns) :
    ∃ ns', downsize (some block) ns = some ⟨good, ns', none⟩ ∧ Wf ns' ∧
      (contents ns'.entries).Perm (contents ns.entries) := by
  have hguard : u32 (ns.count * 8) = ns.count * 8 := u32_of_lt (by omega)
  rw [downsize, hguard]
  by_cases hshrink : ns.count * 8 < ns.size ∧ minSize < ns.size
  · have hresize : ¬ KeepsTable ns := by
      rintro ⟨_, hfew | hsmall⟩ <;> omega
    obtain ⟨ns', hrun, hw', _, _, hperm⟩ := expand_rebuilds block hcount hlen hsep hresize
    refine ⟨ns', ?_, hw', hperm⟩
    rw [if_pos ⟨hshrink.1, lt_trans (by decide) hshrink.2⟩, hrun]
  · have hw := h.resolve_left hshrink
    refine ⟨ns, ?_, hw, List.Perm.refl _⟩
    by_cases hfew : ns.count * 8 < ns.size ∧ ns.size > 32
    · have hkeep : KeepsTable ns := ⟨by omega, Or.inr (by
        by_contra hbig
        exact hshrink ⟨hfew.1, Nat.lt_of_not_le hbig⟩)⟩
      rw [if_pos hfew, expand_keeps hcount hkeep]
    · rw [if_neg hfew]

theorem remove_step (hw : Wf ns) (hr : Represents ns m) {mem : Option Nat} {id : NodeId}
    (hlim : WithinLimits ns (.remove mem id)) (hhash : HashesAgree ns (.remove mem id))
    (hchains : Rebuilds ns (.remove mem id) ∨ Unprobed ns (.remove mem id)) : Simulates ns m (.remove mem id) := by
  obtain ⟨hcount, hmem⟩ := hlim
  obtain ⟨block, rfl⟩ := Option.isSome_iff_exists.mp hmem
  rcases search_cases hw hr id (hhash id rfl) with
    ⟨hnone, s, hfind⟩ | ⟨s, e, hused, hs, heq, hfind⟩
  · refine ⟨_, ns, m, ?_, hw, hr, MapStep.removeUnknown hnone⟩
    simp only [perform, remove, hfind]
    rfl
  · have hlen := vacated_length hw hs
    have hdel : (vacated ns s).count = ns.count - 1 := rfl
    have herase : Represents (vacated ns s) (erase m id) :=
      Represents.erase hr heq (vacated_pairwise hw.table.separated hs) (contents_vacate hs)
    have hcase : ((vacated ns s).count * 8 < (vacated ns s).size ∧ minSize < (vacated ns s).size) ∨
        Wf (vacated ns s) := by
      rcases hchains with hrebuild | havoid
      · exact Or.inl hrebuild
      · exact Or.inr (vacated_wf hw hs (fun t w => havoid s e t w hs heq))
    obtain ⟨ns', hrun, hw', hperm⟩ := downsize_spec (by omega) (Nat.eq_sub_of_add_eq hlen)
      (hw.table.separated.vacate s) hcase
    refine ⟨_, ns', _, ?_, hw', Represents.perm herase hperm, MapStep.removed hused⟩
    rw [perform, remove_found hfind (by omega) hcount, hrun]
    rfl

theorem simulates (hw : Wf ns) (hr : Represents ns m) {op : Op α} (hlim : WithinLimits ns op)
    (hhash : HashesAgree ns op) (hchains : Rebuilds ns op ∨ Unprobed ns op) : Simulates ns m op := by
  cases op with
  | insert mem node => exact insert_step hw hr hlim hhash
  | replace oldNode node => exact replace_step hw hr hhash
  | get id => exact get_step hw hr hhash
  | remove mem id => exact remove_step hw hr hlim hhash hchains
  | iterate => exact iterate_step hw hr

end Steps

section Runs

variable {α : Type}

/-- The condition on one call: its id hashes as the stored id that it equals,
and a removal rebuilds the table or breaks no probe chain. -/
def Admissible (ns : NodeStore α) (op : Op α) : Prop :=
  WithinLimits ns op ∧ HashesAgree ns op ∧ (Rebuilds ns op ∨ Unprobed ns op)

theorem refines_of_wf (ops : List (Op α)) {ns : NodeStore α} {m : NodeMap α} (hw : Wf ns)
    (hr : Represents ns m) (h : Along Admissible ns ops) : Refines ns m ops := by
  induction ops generalizing ns m with
  | nil => exact hr
  | cons op ops ih =>
      obtain ⟨⟨hlim, hhash, hchains⟩, hrest⟩ := h
      obtain ⟨reply, ns', m', hrun, hw', hr', hstep⟩ := simulates hw hr hlim hhash hchains
      rw [hrun] at hrest
      exact ⟨hr, reply, ns', m', hrun, hstep, ih hw' hr' hrest⟩

theorem represents_new (block : Nat) : Represents (new block : NodeStore α) empty := by
  intro id n
  simp [empty, new, contents_replicate]

/-- In every run of admissible calls the node store is the finite map. -/
theorem nodeStore_refines_map (block : Nat) (ops : List (Op α))
    (h : Along Admissible (new block) ops) : Refines (new block) empty ops :=
  refines_of_wf ops (wf_new block) (represents_new block) h

def sample (i : UInt32) : Node Unit := ⟨numericId 1 i, .object, ()⟩

def sampleRun : List (Op Unit) :=
  [.insert (some 1) (sample 1), .insert (some 2) ⟨nullId, .variable, ()⟩, .get (numericId 1 1),
   .insert (some 3) (sample 1), .remove (some 4) (numericId 1 1), .get (numericId 1 1), .iterate]

theorem nodeStore_refines_map_sampleRun : Refines (new 0) empty sampleRun := by
  refine nodeStore_refines_map 0 sampleRun ?_
  have h : Along (fun ns op => WithinLimits ns op ∧ HashesAgree ns op ∧ Rebuilds ns op)
      (new 0) sampleRun := by
    decide +kernel
  exact h.mono (fun ns op hp => ⟨hp.1, hp.2.1, Or.inl hp.2.2⟩)

def replies (ns : NodeStore α) : List (Op α) → Option (List (Reply α))
  | [] => some []
  | op :: ops => match perform ns op with
      | none => none
      | some (reply, ns') => (replies ns' ops).map (reply :: ·)

/-- The answers of a run as the map would give them. -/
inductive Answers : NodeMap α → List (Op α) → List (Reply α) → Prop
  | nil (m : NodeMap α) : Answers m [] []
  | cons {m m' : NodeMap α} {before after : NodePtr → Option (Node α)} {op : Op α}
      {reply : Reply α} {ops : List (Op α)} {rest : List (Reply α)}
      (hstep : MapStep before after m op reply m') (hrest : Answers m' ops rest) :
      Answers m (op :: ops) (reply :: rest)

theorem Refines.answers {ops : List (Op α)} {ns : NodeStore α} {m : NodeMap α}
    (h : Refines ns m ops) : ∃ rs, replies ns ops = some rs ∧ Answers m ops rs := by
  induction ops generalizing ns m with
  | nil => exact ⟨[], rfl, Answers.nil m⟩
  | cons op ops ih =>
      obtain ⟨_, reply, ns', m', hrun, hstep, hrest⟩ := h
      obtain ⟨rs, hrs, hans⟩ := ih hrest
      refine ⟨reply :: rs, ?_, Answers.cons hstep hans⟩
      rw [replies, hrun]
      simp only [hrs, Option.map_some]

/-- The first two calls shrink the table to 7 slots, where the ids 1 and 4
collide. Removing 1 then cuts the chain to 4. -/
def brokenRun : List (Op Unit) :=
  [.insert (some 1) (sample 1), .remove (some 2) (numericId 1 1), .insert (some 3) (sample 1),
   .insert (some 4) (sample 4), .remove (some 5) (numericId 1 1), .get (numericId 1 4)]

theorem replies_brokenRun : replies (new 0) brokenRun =
    some [.status good (some ⟨0, 107⟩), .status good none, .status good (some ⟨2, 6⟩),
      .status good (some ⟨2, 2⟩), .status good none, .node none] := by
  decide +kernel

theorem MapStep.inserted_eq {before after : NodePtr → Option (Node α)} {m m' : NodeMap α}
    {mem : Option Nat} {node : Node α} {p : NodePtr}
    (h : MapStep before after m (.insert mem node) (.status good (some p)) m')
    (hid : hasNullIdentifier node.nodeId = false) : m' = update m node := by
  cases h with
  | inserted => rfl
  | insertedFresh hnull => simp [hid] at hnull

theorem MapStep.removed_eq {before after : NodePtr → Option (Node α)} {m m' : NodeMap α}
    {mem : Option Nat} {id : NodeId}
    (h : MapStep before after m (.remove mem id) (.status good none) m') : m' = erase m id := by
  generalize hr : Reply.status good none = reply at h
  cases h with
  | removed => rfl
  | removeUnknown => simp [good, badNodeIdUnknown] at hr

theorem nodeStore_loses_node : ¬ ∀ (block : Nat) (ops : List (Op Unit)),
    Along WithinLimits (new block) ops → Refines (new block) empty ops := by
  intro h
  have hlim : Along WithinLimits (new 0) brokenRun := by decide +kernel
  obtain ⟨rs, hrs, hans⟩ := Refines.answers (h 0 brokenRun hlim)
  rw [replies_brokenRun, Option.some_inj] at hrs
  subst hrs
  obtain _ | ⟨h1, hans⟩ := hans
  obtain _ | ⟨h2, hans⟩ := hans
  obtain _ | ⟨h3, hans⟩ := hans
  obtain _ | ⟨h4, hans⟩ := hans
  obtain _ | ⟨h5, hans⟩ := hans
  obtain _ | ⟨h6, hans⟩ := hans
  rw [MapStep.inserted_eq h1 rfl] at h2
  rw [MapStep.removed_eq h2] at h3
  rw [MapStep.inserted_eq h3 rfl] at h4
  rw [MapStep.inserted_eq h4 rfl] at h5
  rw [MapStep.removed_eq h5] at h6
  generalize hr : Reply.node none = reply at h6
  cases h6 with
  | get => simp [erase, update, sample, numericId, nodeIdEqual] at hr

end Runs

end OpcUa.NodeStoreRuns
