import OpcUa.NodeStores

namespace OpcUa.NodeIdHashes

open StatusCodes NodeIds NodeStores

/-- The identifier is a string or byte string whose data pointer is NULL. -/
def Identifier.hasNoData : Identifier → Bool
  | .string s => s.isNone
  | .byteString b => b.isNone
  | _ => false

/-- What a hash table asks of the two functions: equal ids have one hash, and
no search can tell them apart. -/
def HashRespectsEqual (n1 n2 : NodeId) : Prop :=
  nodeIdEqual n1 n2 = true → hash n1 = hash n2 ∧
    ∀ (α : Type) (ns : NodeStore α), get ns n1 = get ns n2

/-- The ids are in namespace 0, or the data of both is present or of both
absent. -/
def SameAbsence (n1 n2 : NodeId) : Prop :=
  n1.namespaceIndex = 0 ∨
    Identifier.hasNoData n1.identifier = Identifier.hasNoData n2.identifier

theorem eq_zero_of_xorShift {x : UInt32} {k : Nat} (hk : 0 < k) (hk' : k < 32)
    (h : x ^^^ x >>> UInt32.ofNat k = 0) : x = 0 := by
  have hx : x = x >>> UInt32.ofNat k := UInt32.xor_eq_zero_iff.mp h
  have hn := congrArg UInt32.toNat hx
  have hs : (UInt32.ofNat k).toNat = k := UInt32.toNat_ofNat_of_lt' (hk'.trans (by decide))
  rw [UInt32.toNat_shiftRight, hs, Nat.mod_eq_of_lt hk', Nat.shiftRight_eq_div_pow] at hn
  have hpow : 1 < 2 ^ k := Nat.one_lt_two_pow hk.ne'
  apply UInt32.toNat_inj.mp
  by_contra hne
  have hpos : 0 < x.toNat := Nat.pos_of_ne_zero hne
  have hlt := Nat.div_lt_self hpos hpow
  omega

theorem eq_zero_of_mul {x c d : UInt32} (hcd : c * d = 1) (h : x * c = 0) : x = 0 := by
  calc x = x * (c * d) := by rw [hcd, UInt32.mul_one]
    _ = x * c * d := by rw [UInt32.mul_assoc]
    _ = 0 := by rw [h, UInt32.zero_mul]

theorem hashFinish_eq_zero {seed : UInt32} (h : hashFinish 0 seed = 0) : seed = 0 := by
  unfold hashFinish at h
  have h3 := eq_zero_of_xorShift (k := 16) (by decide) (by decide) h
  have h2 := eq_zero_of_mul (d := 0x7ed1b41d) (by decide) h3
  have h2' := eq_zero_of_xorShift (k := 13) (by decide) (by decide) h2
  have h1 := eq_zero_of_mul (d := 0xa5cb9243) (by decide) h2'
  have h1' := eq_zero_of_xorShift (k := 16) (by decide) (by decide) h1
  simpa using h1'

theorem hashArray_null (seed : UInt32) : hashArray none seed = 0 := rfl

theorem hashArray_empty (seed : UInt32) : hashArray (some []) seed = hashFinish 0 seed := rfl

theorem hashArray_empty_eq_zero (ns : UInt16) :
    hashArray (some []) ns.toUInt32 = 0 ↔ ns = 0 := by
  rw [hashArray_empty]
  constructor
  · intro h
    have hz := hashFinish_eq_zero h
    apply UInt16.toNat_inj.mp
    have hn := congrArg UInt32.toNat hz
    simpa using hn
  · rintro rfl
    decide

theorem hashArray_congr {s1 s2 : UaString} (ns : UInt16) (h : s1.bytes = s2.bytes) :
    hashArray s1 ns.toUInt32 = hashArray s2 ns.toUInt32 ↔ ns = 0 ∨ s1.isNone = s2.isNone := by
  cases s1 with
  | none =>
      cases s2 with
      | none => simp
      | some b =>
          have hb : [] = b := h
          subst hb
          rw [hashArray_null, eq_comm, hashArray_empty_eq_zero]
          simp
  | some a =>
      cases s2 with
      | none =>
          have ha : a = [] := h
          subst ha
          rw [hashArray_null, hashArray_empty_eq_zero]
          simp
      | some b =>
          have hab : a = b := h
          subst hab
          simp

theorem hash_congr {n1 n2 : NodeId} (h : nodeIdEqual n1 n2 = true) :
    hash n1 = hash n2 ↔ SameAbsence n1 n2 := by
  rcases n1 with ⟨ns1, i1⟩
  rcases n2 with ⟨ns2, i2⟩
  obtain ⟨hns, hcontent⟩ := (nodeIdEqual_iff _ _).mp h
  dsimp only at hns hcontent
  subst hns
  cases i1 <;> cases i2 <;>
    simp only [Identifier.content, Prod.mk.injEq, Option.some.injEq, reduceCtorEq, and_false,
      false_and, true_and, and_true, Nat.reduceEqDiff] at hcontent
  case numeric.numeric a b =>
    have hab : a = b := UInt32.toNat_inj.mp hcontent
    subst hab
    simp [SameAbsence]
  case string.string s t => exact hashArray_congr ns1 hcontent
  case guid.guid g k =>
    subst hcontent
    simp [SameAbsence]
  case byteString.byteString s t => exact hashArray_congr ns1 hcontent

/-- The search looks at an id only through its hash and `UA_NodeId_equal`. -/
theorem containsLoop_congr {α : Type} {n1 n2 : NodeId} (h : nodeIdEqual n1 n2 = true)
    (entries : List (Option (Node α))) (size hash2 fuel index : Nat) :
    containsLoop entries size hash2 n1 fuel index = containsLoop entries size hash2 n2 fuel index := by
  induction fuel generalizing index with
  | zero => rfl
  | succ fuel ih => simp only [containsLoop, ih, nodeIdEqual_congr_right h]

theorem get_congr {α : Type} {n1 n2 : NodeId} (h : nodeIdEqual n1 n2 = true)
    (hhash : hash n1 = hash n2) (ns : NodeStore α) : get ns n1 = get ns n2 := by
  have hfind : containsNodeId ns n1 = containsNodeId ns n2 := by
    simp only [containsNodeId, hhash, nodeIdEqual_congr_right h, containsLoop_congr h]
  simp only [NodeStores.get, hfind]

theorem nodeIdEqual_equivalence : Equivalence (fun n1 n2 => nodeIdEqual n1 n2 = true) where
  refl := nodeIdEqual_refl
  symm := by
    intro n1 n2 h
    rwa [nodeIdEqual_comm]
  trans := nodeIdEqual_trans

/-- The hash respects the equality of two ids exactly if they are not a NULL
and an empty string outside namespace 0. -/
theorem hash_respectsEqual_iff (n1 n2 : NodeId) :
    Equivalence (fun n1 n2 => nodeIdEqual n1 n2 = true) ∧
      (HashRespectsEqual n1 n2 ↔ (nodeIdEqual n1 n2 = true → SameAbsence n1 n2)) := by
  refine ⟨nodeIdEqual_equivalence, ?_, ?_⟩
  · intro h heq
    exact (hash_congr heq).mp (h heq).1
  · intro h heq
    have hhash := (hash_congr heq).mpr (h heq)
    exact ⟨hhash, fun α ns => get_congr heq hhash ns⟩

def nullName : NodeId := ⟨1, .string none⟩

def emptyName : NodeId := ⟨1, .string (some [])⟩

/-- A new store after the insert of a node whose id is the NULL string. -/
def storeOfNullName : Option (NodeStore Unit) :=
  (NodeStores.insert none (new 0) ⟨nullName, .object, ()⟩).map (·.store)

theorem get_storeOfNullName :
    storeOfNullName.bind (get · nullName) = some (some ⟨nullName, .object, ()⟩) ∧
      storeOfNullName.bind (get · emptyName) = some none := by
  decide +kernel

/-- The node that is stored under the NULL string is not found under the empty
one. -/
theorem hash_ignores_equality : nodeIdEqual nullName emptyName = true ∧
    hash nullName ≠ hash emptyName ∧ ¬ HashRespectsEqual nullName emptyName := by
  have heq : nodeIdEqual nullName emptyName = true := by decide
  refine ⟨heq, by decide +kernel, ?_⟩
  intro h
  obtain ⟨hnull, hempty⟩ := get_storeOfNullName
  have hsame := funext ((h heq).2 Unit)
  rw [show (get · nullName) = (get · emptyName) from hsame, hempty] at hnull
  cases hnull

end OpcUa.NodeIdHashes
