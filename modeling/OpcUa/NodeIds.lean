import OpcUa.StatusCodes

namespace OpcUa.NodeIds

/-- `UA_String` and `UA_ByteString`. `none` is the NULL string, `some []` the
empty one. Where the code tells `UA_EMPTY_ARRAY_SENTINEL` from an ordinary
pointer of length 0, as it does for the data of arrays and variants, the pointer
is given besides. -/
abbrev UaString := Option (List UInt8)

def UaString.bytes (s : UaString) : List UInt8 := s.getD []

def UaString.length (s : UaString) : Nat := s.bytes.length

structure Guid where
  data1 : UInt32
  data2 : UInt16
  data3 : UInt16
  data4 : List UInt8
  data4_length : data4.length = 8
deriving DecidableEq, Repr

theorem length_zeros : ([0, 0, 0, 0, 0, 0, 0, 0] : List UInt8).length = 8 := rfl

inductive Identifier
  | numeric (n : UInt32)
  | string (s : UaString)
  | guid (g : Guid)
  | byteString (b : UaString)
deriving DecidableEq, Repr

structure NodeId where
  namespaceIndex : UInt16
  identifier : Identifier
deriving DecidableEq, Repr

def Identifier.isNumeric : Identifier → Bool
  | .numeric _ => true
  | _ => false

/-- `UA_NODEID_NUMERIC` -/
def numericId (nsIndex : UInt16) (identifier : UInt32) : NodeId := ⟨nsIndex, .numeric identifier⟩

/-- `UA_NODEID_NULL`, also the result of `UA_NodeId_init`. -/
def nullId : NodeId := numericId 0 0

/-- `UA_String_equal` compares the lengths and then that many bytes, so the
NULL string equals the empty one. -/
def stringEqual (s1 s2 : UaString) : Bool :=
  if s1.length != s2.length then false else s1.bytes == s2.bytes

/-- `UA_Guid_equal`, a `memcmp` over the whole structure. -/
def guidEqual (g1 g2 : Guid) : Bool := g1 == g2

def nodeIdEqual (n1 n2 : NodeId) : Bool :=
  if n1.namespaceIndex != n2.namespaceIndex then false
  else match n1.identifier, n2.identifier with
    | .numeric a, .numeric b => a == b
    | .string a, .string b => stringEqual a b
    | .guid a, .guid b => guidEqual a b
    | .byteString a, .byteString b => stringEqual a b
    | _, _ => false

def isNull (p : NodeId) : Bool :=
  p.namespaceIndex == 0 && match p.identifier with
    | .numeric n => n == 0
    | _ => false

/-- The part of a NodeId that `UA_NodeId_equal` looks at. -/
def Identifier.content : Identifier → Nat × Nat × List UInt8 × Option Guid
  | .numeric n => (0, n.toNat, [], none)
  | .string s => (3, 0, s.bytes, none)
  | .guid g => (4, 0, [], some g)
  | .byteString b => (5, 0, b.bytes, none)

theorem stringEqual_iff (s1 s2 : UaString) : stringEqual s1 s2 = true ↔ s1.bytes = s2.bytes := by
  unfold stringEqual UaString.length
  by_cases h : s1.bytes = s2.bytes
  · simp [h]
  · simp [h]

theorem nodeIdEqual_iff (n1 n2 : NodeId) : nodeIdEqual n1 n2 = true ↔
    n1.namespaceIndex = n2.namespaceIndex ∧ n1.identifier.content = n2.identifier.content := by
  rcases n1 with ⟨ns1, i1⟩
  rcases n2 with ⟨ns2, i2⟩
  by_cases hns : ns1 = ns2
  · subst hns
    cases i1 <;> cases i2 <;>
      simp [nodeIdEqual, Identifier.content, stringEqual_iff, guidEqual, UInt32.toNat_inj]
  · simp [nodeIdEqual, hns]

theorem nodeIdEqual_refl (n : NodeId) : nodeIdEqual n n = true := by
  simp [nodeIdEqual_iff]

theorem nodeIdEqual_comm (n1 n2 : NodeId) : nodeIdEqual n1 n2 = nodeIdEqual n2 n1 := by
  rw [Bool.eq_iff_iff, nodeIdEqual_iff, nodeIdEqual_iff]
  exact ⟨fun h => ⟨h.1.symm, h.2.symm⟩, fun h => ⟨h.1.symm, h.2.symm⟩⟩

theorem nodeIdEqual_trans {n1 n2 n3 : NodeId} (h1 : nodeIdEqual n1 n2 = true)
    (h2 : nodeIdEqual n2 n3 = true) : nodeIdEqual n1 n3 = true := by
  rw [nodeIdEqual_iff] at h1 h2 ⊢
  exact ⟨h1.1.trans h2.1, h1.2.trans h2.2⟩

theorem nodeIdEqual_congr_right {n1 n2 : NodeId} (h : nodeIdEqual n1 n2 = true) (n : NodeId) :
    nodeIdEqual n n1 = nodeIdEqual n n2 := by
  rw [Bool.eq_iff_iff]
  constructor
  · intro hn
    exact nodeIdEqual_trans hn h
  · intro hn
    exact nodeIdEqual_trans hn (nodeIdEqual_comm n1 n2 ▸ h)

theorem nodeIdEqual_numeric (ns : UInt16) (a b : UInt32) :
    nodeIdEqual (numericId ns a) (numericId ns b) = true ↔ a = b := by
  simp [nodeIdEqual, numericId]

end OpcUa.NodeIds
