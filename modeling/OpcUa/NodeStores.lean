import OpcUa.LittleEndian
import OpcUa.NodeIds
import OpcUa.OpenAddressing

namespace OpcUa.NodeStores

open StatusCodes LittleEndian NodeIds OpenAddressing

def u32 (n : Nat) : Nat := n % 4294967296

def sub32 (a b : Nat) : Nat := (a + 4294967296 - b) % 4294967296

def i32 (n : Nat) : Int := toInt32 (u32 n)

def mod (h size : Nat) : Nat := h % size

def mod2 (h size : Nat) : Nat := 1 + h % (size - 2)

def rotl (k : UInt32) (r : UInt32) : UInt32 := (k <<< r) ||| (k >>> (32 - r))

def mixKey (k : UInt32) : UInt32 := rotl (k * 0xcc9e2d51) 15 * 0x1b873593

def hashBlocks : Nat → List UInt8 → UInt32 → UInt32
  | n + 1, b0 :: b1 :: b2 :: b3 :: rest, hash =>
      let k := b0.toUInt32 ||| b1.toUInt32 <<< 8 ||| b2.toUInt32 <<< 16 ||| b3.toUInt32 <<< 24
      hashBlocks n rest (rotl (hash ^^^ mixKey k) 13 * 5 + 0xe6546b64)
  | _, _, hash => hash

def hashTail (tail : List UInt8) (hash : UInt32) : UInt32 :=
  match tail with
  | [t0] => hash ^^^ mixKey t0.toUInt32
  | [t0, t1] => hash ^^^ mixKey (t1.toUInt32 <<< 8 ^^^ t0.toUInt32)
  | [t0, t1, t2] => hash ^^^ mixKey (t2.toUInt32 <<< 16 ^^^ t1.toUInt32 <<< 8 ^^^ t0.toUInt32)
  | _ => hash

def hashFinish (len hash : UInt32) : UInt32 :=
  let hash := hash ^^^ len
  let hash := (hash ^^^ hash >>> 16) * 0x85ebca6b
  let hash := (hash ^^^ hash >>> 13) * 0xc2b2ae35
  hash ^^^ hash >>> 16

/-- Murmur-Hash 3. The length arrives as a `UA_UInt32`; NULL data hashes to 0. -/
def hashArray (data : UaString) (seed : UInt32) : UInt32 :=
  match data with
  | none => 0
  | some bytes =>
      let len := u32 bytes.length
      let tail := (bytes.drop (len / 4 * 4)).take (len % 4)
      hashFinish (UInt32.ofNat len) (hashTail tail (hashBlocks (len / 4) bytes seed))

def guidImage (g : Guid) : List UInt8 :=
  toBytes 4 g.data1.toNat ++ toBytes 2 g.data2.toNat ++ toBytes 2 g.data3.toNat ++ g.data4

def hash (n : NodeId) : UInt32 :=
  match n.identifier with
  | .numeric i => (i + n.namespaceIndex.toUInt32) * 2654435761
  | .string s => hashArray s n.namespaceIndex.toUInt32
  | .guid g => hashArray (some (guidImage g)) n.namespaceIndex.toUInt32
  | .byteString b => hashArray b n.namespaceIndex.toUInt32

inductive NodeClass
  | object | variable | method | objectType | variableType | referenceType | dataType | view
deriving DecidableEq, Repr

structure Node (α : Type) where
  nodeId : NodeId
  nodeClass : NodeClass
  content : α
deriving DecidableEq, Repr

structure NodePtr where
  block : Nat
  index : Nat
deriving DecidableEq, Repr

/-- `block` names the allocation that holds `entries`, so that the address of
a stored node is `⟨block, index⟩`. A slot that is not taken is `none`. -/
structure NodeStore (α : Type) where
  entries : List (Option (Node α))
  block : Nat
  size : Nat
  count : Nat
  sizePrimeIndex : Nat
deriving DecidableEq, Repr

variable {α : Type}

def minSize : Nat := 64

def primes : List Nat :=
  [7, 13, 31, 61, 127, 251,
   509, 1021, 2039, 4093, 8191, 16381,
   32749, 65521, 131071, 262139, 524287, 1048573,
   2097143, 4194301, 8388593, 16777213, 33554393, 67108859,
   134217689, 268435399, 536870909, 1073741789, 2147483647, 4294967291]

def higherPrimeLoop (n : Nat) : Nat → Nat → Nat → Nat
  | 0, low, _ => low
  | fuel + 1, low, high =>
      if low = high then low
      else
        let mid := low + (high - low) / 2
        if n > primes.getD mid 0 then higherPrimeLoop n fuel (mid + 1) high
        else higherPrimeLoop n fuel low mid

def higherPrimeIndex (n : Nat) : Nat := higherPrimeLoop n primes.length 0 primes.length

def containsLoop (entries : List (Option (Node α))) (size hash2 : Nat) (nodeid : NodeId) :
    Nat → Nat → Option (Bool × Nat)
  | 0, _ => none
  | fuel + 1, index =>
      let next := u32 (index + hash2)
      let index := if next ≥ size then next - size else next
      match slot entries index with
      | none => some (false, index)
      | some e =>
          if nodeIdEqual e.nodeId nodeid then some (true, index)
          else containsLoop entries size hash2 nodeid fuel index

/-- The search reports whether an entry was found and its slot, or the first
free slot. It is `none` when `size` probes meet neither: the `for(;;)` of the
source then cycles through the same slots forever. -/
def containsNodeId (ns : NodeStore α) (nodeid : NodeId) : Option (Bool × Nat) :=
  let h := (hash nodeid).toNat
  let index := mod h ns.size
  match slot ns.entries index with
  | none => some (false, index)
  | some e =>
      if nodeIdEqual e.nodeId nodeid then some (true, index)
      else containsLoop ns.entries ns.size (mod2 h ns.size) nodeid ns.size index

def deleteEntry (ns : NodeStore α) (i : Nat) : NodeStore α :=
  { ns with entries := ns.entries.set i none }

def fillEntry (ns : NodeStore α) (i : Nat) (node : Node α) : NodeStore α :=
  { ns with entries := ns.entries.set i (some node) }

def refill (count : Nat) : List (Option (Node α)) → Nat → NodeStore α → Option (NodeStore α)
  | [], _, ns => some ns
  | none :: rest, j, ns => if j < count then refill count rest j ns else some ns
  | some e :: rest, j, ns =>
      if j < count then
        match containsNodeId ns e.nodeId with
        | none => none
        | some (_, i) => refill count rest (j + 1) (fillEntry ns i e)
      else some ns

def calloc (mem : Option Nat) (nsize : Nat) : Option Nat := if 0 ≤ i32 nsize then mem else none

/-- `mem` is the block that `UA_calloc` returns, `none` when it fails. The
outer `none` is a search that does not return. -/
def expand (mem : Option Nat) (ns : NodeStore α) : Option (StatusCode × NodeStore α) :=
  if u32 (ns.count * 2) < ns.size ∧ (u32 (ns.count * 8) > ns.size ∨ ns.size ≤ minSize) then
    some (good, ns)
  else
    let nindex := higherPrimeIndex (u32 (ns.count * 2))
    let nsize := primes.getD nindex 0
    match calloc mem nsize with
    | none => some (badOutOfMemory, ns)
    | some block =>
        let fresh : NodeStore α :=
          { entries := List.replicate nsize none, block := block, size := nsize,
            count := ns.count, sizePrimeIndex := nindex }
        match refill ns.count ns.entries 0 fresh with
        | none => none
        | some ns' => some (good, ns')

def new (block : Nat) : NodeStore α :=
  let index := higherPrimeIndex minSize
  let size := primes.getD index 0
  { entries := List.replicate size none, block := block, size := size, count := 0,
    sizePrimeIndex := index }

def freshId (ns : NodeStore α) (nsIndex : UInt16) (increase : Nat) : Nat → Nat → Option (Nat × Nat)
  | 0, _ => none
  | fuel + 1, identifier =>
      match containsNodeId ns (numericId nsIndex (UInt32.ofNat identifier)) with
      | none => none
      | some (false, i) => some (identifier, i)
      | some (true, _) =>
          let next := u32 (identifier + increase)
          freshId ns nsIndex increase fuel
            (if i32 next ≥ i32 ns.size then sub32 next ns.size else next)

structure Outcome (α : Type) where
  status : StatusCode
  store : NodeStore α
  inserted : Option NodePtr
deriving DecidableEq, Repr

def Outcome.fail (status : StatusCode) (ns : NodeStore α) : Outcome α := ⟨status, ns, none⟩

def store (ns : NodeStore α) (i : Nat) (node : Node α) : Outcome α :=
  ⟨good, { fillEntry ns i node with count := u32 (ns.count + 1) }, some ⟨ns.block, i⟩⟩

def hasNullIdentifier (id : NodeId) : Bool := isNull { id with namespaceIndex := 0 }

def insertEntry (ns : NodeStore α) (node : Node α) : Option (Outcome α) :=
  if hasNullIdentifier node.nodeId then
    let nsIndex := if node.nodeId.namespaceIndex = 0 then 1 else node.nodeId.namespaceIndex
    let identifier := u32 (ns.count + 1)
    match freshId ns nsIndex (mod2 identifier ns.size) (ns.size + 1) identifier with
    | none => none
    | some (identifier, i) =>
        some (store ns i { node with nodeId := numericId nsIndex (UInt32.ofNat identifier) })
  else
    match containsNodeId ns node.nodeId with
    | none => none
    | some (true, _) => some (.fail badNodeIdExists ns)
    | some (false, i) => some (store ns i node)

def insert (mem : Option Nat) (ns : NodeStore α) (node : Node α) : Option (Outcome α) :=
  if u32 (ns.size * 3) ≤ u32 (ns.count * 4) then
    match expand mem ns with
    | none => none
    | some (status, ns) =>
        if status = good then insertEntry ns node else some (.fail badInternalError ns)
  else insertEntry ns node

def replace (ns : NodeStore α) (oldNode : NodePtr) (node : Node α) : Option (Outcome α) :=
  match containsNodeId ns node.nodeId with
  | none => none
  | some (false, _) => some (.fail badNodeIdUnknown ns)
  | some (true, i) =>
      if ⟨ns.block, i⟩ ≠ oldNode then some (.fail badInternalError ns)
      else some ⟨good, fillEntry (deleteEntry ns i) i node, some ⟨ns.block, i⟩⟩

def get (ns : NodeStore α) (nodeid : NodeId) : Option (Option (Node α)) :=
  match containsNodeId ns nodeid with
  | none => none
  | some (false, _) => some none
  | some (true, i) => some (slot ns.entries i)

/-- The end of `UA_NodeStore_remove`. A failed `expand` is ignored. -/
def downsize (mem : Option Nat) (ns : NodeStore α) : Option (Outcome α) :=
  if u32 (ns.count * 8) < ns.size ∧ ns.size > 32 then
    match expand mem ns with
    | none => none
    | some (_, ns) => some ⟨good, ns, none⟩
  else some ⟨good, ns, none⟩

def remove (mem : Option Nat) (ns : NodeStore α) (nodeid : NodeId) : Option (Outcome α) :=
  match containsNodeId ns nodeid with
  | none => none
  | some (false, _) => some (.fail badNodeIdUnknown ns)
  | some (true, i) => downsize mem { deleteEntry ns i with count := sub32 ns.count 1 }

def iterate (ns : NodeStore α) : List (Node α) := ns.entries.filterMap id

end OpcUa.NodeStores
