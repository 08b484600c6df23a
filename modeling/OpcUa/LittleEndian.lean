import Mathlib.Data.UInt

namespace OpcUa.LittleEndian

/-- The `k` low bytes of `n`, least significant first. -/
def toBytes : Nat → Nat → List UInt8
  | 0, _ => []
  | k + 1, n => UInt8.ofNat n :: toBytes k (n / 256)

def ofBytes : List UInt8 → Nat
  | [] => 0
  | b :: bs => b.toNat + 256 * ofBytes bs

@[simp] theorem length_toBytes (k n : Nat) : (toBytes k n).length = k := by
  induction k generalizing n with
  | zero => rfl
  | succ k ih => rw [toBytes, List.length_cons, ih]

theorem ofBytes_toBytes (k n : Nat) : ofBytes (toBytes k n) = n % 256 ^ k := by
  induction k generalizing n with
  | zero => simp [toBytes, ofBytes, Nat.mod_one]
  | succ k ih =>
      have hlow : (UInt8.ofNat n).toNat = n % 256 := by simp
      rw [toBytes, ofBytes, ih, hlow, pow_succ', Nat.mod_mul]

theorem ofBytes_lt (bytes : List UInt8) : ofBytes bytes < 256 ^ bytes.length := by
  induction bytes with
  | nil => simp [ofBytes]
  | cons b bs ih =>
      have hb : b.toNat < 256 := b.toNat_lt
      rw [ofBytes, List.length_cons, pow_succ']
      omega

theorem toBytes_ofBytes (bytes : List UInt8) : toBytes bytes.length (ofBytes bytes) = bytes := by
  induction bytes with
  | nil => rfl
  | cons b bs ih =>
      have hb : b.toNat < 256 := b.toNat_lt
      have hlow : UInt8.ofNat (b.toNat + 256 * ofBytes bs) = b := by
        rw [← UInt8.toNat_inj, UInt8.toNat_ofNat']
        omega
      have hhigh : (b.toNat + 256 * ofBytes bs) / 256 = ofBytes bs := by omega
      rw [List.length_cons, ofBytes, toBytes, hlow, hhigh, ih]

def toInt32 (n : Nat) : Int := if n < 2147483648 then n else (n : Int) - 4294967296

/-- Read `k` bytes at an offset, if the buffer holds them. -/
def read (k : Nat) (src : List UInt8) (offset : Nat) : Option Nat :=
  if offset + k > src.length then none else some (ofBytes ((src.drop offset).take k))

theorem read_append (k : Nat) (before bytes after : List UInt8) (offset : Nat)
    (hlen : offset + k ≤ bytes.length) :
    read k (before ++ bytes ++ after) (before.length + offset) = read k bytes offset := by
  have hbig : ¬ before.length + offset + k > (before ++ bytes ++ after).length := by
    simp only [List.length_append]
    omega
  rw [read, read, if_neg hbig, if_neg (by omega), List.append_assoc, ← List.drop_drop,
    List.drop_left, List.drop_append_of_le_length (by omega),
    List.take_append_of_le_length (by simp only [List.length_drop]; omega)]

end OpcUa.LittleEndian
