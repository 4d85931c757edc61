import Mathlib

/-!
A bit set of fixed width with the accesses of a standard fixed-size bit set: `set` and `test`
reject a position past the width (the standard one throws `std::out_of_range`, here `none`),
`ofNat` keeps the low bits of a number and `toNat` reads them back.
-/

structure Bitset (n : Nat) where
  bits : BitVec n
  deriving DecidableEq, Repr

namespace Bitset

variable {n : Nat}

def empty : Bitset n := ⟨0⟩

/-- The bit set holding the low `n` bits of `v`. -/
def ofNat (n v : Nat) : Bitset n := ⟨BitVec.ofNat n v⟩

def toNat (b : Bitset n) : Nat := b.bits.toNat

/-- The bit at `pos`, or `none` past the width. -/
def test (b : Bitset n) (pos : Nat) : Option Bool :=
  if pos < n then some (b.bits.getLsbD pos) else none

/-- The set with the bit at `pos` set, or `none` past the width. -/
def set (b : Bitset n) (pos : Nat) : Option (Bitset n) :=
  if pos < n then some ⟨b.bits ||| BitVec.twoPow n pos⟩ else none

theorem test_isSome_iff (b : Bitset n) (pos : Nat) : (b.test pos).isSome ↔ pos < n := by
  unfold test
  split <;> simp_all

theorem set_isSome_iff (b : Bitset n) (pos : Nat) : (b.set pos).isSome ↔ pos < n := by
  unfold set
  split <;> simp_all

theorem test_eq_none {b : Bitset n} {pos : Nat} (h : n ≤ pos) : b.test pos = none := by
  simp [test, Nat.not_lt.mpr h]

theorem set_eq_none {b : Bitset n} {pos : Nat} (h : n ≤ pos) : b.set pos = none := by
  simp [set, Nat.not_lt.mpr h]

theorem set_of_lt (b : Bitset n) {pos : Nat} (h : pos < n) :
    b.set pos = some ⟨b.bits ||| BitVec.twoPow n pos⟩ := by
  simp [set, h]

theorem test_set_self {b b' : Bitset n} {pos : Nat} (h : b.set pos = some b') :
    b'.test pos = some true := by
  unfold set at h
  split at h
  · rename_i hlt
    cases h
    simp [test, hlt]
  · cases h

theorem test_set_of_ne {b b' : Bitset n} {pos j : Nat} (h : b.set pos = some b') (hj : j ≠ pos) :
    b'.test j = b.test j := by
  unfold set at h
  split at h
  · cases h
    simp only [test, BitVec.getLsbD_or, BitVec.getLsbD_twoPow]
    split <;> simp [Ne.symm hj]
  · cases h

theorem test_empty {pos : Nat} (h : pos < n) : (empty : Bitset n).test pos = some false := by
  simp [test, empty, h]

theorem test_ofNat (v pos : Nat) :
    (ofNat n v).test pos = if pos < n then some (v.testBit pos) else none := by
  unfold test ofNat
  split
  · rename_i h
    rw [BitVec.getLsbD_ofNat]
    simp [h]
  · rfl

theorem toNat_lt (b : Bitset n) : b.toNat < 2 ^ n := b.bits.isLt

/-- A bit set goes through its number unchanged. -/
theorem ofNat_toNat (b : Bitset n) : ofNat n b.toNat = b := by
  simp [ofNat, toNat]

end Bitset
