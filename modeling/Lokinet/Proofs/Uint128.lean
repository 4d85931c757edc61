import Lokinet.Lib.DoubleWord
import Lokinet.Net.Uint128

/-!
What a `uint128_t` stands for: the 128-bit vector `upper ++ lower`, whose value is
`upper * 2^64 + lower`. Each operator of the struct computes the operation of that vector
(`toBitVec_add`, `toBitVec_shiftLeft`, ...), so on values it is arithmetic modulo `2^128`, the
shifts multiply or divide by a power of two for every distance, and the comparisons are those of
the values. The carries, borrows and shift ranges are the `DoubleWord` lemmas at width 64.
-/

namespace Lokinet.Net.Uint128

open DoubleWord

/-- The 128-bit vector a `uint128_t` stands for. -/
def toBitVec (a : Uint128) : BitVec 128 := a.upper.toBitVec ++ a.lower.toBitVec

/-- Its value. -/
def toNat (a : Uint128) : Nat := a.upper.toNat * 2 ^ 64 + a.lower.toNat

theorem toNat_toBitVec (a : Uint128) : a.toBitVec.toNat = a.toNat := toNat_append_eq _ _

theorem toBitVec_add (a b : Uint128) : (a.add b).toBitVec = a.toBitVec + b.toBitVec := by
  unfold toBitVec
  rw [append_add_append]
  by_cases hc : a.lower + b.lower < b.lower
  · have hc' : a.lower.toBitVec + b.lower.toBitVec < b.lower.toBitVec := by
      rwa [UInt64.lt_iff_toBitVec_lt, UInt64.toBitVec_add] at hc
    simp [add, hc, hc']
  · have hc' : ¬ a.lower.toBitVec + b.lower.toBitVec < b.lower.toBitVec := by
      rwa [UInt64.lt_iff_toBitVec_lt, UInt64.toBitVec_add] at hc
    simp [add, hc, hc']

theorem toBitVec_sub (a b : Uint128) : (a.sub b).toBitVec = a.toBitVec - b.toBitVec := by
  unfold toBitVec
  rw [append_sub_append]
  by_cases hb : b.lower > a.lower
  · have hb' : b.lower.toBitVec > a.lower.toBitVec := UInt64.lt_iff_toBitVec_lt.mp hb
    simp [sub, hb, hb']
  · have hb' : ¬ b.lower.toBitVec > a.lower.toBitVec := fun h => hb (UInt64.lt_iff_toBitVec_lt.mpr h)
    simp [sub, hb, hb']

theorem toBitVec_increment (a : Uint128) : a.increment.toBitVec = a.toBitVec + 1 := by
  unfold toBitVec
  rw [append_add_one]
  by_cases hz : a.lower + 1 = 0
  · have hz' : a.lower.toBitVec + 1#64 = 0#64 := by
      rw [← UInt64.toBitVec_inj] at hz
      simpa using hz
    simp [increment, hz, hz']
  · have hz' : ¬ a.lower.toBitVec + 1#64 = 0#64 := by
      rw [← UInt64.toBitVec_inj] at hz
      simpa using hz
    simp [increment, hz, hz']

theorem toBitVec_shiftLeft (a : Uint128) (s : UInt64) : (a.shiftLeft s).toBitVec = a.toBitVec <<< s.toNat := by
  unfold shiftLeft
  by_cases h0 : s = 0
  · rw [if_pos h0, h0, UInt64.toNat_zero, BitVec.shiftLeft_zero]
  have hs0 := toNat_pos_of_ne h0
  rw [if_neg h0]
  unfold toBitVec
  by_cases h64 : s < 64
  · have hs : s.toNat < 64 := UInt64.lt_iff_toNat_lt.mp h64
    rw [if_pos h64, append_shiftLeft_of_lt _ _ hs0 hs, UInt64.toBitVec_or,
      toBitVec_shiftLeft_of_lt hs, toBitVec_shiftLeft_of_lt hs,
      toBitVec_shiftRight_of_lt (by rw [toNat_sixtyFour_sub h64]; omega), toNat_sixtyFour_sub h64]
  rw [if_neg h64]
  by_cases heq : s = 64
  · rw [if_pos heq, heq, show (64 : UInt64).toNat = 64 from rfl, append_shiftLeft_self]
    rfl
  have hgt := sixtyFour_lt_toNat h64 heq
  rw [if_neg heq]
  by_cases h128 : s < 128
  · have hs : s.toNat < 128 := UInt64.lt_iff_toNat_lt.mp h128
    rw [if_pos h128, append_shiftLeft_of_gt _ _ hgt hs, toBitVec_shiftLeft_of_lt (by rw [toNat_sub_sixtyFour hgt]; omega),
      toNat_sub_sixtyFour hgt]
    rfl
  · have hs : 128 ≤ s.toNat := Nat.le_of_not_lt fun h => h128 (UInt64.lt_iff_toNat_lt.mpr h)
    rw [if_neg h128, BitVec.shiftLeft_eq_zero hs]
    rfl

theorem toBitVec_shiftRight (a : Uint128) (s : UInt64) :
    (a.shiftRight s).toBitVec = a.toBitVec >>> s.toNat := by
  unfold shiftRight
  by_cases h0 : s = 0
  · rw [if_pos h0, h0, UInt64.toNat_zero, BitVec.ushiftRight_zero]
  have hs0 := toNat_pos_of_ne h0
  rw [if_neg h0]
  unfold toBitVec
  by_cases h64 : s < 64
  · have hs : s.toNat < 64 := UInt64.lt_iff_toNat_lt.mp h64
    rw [if_pos h64, append_ushiftRight_of_lt _ _ hs0 hs, UInt64.toBitVec_or,
      toBitVec_shiftRight_of_lt hs, toBitVec_shiftRight_of_lt hs,
      toBitVec_shiftLeft_of_lt (by rw [toNat_sixtyFour_sub h64]; omega), toNat_sixtyFour_sub h64]
  rw [if_neg h64]
  by_cases heq : s = 64
  · rw [if_pos heq, heq, show (64 : UInt64).toNat = 64 from rfl, append_ushiftRight_self]
    rfl
  have hgt := sixtyFour_lt_toNat h64 heq
  rw [if_neg heq]
  by_cases h128 : s < 128
  · have hs : s.toNat < 128 := UInt64.lt_iff_toNat_lt.mp h128
    rw [if_pos h128, append_ushiftRight_of_gt _ _ hgt, toBitVec_shiftRight_of_lt (by rw [toNat_sub_sixtyFour hgt]; omega),
      toNat_sub_sixtyFour hgt]
    rfl
  · have hs : 128 ≤ s.toNat := Nat.le_of_not_lt fun h => h128 (UInt64.lt_iff_toNat_lt.mpr h)
    rw [if_neg h128, BitVec.ushiftRight_eq_zero hs]
    rfl

theorem toBitVec_and (a b : Uint128) : (a.and b).toBitVec = a.toBitVec &&& b.toBitVec := by
  unfold toBitVec
  rw [BitVec.and_append]
  rfl

theorem toBitVec_or (a b : Uint128) : (a.or b).toBitVec = a.toBitVec ||| b.toBitVec := by
  unfold toBitVec
  rw [BitVec.or_append]
  rfl

theorem toBitVec_xor (a b : Uint128) : (a.xor b).toBitVec = a.toBitVec ^^^ b.toBitVec := by
  unfold toBitVec
  rw [BitVec.xor_append]
  rfl

theorem toBitVec_not (a : Uint128) : a.not.toBitVec = ~~~a.toBitVec := by
  unfold toBitVec
  rw [BitVec.not_append]
  rfl

theorem lt_eq_true_iff (a b : Uint128) : a.lt b = true ↔ a.toBitVec < b.toBitVec := by
  unfold toBitVec
  rw [append_lt_append_iff]
  simp [lt, UInt64.lt_iff_toBitVec_lt, ← UInt64.toBitVec_inj]

theorem le_eq_true_iff (a b : Uint128) : a.le b = true ↔ a.toBitVec ≤ b.toBitVec := by
  unfold toBitVec
  rw [append_le_append_iff]
  simp [le, UInt64.lt_iff_toBitVec_lt, UInt64.le_iff_toBitVec_le, ← UInt64.toBitVec_inj]

theorem gt_eq_lt (a b : Uint128) : a.gt b = b.lt a := by
  unfold gt lt
  rw [Bool.beq_comm]

theorem ge_eq_le (a b : Uint128) : a.ge b = b.le a := by
  unfold ge le
  rw [Bool.beq_comm]


theorem beq_eq_true_iff (a b : Uint128) : a.beq b = true ↔ a.toBitVec = b.toBitVec := by
  unfold toBitVec
  rw [append_inj_iff]
  simp [beq, ← UInt64.toBitVec_inj, and_comm]

theorem bne_eq_not_beq (a b : Uint128) : a.bne b = !a.beq b := by
  unfold bne beq
  rw [Bool.not_and]
  rfl

theorem toNat_lt (a : Uint128) : a.toNat < 2 ^ 128 := by
  rw [← toNat_toBitVec]
  exact a.toBitVec.isLt

theorem toNat_add (a b : Uint128) : (a.add b).toNat = (a.toNat + b.toNat) % 2 ^ 128 := by
  rw [← toNat_toBitVec, toBitVec_add, BitVec.toNat_add, toNat_toBitVec, toNat_toBitVec]

theorem toNat_sub (a b : Uint128) : ((a.sub b).toNat : Int) = ((a.toNat : Int) - b.toNat) % 2 ^ 128 := by
  have hb := toNat_lt b
  rw [← toNat_toBitVec, toBitVec_sub, BitVec.toNat_sub, toNat_toBitVec, toNat_toBitVec]
  omega

theorem toNat_increment (a : Uint128) : a.increment.toNat = (a.toNat + 1) % 2 ^ 128 := by
  rw [← toNat_toBitVec, toBitVec_increment, BitVec.toNat_add, toNat_toBitVec]
  rfl

theorem toNat_shiftLeft (a : Uint128) (s : UInt64) : (a.shiftLeft s).toNat = a.toNat * 2 ^ s.toNat % 2 ^ 128 := by
  rw [← toNat_toBitVec, toBitVec_shiftLeft, BitVec.toNat_shiftLeft, toNat_toBitVec, Nat.shiftLeft_eq]

theorem toNat_shiftRight (a : Uint128) (s : UInt64) : (a.shiftRight s).toNat = a.toNat / 2 ^ s.toNat := by
  rw [← toNat_toBitVec, toBitVec_shiftRight, BitVec.toNat_ushiftRight, toNat_toBitVec, Nat.shiftRight_eq_div_pow]

theorem toNat_and (a b : Uint128) : (a.and b).toNat = a.toNat &&& b.toNat := by
  rw [← toNat_toBitVec, toBitVec_and, BitVec.toNat_and, toNat_toBitVec, toNat_toBitVec]

theorem toNat_or (a b : Uint128) : (a.or b).toNat = a.toNat ||| b.toNat := by
  rw [← toNat_toBitVec, toBitVec_or, BitVec.toNat_or, toNat_toBitVec, toNat_toBitVec]

theorem toNat_xor (a b : Uint128) : (a.xor b).toNat = a.toNat ^^^ b.toNat := by
  rw [← toNat_toBitVec, toBitVec_xor, BitVec.toNat_xor, toNat_toBitVec, toNat_toBitVec]

theorem toNat_not (a : Uint128) : a.not.toNat = 2 ^ 128 - 1 - a.toNat := by
  rw [← toNat_toBitVec, toBitVec_not, BitVec.toNat_not, toNat_toBitVec]

theorem lt_eq_true_iff_toNat (a b : Uint128) : a.lt b = true ↔ a.toNat < b.toNat := by
  rw [lt_eq_true_iff, BitVec.lt_def, toNat_toBitVec, toNat_toBitVec]

theorem le_eq_true_iff_toNat (a b : Uint128) : a.le b = true ↔ a.toNat ≤ b.toNat := by
  rw [le_eq_true_iff, BitVec.le_def, toNat_toBitVec, toNat_toBitVec]

theorem beq_eq_true_iff_toNat (a b : Uint128) : a.beq b = true ↔ a.toNat = b.toNat := by
  rw [beq_eq_true_iff, ← BitVec.toNat_inj, toNat_toBitVec, toNat_toBitVec]

theorem uint128_arithmetic_mod_two_pow (a b : Uint128) (s : UInt64) :
    (a.add b).toNat = (a.toNat + b.toNat) % 2 ^ 128 ∧
    ((a.sub b).toNat : Int) = ((a.toNat : Int) - b.toNat) % 2 ^ 128 ∧
    a.increment.toNat = (a.toNat + 1) % 2 ^ 128 ∧
    (a.shiftLeft s).toNat = a.toNat * 2 ^ s.toNat % 2 ^ 128 ∧
    (a.shiftRight s).toNat = a.toNat / 2 ^ s.toNat ∧
    (a.and b).toNat = a.toNat &&& b.toNat ∧ (a.or b).toNat = a.toNat ||| b.toNat ∧
    (a.xor b).toNat = a.toNat ^^^ b.toNat ∧ a.not.toNat = 2 ^ 128 - 1 - a.toNat ∧
    (a.lt b = true ↔ a.toNat < b.toNat) ∧ (a.le b = true ↔ a.toNat ≤ b.toNat) ∧
    (a.gt b = true ↔ a.toNat > b.toNat) ∧ (a.ge b = true ↔ a.toNat ≥ b.toNat) ∧
    (a.beq b = true ↔ a.toNat = b.toNat) ∧ (a.bne b = true ↔ a.toNat ≠ b.toNat) := by
  refine ⟨toNat_add a b, toNat_sub a b, toNat_increment a, toNat_shiftLeft a s, toNat_shiftRight a s,
    toNat_and a b, toNat_or a b, toNat_xor a b, toNat_not a, lt_eq_true_iff_toNat a b, le_eq_true_iff_toNat a b,
    ?_, ?_, beq_eq_true_iff_toNat a b, ?_⟩
  · rw [gt_eq_lt, lt_eq_true_iff_toNat]
  · rw [ge_eq_le, le_eq_true_iff_toNat]
  · rw [bne_eq_not_beq, Bool.not_eq_true', Bool.eq_false_iff, Ne, beq_eq_true_iff_toNat]

end Lokinet.Net.Uint128
