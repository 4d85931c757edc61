import Mathlib

/-!
Aligned blocks of `w`-bit words: the words that agree with `x` on their `n` highest bits, as a
mask of those bits compares them (`x &&& mask w n`). With `k = w - n` host bits, a block is the
interval from its base `x / 2^k * 2^k` to the base plus `2^k - 1`, and two blocks that share a
word are nested, the one with fewer network bits around the other.
-/

namespace PrefixBlock

variable {w : Nat}

/-- The `n` highest of `w` bits. -/
def mask (w n : Nat) : BitVec w := BitVec.allOnes w <<< (w - n)

theorem getLsbD_mask (n i : Nat) : (mask w n).getLsbD i = (decide (i < w) && decide (w - n ≤ i)) := by
  rw [mask, BitVec.getLsbD_shiftLeft, BitVec.getLsbD_allOnes]
  by_cases hi : i < w
  · by_cases hk : w - n ≤ i
    · simp [hi, hk, show i - (w - n) < w by omega]
    · rw [decide_eq_true (show i < w - n by omega), decide_eq_false hk]
      simp
  · simp [hi]

/-- Masking clears the `w - n` low bits. -/
theorem and_mask (x : BitVec w) (n : Nat) : x &&& mask w n = x >>> (w - n) <<< (w - n) := by
  apply BitVec.eq_of_getLsbD_eq
  intro i hi
  rw [BitVec.getLsbD_and, getLsbD_mask, BitVec.getLsbD_shiftLeft, BitVec.getLsbD_ushiftRight]
  by_cases hk : w - n ≤ i
  · simp [hi, hk, show w - n + (i - (w - n)) = i by omega]
  · simp [hi, hk, show i < w - n by omega]

theorem toNat_and_mask (x : BitVec w) (n : Nat) :
    (x &&& mask w n).toNat = x.toNat / 2 ^ (w - n) * 2 ^ (w - n) := by
  have hle : x.toNat / 2 ^ (w - n) * 2 ^ (w - n) ≤ x.toNat := Nat.div_mul_le_self _ _
  rw [and_mask, BitVec.toNat_shiftLeft, BitVec.toNat_ushiftRight, Nat.shiftRight_eq_div_pow,
    Nat.shiftLeft_eq, Nat.mod_eq_of_lt (Nat.lt_of_le_of_lt hle x.isLt)]

/-- Two words are in one block exactly when they agree above the host bits. -/
theorem and_mask_eq_iff (x y : BitVec w) (n : Nat) :
    x &&& mask w n = y &&& mask w n ↔ x.toNat / 2 ^ (w - n) = y.toNat / 2 ^ (w - n) := by
  rw [← BitVec.toNat_inj, toNat_and_mask, toNat_and_mask]
  exact Nat.mul_left_inj (Nat.two_pow_pos _).ne'

/-- The block of `x` is the interval from its base to the base plus `2^k - 1`. -/
theorem and_mask_eq_iff_mem (x y : BitVec w) (n : Nat) :
    y &&& mask w n = x &&& mask w n ↔
      (x &&& mask w n).toNat ≤ y.toNat ∧ y.toNat ≤ (x &&& mask w n).toNat + 2 ^ (w - n) - 1 := by
  rw [and_mask_eq_iff, toNat_and_mask]
  exact Nat.div_eq_iff (Nat.two_pow_pos _)

/-- A block with more network bits lies inside the one with fewer around any of its words. -/
theorem and_mask_eq_of_le {n₁ n₂ : Nat} (h : n₁ ≤ n₂) {x y : BitVec w}
    (hxy : x &&& mask w n₂ = y &&& mask w n₂) : x &&& mask w n₁ = y &&& mask w n₁ := by
  rw [and_mask_eq_iff] at hxy ⊢
  have hsplit : 2 ^ (w - n₁) = 2 ^ (w - n₂) * 2 ^ ((w - n₁) - (w - n₂)) := by
    rw [← Nat.pow_add]
    congr 1
    omega
  rw [hsplit, ← Nat.div_div_eq_div_mul, ← Nat.div_div_eq_div_mul, hxy]

/-- The base plus the size of the block less one, in wrapping arithmetic, is the block's last
word: at `n = 0` the size shifts out to zero and the subtraction wraps to all ones. -/
theorem toNat_last (x : BitVec w) {n : Nat} (hn : n ≤ w) :
    ((x &&& mask w n) + 1#w <<< (w - n) - 1#w).toNat = (x &&& mask w n).toNat + 2 ^ (w - n) - 1 := by
  have hbase := toNat_and_mask x n
  have hq : x.toNat / 2 ^ (w - n) < 2 ^ n := by
    rw [Nat.div_lt_iff_lt_mul (Nat.two_pow_pos _), ← Nat.pow_add, show n + (w - n) = w by omega]
    exact x.isLt
  have hfit : (x &&& mask w n).toNat + 2 ^ (w - n) ≤ 2 ^ w := by
    have hmul := Nat.mul_le_mul_right (2 ^ (w - n)) (Nat.succ_le_of_lt hq)
    rw [Nat.succ_mul, ← Nat.pow_add, show n + (w - n) = w by omega] at hmul
    omega
  have hpos := Nat.two_pow_pos (w - n)
  rcases Nat.eq_zero_or_pos w with rfl | hw
  · have h0 := (x &&& mask 0 n).isLt
    simp only [Nat.pow_zero] at h0 hfit ⊢
    omega
  have hone : (1#w).toNat = 1 := by
    rw [BitVec.toNat_ofNat, Nat.mod_eq_of_lt (Nat.one_lt_two_pow (by omega))]
  rw [BitVec.toNat_sub, BitVec.toNat_add, BitVec.toNat_shiftLeft, hone, Nat.shiftLeft_eq, Nat.one_mul]
  rcases Nat.eq_zero_or_pos n with rfl | hn0
  · -- the whole space: the size `2^w` is zero as a word, and the last word is all ones
    rw [Nat.sub_zero, Nat.mod_self, Nat.add_zero] at *
    have hz : (x &&& mask w 0).toNat = 0 := by
      have hlt : x.toNat / 2 ^ w = 0 := Nat.div_eq_of_lt x.isLt
      rw [hbase, hlt, Nat.zero_mul]
    rw [hz, Nat.zero_mod, Nat.add_zero, Nat.mod_eq_of_lt (by omega)]
    omega
  · have hlt : 2 ^ (w - n) < 2 ^ w := Nat.pow_lt_pow_right (by decide) (by omega)
    rw [Nat.mod_eq_of_lt hlt]
    by_cases hend : (x &&& mask w n).toNat + 2 ^ (w - n) = 2 ^ w
    · rw [hend, Nat.mod_self, Nat.add_zero, Nat.mod_eq_of_lt (by omega)]
    · have hwrap : 2 ^ w - 1 + ((x &&& mask w n).toNat + 2 ^ (w - n)) =
          ((x &&& mask w n).toNat + 2 ^ (w - n) - 1) + 2 ^ w := by omega
      rw [Nat.mod_eq_of_lt (show (x &&& mask w n).toNat + 2 ^ (w - n) < 2 ^ w by omega), hwrap,
        Nat.add_mod_right, Nat.mod_eq_of_lt (by omega)]

end PrefixBlock
