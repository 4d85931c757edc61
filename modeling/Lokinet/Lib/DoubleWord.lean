import Mathlib

/-!
A word of width `w + w` kept as its upper and lower halves, `u ++ l`. Addition carries out of
the lower half exactly when the lower sum wraps below an addend, subtraction borrows exactly when
the lower subtrahend is the larger, a shift moves bits across the halves by one of three rules
(below a half, exactly a half, above it), and the order is the lexicographic order of the halves.
-/

namespace DoubleWord

variable {w : Nat}

theorem toNat_append_eq (u l : BitVec w) : (u ++ l).toNat = u.toNat * 2 ^ w + l.toNat := by
  rw [BitVec.toNat_append, ← Nat.shiftLeft_add_eq_or_of_lt l.isLt, Nat.shiftLeft_eq]

/-- A number below `M * M` split at `M`. -/
theorem mul_add_mod_mul_self {M : Nat} (q r : Nat) (hM : 0 < M) :
    (q * M + r) % (M * M) = (q + r / M) % M * M + r % M := by
  have hdiv : (q * M + r) / M = q + r / M := by
    rw [Nat.add_comm, Nat.add_mul_div_right r q hM, Nat.add_comm]
  have hmod : (q * M + r) % M = r % M := by
    rw [Nat.add_comm, Nat.add_mul_mod_self_right]
  rw [Nat.mod_mul, hdiv, hmod, Nat.mul_comm M, Nat.add_comm]

/-- The lower sum wraps below an addend exactly when it carries. -/
theorem add_lt_right_iff (a b : BitVec w) : a + b < b ↔ 2 ^ w ≤ a.toNat + b.toNat := by
  have ha := a.isLt
  have hb := b.isLt
  rw [BitVec.lt_def, BitVec.toNat_add]
  constructor
  · intro h
    by_contra hc
    rw [Nat.mod_eq_of_lt (by omega)] at h
    omega
  · intro h
    rw [Nat.mod_eq_sub_mod h, Nat.mod_eq_of_lt (by omega)]
    omega

/-- The carry out of the lower half. -/
theorem carry_eq (a b : BitVec w) : (a.toNat + b.toNat) / 2 ^ w = if a + b < b then 1 else 0 := by
  have ha := a.isLt
  have hb := b.isLt
  by_cases hc : a + b < b
  · rw [if_pos hc]
    have hle := (add_lt_right_iff a b).mp hc
    exact Nat.div_eq_of_lt_le (by omega) (by omega)
  · rw [if_neg hc]
    have hlt : a.toNat + b.toNat < 2 ^ w := by
      have := (add_lt_right_iff a b).not.mp hc
      omega
    exact Nat.div_eq_of_lt hlt

/-- `operator+=`: the upper halves are added to the carry out of the lower ones. -/
theorem append_add_append (u₁ l₁ u₂ l₂ : BitVec w) :
    (u₁ ++ l₁) + (u₂ ++ l₂) = ((if l₁ + l₂ < l₂ then u₁ + 1 else u₁) + u₂) ++ (l₁ + l₂) := by
  apply BitVec.eq_of_toNat_eq
  have hsum : (u₁ ++ l₁).toNat + (u₂ ++ l₂).toNat =
      (u₁.toNat + u₂.toNat) * 2 ^ w + (l₁.toNat + l₂.toNat) := by
    rw [toNat_append_eq, toNat_append_eq]
    ring
  rw [BitVec.toNat_add, hsum, Nat.pow_add, mul_add_mod_mul_self _ _ (Nat.two_pow_pos w), carry_eq,
    toNat_append_eq, BitVec.toNat_add l₁]
  congr 2
  by_cases hc : l₁ + l₂ < l₂
  · have h1 : (1 : BitVec w).toNat = 1 % 2 ^ w := BitVec.toNat_ofNat 1 w
    rw [if_pos hc, if_pos hc, BitVec.toNat_add, BitVec.toNat_add, h1, Nat.add_mod_mod,
      Nat.mod_add_mod, Nat.add_right_comm]
  · rw [if_neg hc, if_neg hc, BitVec.toNat_add, Nat.add_zero]

/-- Subtraction borrows from the upper half when the lower subtrahend is the larger. -/
theorem append_sub_append (u₁ l₁ u₂ l₂ : BitVec w) :
    (u₁ ++ l₁) - (u₂ ++ l₂) = ((if l₂ > l₁ then u₁ - 1 else u₁) - u₂) ++ (l₁ - l₂) := by
  rw [sub_eq_iff_eq_add, append_add_append, sub_add_cancel]
  by_cases hb : l₁ < l₂
  · rw [if_pos hb, if_pos hb]
    congr 1
    ring
  · rw [if_neg hb, if_neg hb]
    congr 1
    ring

theorem mul_add_lt_mul_add_iff {M a b c d : Nat} (hb : b < M) (hd : d < M) :
    a * M + b < c * M + d ↔ a < c ∨ (a = c ∧ b < d) := by
  constructor
  · intro h
    rcases Nat.lt_trichotomy a c with hac | rfl | hca
    · exact .inl hac
    · exact .inr ⟨rfl, by omega⟩
    · have hle := Nat.mul_le_mul_right M (Nat.succ_le_of_lt hca)
      rw [Nat.succ_mul] at hle
      omega
  · rintro (hac | ⟨rfl, hbd⟩)
    · have hle := Nat.mul_le_mul_right M (Nat.succ_le_of_lt hac)
      rw [Nat.succ_mul] at hle
      omega
    · omega

/-- The order on double words is lexicographic on the halves. -/
theorem append_lt_append_iff (u₁ l₁ u₂ l₂ : BitVec w) :
    u₁ ++ l₁ < u₂ ++ l₂ ↔ u₁ < u₂ ∨ (u₁ = u₂ ∧ l₁ < l₂) := by
  rw [BitVec.lt_def, toNat_append_eq, toNat_append_eq, mul_add_lt_mul_add_iff l₁.isLt l₂.isLt,
    BitVec.lt_def, BitVec.lt_def, BitVec.toNat_eq]

theorem mul_add_le_mul_add_iff {M a b c d : Nat} (hb : b < M) (hd : d < M) :
    a * M + b ≤ c * M + d ↔ a < c ∨ (a = c ∧ b ≤ d) := by
  rw [← Nat.not_lt, mul_add_lt_mul_add_iff hd hb]
  omega

theorem append_le_append_iff (u₁ l₁ u₂ l₂ : BitVec w) :
    u₁ ++ l₁ ≤ u₂ ++ l₂ ↔ u₁ < u₂ ∨ (u₁ = u₂ ∧ l₁ ≤ l₂) := by
  rw [BitVec.le_def, toNat_append_eq, toNat_append_eq, mul_add_le_mul_add_iff l₁.isLt l₂.isLt,
    BitVec.lt_def, BitVec.le_def, BitVec.toNat_eq]

theorem append_inj_iff (u₁ l₁ u₂ l₂ : BitVec w) : u₁ ++ l₁ = u₂ ++ l₂ ↔ u₁ = u₂ ∧ l₁ = l₂ := by
  constructor
  · intro h
    have hle := (mul_add_le_mul_add_iff l₁.isLt l₂.isLt).mp
      (by rw [← toNat_append_eq, ← toNat_append_eq, h])
    have hge := (mul_add_le_mul_add_iff l₂.isLt l₁.isLt).mp
      (by rw [← toNat_append_eq, ← toNat_append_eq, h])
    rw [BitVec.toNat_eq, BitVec.toNat_eq]
    omega
  · rintro ⟨rfl, rfl⟩
    rfl

theorem one_eq_append (hw : 0 < w) : (1 : BitVec (w + w)) = (0 : BitVec w) ++ (1 : BitVec w) := by
  have h₁ : 1 < 2 ^ w := Nat.one_lt_two_pow (by omega)
  have h₂ : 1 < 2 ^ (w + w) := Nat.one_lt_two_pow (by omega)
  apply BitVec.eq_of_toNat_eq
  simp [Nat.mod_eq_of_lt h₁, Nat.mod_eq_of_lt h₂]

/-- Adding one carries into the upper half exactly when the lower half wraps to zero. -/
theorem append_add_one (u l : BitVec w) :
    (u ++ l) + (1 : BitVec (w + w)) = (if l + 1 = 0 then u + 1 else u) ++ (l + 1) := by
  rcases Nat.eq_zero_or_pos w with rfl | hw
  · exact @Subsingleton.elim (BitVec 0) _ _ _
  · rw [one_eq_append hw, append_add_append, add_zero]
    congr 2
    exact propext (BitVec.lt_one_iff hw)

/-- A shift by less than a half moves the top bits of the lower half into the upper one. -/
theorem append_shiftLeft_of_lt {s : Nat} (u l : BitVec w) (h0 : 0 < s) (h : s < w) :
    (u ++ l) <<< s = (u <<< s ||| l >>> (w - s)) ++ l <<< s := by
  apply BitVec.eq_of_getLsbD_eq
  intro i hi
  simp only [BitVec.getLsbD_append, BitVec.getLsbD_or, BitVec.getLsbD_shiftLeft, BitVec.getLsbD_ushiftRight]
  by_cases hlow : i < w
  · simp [hlow, show i < w + w by omega, show i - s < w by omega]
  · rw [if_neg hlow, show w - s + (i - w) = i - s by omega]
    by_cases hmid : i < w + s
    · simp [show i - s < w by omega, show i < w + w by omega, show ¬ i < s by omega, show i - w < s by omega]
    · rw [BitVec.getLsbD_of_ge l (i - s) (by omega), show i - w - s = i - s - w by omega]
      simp [show ¬ i - s < w by omega, show i < w + w by omega, show ¬ i < s by omega, show i - w < w by omega,
        show ¬ i - w < s by omega]

theorem append_shiftLeft_self (u l : BitVec w) : (u ++ l) <<< w = l ++ 0#w := by
  apply BitVec.eq_of_getLsbD_eq
  intro i hi
  simp only [BitVec.getLsbD_append, BitVec.getLsbD_shiftLeft]
  by_cases hlow : i < w
  · simp [hlow]
  · simp [hlow, show i - w < w by omega, show i < w + w by omega]

theorem append_shiftLeft_of_gt {s : Nat} (u l : BitVec w) (h1 : w < s) (h2 : s < w + w) :
    (u ++ l) <<< s = l <<< (s - w) ++ 0#w := by
  apply BitVec.eq_of_getLsbD_eq
  intro i hi
  simp only [BitVec.getLsbD_append, BitVec.getLsbD_shiftLeft]
  by_cases hlow : i < w
  · simp [hlow, show i < s by omega]
  · rw [show i - w - (s - w) = i - s by omega]
    simp [hlow, show i - s < w by omega, show i < w + w by omega, show i - w < w by omega,
      show (i - w < s - w) = (i < s) from propext (by omega)]

/-- A shift by less than a half moves the low bits of the upper half into the lower one. -/
theorem append_ushiftRight_of_lt {s : Nat} (u l : BitVec w) (h0 : 0 < s) (h : s < w) :
    (u ++ l) >>> s = u >>> s ++ (l >>> s ||| u <<< (w - s)) := by
  apply BitVec.eq_of_getLsbD_eq
  intro i hi
  simp only [BitVec.getLsbD_append, BitVec.getLsbD_or, BitVec.getLsbD_shiftLeft, BitVec.getLsbD_ushiftRight]
  by_cases hlow : i < w
  · rw [if_pos hlow]
    by_cases hin : s + i < w
    · simp [hin, show i < w - s by omega]
    · rw [if_neg hin, BitVec.getLsbD_of_ge l (s + i) (by omega), show i - (w - s) = s + i - w by omega]
      simp [hlow, show ¬ i < w - s by omega]
  · rw [if_neg hlow, if_neg (by omega), show s + (i - w) = s + i - w by omega]

theorem append_ushiftRight_self (u l : BitVec w) : (u ++ l) >>> w = 0#w ++ u := by
  apply BitVec.eq_of_getLsbD_eq
  intro i hi
  simp only [BitVec.getLsbD_append, BitVec.getLsbD_ushiftRight]
  by_cases hlow : i < w
  · simp [hlow]
  · rw [if_neg (by omega), if_neg hlow, show w + i - w = i by omega, BitVec.getLsbD_of_ge u i (by omega)]
    simp

theorem append_ushiftRight_of_gt {s : Nat} (u l : BitVec w) (h1 : w < s) :
    (u ++ l) >>> s = 0#w ++ u >>> (s - w) := by
  apply BitVec.eq_of_getLsbD_eq
  intro i hi
  simp only [BitVec.getLsbD_append, BitVec.getLsbD_ushiftRight]
  by_cases hlow : i < w
  · rw [if_neg (by omega), if_pos hlow, show s + i - w = s - w + i by omega]
  · rw [if_neg (by omega), if_neg hlow, BitVec.getLsbD_of_ge u (s + i - w) (by omega)]
    simp

/-! ## Shifts of a 64-bit half

A shift of a `UInt64` takes its distance modulo 64; the distances below are already in range. -/

section Words

theorem toBitVec_shiftLeft_of_lt {x n : UInt64} (h : n.toNat < 64) :
    (x <<< n).toBitVec = x.toBitVec <<< n.toNat := by
  rw [UInt64.toBitVec_shiftLeft, BitVec.shiftLeft_eq', BitVec.toNat_umod, UInt64.toNat_toBitVec]
  simp [Nat.mod_eq_of_lt h]

theorem toBitVec_shiftRight_of_lt {x n : UInt64} (h : n.toNat < 64) :
    (x >>> n).toBitVec = x.toBitVec >>> n.toNat := by
  rw [UInt64.toBitVec_shiftRight, BitVec.ushiftRight_eq', BitVec.toNat_umod, UInt64.toNat_toBitVec]
  simp [Nat.mod_eq_of_lt h]

variable {s : UInt64}

theorem toNat_pos_of_ne (h0 : ¬ s = 0) : 0 < s.toNat := by
  rw [Nat.pos_iff_ne_zero, Ne, ← UInt64.toNat_zero, UInt64.toNat_inj]
  exact h0

theorem toNat_sixtyFour_sub (h64 : s < 64) : (64 - s).toNat = 64 - s.toNat := by
  rw [UInt64.toNat_sub_of_le _ _ (UInt64.le_of_lt h64)]
  rfl

theorem sixtyFour_lt_toNat (h64 : ¬ s < 64) (heq : ¬ s = 64) : 64 < s.toNat := by
  have hne : s.toNat ≠ 64 := fun h => heq (UInt64.toNat_inj.mp h)
  have hge : 64 ≤ s.toNat := Nat.le_of_not_lt fun h => h64 (UInt64.lt_iff_toNat_lt.mpr h)
  omega

theorem toNat_sub_sixtyFour (hgt : 64 < s.toNat) : (s - 64).toNat = s.toNat - 64 := by
  have hle : (64 : UInt64) ≤ s := UInt64.le_iff_toNat_le.mpr (Nat.le_of_lt hgt)
  rw [UInt64.toNat_sub_of_le _ _ hle]
  rfl

end Words

end DoubleWord
