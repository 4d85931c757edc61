import Mathlib

/-!
32-bit words used as packed fields and as wrapping counters: a value shifted up over a two-bit
tag, a flag in the top bit, the two's-complement reading of a difference, and a counter that
runs modulo `g * c` read as a generation `k / c` and a slot `k % c`.
-/

namespace Word32

section Bits

theorem toNat_shiftRight_two (x : UInt32) : (x >>> 2).toNat = x.toNat / 4 := by
  rw [UInt32.toNat_shiftRight, Nat.shiftRight_eq_div_pow]
  rfl

theorem toNat_and_three (x : UInt32) : (x &&& 3).toNat = x.toNat % 4 := by
  rw [UInt32.toNat_and, show (3 : UInt32).toNat = 2 ^ 2 - 1 from rfl, Nat.and_two_pow_sub_one_eq_mod]

/-- A value below `2 ^ 30` shifted over a tag below `4`: the two fields side by side. -/
theorem toNat_pack {g s : UInt32} (hg : g.toNat < 2 ^ 30) (hs : s.toNat < 4) :
    ((g <<< 2) ||| s).toNat = g.toNat * 4 + s.toNat := by
  have hshift : (g <<< 2).toNat = g.toNat <<< 2 := by
    rw [UInt32.toNat_shiftLeft, show (2 : UInt32).toNat % 32 = 2 from rfl, Nat.shiftLeft_eq]
    exact Nat.mod_eq_of_lt (by omega)
  rw [UInt32.toNat_or, hshift, ← Nat.shiftLeft_add_eq_or_of_lt (by simpa using hs), Nat.shiftLeft_eq]

theorem pack_shiftRight {g s : UInt32} (hg : g.toNat < 2 ^ 30) (hs : s.toNat < 4) :
    ((g <<< 2) ||| s) >>> 2 = g := by
  apply UInt32.toNat_inj.mp
  rw [toNat_shiftRight_two, toNat_pack hg hs]
  omega

theorem pack_and_three {g s : UInt32} (hg : g.toNat < 2 ^ 30) (hs : s.toNat < 4) :
    ((g <<< 2) ||| s) &&& 3 = s := by
  apply UInt32.toNat_inj.mp
  rw [toNat_and_three, toNat_pack hg hs]
  omega

theorem pack_inj {g g' s s' : UInt32} (hg : g.toNat < 2 ^ 30) (hg' : g'.toNat < 2 ^ 30) (hs : s.toNat < 4)
    (hs' : s'.toNat < 4) : (g <<< 2) ||| s = (g' <<< 2) ||| s' ↔ g = g' ∧ s = s' := by
  constructor
  · intro h
    have hn := congrArg UInt32.toNat h
    rw [toNat_pack hg hs, toNat_pack hg' hs'] at hn
    exact ⟨UInt32.toNat_inj.mp (by omega), UInt32.toNat_inj.mp (by omega)⟩
  · rintro ⟨rfl, rfl⟩
    rfl

theorem and_top_ne_zero_iff (x : UInt32) : x &&& (1 : UInt32) <<< 31 ≠ 0 ↔ 2 ^ 31 ≤ x.toNat := by
  have htop : ((1 : UInt32) <<< 31).toNat = 2 ^ 31 := rfl
  have hbit : x.toNat &&& 2 ^ 31 = (x.toNat.testBit 31).toNat * 2 ^ 31 := Nat.and_two_pow _ _
  have hlt := x.toNat_lt
  rw [ne_eq, ← UInt32.toNat_inj, UInt32.toNat_and, htop, hbit, Nat.testBit_eq_decide_div_mod_eq]
  by_cases h : x.toNat / 2 ^ 31 % 2 = 1
  · simp only [h, decide_true, Bool.toNat_true, one_mul]
    constructor
    · intro _
      omega
    · intro _
      decide
  · simp only [h, decide_false, Bool.toNat_false, zero_mul]
    constructor
    · intro h0
      exact absurd rfl h0
    · intro hle
      omega

theorem toNat_or_top {x : UInt32} (hx : x.toNat < 2 ^ 31) : (x ||| (1 : UInt32) <<< 31).toNat = x.toNat + 2 ^ 31 := by
  have htop : ((1 : UInt32) <<< 31).toNat = 1 <<< 31 := rfl
  rw [UInt32.toNat_or, htop, Nat.lor_comm, ← Nat.shiftLeft_add_eq_or_of_lt hx, Nat.shiftLeft_eq]
  omega

theorem toNat_and_not_top (x : UInt32) : (x &&& ~~~((1 : UInt32) <<< 31)).toNat = x.toNat % 2 ^ 31 := by
  have hmask : (~~~((1 : UInt32) <<< 31)).toNat = 2 ^ 31 - 1 := rfl
  rw [UInt32.toNat_and, hmask, Nat.and_two_pow_sub_one_eq_mod]

end Bits

section Signed

/-- The two's-complement value of a 32-bit word, as a conversion to a signed 32-bit type gives it. -/
def signed (x : UInt32) : Int := if x.toNat < 2 ^ 31 then x.toNat else (x.toNat : Int) - 2 ^ 32

/-- The difference of two words below `2 ^ 31`, read as signed, is their difference. -/
theorem signed_sub {a b : UInt32} (ha : a.toNat < 2 ^ 31) (hb : b.toNat < 2 ^ 31) :
    signed (a - b) = (a.toNat : Int) - b.toNat := by
  unfold signed
  rw [UInt32.toNat_sub]
  split_ifs with h <;> omega

theorem signed_of_lt {x : UInt32} (hx : x.toNat < 2 ^ 31) : signed x = x.toNat := by
  unfold signed
  rw [if_pos hx]

end Signed

section Counter

variable {g c : Nat}

/-- Moving a counter modulo `g * c` on by `c` keeps its slot. -/
theorem add_mod_mul_mod (a : Nat) : (a + c) % (g * c) % c = a % c := by
  rw [Nat.mod_mul_left_mod, Nat.add_mod_right]

/-- The generation of a counter modulo `g * c` is its quotient by `c`, modulo `g`. -/
theorem mod_mul_div (a : Nat) : a % (g * c) / c = a / c % g := by
  rw [Nat.mul_comm, Nat.mod_mul_right_div_self]

/-- Moving a counter modulo `g * c` on by `c` moves its generation on by one, modulo `g`. -/
theorem add_mod_mul_div (hc : 0 < c) (a : Nat) : (a + c) % (g * c) / c = (a / c + 1) % g := by
  rw [mod_mul_div, Nat.add_div_right _ hc]

end Counter

end Word32
