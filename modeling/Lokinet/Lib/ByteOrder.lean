import Lokinet.Lib.Bytes
import Lokinet.Lib.DoubleWord

/-!
Byte strings of one length compared as `std::array` compares them, lexicographically, are
compared as the big-endian numbers they hold. The largest such number is the string of `0xff`
bytes and no other.
-/

namespace BigEndian

theorem foldl_value (acc : Nat) (bs : List UInt8) :
    bs.foldl (fun acc x => acc * 256 + x.toNat) acc = acc * 256 ^ bs.length + value bs := by
  induction bs generalizing acc with
  | nil => simp [value]
  | cons x bs ih =>
    have hv : value (x :: bs) = (0 * 256 + x.toNat) * 256 ^ bs.length + value bs := ih _
    rw [List.foldl_cons, ih, hv, List.length_cons, Nat.pow_succ]
    ring

theorem value_cons (x : UInt8) (bs : List UInt8) :
    value (x :: bs) = x.toNat * 256 ^ bs.length + value bs := by
  rw [value, List.foldl_cons, foldl_value]
  simp

/-- Lexicographic order on strings of one length is the order of their values. -/
theorem lt_iff_value_lt : ∀ {a b : List UInt8}, a.length = b.length → (a < b ↔ value a < value b)
  | [], [], _ => by simp [value]
  | x :: xs, y :: ys, h => by
    have hlen : xs.length = ys.length := by simpa using h
    have hx := value_lt xs
    have hy := value_lt ys
    rw [List.cons_lt_cons_iff, value_cons, value_cons, hlen,
      DoubleWord.mul_add_lt_mul_add_iff (hlen ▸ hx) hy, lt_iff_value_lt hlen, UInt8.lt_iff_toNat_lt,
      ← UInt8.toNat_inj]

theorem value_replicate_ff (n : Nat) : value (List.replicate n 0xff) = 256 ^ n - 1 := by
  induction n with
  | zero => simp [value]
  | succ n ih =>
    rw [List.replicate_succ, value_cons, ih, List.length_replicate, Nat.pow_succ]
    have hpos := Nat.two_pow_pos (8 * n)
    have h256 : (256 : Nat) ^ n = 2 ^ (8 * n) := by rw [Nat.pow_mul]
    simp only [UInt8.toNat_ofNat, h256]
    omega

/-- Only the string of `0xff` bytes holds the largest value of its length. -/
theorem value_eq_max_iff : ∀ {bs : List UInt8},
    value bs = 256 ^ bs.length - 1 ↔ bs = List.replicate bs.length 0xff
  | [] => by simp [value]
  | x :: xs => by
    have hx := x.toNat_lt
    have hxs := value_lt xs
    have hpos : 0 < 256 ^ xs.length := Nat.pow_pos (by decide)
    rw [value_cons, List.length_cons, List.replicate_succ, List.cons.injEq, ← value_eq_max_iff,
      ← UInt8.toNat_inj, UInt8.toNat_ofNat, Nat.pow_succ]
    constructor
    · intro h
      -- the top byte is at most `0xff` and the rest below `256 ^ n`, so both are at their maximum
      have hle : x.toNat * 256 ^ xs.length ≤ 255 * 256 ^ xs.length :=
        Nat.mul_le_mul_right _ (by omega)
      have hge : 255 * 256 ^ xs.length ≤ x.toNat * 256 ^ xs.length := by
        rw [show 256 ^ xs.length * 256 = 255 * 256 ^ xs.length + 256 ^ xs.length by ring] at h
        omega
      have htop : x.toNat = 255 := by
        have := Nat.le_of_mul_le_mul_right hge hpos
        omega
      refine ⟨by simpa using htop, ?_⟩
      rw [htop] at h
      rw [show 256 ^ xs.length * 256 = 255 * 256 ^ xs.length + 256 ^ xs.length by ring] at h
      omega
    · rintro ⟨htop, hrest⟩
      rw [show x.toNat = 255 by simpa using htop, hrest]
      rw [show 256 ^ xs.length * 256 = 255 * 256 ^ xs.length + 256 ^ xs.length by ring]
      omega

end BigEndian
