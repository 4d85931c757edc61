import Mathlib

/-!
Byte strings as C code sees them: copying into a window of a larger array, fixed-width
big-endian integers, and decimal numerals as `printf` writes them and `strtoull` and
`atoi` read them.
-/

namespace Window

variable {α : Type}

/-- `xs` with `ys` copied over it from index `i`, as `std::copy` or `memcpy` to `xs + i`. -/
def paste (xs : List α) (i : Nat) (ys : List α) : List α :=
  xs.take i ++ ys ++ xs.drop (i + ys.length)

theorem length_paste {xs ys : List α} {i : Nat} (h : i + ys.length ≤ xs.length) :
    (paste xs i ys).length = xs.length := by
  simp only [paste, List.length_append, List.length_take, List.length_drop]
  omega

/-- Cut just after the copy, the array is its old prefix followed by the copied bytes. -/
theorem take_paste {xs ys : List α} {i : Nat} (h : i ≤ xs.length) :
    (paste xs i ys).take (i + ys.length) = xs.take i ++ ys := by
  have hl : (xs.take i ++ ys).length = i + ys.length := by
    simp only [List.length_append, List.length_take]
    omega
  exact List.take_left' hl

theorem take_paste_of_le {xs ys : List α} {i j : Nat} (hj : j ≤ i) (h : i ≤ xs.length) :
    (paste xs i ys).take j = xs.take j := by
  have hl : j ≤ (xs.take i ++ ys).length := by
    simp only [List.length_append, List.length_take]
    omega
  rw [paste, List.take_append_of_le_length hl, List.take_append_of_le_length (by simp; omega),
    List.take_take, Nat.min_eq_left hj]

@[simp] theorem paste_nil (xs : List α) (i : Nat) : paste xs i [] = xs := by
  simp [paste]

/-- Past the copy and `k` more, the array is what followed there before. -/
theorem drop_paste_add {xs ys : List α} {i : Nat} (h : i ≤ xs.length) (k : Nat) :
    (paste xs i ys).drop (i + ys.length + k) = xs.drop (i + ys.length + k) := by
  have hli : (xs.take i ++ ys).length = i + ys.length := by simp; omega
  rw [paste, List.drop_append, hli, List.drop_eq_nil_of_le (by omega), List.nil_append,
    List.drop_drop]
  congr 1
  omega

/-- Copying `ys ++ zs` is copying `ys`, then `zs` just after it. -/
theorem paste_append {xs ys zs : List α} {i : Nat} (h : i ≤ xs.length) :
    paste xs i (ys ++ zs) = paste (paste xs i ys) (i + ys.length) zs := by
  have hl : (xs.take i ++ ys).length = i + ys.length := by simp; omega
  have ht : (paste xs i ys).take (i + ys.length) = xs.take i ++ ys := by
    rw [paste, List.take_left' hl]
  rw [paste.eq_1 (paste xs i ys), ht, drop_paste_add h, paste, List.length_append, Nat.add_assoc]
  simp only [List.append_assoc]

/-- A copy hides an earlier one at the same place that is no longer. -/
theorem paste_paste_of_length_le {xs ys zs : List α} {i : Nat} (h : i ≤ xs.length)
    (hl : ys.length ≤ zs.length) : paste (paste xs i ys) i zs = paste xs i zs := by
  have hi : (xs.take i).length = i := by simp; omega
  have hd := @drop_paste_add _ xs ys i h (zs.length - ys.length)
  rw [show i + ys.length + (zs.length - ys.length) = i + zs.length by omega] at hd
  rw [paste.eq_1 (paste xs i ys), hd, paste, List.append_assoc (xs.take i), List.take_left' hi, paste]

/-- Copying over a run of one value: what the copy leaves of the run follows it. -/
theorem paste_replicate (pre ys : List α) (n : Nat) (z : α) :
    paste (pre ++ List.replicate n z) pre.length ys =
      pre ++ ys ++ List.replicate (n - ys.length) z := by
  rw [paste, List.take_left' rfl, List.drop_append, List.drop_eq_nil_of_le (by omega),
    List.nil_append, Nat.add_sub_cancel_left, List.drop_replicate]

/-- Copying one element is setting it. -/
theorem paste_singleton {xs : List α} {i : Nat} {x : α} (h : i < xs.length) :
    paste xs i [x] = xs.set i x := by
  simp [paste, List.set_eq_take_append_cons_drop, h]

/-- From the start of the copy on, the array is the copied bytes and what followed them. -/
theorem drop_paste {xs ys : List α} {i : Nat} (h : i ≤ xs.length) :
    (paste xs i ys).drop i = ys ++ xs.drop (i + ys.length) := by
  have hl : (xs.take i).length = i := by simp; omega
  rw [paste, List.append_assoc, List.drop_left' hl]

/-- Inside the copy the array reads the copied bytes, and elsewhere what it held. -/
theorem getElem?_paste {xs ys : List α} {i : Nat} (h : i + ys.length ≤ xs.length) (j : Nat) :
    (paste xs i ys)[j]? = if i ≤ j ∧ j < i + ys.length then ys[j - i]? else xs[j]? := by
  have htake : (xs.take i).length = i := by simp; omega
  unfold paste
  by_cases hlt : j < i
  · rw [if_neg (by omega), List.append_assoc, List.getElem?_append_left (by omega),
      List.getElem?_take_of_lt hlt]
  · by_cases hin : j < i + ys.length
    · rw [if_pos ⟨by omega, hin⟩, List.getElem?_append_left (by simp; omega),
        List.getElem?_append_right (by omega), htake]
    · rw [if_neg (by omega), List.getElem?_append_right (by simp; omega), List.getElem?_drop]
      congr 1
      simp
      omega

/-- Reading from a position is reading the head of the suffix there. -/
theorem getElem?_of_drop_eq_cons {xs rest : List α} {i : Nat} {x : α}
    (h : xs.drop i = x :: rest) : xs[i]? = some x := by
  have hd := congrArg (fun l => l[0]?) h
  simpa only [List.getElem?_drop, Nat.add_zero, List.getElem?_cons_zero] using hd

theorem drop_succ_of_drop_eq_cons {xs rest : List α} {i : Nat} {x : α}
    (h : xs.drop i = x :: rest) : xs.drop (i + 1) = rest := by
  rw [← List.drop_drop, h, List.drop_one, List.tail_cons]

/-- Past a known prefix of the suffix at `i` comes what follows that prefix. -/
theorem drop_add_of_drop_eq_append {xs ys zs : List α} {i : Nat} (h : xs.drop i = ys ++ zs) :
    xs.drop (i + ys.length) = zs := by
  rw [← List.drop_drop, h, List.drop_left]

end Window

namespace BigEndian

/-- The `w` low bytes of `n`, most significant first, as `htobe16buf` and its siblings store them. -/
def bytes : Nat → Nat → List UInt8
  | 0, _ => []
  | w + 1, n => bytes w (n / 256) ++ [UInt8.ofNat n]

/-- The number whose big-endian bytes are `bs`, as `bufbe16toh` and its siblings load it. -/
def value (bs : List UInt8) : Nat :=
  bs.foldl (fun acc x => acc * 256 + x.toNat) 0

@[simp] theorem length_bytes (w n : Nat) : (bytes w n).length = w := by
  induction w generalizing n with
  | zero => rfl
  | succ w ih => simp [bytes, ih]

theorem value_snoc (bs : List UInt8) (x : UInt8) : value (bs ++ [x]) = value bs * 256 + x.toNat := by
  simp [value, List.foldl_append]

/-- Loading what was stored gives the stored number modulo the width. -/
theorem value_bytes (w n : Nat) : value (bytes w n) = n % 256 ^ w := by
  induction w generalizing n with
  | zero => simp [bytes, value, Nat.mod_one]
  | succ w ih =>
    have hb : (UInt8.ofNat n).toNat = n % 256 := UInt8.toNat_ofNat'
    have hm : n % 256 ^ (w + 1) = n % 256 + 256 * (n / 256 % 256 ^ w) := by
      rw [Nat.pow_succ', Nat.mod_mul]
    rw [bytes, value_snoc, ih, hb, hm]
    omega

theorem value_lt (bs : List UInt8) : value bs < 256 ^ bs.length := by
  induction bs using List.reverseRecOn with
  | nil => simp [value]
  | append_singleton bs x ih =>
    have hx := x.toNat_lt
    rw [value_snoc, List.length_append, List.length_singleton, Nat.pow_succ]
    omega

end BigEndian

namespace Decimal

/-- The ASCII character of the digit `d`. -/
def digit (d : Nat) : UInt8 := UInt8.ofNat (48 + d)

/-- `isdigit` in the C locale. -/
def isDigit (c : UInt8) : Bool := 48 ≤ c.toNat && c.toNat ≤ 57

/-- Digits of `n`, most significant first; `fuel` bounds the recursion. -/
def digitsAux : Nat → Nat → List UInt8
  | 0, _ => []
  | fuel + 1, n => if n < 10 then [digit n] else digitsAux fuel (n / 10) ++ [digit (n % 10)]

/-- What `printf("%zu")` and `printf("%" PRIu64)` write for `n`. -/
def decimal (n : Nat) : List UInt8 := digitsAux (n + 1) n

/-- The number a string of ASCII digits denotes. -/
def value (cs : List UInt8) : Nat :=
  cs.foldl (fun acc c => acc * 10 + (c.toNat - 48)) 0

theorem digit_toNat {d : Nat} (hd : d < 10) : (digit d).toNat = 48 + d := by
  simp only [digit, UInt8.toNat_ofNat']
  omega

theorem isDigit_digit {d : Nat} (hd : d < 10) : isDigit (digit d) = true := by
  simp only [isDigit, digit_toNat hd, Bool.and_eq_true, decide_eq_true_eq]
  omega

theorem value_snoc (cs : List UInt8) (c : UInt8) : value (cs ++ [c]) = value cs * 10 + (c.toNat - 48) := by
  simp [value, List.foldl_append]

theorem digitsAux_spec (fuel n : Nat) (hn : n < fuel) :
    (∀ c ∈ digitsAux fuel n, isDigit c = true) ∧ value (digitsAux fuel n) = n ∧
      digitsAux fuel n ≠ [] := by
  induction fuel generalizing n with
  | zero => omega
  | succ fuel ih =>
    by_cases h : n < 10
    · simp only [digitsAux, h, ↓reduceIte, List.mem_singleton, forall_eq, isDigit_digit h,
        ne_eq, List.cons_ne_self, not_false_eq_true, and_true, true_and]
      simp [value, digit_toNat h]
    · have hlt : n / 10 < fuel := by omega
      obtain ⟨hd, hv, -⟩ := ih (n / 10) hlt
      have hm : n % 10 < 10 := Nat.mod_lt _ (by decide)
      simp only [digitsAux, h, ↓reduceIte, List.mem_append, List.mem_singleton, ne_eq,
        List.append_eq_nil_iff, List.cons_ne_self, and_false, not_false_eq_true, and_true]
      refine ⟨?_, ?_⟩
      · rintro c (hc | rfl)
        · exact hd c hc
        · exact isDigit_digit hm
      · rw [value_snoc, hv, digit_toNat hm]
        omega

theorem isDigit_decimal (n : Nat) : ∀ c ∈ decimal n, isDigit c = true :=
  (digitsAux_spec (n + 1) n (by omega)).1

/-- Reading back what `printf` wrote gives the number. -/
theorem value_decimal (n : Nat) : value (decimal n) = n :=
  (digitsAux_spec (n + 1) n (by omega)).2.1

theorem decimal_ne_nil (n : Nat) : decimal n ≠ [] :=
  (digitsAux_spec (n + 1) n (by omega)).2.2

theorem length_digitsAux (fuel n k : Nat) (hk : 0 < k) (hn : n < 10 ^ k) :
    (digitsAux fuel n).length ≤ k := by
  induction fuel generalizing n k with
  | zero => simp [digitsAux]
  | succ fuel ih =>
    by_cases h : n < 10
    · simp [digitsAux, h]
      omega
    · obtain ⟨k, rfl⟩ : ∃ j, k = j + 1 := ⟨k - 1, by omega⟩
      have hk' : 0 < k := by
        rcases Nat.eq_zero_or_pos k with rfl | hpos
        · simp at hn; omega
        · exact hpos
      have hlt : n / 10 < 10 ^ k := by
        rw [Nat.pow_succ] at hn
        omega
      have := ih (n / 10) k hk' hlt
      simp only [digitsAux, h, ↓reduceIte, List.length_append, List.length_singleton]
      omega

/-- A number below `10 ^ k` takes at most `k` digits. -/
theorem length_decimal_le {n k : Nat} (hk : 0 < k) (hn : n < 10 ^ k) : (decimal n).length ≤ k :=
  length_digitsAux (n + 1) n k hk hn

/-- `isspace` in the C locale. -/
def isSpace (c : UInt8) : Bool :=
  c == 32 || (9 ≤ c && c ≤ 13)

/-- The leading digits of `cs`. -/
def leadingDigits (cs : List UInt8) : List UInt8 := cs.takeWhile isDigit

/-- The optional sign `strtoull` and `atoi` accept: whether it is a minus, and what follows. -/
def sign : List UInt8 → Bool × List UInt8
  | 43 :: rest => (false, rest)
  | 45 :: rest => (true, rest)
  | cs => (false, cs)

/-- `strtoull(s, nullptr, 10)`: leading white space, an optional sign, then digits; a value
past `ULLONG_MAX` saturates, and a minus sign negates modulo `2^64`. -/
def strtoull (cs : List UInt8) : UInt64 :=
  let (neg, rest) := sign (cs.dropWhile isSpace)
  let n := value (leadingDigits rest)
  if 2 ^ 64 ≤ n then UInt64.ofNat (2 ^ 64 - 1)
  else if neg then UInt64.ofNat (2 ^ 64 - n) else UInt64.ofNat n

/-- `atoi(s)`, for the strings of at most nine characters the bencode reader gives it,
where no overflow can happen. -/
def atoi (cs : List UInt8) : Int :=
  let (neg, rest) := sign (cs.dropWhile isSpace)
  if neg then -(value (leadingDigits rest) : Int) else value (leadingDigits rest)

/-- `std::stoi` on a `std::string` holding `cs`: `strtol` on its C string, which throws
(`none`) when no digit is read or the value does not fit an `int`. -/
def stoi (cs : List UInt8) : Option Int :=
  let (neg, rest) := sign ((cs.takeWhile (· ≠ 0)).dropWhile isSpace)
  let ds := leadingDigits rest
  let v : Int := if neg then -(value ds : Int) else value ds
  if ds = [] ∨ v < -2 ^ 31 ∨ 2 ^ 31 ≤ v then none else some v

theorem leadingDigits_of_all {cs : List UInt8} (h : ∀ c ∈ cs, isDigit c = true) :
    leadingDigits cs = cs :=
  List.takeWhile_eq_self_iff.mpr h

theorem isSpace_of_isDigit {c : UInt8} (hc : isDigit c = true) : isSpace c = false := by
  simp only [isDigit, Bool.and_eq_true, decide_eq_true_eq] at hc
  simp only [isSpace, Bool.or_eq_false_iff, beq_eq_false_iff_ne, ne_eq, Bool.and_eq_false_iff,
    decide_eq_false_iff_not, UInt8.le_iff_toNat_le, ← UInt8.toNat_inj, UInt8.toNat_ofNat]
  omega

/-- A decimal numeral has no leading space and no sign. -/
theorem sign_dropWhile_decimal (n : Nat) :
    sign ((decimal n).dropWhile isSpace) = (false, decimal n) := by
  obtain ⟨c, cs, hd⟩ : ∃ c cs, decimal n = c :: cs := by
    cases h : decimal n with
    | nil => exact absurd h (decimal_ne_nil n)
    | cons c cs => exact ⟨c, cs, rfl⟩
  have hc : isDigit c = true := isDigit_decimal n c (by simp [hd])
  have hs : (c :: cs).dropWhile isSpace = c :: cs := by
    simp [isSpace_of_isDigit hc]
  rw [hd, hs]
  unfold sign
  split <;> simp_all [isDigit]

/-- `strtoull` reads back every 64-bit number `printf` wrote. -/
theorem strtoull_decimal (n : UInt64) : strtoull (decimal n.toNat) = n := by
  have hl : leadingDigits (decimal n.toNat) = decimal n.toNat :=
    leadingDigits_of_all (isDigit_decimal _)
  have hlt : ¬2 ^ 64 ≤ n.toNat := Nat.not_le.mpr n.toNat_lt
  simp only [strtoull, sign_dropWhile_decimal, hl, value_decimal, hlt, ↓reduceIte,
    Bool.false_eq_true, UInt64.ofNat_toNat]

/-- `atoi` reads back every number `printf` wrote. -/
theorem atoi_decimal (n : Nat) : atoi (decimal n) = n := by
  have hl : leadingDigits (decimal n) = decimal n := leadingDigits_of_all (isDigit_decimal _)
  simp only [atoi, sign_dropWhile_decimal, hl, value_decimal, Bool.false_eq_true, ↓reduceIte]

/-- `atoi` stops at once on a string that starts with neither white space, a sign nor a digit. -/
theorem atoi_of_head {c : UInt8} {cs : List UInt8} (hs : isSpace c = false) (h43 : c ≠ 43)
    (h45 : c ≠ 45) (hd : isDigit c = false) : atoi (c :: cs) = 0 := by
  have hsign : sign (c :: cs) = (false, c :: cs) := by
    unfold sign
    split <;> simp_all
  simp [atoi, hs, hsign, leadingDigits, hd, value]

/-- `std::stoi` reads back every number `std::to_string` wrote that fits an `int`. -/
theorem stoi_decimal {n : Nat} (hn : n < 2 ^ 31) : stoi (decimal n) = some (n : Int) := by
  have hz : (decimal n).takeWhile (· ≠ 0) = decimal n := by
    refine List.takeWhile_eq_self_iff.mpr fun c hc => ?_
    have hd := isDigit_decimal n c hc
    simp only [isDigit, Bool.and_eq_true, decide_eq_true_eq] at hd
    have hc0 : c ≠ 0 := fun h => by simp [h] at hd
    simpa using hc0
  have hl : leadingDigits (decimal n) = decimal n := leadingDigits_of_all (isDigit_decimal _)
  have hr : ¬(decimal n = [] ∨ (n : Int) < -2 ^ 31 ∨ 2 ^ 31 ≤ (n : Int)) := by
    rintro (h | h | h)
    · exact decimal_ne_nil n h
    all_goals omega
  simp only [stoi, hz, sign_dropWhile_decimal, hl, value_decimal, Bool.false_eq_true, ↓reduceIte, hr]

end Decimal
