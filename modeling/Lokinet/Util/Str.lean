import Lokinet.Util.Bencode

/-!
The string helpers of llarp/util/str.hpp and str.cpp over the bytes of a `std::string_view`:
`ends_with`, `std::string_view::find` and `split`. For a one-byte delimiter and no trimming,
`split` is `List.splitOn`.
-/

namespace Lokinet.Util

/-- `ends_with(str, suffix)`. -/
def endsWith (str suffix : List UInt8) : Bool :=
  decide (suffix.length ≤ str.length) && str.drop (str.length - suffix.length) == suffix

theorem endsWith_iff (str suffix : List UInt8) :
    endsWith str suffix = true ↔ ∃ p, str = p ++ suffix := by
  constructor
  · intro h
    simp only [endsWith, Bool.and_eq_true, decide_eq_true_eq, beq_iff_eq] at h
    refine ⟨str.take (str.length - suffix.length), ?_⟩
    conv_lhs => rw [← List.take_append_drop (str.length - suffix.length) str]
    rw [h.2]
  · rintro ⟨p, rfl⟩
    simp [endsWith]

/-- `std::string_view::find(delim)`: the first position at which `delim` starts, `none` for
`npos`. -/
def find (delim : List UInt8) : List UInt8 → Option Nat
  | [] => if delim.isEmpty then some 0 else none
  | c :: cs => if delim.isPrefixOf (c :: cs) then some 0 else (find delim cs).map (· + 1)

/-- The loop of `split` for a non-empty delimiter: the piece before each occurrence, then the
rest. With `trim`, empty pieces at the start are skipped and those at the end popped. `fuel`
bounds the turns; each removes a byte or more, and `split` starts it above the length. -/
def splitLoop (delim : List UInt8) (trim : Bool) :
    Nat → List UInt8 → List (List UInt8) → List (List UInt8)
  | 0, str, results => results ++ [str]
  | fuel + 1, str, results =>
    match find delim str with
    | some pos =>
      splitLoop delim trim fuel (str.drop (pos + delim.length))
        (if !trim || !results.isEmpty || decide (pos > 0) then results ++ [str.take pos] else results)
    | none =>
      if !trim || !str.isEmpty then results ++ [str]
      else (results.reverse.dropWhile List.isEmpty).reverse

/-- `split(str, delim, trim)`: an empty delimiter cuts between every two bytes. -/
def split (str delim : List UInt8) (trim : Bool) : List (List UInt8) :=
  if delim.isEmpty then str.map fun c => [c]
  else splitLoop delim trim (str.length + 1) str []

section OneByte

variable (c : UInt8)

/-- Without an occurrence there is no byte `c`. -/
theorem find_single_eq_none : ∀ {str : List UInt8}, find [c] str = none → c ∉ str
  | [], _ => List.not_mem_nil
  | x :: xs, h => by
    by_cases hx : c = x
    · simp [find, List.isPrefixOf, hx] at h
    · have hxs : find [c] xs = none := by simpa [find, List.isPrefixOf, hx] using h
      simpa [hx] using find_single_eq_none hxs

/-- The first occurrence of a byte: what comes before it holds no such byte. -/
theorem find_single_some : ∀ {str : List UInt8} {pos : Nat}, find [c] str = some pos →
    c ∉ str.take pos ∧ str = str.take pos ++ c :: str.drop (pos + 1)
  | [], _, h => by simp [find] at h
  | x :: xs, pos, h => by
    by_cases hx : c = x
    · subst hx
      simp only [find, List.isPrefixOf, beq_self_eq_true, Bool.and_self, ↓reduceIte,
        Option.some.injEq] at h
      subst h
      simp
    · have hstep : find [c] (x :: xs) = (find [c] xs).map (· + 1) := by
        simp [find, List.isPrefixOf, hx]
      rw [hstep] at h
      obtain ⟨p, hp, rfl⟩ := Option.map_eq_some_iff.mp h
      obtain ⟨hnot, heq⟩ := find_single_some hp
      refine ⟨by simp [hnot, hx], ?_⟩
      simp only [List.take_succ_cons, List.drop_succ_cons, List.cons_append]
      exact congrArg (x :: ·) heq

theorem splitLoop_single :
    ∀ (fuel : Nat) (str : List UInt8) (results : List (List UInt8)), str.length < fuel →
      splitLoop [c] false fuel str results = results ++ str.splitOn c
  | 0, _, _, h => absurd h (Nat.not_lt_zero _)
  | fuel + 1, str, results, h => by
    cases hf : find [c] str with
    | none =>
      -- no delimiter left: the rest is the last piece
      have hc := find_single_eq_none c hf
      have hsplit : str.splitOn c = [str] :=
        List.splitOnP_eq_singleton fun x hx => by
          rw [beq_eq_false_iff_ne]
          rintro rfl
          exact hc hx
      simp [splitLoop, hf, hsplit]
    | some pos =>
      -- the piece before the first delimiter, then the pieces of the rest
      obtain ⟨hnot, heq⟩ := find_single_some c hf
      have hlen : (str.drop (pos + 1)).length < fuel := by
        have := congrArg List.length heq
        simp only [List.length_append, List.length_cons] at this
        simp only [List.length_drop]
        omega
      have hsplit : str.splitOn c = str.take pos :: (str.drop (pos + 1)).splitOn c := by
        conv_lhs => rw [heq]
        refine List.splitOnP_append_cons_of_forall_mem (fun x hx => ?_) c (by simp) _
        rw [beq_eq_false_iff_ne]
        rintro rfl
        exact hnot hx
      simp only [splitLoop, hf, List.length_singleton, Bool.not_false, Bool.true_or, ↓reduceIte]
      rw [splitLoop_single fuel _ _ hlen, hsplit, List.append_assoc, List.singleton_append]

/-- Split at a byte, keeping empty pieces, is `List.splitOn`. -/
theorem split_single (str : List UInt8) : split str [c] false = str.splitOn c := by
  simp only [split, List.isEmpty_cons, Bool.false_eq_true, ↓reduceIte]
  rw [splitLoop_single c _ str [] (Nat.lt_succ_self _), List.nil_append]

end OneByte

end Lokinet.Util
