import Mathlib

/-!
`std::set` under a comparator, kept as its elements in iteration order. `emplace` walks past the
elements ordered before the new one and stops at the first one ordered after it; an element
that is neither before nor after the new one is a duplicate, and the set is left as it was.
For a strict weak order this is the set the standard describes. For a comparator that is not
one, the standard leaves the result open; the walk gives the answer a tree gets for a set of at
most one element and is one possible answer otherwise.
-/

namespace StdSet

variable {α : Type} (lt : α → α → Bool)

/-- `std::set::emplace`: the new iteration order, and whether the element went in. -/
def emplace : List α → α → List α × Bool
  | [], x => ([x], true)
  | y :: ys, x =>
    if lt x y then (x :: y :: ys, true)
    else if lt y x then
      let r := emplace ys x
      (y :: r.1, r.2)
    else (y :: ys, false)

/-- A set built by inserting the elements in order. -/
def ofList (xs : List α) : List α := xs.foldl (fun s x => (emplace lt s x).1) []

theorem emplace_nil (x : α) : emplace lt [] x = ([x], true) := rfl

/-- An element equivalent to the only one in the set is a duplicate. -/
theorem emplace_singleton_of_incomparable {x y : α} (hxy : lt x y = false) (hyx : lt y x = false) :
    emplace lt [y] x = ([y], false) := by
  simp [emplace, hxy, hyx]

/-- Two elements each ordered before the other end up in the order opposite to their insertion:
the iteration order of the set depends on how it was built. -/
theorem ofList_pair_of_both {x y : α} (hxy : lt x y = true) (hyx : lt y x = true) :
    ofList lt [x, y] = [y, x] ∧ ofList lt [y, x] = [x, y] := by
  simp [ofList, emplace, hxy, hyx]

/-- A comparator under which two elements are each ordered before the other is not a strict
weak order. -/
theorem not_isStrictWeakOrder_of_both {x y : α} (hxy : lt x y = true) (hyx : lt y x = true) :
    ¬IsStrictWeakOrder α (fun a b => lt a b = true) := by
  intro h
  have hxx : lt x x = true := h.trans x y x hxy hyx
  exact h.irrefl x hxx

/-- `y` comes before `z` and not after it: where the walk of `emplace` goes past `y` to
insert `z`. -/
def Precedes (y z : α) : Prop := lt y z = true ∧ lt z y = false

/-- An element every element of the set precedes goes in at the end. -/
theorem emplace_of_precedes {s : List α} {x : α} (h : ∀ y ∈ s, Precedes lt y x) :
    emplace lt s x = (s ++ [x], true) := by
  induction s with
  | nil => rfl
  | cons y ys ih =>
    obtain ⟨hyx, hxy⟩ := h y List.mem_cons_self
    simp [emplace, hxy, hyx, ih fun z hz => h z (List.mem_cons_of_mem y hz)]

section Total

/-! Under a comparator for which two elements ordered neither way are equal, a strict total
order, the set holds exactly the elements inserted. -/

variable {lt} (htri : ∀ a b, lt a b = false → lt b a = false → a = b)
include htri

theorem mem_emplace (s : List α) (x y : α) : y ∈ (emplace lt s x).1 ↔ y = x ∨ y ∈ s := by
  induction s with
  | nil => simp [emplace]
  | cons z zs ih =>
    by_cases hxz : lt x z = true
    · simp [emplace, hxz]
    by_cases hzx : lt z x = true
    · simp only [emplace, hxz, hzx, Bool.false_eq_true, ↓reduceIte, List.mem_cons, ih]
      tauto
    -- ordered neither way: `x` is `z`, already there
    have hxz' : x = z := htri x z (by simpa using hxz) (by simpa using hzx)
    subst hxz'
    simp [emplace, hzx]

theorem mem_foldl_emplace (xs s : List α) (y : α) :
    y ∈ xs.foldl (fun s x => (emplace lt s x).1) s ↔ y ∈ s ∨ y ∈ xs := by
  induction xs generalizing s with
  | nil => simp
  | cons x xs ih =>
    rw [List.foldl_cons, ih, mem_emplace htri, List.mem_cons]
    tauto

theorem mem_ofList (xs : List α) (y : α) : y ∈ ofList lt xs ↔ y ∈ xs := by
  rw [ofList, mem_foldl_emplace htri]
  simp

end Total

end StdSet
