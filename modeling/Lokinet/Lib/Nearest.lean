import Mathlib

/-!
The `n` elements of a list nearest to a point, for a distance `d` into the naturals: `n`
distinct members of the list, none farther than a member left out. Taking a nearest element and
then the `n` nearest of the rest gives the `n + 1` nearest.
-/

namespace Nearest

variable {α : Type} (d : α → ℕ)

/-- `R` holds `n` distinct members of `C`, each no farther than any member of `C` it misses. -/
structure IsNearest (C : List α) (n : ℕ) (R : List α) : Prop where
  nodup : R.Nodup
  length_eq : R.length = n
  subset : ∀ x ∈ R, x ∈ C
  nearer : ∀ x ∈ R, ∀ y ∈ C, y ∉ R → d x ≤ d y

variable {d}

theorem isNearest_nil (C : List α) : IsNearest d C 0 [] where
  nodup := List.nodup_nil
  length_eq := rfl
  subset _ h := absurd h List.not_mem_nil
  nearer _ h := absurd h List.not_mem_nil

/-- A nearest member, followed by the `n` nearest of the others, is the `n + 1` nearest. -/
theorem IsNearest.cons [DecidableEq α] {C R : List α} {n : ℕ} {k : α} (hk : k ∈ C)
    (hmin : ∀ y ∈ C, d k ≤ d y) (hR : IsNearest d (C.filter (· ≠ k)) n R) :
    IsNearest d C (n + 1) (k :: R) where
  nodup := by
    refine List.nodup_cons.mpr ⟨fun hkR => ?_, hR.nodup⟩
    have := (List.mem_filter.mp (hR.subset k hkR)).2
    simp at this
  length_eq := by rw [List.length_cons, hR.length_eq]
  subset x hx := by
    rcases List.mem_cons.mp hx with rfl | hx
    · exact hk
    · exact (List.mem_filter.mp (hR.subset x hx)).1
  nearer x hx y hy hyR := by
    have hyk : y ≠ k := fun h => hyR (h ▸ List.mem_cons_self)
    rcases List.mem_cons.mp hx with rfl | hx
    · exact hmin y hy
    · exact hR.nearer x hx y (List.mem_filter.mpr ⟨hy, by simpa using hyk⟩)
        fun h => hyR (List.mem_cons_of_mem k h)

/-- Members added to `C` that are no nearer than any chosen one leave the choice the nearest. -/
theorem IsNearest.of_farther {C C' R : List α} {n : ℕ} (h : IsNearest d C n R)
    (hsub : ∀ x ∈ C, x ∈ C') (hfar : ∀ y ∈ C', y ∉ C → ∀ x ∈ R, d x ≤ d y) :
    IsNearest d C' n R where
  nodup := h.nodup
  length_eq := h.length_eq
  subset x hx := hsub x (h.subset x hx)
  nearer x hx y hy hyR := by
    by_cases hyC : y ∈ C
    · exact h.nearer x hx y hyC hyR
    · exact hfar y hy hyC x hx

/-- Taking a member out of a list without repeats leaves one fewer. -/
theorem length_filter_ne_add_one [DecidableEq α] {C : List α} {k : α} (hC : C.Nodup) (hk : k ∈ C) :
    (C.filter (· ≠ k)).length + 1 = C.length := by
  have herase : C.erase k = C.filter (· ≠ k) := by
    rw [hC.erase_eq_filter k]
    apply List.filter_congr
    intro x _
    rw [Bool.eq_iff_iff]
    simp [bne_iff_ne]
  rw [← herase]
  exact List.length_erase_add_one hk

end Nearest
