import Mathlib

/-!
Programs over a mutable state that stop, with no defined result, on an access the
source language leaves undefined: `StateT σ Option`. `none` is the undefined access,
`some (a, s')` a return with value `a` in state `s'`. A C++ function returning `bool`
is a program with value `Bool`; one that also fills an out-parameter returns an `Option`.
-/

namespace FaultState

variable {σ α β : Type}

@[simp] theorem pure_apply (a : α) (s : σ) : (pure a : StateT σ Option α) s = some (a, s) := rfl

@[simp] theorem get_apply (s : σ) : (get : StateT σ Option σ) s = some (s, s) := rfl

@[simp] theorem set_apply (s s' : σ) : (set s' : StateT σ Option PUnit) s = some (⟨⟩, s') := rfl

@[simp] theorem modify_apply (f : σ → σ) (s : σ) :
    (modify f : StateT σ Option PUnit) s = some (⟨⟩, f s) := rfl

@[simp] theorem failure_apply (s : σ) : (failure : StateT σ Option α) s = none := rfl

@[simp] theorem get_bind (f : σ → StateT σ Option β) (s : σ) : (get >>= f) s = f s s := rfl

@[simp] theorem modify_bind (g : σ → σ) (f : PUnit → StateT σ Option β) (s : σ) :
    (modify g >>= f) s = f ⟨⟩ (g s) := rfl

theorem bind_apply (x : StateT σ Option α) (f : α → StateT σ Option β) (s : σ) :
    (x >>= f) s = (x s).bind (fun p => f p.1 p.2) := rfl

/-- Running a bind whose first part is known. -/
theorem bind_of_some {x : StateT σ Option α} {f : α → StateT σ Option β} {s s' : σ} {a : α}
    (h : x s = some (a, s')) : (x >>= f) s = f a s' := by
  simp [bind_apply, h]

theorem bind_of_none {x : StateT σ Option α} {f : α → StateT σ Option β} {s : σ}
    (h : x s = none) : (x >>= f) s = none := by
  simp [bind_apply, h]

/-- A bind returns exactly when its first part returns and the rest returns from there. -/
theorem bind_eq_some {x : StateT σ Option α} {f : α → StateT σ Option β} {s : σ}
    {r : β × σ} : (x >>= f) s = some r ↔ ∃ a s', x s = some (a, s') ∧ f a s' = some r := by
  simp only [bind_apply, Option.bind_eq_some_iff, Prod.exists]

theorem bind_eq_none {x : StateT σ Option α} {f : α → StateT σ Option β} {s : σ} :
    (x >>= f) s = none ↔ x s = none ∨ ∃ a s', x s = some (a, s') ∧ f a s' = none := by
  cases h : x s with
  | none => simp [bind_apply, h]
  | some p =>
    obtain ⟨a, s'⟩ := p
    simp only [bind_apply, h, Option.bind_some, reduceCtorEq, false_or]
    constructor
    · intro hf
      exact ⟨a, s', rfl, hf⟩
    · rintro ⟨a', s'', he, hf⟩
      cases he
      exact hf

/-- Total correctness with no undefined access: from every state satisfying `P`, the
program returns, and its value and final state satisfy `Q`. -/
def Triple (P : σ → Prop) (x : StateT σ Option α) (Q : α → σ → Prop) : Prop :=
  ∀ s, P s → ∃ a s', x s = some (a, s') ∧ Q a s'

namespace Triple

variable {P P' : σ → Prop} {x : StateT σ Option α} {Q Q' : α → σ → Prop}

theorem pure (a : α) (h : ∀ s, P s → Q a s) : Triple P (Pure.pure a) Q :=
  fun s hs => ⟨a, s, rfl, h s hs⟩

theorem mono (ht : Triple P x Q) (hp : ∀ s, P' s → P s) (hq : ∀ a s, Q a s → Q' a s) :
    Triple P' x Q' := by
  intro s hs
  obtain ⟨a, s', hx, hq'⟩ := ht s (hp s hs)
  exact ⟨a, s', hx, hq a s' hq'⟩

/-- The sequencing rule: the postcondition of the first part is the precondition of the rest. -/
theorem bind {f : α → StateT σ Option β} {R : β → σ → Prop}
    (hx : Triple P x Q) (hf : ∀ a, Triple (Q a) (f a) R) : Triple P (x >>= f) R := by
  intro s hs
  obtain ⟨a, s', hxs, hq⟩ := hx s hs
  obtain ⟨b, s'', hfs, hr⟩ := hf a s' hq
  exact ⟨b, s'', by rw [bind_of_some hxs, hfs], hr⟩

/-- A program that satisfies a triple never performs an undefined access from `P`. -/
theorem isSome (ht : Triple P x Q) {s : σ} (hs : P s) : (x s).isSome := by
  obtain ⟨a, s', hx, -⟩ := ht s hs
  simp [hx]

end Triple

end FaultState
