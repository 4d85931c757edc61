import Lokinet.Service.Name

/-!
Which strings `NameIsValid` accepts. A string passes exactly when it is `p ++ ".loki"` with `p`
made of the allowed bytes and the last dot-separated piece of `p` obeying the label rules; no
index it reads is past the end of the primary name. The label rules hold of the empty label, so
`.loki` and any name whose text before `.loki` ends in a dot pass.
-/

namespace Lokinet.Service

open Lokinet.Util

/-- The rules `NameIsValid` applies to the primary name `L`: not blacklisted, and either without
dashes and at most 32 bytes, or with dashes, none at either end, at most 63 bytes, and starting
with `xn` when its third and fourth bytes are dashes. -/
def LabelOk (L : List UInt8) : Prop :=
  L ≠ ascii "localhost" ∧ L ≠ ascii "loki" ∧ L ≠ ascii "snode" ∧
    ((45 ∉ L ∧ L.length ≤ 32) ∨
      (45 ∈ L ∧ L.head? ≠ some 45 ∧ L.getLast? ≠ some 45 ∧ L.length ≤ 63 ∧
        (L[2]? = some 45 → L[3]? = some 45 → L.take 2 = ascii "xn")))

/-- A dashed label with no dash at either end has at least three bytes, and at least four when
its third byte is a dash. -/
theorem dashed_shape {L : List UInt8} (hd : 45 ∈ L) (hfirst : L.head? ≠ some 45)
    (hlast : L.getLast? ≠ some 45) :
    ∃ x0 x1 x2 rest, L = x0 :: x1 :: x2 :: rest ∧ (x2 = 45 → rest ≠ []) := by
  match L, hd with
  | [x0], hd => simp_all
  | [x0, x1], hd =>
    simp at hd hfirst hlast
    rcases hd with rfl | rfl <;> simp_all
  | x0 :: x1 :: x2 :: rest, _ =>
    refine ⟨x0, x1, x2, rest, rfl, fun h2 hr => ?_⟩
    subst hr
    simp_all

/-- For a label with a dash, the rules are the blacklist, the ends, the length and the punycode
prefix. -/
theorem labelOk_dashed {L : List UInt8} (hd : 45 ∈ L) :
    LabelOk L ↔ L ≠ ascii "localhost" ∧ L ≠ ascii "loki" ∧ L ≠ ascii "snode" ∧
      L.head? ≠ some 45 ∧ L.getLast? ≠ some 45 ∧ L.length ≤ 63 ∧
        (L[2]? = some 45 → L[3]? = some 45 → L.take 2 = ascii "xn") := by
  simp only [LabelOk, hd, not_true_eq_false, false_and, true_and, false_or]

/-- The checks on the primary name read inside it and accept exactly the labels the rules
allow. -/
theorem checkPrimaryName_spec (L : List UInt8) :
    ∃ r, checkPrimaryName L = some r ∧ (r = true ↔ LabelOk L) := by
  by_cases hbl : L = ascii "localhost" ∨ L = ascii "loki" ∨ L = ascii "snode"
  · -- blacklisted
    refine ⟨false, ?_, by simp [LabelOk]; tauto⟩
    rcases hbl with rfl | rfl | rfl <;> rfl
  obtain ⟨h1, h2, h3⟩ : L ≠ ascii "localhost" ∧ L ≠ ascii "loki" ∧ L ≠ ascii "snode" := by tauto
  by_cases hd : 45 ∈ L
  swap
  · -- no dash: only the length counts
    refine ⟨decide (L.length ≤ 32), ?_, by simp [LabelOk, h1, h2, h3, hd]⟩
    simp [checkPrimaryName, h1, h2, h3, hd]
  by_cases hends : L.head? = some 45 ∨ L.getLast? = some 45
  · refine ⟨false, ?_, by simp only [LabelOk]; tauto⟩
    obtain ⟨x, xs, rfl⟩ := List.exists_cons_of_ne_nil (List.ne_nil_of_mem hd)
    simp only [List.head?_cons, Option.some.injEq] at hends
    simp [checkPrimaryName, h1, h2, h3, hd, List.getLast?_eq_getElem?] at hends ⊢
    tauto
  obtain ⟨hfirst, hlast⟩ : L.head? ≠ some 45 ∧ L.getLast? ≠ some 45 := by tauto
  simp only [labelOk_dashed hd, h1, h2, h3, hfirst, hlast, ne_eq, not_false_eq_true, true_and]
  obtain ⟨x0, x1, x2, rest, rfl, hrest⟩ := dashed_shape hd hfirst hlast
  simp only [List.head?_cons, ne_eq, Option.some.injEq] at hfirst
  have hl : ¬(x2 :: rest)[rest.length] = 45 := by simpa [List.getLast?_eq_getElem?] using hlast
  have hpre : checkPrimaryName (x0 :: x1 :: x2 :: rest) =
      if 61 ≤ rest.length then some false
      else if x2 = 45 then
        (rest[0]?).bind fun c3 => if c3 = 45 then some (x0 == 120 && x1 == 110) else some true
      else some true := by
    simp [checkPrimaryName, h1, h2, h3, hd, hfirst, hl]
  rw [hpre]
  by_cases hlen : 61 ≤ rest.length
  · -- longer than `MaxPunycodeNameLen`
    refine ⟨false, by rw [if_pos hlen], ⟨fun h => absurd h Bool.false_ne_true, fun h => ?_⟩⟩
    have := h.1
    simp only [List.length_cons] at this
    omega
  rw [if_neg hlen]
  by_cases hx2 : x2 = 45
  · obtain ⟨y, ys, rfl⟩ := List.exists_cons_of_ne_nil (hrest hx2)
    rw [if_pos hx2]
    have hys : ys.length < 60 := by simp only [List.length_cons] at hlen; omega
    by_cases hy : y = 45
    · -- a dash pair after the first two bytes: punycode, which must start with `xn`
      refine ⟨x0 == 120 && x1 == 110, by simp [hy], ?_⟩
      simp [hx2, hy, ascii]
      omega
    · refine ⟨true, by simp [hy], ?_⟩
      simp [hy]
      omega
  · refine ⟨true, by simp [hx2], ?_⟩
    simp [hx2]
    omega

theorem findLastOf_append_cons (c : UInt8) {t : List UInt8} (ht : c ∉ t) :
    ∀ s : List UInt8, Dns.findLastOf c (s ++ c :: t) = some s.length := by
  have hnone : ∀ t : List UInt8, c ∉ t → Dns.findLastOf c t = none := by
    intro t ht
    induction t with
    | nil => rfl
    | cons x xs ih =>
      simp only [List.mem_cons, not_or] at ht
      simp [Dns.findLastOf, ih ht.2, Ne.symm ht.1]
  intro s
  induction s with
  | nil => simp [Dns.findLastOf, hnone t ht]
  | cons x s ih => simp [Dns.findLastOf, ih]

/-- On a name ending in `.loki`, `NameIsValid` checks the bytes before it and judges the last
dot-separated piece of them. -/
theorem nameIsValid_loki (p : List UInt8) :
    nameIsValid (p ++ ascii ".loki") =
      if p.all saneChar then ((p.splitOn 46).getLast?).bind checkPrimaryName else some false := by
  have hends : endsWith (p ++ ascii ".loki") (ascii ".loki") = true := (endsWith_iff _ _).mpr ⟨p, rfl⟩
  have hlast : Dns.findLastOf 46 (p ++ ascii ".loki") = some p.length :=
    findLastOf_append_cons 46 (by decide) p
  have hdot : ascii "." = [46] := rfl
  simp only [nameIsValid, hends, Bool.not_true, Bool.false_eq_true, ↓reduceIte, hlast,
    Option.getD_some, List.take_left', hdot, split_single, ← List.getLast?_eq_getElem?]
  split
  · rename_i hp
    simp only [Bool.not_eq_true'] at hp
    simp [hp]
  · rename_i hp
    simp only [Bool.not_eq_true', Bool.not_eq_false] at hp
    rw [if_pos hp]
    cases (p.splitOn 46).getLast? <;> rfl

theorem splitOn_getLast?_isSome (p : List UInt8) : ((p.splitOn 46).getLast?).isSome := by
  rw [List.getLast?_isSome]
  exact List.splitOnP_ne_nil _ _

/-- `NameIsValid` never reads past the primary name, and accepts exactly the names `p.loki`
with `p` of allowed bytes whose last dot-separated piece obeys the label rules. -/
theorem nameIsValid_spec (s : List UInt8) :
    (nameIsValid s).isSome ∧
      (nameIsValid s = some true ↔ ∃ p L, s = p ++ ascii ".loki" ∧ p.all saneChar = true ∧
        (p.splitOn 46).getLast? = some L ∧ LabelOk L) := by
  by_cases hends : endsWith s (ascii ".loki") = true
  swap
  · -- no `.loki` suffix: rejected outright
    have hfalse : nameIsValid s = some false := by simp [nameIsValid, hends]
    refine ⟨by simp [hfalse], ?_⟩
    rw [hfalse]
    refine ⟨fun h => absurd h (by simp), fun ⟨p, _, hs, _⟩ => absurd ((endsWith_iff _ _).mpr ⟨p, hs⟩) hends⟩
  obtain ⟨p, rfl⟩ := (endsWith_iff _ _).mp hends
  obtain ⟨L, hL⟩ := Option.isSome_iff_exists.mp (splitOn_getLast?_isSome p)
  obtain ⟨r, hr, hok⟩ := checkPrimaryName_spec L
  rw [nameIsValid_loki, hL]
  by_cases hp : p.all saneChar = true
  · simp only [hp, ↓reduceIte, Option.bind_some, hr, Option.isSome_some, Option.some.injEq, true_and]
    rw [hok]
    constructor
    · exact fun h => ⟨p, L, rfl, hp, hL, h⟩
    · rintro ⟨p', L', hs, -, hL', hok'⟩
      rw [← List.append_cancel_right hs, hL] at hL'
      cases hL'
      exact hok'
  · simp only [hp, Bool.false_eq_true, ↓reduceIte, Option.isSome_some, Option.some.injEq,
      Bool.false_eq_true, false_iff, true_and]
    rintro ⟨p', L', hs, hp', -⟩
    rw [← List.append_cancel_right hs] at hp'
    exact hp hp'

theorem nameIsValid_empty_label (p : List UInt8) (hp : p.all saneChar = true)
    (hL : (p.splitOn 46).getLast? = some []) : nameIsValid (p ++ ascii ".loki") = some true := by
  rw [nameIsValid_loki, if_pos hp, hL]
  rfl

theorem nameIsValid_empty_label_loki :
    ([] : List UInt8).all saneChar = true ∧ (([] : List UInt8).splitOn 46).getLast? = some [] ∧
      nameIsValid ([] ++ ascii ".loki") = some true :=
  ⟨rfl, rfl, nameIsValid_empty_label [] rfl rfl⟩

end Lokinet.Service
