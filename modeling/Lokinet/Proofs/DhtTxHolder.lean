import Lokinet.Dht.TxHolder

/-!
The bookkeeping of `TXHolder` holds together over every run in which each `NewTX` has an owner of
its own and files the transaction under its target, as every caller in `dht/context.cpp` does:
each transaction waits under its target, each key waited for has a timeout, a transaction is
sent its reply exactly when it is removed and never twice, and after `Expire(now)` the key of
every transaction left expires after `now`.
-/

namespace Lokinet.Dht

open Lokinet.Util

section Replies

variable {V : Type}

@[simp] theorem replies_nil : replies ([] : List (Event V)) = [] := rfl

@[simp] theorem replies_append (a b : List (Event V)) : replies (a ++ b) = replies a ++ replies b :=
  List.filterMap_append

@[simp] theorem replies_sendReply (o : TXOwner) (evs : List (Event V)) :
    replies (.sendReply o :: evs) = o :: replies evs := rfl

@[simp] theorem replies_start (o : TXOwner) (evs : List (Event V)) :
    replies (.start o :: evs) = replies evs := rfl

@[simp] theorem replies_onFound (o : TXOwner) (p : AlignedBuffer 32) (vs : List V) :
    replies (vs.map (Event.onFound o p)) = [] := by
  induction vs with
  | nil => rfl
  | cons v vs ih => exact ih

end Replies

namespace TXHolder

variable {K V : Type}

/-- The owners of the transactions that `NewTX` calls in a list of operations. -/
def askpeers : List (Op K V) → List TXOwner
  | [] => []
  | .newTX askpeer .. :: ops => askpeer :: askpeers ops
  | _ :: ops => askpeers ops

/-- The transactions an operation sends replies to are the ones it removes, each once. -/
def RepliesRemoved (h h' : TXHolder K) (evs : List (Event V)) : Prop :=
  (replies evs).Nodup ∧ ∀ o, o ∈ replies evs ↔ (h.tx.find? o).isSome ∧ h'.tx.find? o = none

/-- No transaction is added. -/
def Shrinks (h h' : TXHolder K) : Prop := ∀ o, (h'.tx.find? o).isSome → (h.tx.find? o).isSome

theorem askpeers_cons (op : Op K V) (ops : List (Op K V)) :
    askpeers (op :: ops) = askpeers [op] ++ askpeers ops := by
  cases op <;> rfl

theorem RepliesRemoved.trans {h h₁ h₂ : TXHolder K} {e₁ e₂ : List (Event V)}
    (r₁ : RepliesRemoved h h₁ e₁) (r₂ : RepliesRemoved h₁ h₂ e₂) (s₁ : Shrinks h h₁)
    (s₂ : Shrinks h₁ h₂) : RepliesRemoved h h₂ (e₁ ++ e₂) := by
  refine ⟨?_, fun o => ?_⟩
  · rw [replies_append, List.nodup_append]
    refine ⟨r₁.1, r₂.1, fun a ha b hb hab => ?_⟩
    subst hab
    have h1 := ((r₁.2 a).mp ha).2
    have h2 := ((r₂.2 a).mp hb).1
    simp [h1] at h2
  · rw [replies_append, List.mem_append, r₁.2, r₂.2]
    constructor
    · rintro (⟨hs, hn⟩ | ⟨hs, hn⟩)
      · refine ⟨hs, ?_⟩
        cases h2 : h₂.tx.find? o with
        | none => rfl
        | some _ => simpa [hn] using s₂ o (by simp [h2])
      · exact ⟨s₁ o hs, hn⟩
    · rintro ⟨hs, hn⟩
      cases h1 : h₁.tx.find? o with
      | none => exact .inl ⟨hs, rfl⟩
      | some _ => exact .inr ⟨by simp, hn⟩

theorem RepliesRemoved.refl (h : TXHolder K) : RepliesRemoved h h ([] : List (Event V)) := by
  refine ⟨List.nodup_nil, fun o => ?_⟩
  cases ho : h.tx.find? o <;> simp

theorem Shrinks.refl (h : TXHolder K) : Shrinks h h := fun _ ho => ho

theorem Shrinks.trans {h h₁ h₂ : TXHolder K} (s₁ : Shrinks h h₁) (s₂ : Shrinks h₁ h₂) :
    Shrinks h h₂ :=
  fun o ho => s₁ o (s₂ o ho)

/-- What a stretch of a run does to the transactions, given the owners `added` it files: each
transaction replied to was there or added and is gone at the end, each such one is replied to
exactly once, and nothing else is held at the end. -/
structure Tracks (h h' : TXHolder K) (added : List TXOwner) (evs : List (Event V)) : Prop where
  nodup : (replies evs).Nodup
  replied : ∀ o, o ∈ replies evs ↔ ((h.tx.find? o).isSome ∨ o ∈ added) ∧ h'.tx.find? o = none
  grows : ∀ o, (h'.tx.find? o).isSome → (h.tx.find? o).isSome ∨ o ∈ added

theorem Tracks.nil (h : TXHolder K) : Tracks h h [] ([] : List (Event V)) where
  nodup := List.nodup_nil
  replied o := by cases h.tx.find? o <;> simp
  grows _ ho := .inl ho

theorem Tracks.of_step {h h' : TXHolder K} {added : List TXOwner} {evs : List (Event V)}
    (rr : RepliesRemoved h h' evs) (grows : ∀ o, (h'.tx.find? o).isSome → (h.tx.find? o).isSome ∨ o ∈ added)
    (adds : ∀ o ∈ added, (h'.tx.find? o).isSome) : Tracks h h' added evs where
  nodup := rr.1
  replied o := by
    rw [rr.2]
    constructor
    · exact fun ⟨hs, hn⟩ => ⟨.inl hs, hn⟩
    · rintro ⟨hs | ha, hn⟩
      · exact ⟨hs, hn⟩
      · have hs := adds o ha
        rw [hn] at hs
        cases hs
  grows := grows

/-- Two stretches of a run in turn, the second filing only owners that are fresh before the
first. -/
theorem Tracks.append {h h₁ h₂ : TXHolder K} {A B : List TXOwner} {e₁ e₂ : List (Event V)}
    (t₁ : Tracks h h₁ A e₁) (t₂ : Tracks h₁ h₂ B e₂) (hA : ∀ o ∈ A, (h₁.tx.find? o).isSome)
    (hB : ∀ o ∈ B, h.tx.find? o = none ∧ o ∉ A) : Tracks h h₂ (A ++ B) (e₁ ++ e₂) := by
  -- an owner replied to in the first stretch is neither held after it nor filed in the second
  have gone : ∀ o, o ∈ replies e₁ → h₁.tx.find? o = none ∧ o ∉ B := by
    intro o ho
    obtain ⟨hs, hn⟩ := (t₁.replied o).mp ho
    refine ⟨hn, fun hb => ?_⟩
    obtain ⟨hnone, hnA⟩ := hB o hb
    rcases hs with hs | ha
    · simp [hnone] at hs
    · exact hnA ha
  refine ⟨?_, fun o => ?_, fun o ho => ?_⟩
  · rw [replies_append, List.nodup_append]
    refine ⟨t₁.nodup, t₂.nodup, fun a ha b hb hab => ?_⟩
    subst hab
    obtain ⟨hn, hnB⟩ := gone a ha
    rcases ((t₂.replied a).mp hb).1 with hs | hb'
    · simp [hn] at hs
    · exact hnB hb'
  · rw [replies_append, List.mem_append, List.mem_append]
    constructor
    · rintro (ho | ho)
      · obtain ⟨hn, hnB⟩ := gone o ho
        refine ⟨((t₁.replied o).mp ho).1.imp_right .inl, ?_⟩
        cases h2 : h₂.tx.find? o with
        | none => rfl
        | some _ =>
          rcases t₂.grows o (by simp [h2]) with hs | hb
          · simp [hn] at hs
          · exact absurd hb hnB
      · obtain ⟨hs | hb, hn⟩ := (t₂.replied o).mp ho
        · exact ⟨(t₁.grows o hs).imp_right .inl, hn⟩
        · exact ⟨.inr (.inr hb), hn⟩
    · rintro ⟨hs | ha | hb, hn⟩
      · cases h1 : h₁.tx.find? o with
        | none => exact .inl ((t₁.replied o).mpr ⟨.inl hs, h1⟩)
        | some _ => exact .inr ((t₂.replied o).mpr ⟨.inl (by simp [h1]), hn⟩)
      · exact .inr ((t₂.replied o).mpr ⟨.inl (hA o ha), hn⟩)
      · exact .inr ((t₂.replied o).mpr ⟨.inr hb, hn⟩)
  · rcases t₂.grows o ho with hs | hb
    · exact (t₁.grows o hs).imp_right (List.mem_append_left _)
    · exact .inr (List.mem_append_right _ hb)

section InformLoop

variable (fromOwner : TXOwner) (values : List V)

/-- `Inform` with `sendreply`: the owners walked over lose their transactions, and those that had
one are sent a reply, once each. -/
theorem informLoop_true_spec : ∀ (os : List TXOwner) (tx : AssocMap TXOwner (TX K)),
    (∀ o, (informLoop fromOwner values true os tx).1.find? o = if o ∈ os then none else tx.find? o) ∧
    (∀ o, o ∈ replies (informLoop fromOwner values true os tx).2 ↔ o ∈ os ∧ (tx.find? o).isSome) ∧
    (replies (informLoop fromOwner values true os tx).2).Nodup
  | [], tx => by simp [informLoop]
  | o :: os, tx => by
    cases ho : tx.find? o with
    | none =>
      obtain ⟨hf, hr, hn⟩ := informLoop_true_spec os tx
      simp only [informLoop, ho]
      refine ⟨fun p => ?_, fun p => ?_, hn⟩
      · by_cases hp : p = o
        · subst hp
          simp [hf, ho]
        · simp [hf, hp]
      · rw [hr, List.mem_cons]
        by_cases hp : p = o
        · subst hp
          simp [ho]
        · simp [hp]
    | some t =>
      obtain ⟨hf, hr, hn⟩ := informLoop_true_spec os (tx.erase o)
      simp only [informLoop, ho, ↓reduceIte, replies_append, replies_onFound, replies_sendReply,
        List.nil_append]
      refine ⟨fun p => ?_, fun p => ?_, ?_⟩
      · rw [hf, AssocMap.find?_erase]
        by_cases hp : p = o <;> simp [hp]
      · rw [List.mem_cons, hr, AssocMap.find?_erase, List.mem_cons]
        by_cases hp : p = o
        · subst hp
          simp [ho]
        · simp [hp]
      · refine List.nodup_cons.mpr ⟨fun hmem => ?_, hn⟩
        simp [hr, AssocMap.find?_erase] at hmem

theorem informLoop_false : ∀ (os : List TXOwner) (tx : AssocMap TXOwner (TX K)),
    (informLoop fromOwner values false os tx).1 = tx ∧
      replies (informLoop fromOwner values false os tx).2 = []
  | [], tx => by simp [informLoop]
  | o :: os, tx => by
    obtain ⟨h1, h2⟩ := informLoop_false os tx
    cases ho : tx.find? o <;> simp [informLoop, ho, h1, h2]

end InformLoop

variable [DecidableEq K]

/-- Every transaction waits under its target, every waiting owner has its transaction, and every
key waited for has a timeout. -/
structure Inv (h : TXHolder K) : Prop where
  waiting_tx : ∀ k o, (k, o) ∈ h.waiting → ∃ t, h.tx.find? o = some t ∧ t.target = k
  tx_waiting : ∀ o t, h.tx.find? o = some t → (t.target, o) ∈ h.waiting
  waiting_timeouts : ∀ k o, (k, o) ∈ h.waiting → h.timeouts.contains k = true

/-- `NewTX` files the transaction under its own target. -/
def Op.valid : Op K V → Bool
  | .newTX _ _ k t _ _ => decide (k = t.target)
  | _ => true

section Inform

variable (fromOwner : TXOwner) (values : List V)

theorem mem_waiting_owners {h : TXHolder K} {key : K} {o : TXOwner} :
    o ∈ (h.waiting.filter fun e => e.1 = key).map Prod.snd ↔ (key, o) ∈ h.waiting := by
  simp

variable {h : TXHolder K} (key : K)

theorem inform_true_tx (rt : Bool) (o : TXOwner) :
    (h.inform fromOwner key values true rt).1.tx.find? o =
      if (key, o) ∈ h.waiting then none else h.tx.find? o := by
  simp only [inform, ((informLoop_true_spec fromOwner values _ h.tx).1 o), mem_waiting_owners]

/-- `Inform` with `sendreply` removes the transactions waiting for `key` and replies to them. -/
theorem inform_true_replies (rt : Bool) :
    RepliesRemoved h (h.inform fromOwner key values true rt).1 (h.inform fromOwner key values true rt).2 := by
  obtain ⟨-, hr, hn⟩ := informLoop_true_spec fromOwner values
    ((h.waiting.filter fun e => e.1 = key).map Prod.snd) h.tx
  refine ⟨hn, fun o => ?_⟩
  rw [inform_true_tx]
  simp only [inform] at hr ⊢
  rw [hr, mem_waiting_owners]
  by_cases hw : (key, o) ∈ h.waiting
  · simp [hw]
  · cases ho : h.tx.find? o <;> simp [hw]

theorem inform_true_shrinks (rt : Bool) : Shrinks h (h.inform fromOwner key values true rt).1 := by
  intro o ho
  rw [inform_true_tx] at ho
  split at ho
  · simp at ho
  · exact ho

theorem Inv.inform_true (hi : h.Inv) (rt : Bool) : (h.inform fromOwner key values true rt).1.Inv := by
  have htx := inform_true_tx fromOwner values key (h := h) rt
  constructor
  · intro k o hko
    simp only [inform, ↓reduceIte, List.mem_filter, decide_eq_true_eq] at hko
    obtain ⟨t, ht, rfl⟩ := hi.waiting_tx k o hko.1
    -- `o` waits under its target only, so not under `key`
    have hkey : (key, o) ∉ h.waiting := fun hw => by
      obtain ⟨t', ht', rfl⟩ := hi.waiting_tx key o hw
      rw [ht] at ht'
      cases ht'
      exact hko.2 rfl
    exact ⟨t, by rw [htx o, if_neg hkey, ht], rfl⟩
  · intro o t ht
    rw [htx o] at ht
    split at ht
    · cases ht
    · rename_i hkey
      have hw := hi.tx_waiting o t ht
      simp only [inform, ↓reduceIte, List.mem_filter, decide_eq_true_eq]
      refine ⟨hw, fun htk => hkey (htk ▸ hw)⟩
  · intro k o hko
    simp only [inform, ↓reduceIte, List.mem_filter, decide_eq_true_eq] at hko
    have hc := hi.waiting_timeouts k o hko.1
    cases rt
    · exact hc
    · simpa [inform, AssocMap.contains, AssocMap.find?_erase, hko.2] using hc

end Inform

theorem Inv.eraseTimeout {h : TXHolder K} (hi : h.Inv) {k : K} (hk : ∀ o, (k, o) ∉ h.waiting) :
    ({ h with timeouts := h.timeouts.erase k } : TXHolder K).Inv where
  waiting_tx := hi.waiting_tx
  tx_waiting := hi.tx_waiting
  waiting_timeouts k' o hw := by
    have hne : k' ≠ k := fun he => hk o (he ▸ hw)
    simpa [AssocMap.contains, AssocMap.find?_erase, hne] using hi.waiting_timeouts k' o hw

section NewTX

variable {h : TXHolder K} (a w : TXOwner) (k : K) (t : TX K) (now rt : Nat)

theorem newTX_tx {a} (ha : h.tx.find? a = none) (o : TXOwner) :
    (h.newTX (V := V) a w k t now rt).1.tx.find? o = if o = a then some t else h.tx.find? o := by
  simp only [newTX, AssocMap.emplace_of_find?_eq_none _ _ ha, AssocMap.find?_insert]

theorem replies_newTX : replies (h.newTX (V := V) a w k t now rt).2 = [] := by
  simp only [newTX]
  split <;> rfl

theorem contains_newTX_timeouts (k' : K) (hk' : h.timeouts.contains k' = true ∨ k' = k) :
    (h.newTX (V := V) a w k t now rt).1.timeouts.contains k' = true := by
  simp only [newTX]
  split
  · rename_i hk
    rcases hk' with hk' | rfl
    · exact hk'
    · exact hk
  · rw [AssocMap.contains_insert]
    rcases hk' with hk' | rfl
    · simp [hk']
    · simp

theorem Inv.newTX {a k t} (hi : h.Inv) (ha : h.tx.find? a = none) (hk : k = t.target) :
    (h.newTX (V := V) a w k t now rt).1.Inv := by
  have htx := newTX_tx (V := V) w k t now rt ha
  constructor
  · intro k' o hw
    simp only [TXHolder.newTX, List.mem_append, List.mem_singleton, Prod.mk.injEq] at hw
    rcases hw with hw | ⟨rfl, rfl⟩
    · obtain ⟨t', ht', hkt⟩ := hi.waiting_tx k' o hw
      -- an owner already waiting has a transaction, so it is not the new one
      have hoa : o ≠ a := fun hoa => by rw [hoa, ha] at ht'; cases ht'
      exact ⟨t', by rw [htx, if_neg hoa, ht'], hkt⟩
    · exact ⟨t, by rw [htx, if_pos rfl], hk.symm⟩
  · intro o t' ht'
    rw [htx] at ht'
    simp only [TXHolder.newTX, List.mem_append, List.mem_singleton, Prod.mk.injEq]
    split at ht'
    · rename_i hoa
      cases ht'
      exact .inr ⟨hk.symm, hoa⟩
    · exact .inl (hi.tx_waiting o t' ht')
  · intro k' o hw
    simp only [TXHolder.newTX, List.mem_append, List.mem_singleton, Prod.mk.injEq] at hw
    rcases hw with hw | ⟨rfl, -⟩
    · exact contains_newTX_timeouts a w k t now rt k' (.inl (hi.waiting_timeouts k' o hw))
    · exact contains_newTX_timeouts a w _ t now rt k' (.inr rfl)

theorem newTX_replies {a} (ha : h.tx.find? a = none) :
    RepliesRemoved h (h.newTX (V := V) a w k t now rt).1 (h.newTX (V := V) a w k t now rt).2 := by
  refine ⟨by simp [replies_newTX], fun o => ?_⟩
  rw [replies_newTX, newTX_tx w k t now rt ha]
  by_cases hoa : o = a
  · simp [hoa]
  · cases ho : h.tx.find? o <;> simp [hoa]

end NewTX

section Expire

theorem Inv.expireStep {h : TXHolder K} (hi : h.Inv) (k : K) :
    let r := h.inform (V := V) ⟨AlignedBuffer.zero 32, 0⟩ k [] true false
    ({ r.1 with timeouts := r.1.timeouts.erase k } : TXHolder K).Inv := by
  intro r
  refine (hi.inform_true _ _ k false).eraseTimeout fun o hw => ?_
  simp [inform] at hw

/-- The loop of `Expire` keeps the invariant, only removes transactions, and replies to those it
removes. -/
theorem expireLoop_spec (now : Nat) : ∀ (es : List (K × Nat)) (h : TXHolder K), h.Inv →
    (expireLoop (V := V) now es h).1.Inv ∧
      RepliesRemoved h (expireLoop (V := V) now es h).1 (expireLoop (V := V) now es h).2 ∧
      Shrinks h (expireLoop (V := V) now es h).1
  | [], h, hi => ⟨hi, RepliesRemoved.refl h, Shrinks.refl h⟩
  | (k, d) :: es, h, hi => by
    unfold expireLoop
    split
    · -- the key is due: its transactions are replied to and its timeout goes
      obtain ⟨hi', rr', s'⟩ := expireLoop_spec now es _ (hi.expireStep (V := V) k)
      exact ⟨hi', (inform_true_replies _ _ k false).trans rr' (inform_true_shrinks _ _ k false) s',
        (inform_true_shrinks _ _ k false).trans s'⟩
    · exact expireLoop_spec now es h hi

/-- A timeout left after the loop of `Expire` was there before, and its key is not due among the
entries walked. -/
theorem expireLoop_timeouts (now : Nat) : ∀ (es : List (K × Nat)) (h : TXHolder K) (k : K) (d : Nat),
    (expireLoop (V := V) now es h).1.timeouts.find? k = some d →
      h.timeouts.find? k = some d ∧ ∀ d', (k, d') ∈ es → now < d'
  | [], h, k, d, hd => ⟨hd, by simp⟩
  | (k₀, d₀) :: es, h, k, d, hd => by
    unfold expireLoop at hd
    split at hd
    · obtain ⟨hd', hlive⟩ := expireLoop_timeouts now es _ k d hd
      simp only [inform, Bool.false_eq_true, ↓reduceIte, AssocMap.find?_erase] at hd'
      split at hd'
      · cases hd'
      · rename_i hkk
        refine ⟨hd', fun d' hmem => ?_⟩
        rcases List.mem_cons.mp hmem with he | hmem
        · exact absurd (Prod.mk.inj he).1 hkk
        · exact hlive d' hmem
    · rename_i hdue
      obtain ⟨hd', hlive⟩ := expireLoop_timeouts now es h k d hd
      refine ⟨hd', fun d' hmem => ?_⟩
      rcases List.mem_cons.mp hmem with he | hmem
      · rw [(Prod.mk.inj he).2]
        omega
      · exact hlive d' hmem

/-- After `Expire(now)`, the key of every transaction left has a timeout after `now`. -/
theorem expire_live {h : TXHolder K} (hi : h.Inv) (now : Nat) (o : TXOwner) (t : TX K)
    (ht : (h.expire (V := V) now).1.tx.find? o = some t) :
    ∃ d, (h.expire (V := V) now).1.timeouts.find? t.target = some d ∧ now < d := by
  have hi' := (expireLoop_spec (V := V) now h.timeouts.entries h hi).1
  have hc := hi'.waiting_timeouts _ o (hi'.tx_waiting o t ht)
  obtain ⟨d, hd⟩ := Option.isSome_iff_exists.mp hc
  obtain ⟨hd₀, hlive⟩ := expireLoop_timeouts now h.timeouts.entries h t.target d hd
  exact ⟨d, hd, hlive d ((AssocMap.find?_eq_some_iff _ _ _).mp hd₀)⟩

end Expire

/-- One operation with a fresh owner keeps the invariant, replies to the transactions it
removes, and adds at most the transaction of its `NewTX`. -/
theorem step_spec {h : TXHolder K} (hi : h.Inv) {op : Op K V} (hv : op.valid = true)
    (hf : ∀ o ∈ askpeers [op], h.tx.find? o = none) :
    (h.step op).1.Inv ∧ RepliesRemoved h (h.step op).1 (h.step op).2 ∧
      (∀ o, ((h.step op).1.tx.find? o).isSome → (h.tx.find? o).isSome ∨ o ∈ askpeers [op]) ∧
      ∀ o ∈ askpeers [op], ((h.step op).1.tx.find? o).isSome := by
  cases op with
  | newTX a w k t now rt =>
    have ha : h.tx.find? a = none := hf a (by simp [askpeers])
    have hk : k = t.target := by simpa [Op.valid] using hv
    refine ⟨hi.newTX w now rt ha hk, newTX_replies w k t now rt ha, fun o ho => ?_, fun o ho => ?_⟩
    · simp only [step, newTX_tx w k t now rt ha] at ho
      split at ho
      · exact .inr (by simp [askpeers, *])
      · exact .inl ho
    · simp only [askpeers, List.mem_singleton] at ho
      simp [step, newTX_tx w k t now rt ha, ho]
  | found fromOwner k values =>
    exact ⟨hi.inform_true _ _ k true, inform_true_replies _ _ k true,
      fun o ho => .inl (inform_true_shrinks _ _ k true o ho), by simp [askpeers]⟩
  | notFound fromOwner =>
    simp only [step, notFound]
    split
    · exact ⟨hi, RepliesRemoved.refl h, fun o ho => .inl ho, by simp [askpeers]⟩
    · rename_i t _
      exact ⟨hi.inform_true _ _ t.target true, inform_true_replies _ _ t.target true,
        fun o ho => .inl (inform_true_shrinks _ _ t.target true o ho), by simp [askpeers]⟩
  | expire now =>
    obtain ⟨hi', rr, s⟩ := expireLoop_spec (V := V) now h.timeouts.entries h hi
    exact ⟨hi', rr, fun o ho => .inl (s o ho), by simp [askpeers]⟩

/-- Over a run whose owners are fresh the invariant holds, and the run tracks its transactions. -/
theorem run_spec : ∀ (ops : List (Op K V)) (h : TXHolder K), h.Inv → (∀ op ∈ ops, op.valid = true) →
    (askpeers ops).Nodup → (∀ o ∈ askpeers ops, h.tx.find? o = none) →
    (h.run ops).1.Inv ∧ Tracks h (h.run ops).1 (askpeers ops) (h.run ops).2
  | [], h, hi, _, _, _ => ⟨hi, Tracks.nil h⟩
  | op :: ops, h, hi, hv, hnd, hf => by
    rw [askpeers_cons] at hnd hf ⊢
    obtain ⟨-, -, hdisj⟩ := List.nodup_append.mp hnd
    obtain ⟨hi₁, rr₁, grow₁, add₁⟩ :=
      step_spec hi (hv op (List.mem_cons_self ..)) fun o ho => hf o (List.mem_append_left _ ho)
    have t₁ := Tracks.of_step rr₁ grow₁ add₁
    -- the owners still to come are fresh before the first step and not filed by it
    have hB : ∀ o ∈ askpeers ops, h.tx.find? o = none ∧ o ∉ askpeers [op] :=
      fun o ho => ⟨hf o (List.mem_append_right _ ho), fun ha => hdisj o ha o ho rfl⟩
    have hf₁ : ∀ o ∈ askpeers ops, (h.step op).1.tx.find? o = none := by
      intro o ho
      cases h1 : (h.step op).1.tx.find? o with
      | none => rfl
      | some _ =>
        rcases grow₁ o (by simp [h1]) with hs | ha
        · simp [(hB o ho).1] at hs
        · exact absurd ha (hB o ho).2
    obtain ⟨hi₂, t₂⟩ := run_spec ops _ hi₁ (fun op' h' => hv op' (List.mem_cons_of_mem _ h'))
      (List.nodup_append.mp hnd).2.1 hf₁
    exact ⟨hi₂, t₁.append t₂ add₁ hB⟩

theorem inv_empty : (empty : TXHolder K).Inv where
  waiting_tx _ _ hw := by simp [empty] at hw
  tx_waiting _ _ ht := by simp [empty] at ht
  waiting_timeouts _ _ hw := by simp [empty] at hw

/-- Every run from an empty holder in which each `NewTX` has an owner of its own and files under
its target keeps the invariant; replies to each transaction at most once, and to exactly those
added and gone; in each further call replies to the transactions it removes; and `Expire(now)`
leaves only transactions whose key expires after `now`. -/
theorem txHolder_bookkeeping (ops : List (Op K V)) (hv : ∀ op ∈ ops, op.valid = true)
    (hfresh : (askpeers ops).Nodup) :
    let r := (empty : TXHolder K).run ops
    r.1.Inv ∧ (replies r.2).Nodup ∧
      (∀ o, o ∈ replies r.2 ↔ o ∈ askpeers ops ∧ r.1.tx.find? o = none) ∧
      (∀ op : Op K V, op.valid = true → (∀ o ∈ askpeers [op], r.1.tx.find? o = none) →
        RepliesRemoved r.1 (r.1.step op).1 (r.1.step op).2) ∧
      ∀ now o t, (r.1.expire (V := V) now).1.tx.find? o = some t →
        ∃ d, (r.1.expire (V := V) now).1.timeouts.find? t.target = some d ∧ now < d := by
  intro r
  obtain ⟨hi, t⟩ := run_spec ops empty inv_empty hv hfresh fun _ _ => rfl
  refine ⟨hi, t.nodup, fun o => ?_, fun op hop hf => (step_spec hi hop hf).2.1,
    fun now o t ht => expire_live hi now o t ht⟩
  have h0 : ((empty : TXHolder K).tx.find? o).isSome = false := rfl
  rw [t.replied, h0, Bool.false_eq_true, false_or]

/-- A lookup of key `7` through one peer, answered with the value `3`. -/
def lookupThenReply : List (Op Nat Nat) :=
  [.newTX ⟨AlignedBuffer.zero 32, 1⟩ ⟨AlignedBuffer.zero 32, 9⟩ 7 ⟨7⟩ 0 15000,
    .found ⟨AlignedBuffer.zero 32, 1⟩ 7 [3]]

theorem txHolder_bookkeeping_lookup :
    (∀ op ∈ lookupThenReply, op.valid = true) ∧ (askpeers lookupThenReply).Nodup ∧
      let r := (empty : TXHolder Nat).run lookupThenReply
      r.1.Inv ∧ (replies r.2).Nodup ∧
        (∀ o, o ∈ replies r.2 ↔ o ∈ askpeers lookupThenReply ∧ r.1.tx.find? o = none) ∧
        (∀ op : Op Nat Nat, op.valid = true → (∀ o ∈ askpeers [op], r.1.tx.find? o = none) →
          RepliesRemoved r.1 (r.1.step op).1 (r.1.step op).2) ∧
        ∀ now o t, (r.1.expire (V := Nat) now).1.tx.find? o = some t →
          ∃ d, (r.1.expire (V := Nat) now).1.timeouts.find? t.target = some d ∧ now < d :=
  ⟨by decide, by decide, txHolder_bookkeeping lookupThenReply (by decide) (by decide)⟩

end TXHolder

end Lokinet.Dht
