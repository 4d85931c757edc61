import Lokinet.Proofs.BencodeRead

/-!
What the bencode writers wrote when they report success. A chain of writers stopping at the first
failure wrote the concatenation of what each wrote, except that a `writef` may fill the space left
exactly and lose its last character to the NUL of `vsnprintf`; a later writer that needs a byte
then fails, so only a run ending in such a `writef` reports success with the wrong bytes.
-/

namespace Lokinet.Proofs.Bencode

open Lokinet.Util FaultState LlarpBuffer

/-- A writer spent the buffer: there was room when it started and none is left. -/
def Spent (b b' : LlarpBuffer) : Prop := 0 < b.sizeLeft ∧ b'.sizeLeft = 0

/-- When `w` reports success it wrote `e` at the cursor, or it spent the buffer on a
`writef` whose last character went to the NUL of `vsnprintf`. -/
def Emits (w : BufferM Bool) (e : List UInt8) : Prop :=
  ∀ b b', w b = some (true, b') → Wrote b b' e ∨ Spent b b'

/-- When `w` reports success it wrote exactly `e` at the cursor. -/
def Clean (w : BufferM Bool) (e : List UInt8) : Prop :=
  ∀ b b', w b = some (true, b') → Wrote b b' e

variable {w : BufferM Bool} {ws : List (BufferM Bool)} {e es : List UInt8}

theorem Clean.emits (h : Clean w e) : Emits w e := fun b b' hw => Or.inl (h b b' hw)

theorem emits_writef (text : List UInt8) : Emits (writef text) text := fun _ _ h => writef_true h

theorem clean_write (bytes : List UInt8) : Clean (write bytes) bytes := fun _ _ h => write_true h

theorem Wrote.length_le {b b' : LlarpBuffer} (h : Wrote b b' e) (he : e ≠ []) :
    e.length ≤ b.sizeLeft := by
  have hle := h.cur_le he
  obtain ⟨-, hc, -⟩ := h
  simp only [sizeLeft]
  omega

theorem Emits.nil : Emits (writeSeq []) [] := by
  intro b b' h
  simp only [writeSeq, pure_apply, Option.some.injEq, Prod.mk.injEq, true_and] at h
  subst h
  exact Or.inl (Wrote.refl b)

section Split

-- `x` succeeds only by running `y` and then `z` with success.
variable {x y z : BufferM Bool}
  (hsplit : ∀ b b', x b = some (true, b') → ∃ b₁, y b = some (true, b₁) ∧ z b₁ = some (true, b'))
include hsplit

/-- Emissions compose: after a spent buffer nothing more can be written. -/
theorem Emits.of_split (hy : Emits y e) (hz : Emits z es) : Emits x (e ++ es) := by
  intro b b' hrun
  obtain ⟨b₁, hw, hrest⟩ := hsplit b b' hrun
  rcases hy b b₁ hw with hw₁ | ⟨hpos, hzero⟩
  · rcases hz b₁ b' hrest with hw₂ | ⟨hpos₂, hzero₂⟩
    · exact Or.inl (hw₁.trans hw₂)
    · rw [hw₁.sizeLeft_eq] at hpos₂
      exact Or.inr ⟨by omega, hzero₂⟩
  · refine Or.inr ⟨hpos, ?_⟩
    rcases hz b₁ b' hrest with hw₂ | ⟨hpos₂, -⟩
    · rw [hw₂.sizeLeft_eq, hzero, Nat.zero_sub]
    · omega

/-- A clean, nonempty tail makes the whole run clean: it needed room a spent buffer lacks. -/
theorem Clean.of_split (hy : Emits y e) (hz : Clean z es) (hne : es ≠ []) :
    Clean x (e ++ es) := by
  intro b b' hrun
  obtain ⟨b₁, hw, hrest⟩ := hsplit b b' hrun
  rcases hy b b₁ hw with hw₁ | ⟨-, hzero⟩
  · exact hw₁.trans (hz b₁ b' hrest)
  · have hle := Wrote.length_le (hz b₁ b' hrest) hne
    have hpos := List.length_pos_iff.mpr hne
    omega

end Split

theorem Emits.cons (h : Emits w e) (hs : Emits (writeSeq ws) es) :
    Emits (writeSeq (w :: ws)) (e ++ es) :=
  Emits.of_split (fun _ _ => writeSeq_cons_true) h hs

theorem Emits.append {ws₁ ws₂ : List (BufferM Bool)} (h₁ : Emits (writeSeq ws₁) e)
    (h₂ : Emits (writeSeq ws₂) es) : Emits (writeSeq (ws₁ ++ ws₂)) (e ++ es) :=
  Emits.of_split (fun _ _ => writeSeq_append_true) h₁ h₂

theorem Clean.cons (h : Emits w e) (hs : Clean (writeSeq ws) es) (hne : es ≠ []) :
    Clean (writeSeq (w :: ws)) (e ++ es) :=
  Clean.of_split (fun _ _ => writeSeq_cons_true) h hs hne

theorem Clean.append {ws₁ ws₂ : List (BufferM Bool)} (h₁ : Emits (writeSeq ws₁) e)
    (h₂ : Clean (writeSeq ws₂) es) (hne : es ≠ []) : Clean (writeSeq (ws₁ ++ ws₂)) (e ++ es) :=
  Clean.of_split (fun _ _ => writeSeq_append_true) h₁ h₂ hne

theorem Clean.singleton (h : Clean w e) : Clean (writeSeq [w]) e :=
  fun b b' hrun => h b b' (writeSeq_singleton_true hrun)

theorem Emits.singleton (h : Emits w e) : Emits (writeSeq [w]) e := by
  simpa using Emits.cons h Emits.nil

/-- The writers of a record, field after field, emit what each field's writers emit. -/
theorem Emits.flatMap {α : Type} {xs : List α} {g : α → List (BufferM Bool)} {f : α → List UInt8}
    (h : ∀ x ∈ xs, Emits (writeSeq (g x)) (f x)) :
    Emits (writeSeq (xs.flatMap g)) (xs.map f).flatten := by
  induction xs with
  | nil => exact Emits.nil
  | cons x xs ih =>
    have hrest := ih fun y hy => h y (List.mem_cons_of_mem x hy)
    simpa using Emits.append (h x List.mem_cons_self) hrest

theorem Emits.map {α : Type} {xs : List α} {w : α → BufferM Bool} {f : α → List UInt8}
    (h : ∀ x ∈ xs, Emits (w x) (f x)) : Emits (writeSeq (xs.map w)) (xs.map f).flatten := by
  have hs : Emits (writeSeq (xs.flatMap fun x => [w x])) (xs.map f).flatten :=
    Emits.flatMap fun x hx => Emits.singleton (h x hx)
  rwa [← List.map_eq_flatMap] at hs

theorem emits_bencodeWriteBytestring (s : List UInt8) :
    Emits (bencodeWriteBytestring s) (bytestringEnc s) := by
  have h := Emits.cons (emits_writef (Decimal.decimal s.length ++ [58]))
    (Emits.cons (clean_write s).emits Emits.nil)
  simpa [bencodeWriteBytestring, bytestringEnc] using h

theorem clean_bencodeWriteBytestring {s : List UInt8} (hs : s ≠ []) :
    Clean (bencodeWriteBytestring s) (bytestringEnc s) := by
  have h := Clean.cons (emits_writef (Decimal.decimal s.length ++ [58]))
    (Clean.singleton (clean_write s)) hs
  simpa [bencodeWriteBytestring, bytestringEnc] using h

theorem clean_bencodeWriteUint64 (n : UInt64) : Clean (bencodeWriteUint64 n) (integerEnc n) := by
  have h := Clean.cons (emits_writef (105 :: Decimal.decimal n.toNat))
    (Clean.singleton (clean_write [101])) (by simp)
  simpa [bencodeWriteUint64, integerEnc] using h

/-- A dict entry: its key through `bencode_write_bytestring`, then its value. -/
theorem Emits.pair (h : Emits w e) (key : List UInt8) :
    Emits (writeSeq [bencodeWriteBytestring key, w]) (bytestringEnc key ++ e) := by
  simpa using Emits.cons (emits_bencodeWriteBytestring key) (Emits.cons h Emits.nil)

theorem emits_bencodeWriteUint64Entry (key : List UInt8) (n : UInt64) :
    Emits (bencodeWriteUint64Entry key n) (bytestringEnc key ++ integerEnc n) :=
  Emits.pair (clean_bencodeWriteUint64 n).emits key

/-- Away from the exact fit of an empty string, `bencode_write_bytestring` wrote `<length>:<s>`. -/
theorem bencodeWriteBytestring_wrote {s : List UInt8} {b b' : LlarpBuffer}
    (h : bencodeWriteBytestring s b = some (true, b')) (hfit : s = [] → b.sizeLeft ≠ 2) :
    Wrote b b' (bytestringEnc s) := by
  by_cases hs : s = []
  · subst hs
    obtain ⟨b₁, hw, hrest⟩ := writeSeq_cons_true h
    have hw₂ := writeSeq_singleton_true hrest
    -- `printf("%zu:", 0)` is the two bytes `0:`
    have hlen : (Decimal.decimal ([] : List UInt8).length ++ [58]).length = 2 := by decide
    have h₁ := writef_wrote_of_ne hw (by rw [hlen]; exact hfit rfl)
    simpa [bytestringEnc] using h₁.trans (write_true hw₂)
  · exact clean_bencodeWriteBytestring hs b b' h


/-! ### Writers that succeed

`Emits` says what a writer wrote when it reports success. On any buffer with room for what a
writer means to write and one byte more for the NUL of a `writef`, the bencode writers do
succeed: they copy their bytes to the cursor, move past them, and leave the rest of the buffer
as it was but for that NUL, which the next writer covers. -/

/-- `w` writes exactly `e` on every buffer with room for `e` and one byte more; a `z` of one zero
is the NUL a last `writef` stores just after. -/
def Puts (w : BufferM Bool) (e : List UInt8) : Prop :=
  ∀ b : LlarpBuffer, e.length < b.sizeLeft → ∃ z : List UInt8, (z = [] ∨ z = [0]) ∧
    w b = some (true, ⟨Window.paste b.mem b.cur (e ++ z), b.cur + e.length⟩)

theorem puts_write (bytes : List UInt8) : Puts (write bytes) bytes := by
  intro b hb
  exact ⟨[], Or.inl rfl, by simp [write, Nat.le_of_lt hb]⟩

theorem puts_writef {text : List UInt8} (hne : text ≠ []) : Puts (writef text) text :=
  fun _ hb => ⟨[0], Or.inr rfl, writef_eq_paste hne hb⟩

theorem Puts.nil : Puts (writeSeq []) [] := by
  intro b _
  exact ⟨[], Or.inl rfl, by simp [writeSeq, pure_apply]⟩

/-- What a writer that puts `e` leaves: `e` written at the cursor. -/
theorem Puts.wrote (h : Puts w e) {b : LlarpBuffer} (hb : e.length < b.sizeLeft) :
    ∃ b', w b = some (true, b') ∧ Wrote b b' e := by
  obtain ⟨z, hz, hw⟩ := h b hb
  have hcur : b.cur + e.length + 1 ≤ b.mem.length := by
    simp only [sizeLeft] at hb
    omega
  have hzlen : z.length ≤ 1 := by rcases hz with rfl | rfl <;> simp
  refine ⟨_, hw, Window.length_paste (by simp; omega), rfl, ?_⟩
  show (Window.paste b.mem b.cur (e ++ z)).take (b.cur + e.length) = b.mem.take b.cur ++ e
  rw [Window.paste_append (by omega), Window.take_paste_of_le le_rfl (by
    rw [Window.length_paste (by omega)]; omega), Window.take_paste (by omega)]

section PutsSplit

-- `x` runs `y` and, when it succeeds, goes on as `z` from where `y` stopped.
variable {x y z : BufferM Bool} (hseq : ∀ b b₁, y b = some (true, b₁) → x b = z b₁)
include hseq

theorem Puts.of_split (hy : Puts y e) (hz : Puts z es) : Puts x (e ++ es) := by
  intro b hb
  rw [List.length_append] at hb
  obtain ⟨z₁, hz₁, hy'⟩ := hy b (by omega)
  have hz₁len : z₁.length ≤ 1 := by rcases hz₁ with rfl | rfl <;> simp
  have hcur : b.cur + e.length + es.length + 1 ≤ b.mem.length := by
    simp only [sizeLeft] at hb
    omega
  have hlen : (Window.paste b.mem b.cur (e ++ z₁)).length = b.mem.length :=
    Window.length_paste (by simp; omega)
  obtain ⟨z₂, hz₂, hz'⟩ := hz ⟨Window.paste b.mem b.cur (e ++ z₁), b.cur + e.length⟩
    (by simp only [sizeLeft, hlen]; omega)
  rw [hseq _ _ hy', hz']
  dsimp only
  -- the NUL `y` may leave is covered by what `z` copies, unless `z` copies nothing
  by_cases hnil : es ++ z₂ = []
  · obtain ⟨rfl, rfl⟩ := List.append_eq_nil_iff.mp hnil
    exact ⟨z₁, hz₁, by simp⟩
  · have hcover : z₁.length ≤ (es ++ z₂).length := by
      have := List.length_pos_iff.mpr hnil
      omega
    refine ⟨z₂, hz₂, ?_⟩
    have hlen' : (Window.paste b.mem b.cur e).length = b.mem.length :=
      Window.length_paste (by omega)
    rw [@Window.paste_append _ b.mem e z₁ b.cur (by omega),
      Window.paste_paste_of_length_le (by omega) hcover,
      ← @Window.paste_append _ b.mem e (es ++ z₂) b.cur (by omega), List.append_assoc,
      List.length_append, Nat.add_assoc]

end PutsSplit

theorem Puts.cons (h : Puts w e) (hs : Puts (writeSeq ws) es) :
    Puts (writeSeq (w :: ws)) (e ++ es) :=
  Puts.of_split (fun _ _ => writeSeq_cons_of_true) h hs

theorem Puts.append {ws₁ ws₂ : List (BufferM Bool)} (h₁ : Puts (writeSeq ws₁) e)
    (h₂ : Puts (writeSeq ws₂) es) : Puts (writeSeq (ws₁ ++ ws₂)) (e ++ es) :=
  Puts.of_split (fun _ _ => writeSeq_append_of_true) h₁ h₂

theorem Puts.singleton (h : Puts w e) : Puts (writeSeq [w]) e := by
  simpa using Puts.cons h Puts.nil

theorem Puts.flatMap {α : Type} {xs : List α} {g : α → List (BufferM Bool)} {f : α → List UInt8}
    (h : ∀ x ∈ xs, Puts (writeSeq (g x)) (f x)) :
    Puts (writeSeq (xs.flatMap g)) (xs.map f).flatten := by
  induction xs with
  | nil => exact Puts.nil
  | cons x xs ih =>
    have hrest := ih fun y hy => h y (List.mem_cons_of_mem x hy)
    simpa using Puts.append (h x List.mem_cons_self) hrest

theorem Puts.map {α : Type} {xs : List α} {w : α → BufferM Bool} {f : α → List UInt8}
    (h : ∀ x ∈ xs, Puts (w x) (f x)) : Puts (writeSeq (xs.map w)) (xs.map f).flatten := by
  have hs : Puts (writeSeq (xs.flatMap fun x => [w x])) (xs.map f).flatten :=
    Puts.flatMap fun x hx => Puts.singleton (h x hx)
  rwa [← List.map_eq_flatMap] at hs

/-- A dict or a list: its opening letter, its body, and `e`. -/
theorem Puts.container (c : UInt8) (h : Puts (writeSeq ws) es) :
    Puts (writeSeq (write [c] :: (ws ++ [bencodeEnd]))) (c :: (es ++ [101])) := by
  simpa [bencodeEnd] using
    Puts.cons (puts_write [c]) (Puts.append h (Puts.singleton (puts_write [101])))

theorem puts_bencodeWriteBytestring (s : List UInt8) :
    Puts (bencodeWriteBytestring s) (bytestringEnc s) := by
  have h := Puts.cons (puts_writef (by simp : Decimal.decimal s.length ++ [58] ≠ []))
    (Puts.singleton (puts_write s))
  simpa [bencodeWriteBytestring, bytestringEnc] using h

theorem puts_bencodeWriteUint64 (n : UInt64) : Puts (bencodeWriteUint64 n) (integerEnc n) := by
  have h := Puts.cons (puts_writef (List.cons_ne_nil 105 (Decimal.decimal n.toNat)))
    (Puts.singleton (puts_write [101]))
  simpa [bencodeWriteUint64, integerEnc] using h

theorem Puts.pair (h : Puts w e) (key : List UInt8) :
    Puts (writeSeq [bencodeWriteBytestring key, w]) (bytestringEnc key ++ e) := by
  simpa using Puts.cons (puts_bencodeWriteBytestring key) (Puts.singleton h)

theorem puts_bencodeWriteUint64Entry (key : List UInt8) (n : UInt64) :
    Puts (bencodeWriteUint64Entry key n) (bytestringEnc key ++ integerEnc n) :=
  Puts.pair (puts_bencodeWriteUint64 n) key

/-- On a fresh zeroed buffer with room to spare, the writer leaves its bytes at the front: the
NUL of a last `writef` lands on a zero. -/
theorem Puts.ofBytes (h : Puts w e) {n : Nat} (hn : e.length < n) :
    w (ofBytes (List.replicate n 0)) =
      some (true, ⟨e ++ List.replicate (n - e.length) 0, e.length⟩) := by
  obtain ⟨z, hz, hw⟩ := h (LlarpBuffer.ofBytes (List.replicate n 0)) (by
    simpa [LlarpBuffer.ofBytes, sizeLeft] using hn)
  have hpaste := Window.paste_replicate [] (e ++ z) n 0
  simp only [List.nil_append, List.length_nil] at hpaste
  rw [hw, LlarpBuffer.ofBytes, hpaste, Nat.zero_add]
  rcases hz with rfl | rfl
  · simp
  · obtain ⟨k, hk⟩ : ∃ k, n - e.length = k + 1 := ⟨n - e.length - 1, by omega⟩
    simp [hk, List.replicate_succ, show n - (e.length + 1) = k by omega]

end Lokinet.Proofs.Bencode
