import Lokinet.Lib.FaultState
import Lokinet.Lib.Bytes

/-!
`llarp_buffer_t` (llarp/util/buffer.hpp, buffer.cpp): a window `[base, base + sz)` over
memory and a stream position `cur`. A routine taking `llarp_buffer_t *` is a `BufferM`
program; it is `none` exactly when it dereferences outside the window.
-/

namespace Lokinet.Util

open FaultState

/-- `llarp_buffer_t`: the bytes `[base, base + sz)` and the stream position `cur - base`. -/
structure LlarpBuffer where
  mem : List UInt8
  cur : Nat
  deriving DecidableEq, Repr

/-- A routine on a `llarp_buffer_t *`; `none` is an access outside `[base, base + sz)`. -/
abbrev BufferM := StateT LlarpBuffer Option

namespace LlarpBuffer

/-- `llarp_buffer_t::size_left`: what lies between the cursor and the end, zero past the end. -/
def sizeLeft (b : LlarpBuffer) : Nat := b.mem.length - b.cur

/-- The buffer `llarp_buffer_t buf(v)` builds over a whole vector: cursor at the base. -/
def ofBytes (v : List UInt8) : LlarpBuffer := ⟨v, 0⟩

end LlarpBuffer

open LlarpBuffer

/-- `*cur`. -/
def deref : BufferM UInt8 := fun b => (b.mem[b.cur]?).map (·, b)

/-- `*cur = x`. -/
def store (x : UInt8) : BufferM Unit := fun b =>
  if b.cur < b.mem.length then some ((), { b with mem := b.mem.set b.cur x }) else none

/-- `cur += n`: pointer arithmetic only. -/
def advance (n : Nat) : BufferM Unit := modify fun b => { b with cur := b.cur + n }

/-- `llarp_buffer_t::write`: copy `bytes` to the cursor when they fit. -/
def write (bytes : List UInt8) : BufferM Bool := fun b =>
  if bytes.length ≤ b.sizeLeft then
    some (true, ⟨Window.paste b.mem b.cur bytes, b.cur + bytes.length⟩)
  else some (false, b)

/-- `memcpy(cur, bytes, n)`: undefined unless the copy stays inside the buffer. -/
def memcpy (bytes : List UInt8) : BufferM Unit := fun b =>
  if b.cur + bytes.length ≤ b.mem.length then
    some ((), { b with mem := Window.paste b.mem b.cur bytes })
  else none

/-- Writers run in order until one fails: `if (!w) return false;` for each, then
`return true`. A final `return w(buf);` is the same as a last step. -/
def writeSeq : List (BufferM Bool) → BufferM Bool
  | [] => pure true
  | w :: ws => do
    if !(← w) then return false
    writeSeq ws

/-- `llarp_buffer_t::writef` for a format whose output is `text`. `vsnprintf` into the
`size_left()` bytes left stores at most `size_left() - 1` characters and a NUL, and returns
the full length, which moves the cursor whenever it is not more than the space left. -/
def writef (text : List UInt8) : BufferM Bool := fun b =>
  let toWrite := b.sizeLeft
  let stored := if toWrite = 0 then [] else text.take (toWrite - 1) ++ [0]
  let b := { b with mem := Window.paste b.mem b.cur stored }
  if text.length = 0 then some (false, b)
  else if toWrite < text.length then some (false, b)
  else some (true, { b with cur := b.cur + text.length })

/-- `put_uint16`, `put_uint32` and `put_uint64`: `n` big-endian in `width` bytes, if they fit. -/
def putUint (width n : Nat) : BufferM Bool := fun b =>
  if b.sizeLeft < width then some (false, b)
  else some (true, ⟨Window.paste b.mem b.cur (BigEndian.bytes width n), b.cur + width⟩)

def putUint16 (i : UInt16) : BufferM Bool := putUint 2 i.toNat

def putUint32 (i : UInt32) : BufferM Bool := putUint 4 i.toNat

def putUint64 (i : UInt64) : BufferM Bool := putUint 8 i.toNat

/-- `read_uint16`, `read_uint32` and `read_uint64`: a big-endian number of `width` bytes,
if they are there. -/
def readUint (width : Nat) : BufferM (Option Nat) := fun b =>
  if b.sizeLeft < width then some (none, b)
  else some (some (BigEndian.value ((b.mem.drop b.cur).take width)), { b with cur := b.cur + width })

def readUint16 : BufferM (Option UInt16) := do
  let r ← readUint 2
  return r.map UInt16.ofNat

def readUint32 : BufferM (Option UInt32) := do
  let r ← readUint 4
  return r.map UInt32.ofNat

def readUint64 : BufferM (Option UInt64) := do
  let r ← readUint 8
  return r.map UInt64.ofNat

/-- The loop of `read_until`: `while ((cur != base + sz) && *cur != delim && resultsize)`,
copying each byte to the result. The byte at the cursor is read before `resultsize` is
tested, and a cursor already past the end is dereferenced. -/
def readUntilLoop (delim : UInt8) : Nat → List UInt8 → BufferM (List UInt8)
  | resultsize, acc => fun b =>
    if b.cur = b.mem.length then some (acc, b)
    else match b.mem[b.cur]? with
      | none => none
      | some c =>
        if c = delim then some (acc, b)
        else match resultsize with
          | 0 => some (acc, b)
          | n + 1 => readUntilLoop delim n (acc ++ [c]) { b with cur := b.cur + 1 }

/-- `llarp_buffer_t::read_until`: the bytes copied to `result`, and the count it returns,
which is zero when the loop stopped at the end of the buffer. -/
def readUntil (delim : UInt8) (resultsize : Nat) : BufferM (Nat × List UInt8) := do
  let read ← readUntilLoop delim resultsize []
  let b ← get
  if b.sizeLeft = 0 then return (0, read) else return (read.length, read)

@[simp] theorem advance_apply (n : Nat) (b : LlarpBuffer) :
    advance n b = some ((), { b with cur := b.cur + n }) := rfl

@[simp] theorem advance_bind {β : Type} (n : Nat) (f : Unit → BufferM β) (b : LlarpBuffer) :
    (advance n >>= f) b = f () { b with cur := b.cur + n } := rfl

/-- The bytes from the cursor on are the space left. -/
theorem length_drop_cur (b : LlarpBuffer) : (b.mem.drop b.cur).length = b.sizeLeft := by
  simp [sizeLeft]

theorem deref_of_drop {b : LlarpBuffer} {x : UInt8} {rest : List UInt8}
    (h : b.mem.drop b.cur = x :: rest) : deref b = some (x, b) := by
  simp [deref, Window.getElem?_of_drop_eq_cons h]

/-- Moving the cursor past a known prefix of what follows it. -/
theorem drop_advance {b : LlarpBuffer} {ys zs : List UInt8} (h : b.mem.drop b.cur = ys ++ zs) :
    ({ b with cur := b.cur + ys.length } : LlarpBuffer).mem.drop
      ({ b with cur := b.cur + ys.length } : LlarpBuffer).cur = zs :=
  Window.drop_add_of_drop_eq_append h

theorem drop_advance_one {b : LlarpBuffer} {x : UInt8} {zs : List UInt8}
    (h : b.mem.drop b.cur = x :: zs) :
    ({ b with cur := b.cur + 1 } : LlarpBuffer).mem.drop
      ({ b with cur := b.cur + 1 } : LlarpBuffer).cur = zs :=
  Window.drop_succ_of_drop_eq_cons h

theorem deref_of_le {b : LlarpBuffer} (h : b.mem.length ≤ b.cur) : deref b = none := by
  simp [deref, h]

theorem store_of_lt {x : UInt8} {b : LlarpBuffer} (h : b.cur < b.mem.length) :
    store x b = some ((), { b with mem := Window.paste b.mem b.cur [x] }) := by
  simp [store, h, Window.paste_singleton h]

theorem store_of_le {x : UInt8} {b : LlarpBuffer} (h : b.mem.length ≤ b.cur) : store x b = none := by
  simp [store, Nat.not_lt.mpr h]

theorem memcpy_of_le {bytes : List UInt8} {b : LlarpBuffer}
    (h : b.cur + bytes.length ≤ b.mem.length) :
    memcpy bytes b = some ((), { b with mem := Window.paste b.mem b.cur bytes }) := by
  simp [memcpy, h]

/-! ### Writing: the bytes before the cursor grow by what was written -/

/-- `b'` is `b` after `w` was written at the cursor: same size, cursor moved by `|w|`, and
the bytes before the new cursor are the old ones followed by `w`. -/
def Wrote (b b' : LlarpBuffer) (w : List UInt8) : Prop :=
  b'.mem.length = b.mem.length ∧ b'.cur = b.cur + w.length ∧
    b'.mem.take b'.cur = b.mem.take b.cur ++ w

namespace Wrote

variable {b b₁ b₂ b₃ : LlarpBuffer} {w w₁ w₂ : List UInt8}

theorem refl (b : LlarpBuffer) : Wrote b b [] := ⟨rfl, by simp, by simp⟩

theorem trans (h₁ : Wrote b₁ b₂ w₁) (h₂ : Wrote b₂ b₃ w₂) : Wrote b₁ b₃ (w₁ ++ w₂) := by
  obtain ⟨hl₁, hc₁, ht₁⟩ := h₁
  obtain ⟨hl₂, hc₂, ht₂⟩ := h₂
  refine ⟨hl₂.trans hl₁, by simp [hc₂, hc₁]; omega, ?_⟩
  rw [ht₂, ht₁, List.append_assoc]

/-- A nonempty write needed room: it ended inside the buffer. -/
theorem cur_le (h : Wrote b b' w) (hw : w ≠ []) : b'.cur ≤ b.mem.length := by
  obtain ⟨hl, hc, ht⟩ := h
  have hlen := congrArg List.length ht
  simp only [List.length_take, List.length_append] at hlen
  have : 0 < w.length := List.length_pos_iff.mpr hw
  omega

theorem sizeLeft_eq (h : Wrote b b' w) : b'.sizeLeft = b.sizeLeft - w.length := by
  obtain ⟨hl, hc, -⟩ := h
  simp only [sizeLeft, hl, hc]
  omega

/-- Read from the old cursor, the written bytes come first. -/
theorem drop_cur (h : Wrote b b' w) : b'.mem.drop b.cur = w ++ b'.mem.drop b'.cur := by
  by_cases hw : w = []
  · subst hw
    obtain ⟨-, hc, -⟩ := h
    simp [hc]
  · have hle := h.cur_le hw
    obtain ⟨hl, hc, ht⟩ := h
    have hsplit := List.take_append_drop b'.cur b'.mem
    rw [ht] at hsplit
    have hlen : (b.mem.take b.cur).length = b.cur := by simp; omega
    calc b'.mem.drop b.cur
        = (b.mem.take b.cur ++ w ++ b'.mem.drop b'.cur).drop b.cur := by rw [hsplit]
      _ = w ++ b'.mem.drop b'.cur := by
          rw [List.append_assoc, List.drop_left' hlen]

/-- Copying `w` to the cursor and moving past it wrote `w`. -/
theorem paste {b : LlarpBuffer} {w : List UInt8} (h : b.cur + w.length ≤ b.mem.length) :
    Wrote b ⟨Window.paste b.mem b.cur w, b.cur + w.length⟩ w :=
  ⟨Window.length_paste h, rfl, Window.take_paste (by omega)⟩

end Wrote

/-- What `write` does: copy and advance when the bytes fit, nothing otherwise. -/
theorem write_apply (bytes : List UInt8) (b : LlarpBuffer) :
    ∃ b', write bytes b = some (decide (bytes.length ≤ b.sizeLeft), b') ∧
      (bytes.length ≤ b.sizeLeft → Wrote b b' bytes) ∧ (¬bytes.length ≤ b.sizeLeft → b' = b) := by
  by_cases h : bytes.length ≤ b.sizeLeft
  · refine ⟨⟨Window.paste b.mem b.cur bytes, b.cur + bytes.length⟩, by simp [write, h],
      fun _ => ?_, fun h' => absurd h h'⟩
    have hc : b.cur ≤ b.mem.length ∨ bytes = [] := by
      by_cases hb : bytes = []
      · exact Or.inr hb
      · left
        have := List.length_pos_iff.mpr hb
        simp only [sizeLeft] at h
        omega
    rcases hc with hc | rfl
    · simp only [sizeLeft] at h
      exact ⟨Window.length_paste (by omega), rfl, Window.take_paste hc⟩
    · simp [Wrote, Window.paste]
  · exact ⟨b, by simp [write, h], fun h' => absurd h' h, fun _ => rfl⟩

theorem write_of_le {bytes : List UInt8} {b : LlarpBuffer} (h : bytes.length ≤ b.sizeLeft) :
    ∃ b', write bytes b = some (true, b') ∧ Wrote b b' bytes := by
  obtain ⟨b', hw, hw', -⟩ := write_apply bytes b
  exact ⟨b', by simpa [h] using hw, hw' h⟩

theorem write_true {bytes : List UInt8} {b b' : LlarpBuffer}
    (h : write bytes b = some (true, b')) : Wrote b b' bytes := by
  obtain ⟨b'', hw, hw', -⟩ := write_apply bytes b
  rw [hw] at h
  simp only [Option.some.injEq, Prod.mk.injEq, decide_eq_true_eq] at h
  obtain ⟨hle, rfl⟩ := h
  exact hw' hle

theorem write_false {bytes : List UInt8} {b b' : LlarpBuffer}
    (h : write bytes b = some (false, b')) : b' = b ∧ b.sizeLeft < bytes.length := by
  obtain ⟨b'', hw, -, hw'⟩ := write_apply bytes b
  rw [hw] at h
  simp only [Option.some.injEq, Prod.mk.injEq, decide_eq_false_iff_not] at h
  obtain ⟨hlt, rfl⟩ := h
  exact ⟨hw' hlt, Nat.lt_of_not_le hlt⟩

theorem putUint_eq_write (width n : Nat) : putUint width n = write (BigEndian.bytes width n) := by
  funext b
  by_cases h : b.sizeLeft < width
  · simp [putUint, write, h]
  · simp [putUint, write, h, Nat.le_of_not_lt h]

/-- `writef` with room to spare copies the whole text and its NUL to the cursor, and moves past
the text. -/
theorem writef_eq_paste {text : List UInt8} {b : LlarpBuffer} (hne : text ≠ [])
    (h : text.length < b.sizeLeft) :
    writef text b = some (true, ⟨Window.paste b.mem b.cur (text ++ [0]), b.cur + text.length⟩) := by
  have hstored : text.take (b.sizeLeft - 1) = text := List.take_of_length_le (by omega)
  have hlen0 : text.length ≠ 0 := by simpa using hne
  simp only [writef, hstored, Nat.ne_of_gt (Nat.lt_of_le_of_lt (Nat.zero_le _) h), ↓reduceIte,
    hlen0, Nat.not_lt.mpr (Nat.le_of_lt h)]

/-- `writef` with room to spare writes the whole text and its NUL just past the cursor. -/
theorem writef_of_lt {text : List UInt8} {b : LlarpBuffer} (hne : text ≠ [])
    (h : text.length < b.sizeLeft) : ∃ b', writef text b = some (true, b') ∧ Wrote b b' text := by
  have hcur : b.cur + text.length < b.mem.length := by
    simp only [sizeLeft] at h
    omega
  refine ⟨_, writef_eq_paste hne h, Window.length_paste (by simp; omega), rfl, ?_⟩
  have ht := @Window.take_paste _ b.mem (text ++ [0]) b.cur (by omega)
  have hlen : (b.mem.take b.cur ++ text).length = b.cur + text.length := by simp; omega
  calc (Window.paste b.mem b.cur (text ++ [0])).take (b.cur + text.length)
      = ((Window.paste b.mem b.cur (text ++ [0])).take
          (b.cur + (text ++ [0]).length)).take (b.cur + text.length) := by
        rw [List.take_take]
        simp
    _ = b.mem.take b.cur ++ text := by
        rw [ht, ← List.append_assoc, List.take_left' hlen]

/-- A successful `writef` had a nonempty text that fit in the space left. -/
theorem writef_true_le {text : List UInt8} {b b' : LlarpBuffer}
    (h : writef text b = some (true, b')) : text ≠ [] ∧ text.length ≤ b.sizeLeft := by
  have hne : text ≠ [] := by
    intro he
    subst he
    simp [writef] at h
  have hlen0 : text.length ≠ 0 := by simpa using hne
  refine ⟨hne, Nat.not_lt.mp fun hl => ?_⟩
  simp [writef, hlen0, hl] at h

/-- A successful `writef` wrote its text, or filled the space left exactly and lost its
last character to the NUL `vsnprintf` needs. -/
theorem writef_true {text : List UInt8} {b b' : LlarpBuffer} (h : writef text b = some (true, b')) :
    Wrote b b' text ∨ (0 < b.sizeLeft ∧ b'.sizeLeft = 0) := by
  obtain ⟨hne, hle⟩ := writef_true_le h
  by_cases hlt : text.length < b.sizeLeft
  · obtain ⟨b'', h', hw⟩ := writef_of_lt hne hlt
    rw [h'] at h
    cases h
    exact Or.inl hw
  · right
    have hlen0 : text.length ≠ 0 := by simpa using hne
    have heq : b.sizeLeft = text.length := by omega
    have hpos : b.sizeLeft ≠ 0 := by omega
    simp only [writef, hlen0, Nat.not_lt.mpr hle, hpos, ↓reduceIte, Option.some.injEq,
      Prod.mk.injEq, true_and] at h
    subst h
    refine ⟨by omega, ?_⟩
    have hl : b.cur + (text.take (b.sizeLeft - 1) ++ [0]).length ≤ b.mem.length := by
      simp only [sizeLeft] at heq hpos
      simp
      omega
    show (Window.paste b.mem b.cur (text.take (b.sizeLeft - 1) ++ [0])).length -
      (b.cur + text.length) = 0
    rw [Window.length_paste hl]
    simp only [sizeLeft] at heq
    omega

/-- Away from the exact fit, a successful `writef` wrote its whole text. -/
theorem writef_wrote_of_ne {text : List UInt8} {b b' : LlarpBuffer}
    (h : writef text b = some (true, b')) (hfit : b.sizeLeft ≠ text.length) : Wrote b b' text := by
  obtain ⟨hne, hle⟩ := writef_true_le h
  have hlt : text.length < b.sizeLeft := by omega
  obtain ⟨b'', h', hw⟩ := writef_of_lt hne hlt
  rw [h'] at h
  cases h
  exact hw

theorem readUint_of_drop {width n : Nat} {b : LlarpBuffer} {rest : List UInt8}
    (h : b.mem.drop b.cur = BigEndian.bytes width n ++ rest) :
    readUint width b = some (some (n % 256 ^ width), { b with cur := b.cur + width }) := by
  have hl := congrArg List.length h
  simp only [List.length_drop, List.length_append, BigEndian.length_bytes] at hl
  have hroom : ¬b.sizeLeft < width := by
    simp only [sizeLeft]
    omega
  simp only [readUint, hroom, ↓reduceIte, h, List.take_left' (BigEndian.length_bytes width n),
    BigEndian.value_bytes]

theorem readUint16_of_drop {i : UInt16} {b : LlarpBuffer} {rest : List UInt8}
    (h : b.mem.drop b.cur = BigEndian.bytes 2 i.toNat ++ rest) :
    readUint16 b = some (some i, { b with cur := b.cur + 2 }) := by
  simp [readUint16, bind_of_some (readUint_of_drop h)]

theorem readUint32_of_drop {i : UInt32} {b : LlarpBuffer} {rest : List UInt8}
    (h : b.mem.drop b.cur = BigEndian.bytes 4 i.toNat ++ rest) :
    readUint32 b = some (some i, { b with cur := b.cur + 4 }) := by
  simp [readUint32, bind_of_some (readUint_of_drop h)]

/-- The copy loop of `read_until` runs over the bytes before the delimiter, or before the end
of the buffer when `tail` is empty. -/
theorem readUntilLoop_of_drop {delim : UInt8} {ds tail : List UInt8} {k : Nat} (acc : List UInt8)
    {b : LlarpBuffer} (hd : ∀ c ∈ ds, c ≠ delim) (hk : ds.length ≤ k)
    (h : b.mem.drop b.cur = ds ++ tail) (hcur : b.cur ≤ b.mem.length)
    (htail : ∀ c ∈ tail.head?, c = delim) :
    readUntilLoop delim k acc b = some (acc ++ ds, { b with cur := b.cur + ds.length }) := by
  induction ds generalizing k acc b with
  | nil =>
    rw [List.nil_append] at h
    rw [readUntilLoop]
    cases tail with
    | nil =>
      have hend : b.cur = b.mem.length := by
        have := congrArg List.length h
        simp only [List.length_drop, List.length_nil] at this
        omega
      dsimp only
      rw [if_pos hend, List.append_nil, List.length_nil, Nat.add_zero]
    | cons c rest =>
      obtain rfl : c = delim := htail c rfl
      have hlt : b.cur < b.mem.length := by
        have := congrArg List.length h
        simp at this
        omega
      simp [Nat.ne_of_lt hlt, Window.getElem?_of_drop_eq_cons h]
  | cons d ds ih =>
    obtain ⟨k, rfl⟩ : ∃ j, k = j + 1 := ⟨k - 1, by simp at hk; omega⟩
    have hlt : b.cur < b.mem.length := by
      have := congrArg List.length h
      simp at this
      omega
    have hne : d ≠ delim := hd d (by simp)
    rw [readUntilLoop]
    simp only [Nat.ne_of_lt hlt, ↓reduceIte, Window.getElem?_of_drop_eq_cons h, hne]
    rw [ih (acc ++ [d]) (fun c hc => hd c (by simp [hc])) (by simpa using hk) (drop_advance_one h)
      hlt]
    simp [Nat.add_assoc, Nat.add_comm 1]

theorem readUntil_of_drop {delim : UInt8} {ds rest : List UInt8} {k : Nat} {b : LlarpBuffer}
    (hd : ∀ c ∈ ds, c ≠ delim) (hk : ds.length ≤ k) (h : b.mem.drop b.cur = ds ++ delim :: rest) :
    readUntil delim k b = some ((ds.length, ds), { b with cur := b.cur + ds.length }) := by
  have hlen := congrArg List.length h
  simp only [List.length_drop, List.length_append, List.length_cons] at hlen
  have hleft : ({ b with cur := b.cur + ds.length } : LlarpBuffer).sizeLeft ≠ 0 := by
    simp only [sizeLeft]
    omega
  have hloop := readUntilLoop_of_drop [] hd hk h (by omega) (by simp)
  simp [readUntil, bind_of_some hloop, hleft]

/-- With no delimiter before the end, `read_until` copies the rest of the buffer and returns
zero. -/
theorem readUntil_of_drop_end {delim : UInt8} {ds : List UInt8} {k : Nat} {b : LlarpBuffer}
    (hd : ∀ c ∈ ds, c ≠ delim) (hk : ds.length ≤ k) (hcur : b.cur ≤ b.mem.length)
    (h : b.mem.drop b.cur = ds) :
    readUntil delim k b = some ((0, ds), { b with cur := b.cur + ds.length }) := by
  have hlen := congrArg List.length h
  simp only [List.length_drop] at hlen
  have hleft : ({ b with cur := b.cur + ds.length } : LlarpBuffer).sizeLeft = 0 := by
    simp only [sizeLeft]
    omega
  have hloop := readUntilLoop_of_drop [] hd hk (h.trans (List.append_nil ds).symm) hcur (by simp)
  simp [readUntil, bind_of_some hloop, hleft]

/-- The copy loop of `read_until` only appends to the bytes it was given. -/
theorem readUntilLoop_prefix {delim : UInt8} {k : Nat} {acc r : List UInt8} {b b' : LlarpBuffer}
    (h : readUntilLoop delim k acc b = some (r, b')) : acc <+: r := by
  -- the turns that stop return `acc`; the one that copies a byte goes on from `acc ++ [c]`
  induction k generalizing acc b with
  | zero =>
    rw [readUntilLoop] at h
    dsimp only at h
    split at h
    · cases h; exact List.prefix_refl _
    · split at h
      · cases h
      · split at h <;> cases h <;> exact List.prefix_refl _
  | succ k ih =>
    rw [readUntilLoop] at h
    dsimp only at h
    split at h
    · cases h; exact List.prefix_refl _
    · split at h
      · cases h
      · split at h
        · cases h; exact List.prefix_refl _
        · exact (List.prefix_append acc _).trans (ih h)

/-! ### Chains of writers -/

section WriteSeq

variable {w : BufferM Bool} {ws : List (BufferM Bool)}

theorem writeSeq_cons_of_true {b b₁ : LlarpBuffer} (hw : w b = some (true, b₁)) :
    writeSeq (w :: ws) b = writeSeq ws b₁ := by
  simp [writeSeq, bind_of_some hw]

theorem writeSeq_cons_true {b b' : LlarpBuffer} (h : writeSeq (w :: ws) b = some (true, b')) :
    ∃ b₁, w b = some (true, b₁) ∧ writeSeq ws b₁ = some (true, b') := by
  simp only [writeSeq, bind_eq_some] at h
  obtain ⟨ok, b₁, hw, hrest⟩ := h
  cases ok
  · simp at hrest
  · exact ⟨b₁, hw, by simpa using hrest⟩

theorem writeSeq_append_true {ws₁ ws₂ : List (BufferM Bool)} {b b' : LlarpBuffer}
    (h : writeSeq (ws₁ ++ ws₂) b = some (true, b')) :
    ∃ b₁, writeSeq ws₁ b = some (true, b₁) ∧ writeSeq ws₂ b₁ = some (true, b') := by
  induction ws₁ generalizing b with
  | nil => exact ⟨b, rfl, h⟩
  | cons w ws ih =>
    obtain ⟨b₀, hw, hrest⟩ := writeSeq_cons_true h
    obtain ⟨b₁, h₁, h₂⟩ := ih hrest
    exact ⟨b₁, by rw [writeSeq_cons_of_true hw, h₁], h₂⟩

theorem writeSeq_append_of_true {ws₁ ws₂ : List (BufferM Bool)} {b b₁ : LlarpBuffer}
    (h : writeSeq ws₁ b = some (true, b₁)) : writeSeq (ws₁ ++ ws₂) b = writeSeq ws₂ b₁ := by
  induction ws₁ generalizing b with
  | nil =>
    simp only [writeSeq, pure_apply, Option.some.injEq, Prod.mk.injEq, true_and] at h
    rw [List.nil_append, h]
  | cons w ws ih =>
    obtain ⟨b₀, hw, hrest⟩ := writeSeq_cons_true h
    rw [List.cons_append, writeSeq_cons_of_true hw, ih hrest]

theorem writeSeq_singleton_true {b b' : LlarpBuffer} (h : writeSeq [w] b = some (true, b')) :
    w b = some (true, b') := by
  obtain ⟨b₁, hw, hrest⟩ := writeSeq_cons_true h
  simp only [writeSeq, pure_apply, Option.some.injEq, Prod.mk.injEq, true_and] at hrest
  rwa [← hrest]

/-- A chain of writers, each of which wrote its bytes whenever it succeeded, wrote them one after
another. -/
theorem writeSeq_wrote {es : List (List UInt8)}
    (hws : List.Forall₂ (fun w e => ∀ b b', w b = some (true, b') → Wrote b b' e) ws es)
    {b b' : LlarpBuffer} (h : writeSeq ws b = some (true, b')) : Wrote b b' es.flatten := by
  induction hws generalizing b with
  | nil =>
    simp only [writeSeq, pure_apply, Option.some.injEq, Prod.mk.injEq, true_and] at h
    subst h
    exact Wrote.refl b
  | cons hw _ ih =>
    obtain ⟨b₁, h₁, h₂⟩ := writeSeq_cons_true h
    exact (hw _ _ h₁).trans (ih h₂)

end WriteSeq

theorem putUint16_true {i : UInt16} {b b' : LlarpBuffer} (h : putUint16 i b = some (true, b')) :
    Wrote b b' (BigEndian.bytes 2 i.toNat) := by
  rw [putUint16, putUint_eq_write] at h
  exact write_true h

theorem putUint32_true {i : UInt32} {b b' : LlarpBuffer} (h : putUint32 i b = some (true, b')) :
    Wrote b b' (BigEndian.bytes 4 i.toNat) := by
  rw [putUint32, putUint_eq_write] at h
  exact write_true h

end Lokinet.Util
