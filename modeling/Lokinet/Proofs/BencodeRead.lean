import Lokinet.Util.Bencode

/-!
The bencode readers on well-formed input: what `bencode_read_integer` and `bencode_read_string`
read from the wire forms of integers and byte strings, and what `bencode_read_list` and
`bencode_read_dict` hand their sinks. Where the input ends early they read past the buffer.
-/

namespace Lokinet.Proofs.Bencode

open Lokinet.Util FaultState LlarpBuffer

/-- The bytes `bencode_write_uint64` means to write for `n`: `i<digits>e`. -/
def integerEnc (n : UInt64) : List UInt8 := 105 :: (Decimal.decimal n.toNat ++ [101])

/-- The bytes `bencode_write_bytestring` means to write for `s`: `<length>:<s>`. -/
def bytestringEnc (s : List UInt8) : List UInt8 := Decimal.decimal s.length ++ 58 :: s

theorem decimal_ne {n : Nat} {c : UInt8} (hc : Decimal.isDigit c = false) :
    ∀ d ∈ Decimal.decimal n, d ≠ c := by
  intro d hd he
  subst he
  rw [Decimal.isDigit_decimal n d hd] at hc
  contradiction

theorem length_decimal_uint64 (n : UInt64) : (Decimal.decimal n.toNat).length ≤ 20 :=
  Decimal.length_decimal_le (by decide) (Nat.lt_of_lt_of_le n.toNat_lt (by decide))

/-- `bencode_read_integer` reads back `i<digits>e`, whatever follows it. -/
theorem bencodeReadInteger_of_drop {n : UInt64} {b : LlarpBuffer} {rest : List UInt8}
    (h : b.mem.drop b.cur = integerEnc n ++ rest) :
    bencodeReadInteger b = some (some n, { b with cur := b.cur + (integerEnc n).length }) := by
  have hd : b.mem.drop b.cur = 105 :: (Decimal.decimal n.toNat ++ 101 :: rest) := by
    simpa [bencodeWriteUint64, integerEnc] using h
  have h1 : b.mem.drop (b.cur + 1) = Decimal.decimal n.toNat ++ 101 :: rest :=
    Window.drop_succ_of_drop_eq_cons hd
  have hread := @readUntil_of_drop 101 _ _ 31 ⟨b.mem, b.cur + 1⟩ (decimal_ne (by decide))
    (Nat.le_trans (length_decimal_uint64 n) (by decide)) h1
  have hlen : (Decimal.decimal n.toNat).length ≠ 0 := by simpa using Decimal.decimal_ne_nil _
  simp only [bencodeReadInteger, bind_of_some (deref_of_drop hd), ne_eq, not_true_eq_false,
    ↓reduceIte, advance_bind]
  rw [bind_of_some hread]
  simp only [hlen, ↓reduceIte, advance_bind, List.take_length, Decimal.strtoull_decimal,
    pure_apply, integerEnc, List.length_cons, List.length_append]
  congr 3
  simp
  omega

/-- `bencode_read_string` reads back `<length>:<s>` when the length has at most nine digits. -/
theorem bencodeReadString_of_drop {s : List UInt8} {b : LlarpBuffer} {rest : List UInt8}
    (hs : s.length < 10 ^ 9) (h : b.mem.drop b.cur = bytestringEnc s ++ rest) :
    bencodeReadString b = some (some s, { b with cur := b.cur + (bytestringEnc s).length }) := by
  have hd : b.mem.drop b.cur = Decimal.decimal s.length ++ 58 :: (s ++ rest) := by
    simpa [bytestringEnc] using h
  have hread := readUntil_of_drop (decimal_ne (by decide)) (Decimal.length_decimal_le (by decide) hs) hd
  have hlen : (Decimal.decimal s.length).length ≠ 0 := by simpa using Decimal.decimal_ne_nil _
  have hatoi : Decimal.atoi (Decimal.decimal s.length) = s.length := Decimal.atoi_decimal _
  have hrest : b.mem.drop (b.cur + (Decimal.decimal s.length).length + 1) = s ++ rest := by
    rw [← List.drop_drop, ← List.drop_drop, hd, List.drop_left' rfl, List.drop_one, List.tail_cons]
  have hroom : ¬(b.mem.length - (b.cur + (Decimal.decimal s.length).length + 1)) < s.length := by
    have := congrArg List.length hrest
    simp only [List.length_drop, List.length_append] at this
    omega
  simp only [bencodeReadString]
  rw [bind_of_some hread]
  have hnn : ¬((s.length : Int) < 0) := by omega
  simp only [hlen, ↓reduceIte, List.take_length, hatoi, hnn, advance_bind, get_bind, sizeLeft,
    hroom, Int.toNat_natCast, pure_apply, hrest, List.take_left' rfl, bytestringEnc,
    List.length_append, List.length_cons]
  congr 3
  omega

/-- Where an integer starts, `bencode_read_string` reads at most an empty string: the length it
copies starts with the `i`, where `atoi` stops. -/
theorem bencodeReadString_of_integer {b b' : LlarpBuffer} {t s : List UInt8}
    (h : b.mem.drop b.cur = 105 :: t) (hr : bencodeReadString b = some (some s, b')) : s = [] := by
  have hlt : b.cur < b.mem.length := by
    have := congrArg List.length h
    simp at this
    omega
  have hfirst : readUntilLoop 58 9 [] b = readUntilLoop 58 8 [105] { b with cur := b.cur + 1 } := by
    rw [readUntilLoop]
    simp [Nat.ne_of_lt hlt, Window.getElem?_of_drop_eq_cons h]
  simp only [bencodeReadString, readUntil, bind_assoc] at hr
  obtain ⟨read, b₁, hloop, hr⟩ := bind_eq_some.mp hr
  obtain ⟨rest, rfl⟩ := readUntilLoop_prefix (hfirst ▸ hloop)
  have hatoi : Decimal.atoi (105 :: rest) = 0 :=
    Decimal.atoi_of_head (by decide) (by decide) (by decide) (by decide)
  simp only [get_bind] at hr
  -- a copy that ran to the end of the buffer reads nothing; otherwise the length is zero
  by_cases hz : b₁.sizeLeft = 0
  · simp [hz] at hr
  · have hnn : ¬((({ b₁ with cur := b₁.cur + 1 } : LlarpBuffer).sizeLeft : Int) < 0) := by omega
    simp [hz, hatoi, hnn, Functor.map, StateT.map] at hr
    exact hr.1

/-- With no byte left, `bencode_read_integer` still dereferences the cursor, one past the end of
the buffer. -/
theorem bencodeReadInteger_reads_past_end {b : LlarpBuffer} (h : b.sizeLeft = 0) :
    bencodeReadInteger b = none := by
  have hle : b.mem.length ≤ b.cur := by
    simp only [sizeLeft] at h
    omega
  exact bind_of_none (deref_of_le hle)

theorem bencodeReadInteger_reads_past_empty :
    (ofBytes []).sizeLeft = 0 ∧ bencodeReadInteger (ofBytes []) = none :=
  ⟨rfl, bencodeReadInteger_reads_past_end rfl⟩

theorem asSink_of_true {x : BufferM Bool} {b b' : LlarpBuffer} (h : x b = some (true, b')) :
    asSink x b = some (some (), b') := by
  simp [asSink, bind_of_some h]

/-! ### Lists and dicts, through the sinks that read their elements -/

section ReadLoops

variable {α β : Type} {enc key : β → List UInt8} {step : α → β → α}

theorem length_le_length_flatten {xs : List β} (hne : ∀ x ∈ xs, enc x ≠ []) :
    xs.length ≤ (xs.map enc).flatten.length := by
  induction xs with
  | nil => simp
  | cons x xs ih =>
    have hx := List.length_pos_iff.mpr (hne x (by simp))
    have hxs := ih (fun y hy => hne y (by simp [hy]))
    simp only [List.map_cons, List.flatten_cons, List.length_append, List.length_cons]
    omega

theorem length_lt_fuel {xs : List β} {b : LlarpBuffer} {tail : List UInt8}
    (hne : ∀ x ∈ xs, enc x ≠ []) (h : b.mem.drop b.cur = (xs.map enc).flatten ++ tail) :
    xs.length < b.sizeLeft + 1 := by
  have hflat := length_le_length_flatten hne
  have hl := congrArg List.length h
  rw [length_drop_cur, List.length_append] at hl
  omega

/-- What a list sink does with an element `x`: its wire form starts with a byte other than
`e`, and the sink reads it from wherever it starts, folding it into the accumulator. -/
def ReadsItem (item : α → BufferM (Option α)) (enc : β → List UInt8) (step : α → β → α)
    (x : β) : Prop :=
  (∃ c cs, enc x = c :: cs ∧ c ≠ 101) ∧
    ∀ acc (b : LlarpBuffer) rest, b.mem.drop b.cur = enc x ++ rest →
      item acc b = some (some (step acc x), { b with cur := b.cur + (enc x).length })

theorem ReadsItem.ne_nil {item : α → BufferM (Option α)} {x : β} (h : ReadsItem item enc step x) :
    enc x ≠ [] := by
  obtain ⟨⟨c, cs, hcs, -⟩, -⟩ := h
  simp [hcs]

/-- What a list sink does with the elements `xs` read one after another from `acc`: each starts
with a byte other than `e` and is read from wherever it starts. Unlike `ReadsItem`, the sink may
depend on what it read before. -/
def ReadsAll (item : α → BufferM (Option α)) (enc : β → List UInt8) (step : α → β → α) :
    α → List β → Prop
  | _, [] => True
  | acc, x :: xs =>
    ((∃ c cs, enc x = c :: cs ∧ c ≠ 101) ∧
      ∀ (b : LlarpBuffer) rest, b.mem.drop b.cur = enc x ++ rest →
        item acc b = some (some (step acc x), { b with cur := b.cur + (enc x).length })) ∧
      ReadsAll item enc step (step acc x) xs

theorem ReadsAll.of_forall {item : α → BufferM (Option α)} {xs : List β}
    (h : ∀ x ∈ xs, ReadsItem item enc step x) : ∀ acc, ReadsAll item enc step acc xs := by
  induction xs with
  | nil => intro acc; trivial
  | cons x xs ih =>
    intro acc
    obtain ⟨hhead, hread⟩ := h x List.mem_cons_self
    exact ⟨⟨hhead, hread acc⟩, ih (fun y hy => h y (List.mem_cons_of_mem x hy)) _⟩

theorem ReadsAll.ne_nil {item : α → BufferM (Option α)} {xs : List β} :
    ∀ {acc : α}, ReadsAll item enc step acc xs → ∀ x ∈ xs, enc x ≠ [] := by
  induction xs with
  | nil => intro acc _ x hx; cases hx
  | cons y ys ih =>
    intro acc h x hx
    obtain ⟨⟨⟨c, cs, hcs, -⟩, -⟩, hrest⟩ := h
    rcases List.mem_cons.mp hx with rfl | hx
    · simp [hcs]
    · exact ih hrest x hx

/-- The loop of `bencode_read_list` reads the elements up to an `e` or the end of the buffer. -/
theorem bencodeReadListLoop_of_reads {item : α → BufferM (Option α)} {xs : List β} {k : Nat}
    (acc : α) {b : LlarpBuffer} {tail : List UInt8} (hitem : ReadsAll item enc step acc xs)
    (hk : xs.length < k) (h : b.mem.drop b.cur = (xs.map enc).flatten ++ tail)
    (htail : ∀ c ∈ tail.head?, c = 101) :
    bencodeReadListLoop item k acc b =
      some (some (xs.foldl step acc), { b with cur := b.cur + (xs.map enc).flatten.length }) := by
  induction xs generalizing k acc b with
  | nil =>
    obtain ⟨k, rfl⟩ : ∃ j, k = j + 1 := ⟨k - 1, by simp at hk; omega⟩
    simp only [List.map_nil, List.flatten_nil, List.nil_append] at h
    cases tail with
    | nil =>
      have hz : b.sizeLeft = 0 := by rw [← length_drop_cur, h]; rfl
      simp [bencodeReadListLoop, hz]
    | cons c rest =>
      obtain rfl : c = 101 := htail c rfl
      have hz : b.sizeLeft ≠ 0 := by rw [← length_drop_cur, h]; simp
      simp [bencodeReadListLoop, hz, bind_of_some (deref_of_drop h)]
  | cons x xs ih =>
    obtain ⟨k, rfl⟩ : ∃ j, k = j + 1 := ⟨k - 1, by simp at hk; omega⟩
    obtain ⟨⟨⟨c, cs, hx, hc⟩, hread⟩, hrest⟩ := hitem
    have hx' : b.mem.drop b.cur = enc x ++ ((xs.map enc).flatten ++ tail) := by simp [h]
    have hd : b.mem.drop b.cur = c :: (cs ++ ((xs.map enc).flatten ++ tail)) := by simp [hx', hx]
    have hz : b.sizeLeft ≠ 0 := by rw [← length_drop_cur, hd]; simp
    -- the element is read, and the loop goes on from just past it
    have hloop := ih (step acc x) hrest (by simp at hk; omega) (drop_advance hx')
    simp only [bencodeReadListLoop, get_bind, hz, ↓reduceIte, bind_of_some (deref_of_drop hd), hc,
      bind_of_some (hread b _ hx')]
    rw [hloop]
    simp [Nat.add_assoc]

theorem bencodeReadListLoop_of_drop {item : α → BufferM (Option α)} {xs : List β} {k : Nat}
    (acc : α) {b : LlarpBuffer} {tail : List UInt8} (hitem : ∀ x ∈ xs, ReadsItem item enc step x)
    (hk : xs.length < k) (h : b.mem.drop b.cur = (xs.map enc).flatten ++ tail)
    (htail : ∀ c ∈ tail.head?, c = 101) :
    bencodeReadListLoop item k acc b =
      some (some (xs.foldl step acc), { b with cur := b.cur + (xs.map enc).flatten.length }) :=
  bencodeReadListLoop_of_reads acc (ReadsAll.of_forall hitem acc) hk h htail

/-- `bencode_read_list` over `l`, the elements and `e` hands the accumulated elements to the
sink's final call, two bytes past them. -/
theorem bencodeReadList_of_reads {item done : α → BufferM (Option α)} {init : α} {xs : List β}
    {b : LlarpBuffer} {rest : List UInt8} (hitem : ReadsAll item enc step init xs)
    (h : b.mem.drop b.cur = 108 :: ((xs.map enc).flatten ++ 101 :: rest)) :
    bencodeReadList item done init b =
      done (xs.foldl step init) { b with cur := b.cur + (xs.map enc).flatten.length + 2 } := by
  have hsize : b.sizeLeft = (xs.map enc).flatten.length + 2 + rest.length := by
    rw [← length_drop_cur, h]
    simp
    omega
  have h₁ := drop_advance_one h
  have hk := length_lt_fuel (ReadsAll.ne_nil hitem) h₁
  have hloop := bencodeReadListLoop_of_reads init hitem hk h₁ (by simp)
  have hend := drop_advance h₁
  have hlt : ¬b.sizeLeft < 2 := by omega
  simp only [bencodeReadList, get_bind, hlt, ↓reduceIte, bind_of_some (deref_of_drop h), ne_eq,
    not_true_eq_false, advance_bind]
  rw [bind_of_some hloop]
  simp only [bind_of_some (deref_of_drop hend), not_true_eq_false, ↓reduceIte, advance_bind]
  congr 2
  omega

theorem bencodeReadList_of_drop {item done : α → BufferM (Option α)} {init : α} {xs : List β}
    {b : LlarpBuffer} {rest : List UInt8} (hitem : ∀ x ∈ xs, ReadsItem item enc step x)
    (h : b.mem.drop b.cur = 108 :: ((xs.map enc).flatten ++ 101 :: rest)) :
    bencodeReadList item done init b =
      done (xs.foldl step init) { b with cur := b.cur + (xs.map enc).flatten.length + 2 } :=
  bencodeReadList_of_reads (ReadsAll.of_forall hitem init) h

theorem foldl_append_singleton {γ : Type} (f : β → γ) :
    ∀ (init : List γ) (xs : List β), xs.foldl (fun acc x => acc ++ [f x]) init = init ++ xs.map f
  | _, [] => by simp
  | init, x :: xs => by simp [foldl_append_singleton f (init ++ [f x]) xs]

/-- `BEncodeReadList` appends to `result` what its element reader takes back from each element. -/
theorem bEncodeReadList_of_drop {γ : Type} {item : BufferM (Option γ)} {f : β → γ}
    {result : List γ} {xs : List β} {b : LlarpBuffer} {rest : List UInt8}
    (hhead : ∀ x ∈ xs, ∃ c cs, enc x = c :: cs ∧ c ≠ 101)
    (hitem : ∀ x ∈ xs, ∀ (b : LlarpBuffer) rest, b.mem.drop b.cur = enc x ++ rest →
      item b = some (some (f x), { b with cur := b.cur + (enc x).length }))
    (h : b.mem.drop b.cur = 108 :: ((xs.map enc).flatten ++ 101 :: rest)) :
    bEncodeReadList item result b =
      some (some (result ++ xs.map f), { b with cur := b.cur + (xs.map enc).flatten.length + 2 }) := by
  unfold bEncodeReadList
  -- each element is appended to the accumulator as it is read
  rw [@bencodeReadList_of_drop _ _ enc (fun acc x => acc ++ [f x]) _ _ _ _ _ _ ?_ h]
  · rw [foldl_append_singleton]
    rfl
  · intro x hx
    refine ⟨hhead x hx, fun acc b rest hb => ?_⟩
    simp [bind_of_some (hitem x hx b rest hb)]

/-- What a dict sink does with an entry `x`: its key fits the nine-digit length buffer, and the
sink reads the value from wherever it starts, folding it into the accumulator. -/
def ReadsEntry (entry : α → List UInt8 → BufferM (Option α)) (key enc : β → List UInt8)
    (step : α → β → α) (x : β) : Prop :=
  (key x).length < 10 ^ 9 ∧
    ∀ acc (b : LlarpBuffer) rest, b.mem.drop b.cur = enc x ++ rest →
      entry acc (key x) b = some (some (step acc x), { b with cur := b.cur + (enc x).length })

/-- The wire form of a dict entry: its key as a byte string, then its value. -/
def entryEnc (key enc : β → List UInt8) (x : β) : List UInt8 := bytestringEnc (key x) ++ enc x

theorem decimal_head (n : Nat) : ∃ c cs, Decimal.decimal n = c :: cs ∧ Decimal.isDigit c = true := by
  cases h : Decimal.decimal n with
  | nil => exact absurd h (Decimal.decimal_ne_nil n)
  | cons c cs => exact ⟨c, cs, rfl, Decimal.isDigit_decimal n c (by simp [h])⟩

/-- The first byte of a digit string is none of the bytes `bencode_discard` dispatches on
before the digits. -/
theorem digit_dispatch {c : UInt8} (hc : Decimal.isDigit c = true) :
    c ≠ 101 ∧ c ≠ 108 ∧ c ≠ 105 ∧ c ≠ 100 ∧ 48 ≤ c ∧ c ≤ 57 := by
  simp only [Decimal.isDigit, Bool.and_eq_true, decide_eq_true_eq] at hc
  simp only [ne_eq, ← UInt8.toNat_inj, UInt8.le_iff_toNat_le, UInt8.toNat_ofNat]
  omega

section Turn

variable {entry : α → List UInt8 → BufferM (Option α)} {k : Nat} {acc : α} {b : LlarpBuffer}
  {key' tail : List UInt8}

/-- A turn of the dict loop that meets an entry reads its key and calls the sink just past it;
when the sink reads the value, the loop goes on from there. -/
theorem bencodeReadDictLoop_of_entry {acc' : α} {b' : LlarpBuffer} (hkey : key'.length < 10 ^ 9)
    (h : b.mem.drop b.cur = bytestringEnc key' ++ tail)
    (hread : entry acc key' { b with cur := b.cur + (bytestringEnc key').length } = some (some acc', b')) :
    bencodeReadDictLoop entry (k + 1) acc b = bencodeReadDictLoop entry k acc' b' := by
  obtain ⟨c, cs, hdec, hc⟩ := decimal_head key'.length
  have hd : b.mem.drop b.cur = c :: (cs ++ 58 :: (key' ++ tail)) := by
    simp [h, bytestringEnc, hdec]
  have hz : b.sizeLeft ≠ 0 := by rw [← length_drop_cur, hd]; simp
  simp only [bencodeReadDictLoop, get_bind, hz, ↓reduceIte, bind_of_some (deref_of_drop hd),
    (digit_dispatch hc).1, bind_of_some (bencodeReadString_of_drop hkey h), bind_of_some hread]

/-- When the sink faults on the value, so does the loop. -/
theorem bencodeReadDictLoop_of_fault (hkey : key'.length < 10 ^ 9)
    (h : b.mem.drop b.cur = bytestringEnc key' ++ tail)
    (hfault : entry acc key' { b with cur := b.cur + (bytestringEnc key').length } = none) :
    bencodeReadDictLoop entry (k + 1) acc b = none := by
  obtain ⟨c, cs, hdec, hc⟩ := decimal_head key'.length
  have hd : b.mem.drop b.cur = c :: (cs ++ 58 :: (key' ++ tail)) := by
    simp [h, bytestringEnc, hdec]
  have hz : b.sizeLeft ≠ 0 := by rw [← length_drop_cur, hd]; simp
  simp only [bencodeReadDictLoop, get_bind, hz, ↓reduceIte, bind_of_some (deref_of_drop hd),
    (digit_dispatch hc).1, bind_of_some (bencodeReadString_of_drop hkey h), bind_of_none hfault]

/-- When the sink refuses the value, by faulting or by returning `false`, the loop does not
succeed. -/
theorem bencodeReadDictLoop_of_refusal (hkey : key'.length < 10 ^ 9)
    (h : b.mem.drop b.cur = bytestringEnc key' ++ tail)
    (hrefuse : ∀ acc' b', entry acc key' { b with cur := b.cur + (bytestringEnc key').length } ≠
      some (some acc', b')) :
    ∀ r b', bencodeReadDictLoop entry (k + 1) acc b ≠ some (some r, b') := by
  obtain ⟨c, cs, hdec, hc⟩ := decimal_head key'.length
  have hd : b.mem.drop b.cur = c :: (cs ++ 58 :: (key' ++ tail)) := by
    simp [h, bytestringEnc, hdec]
  have hz : b.sizeLeft ≠ 0 := by rw [← length_drop_cur, hd]; simp
  intro r b'
  cases hres : entry acc key' { b with cur := b.cur + (bytestringEnc key').length } with
  | none =>
    simp [bencodeReadDictLoop, hz, bind_of_some (deref_of_drop hd), (digit_dispatch hc).1,
      bind_of_some (bencodeReadString_of_drop hkey h), bind_of_none hres]
  | some p =>
    obtain ⟨o, b''⟩ := p
    cases o with
    | none =>
      simp [bencodeReadDictLoop, hz, bind_of_some (deref_of_drop hd), (digit_dispatch hc).1,
        bind_of_some (bencodeReadString_of_drop hkey h), bind_of_some hres]
    | some acc' => exact absurd hres (hrefuse acc' b'')

end Turn

/-- What a dict sink does with the entries `xs` read one after another from `acc`: each key fits
the length buffer, and the sink reads each value from wherever it starts. Unlike `ReadsEntry`,
what the sink does may depend on what it read before. -/
def ReadsEntries (entry : α → List UInt8 → BufferM (Option α)) (key enc : β → List UInt8)
    (step : α → β → α) : α → List β → Prop
  | _, [] => True
  | acc, x :: xs =>
    ((key x).length < 10 ^ 9 ∧
      ∀ (b : LlarpBuffer) rest, b.mem.drop b.cur = enc x ++ rest →
        entry acc (key x) b = some (some (step acc x), { b with cur := b.cur + (enc x).length })) ∧
      ReadsEntries entry key enc step (step acc x) xs

/-- Entries the sink reads into any accumulator, then entries it reads from where those leave
it. -/
theorem ReadsEntries.append {entry : α → List UInt8 → BufferM (Option α)} {xs ys : List β}
    {acc : α} (hxs : ∀ x ∈ xs, ReadsEntry entry key enc step x)
    (hys : ReadsEntries entry key enc step (xs.foldl step acc) ys) :
    ReadsEntries entry key enc step acc (xs ++ ys) := by
  induction xs generalizing acc with
  | nil => simpa using hys
  | cons x xs ih =>
    obtain ⟨hkey, hread⟩ := hxs x (by simp)
    exact ⟨⟨hkey, hread acc⟩, ih (fun y hy => hxs y (by simp [hy])) hys⟩

theorem ReadsEntries.of_forall {entry : α → List UInt8 → BufferM (Option α)} {xs : List β}
    {acc : α} (hxs : ∀ x ∈ xs, ReadsEntry entry key enc step x) :
    ReadsEntries entry key enc step acc xs := by
  have h : ReadsEntries entry key enc step acc (xs ++ []) := ReadsEntries.append hxs trivial
  simpa using h

theorem bencodeReadDictLoop_of_reads {entry : α → List UInt8 → BufferM (Option α)} {xs : List β}
    {k : Nat} (acc : α) {b : LlarpBuffer} {tail : List UInt8}
    (hentry : ReadsEntries entry key enc step acc xs) (hk : xs.length < k)
    (h : b.mem.drop b.cur = (xs.map (entryEnc key enc)).flatten ++ tail)
    (htail : ∀ c ∈ tail.head?, c = 101) :
    bencodeReadDictLoop entry k acc b = some (some (xs.foldl step acc),
      { b with cur := b.cur + (xs.map (entryEnc key enc)).flatten.length }) := by
  induction xs generalizing k acc b with
  | nil =>
    obtain ⟨k, rfl⟩ : ∃ j, k = j + 1 := ⟨k - 1, by simp at hk; omega⟩
    simp only [List.map_nil, List.flatten_nil, List.nil_append] at h
    cases tail with
    | nil =>
      have hz : b.sizeLeft = 0 := by rw [← length_drop_cur, h]; rfl
      simp [bencodeReadDictLoop, hz]
    | cons c rest =>
      obtain rfl : c = 101 := htail c rfl
      have hz : b.sizeLeft ≠ 0 := by rw [← length_drop_cur, h]; simp
      simp [bencodeReadDictLoop, hz, bind_of_some (deref_of_drop h)]
  | cons x xs ih =>
    obtain ⟨k, rfl⟩ : ∃ j, k = j + 1 := ⟨k - 1, by simp at hk; omega⟩
    obtain ⟨⟨hkey, hread⟩, hrest⟩ := hentry
    have hx' : b.mem.drop b.cur =
        bytestringEnc (key x) ++ (enc x ++ ((xs.map (entryEnc key enc)).flatten ++ tail)) := by
      simp [h, entryEnc]
    -- the key, then the value, then the loop from just past the entry
    have hv := drop_advance hx'
    have hloop := ih (step acc x) hrest (by simp at hk; omega) (drop_advance hv)
    rw [bencodeReadDictLoop_of_entry hkey hx' (hread _ _ hv), hloop]
    simp [entryEnc, Nat.add_assoc]

theorem bencodeReadDictLoop_of_drop {entry : α → List UInt8 → BufferM (Option α)} {xs : List β}
    {k : Nat} (acc : α) {b : LlarpBuffer} {tail : List UInt8}
    (hentry : ∀ x ∈ xs, ReadsEntry entry key enc step x) (hk : xs.length < k)
    (h : b.mem.drop b.cur = (xs.map (entryEnc key enc)).flatten ++ tail)
    (htail : ∀ c ∈ tail.head?, c = 101) :
    bencodeReadDictLoop entry k acc b = some (some (xs.foldl step acc),
      { b with cur := b.cur + (xs.map (entryEnc key enc)).flatten.length }) :=
  bencodeReadDictLoop_of_reads acc (ReadsEntries.of_forall hentry) hk h htail

theorem bencodeReadDict_of_reads {entry : α → List UInt8 → BufferM (Option α)}
    {done : α → BufferM (Option α)} {init : α} {xs : List β} {b : LlarpBuffer} {rest : List UInt8}
    (hentry : ReadsEntries entry key enc step init xs)
    (h : b.mem.drop b.cur = 100 :: ((xs.map (entryEnc key enc)).flatten ++ 101 :: rest)) :
    bencodeReadDict entry done init b = done (xs.foldl step init)
      { b with cur := b.cur + (xs.map (entryEnc key enc)).flatten.length + 2 } := by
  have hsize : b.sizeLeft = (xs.map (entryEnc key enc)).flatten.length + 2 + rest.length := by
    rw [← length_drop_cur, h]
    simp
    omega
  have h₁ := drop_advance_one h
  have hk := length_lt_fuel (fun x _ => by simp [entryEnc, bytestringEnc]) h₁
  have hloop := bencodeReadDictLoop_of_reads init hentry hk h₁ (by simp)
  have hend := drop_advance h₁
  have hlt : ¬b.sizeLeft < 2 := by omega
  simp only [bencodeReadDict, get_bind, hlt, ↓reduceIte, bind_of_some (deref_of_drop h), ne_eq,
    not_true_eq_false, advance_bind]
  rw [bind_of_some hloop]
  simp only [bind_of_some (deref_of_drop hend), not_true_eq_false, ↓reduceIte, advance_bind]
  congr 2
  omega

theorem bencodeReadDict_of_drop {entry : α → List UInt8 → BufferM (Option α)}
    {done : α → BufferM (Option α)} {init : α} {xs : List β} {b : LlarpBuffer} {rest : List UInt8}
    (hentry : ∀ x ∈ xs, ReadsEntry entry key enc step x)
    (h : b.mem.drop b.cur = 100 :: ((xs.map (entryEnc key enc)).flatten ++ 101 :: rest)) :
    bencodeReadDict entry done init b = done (xs.foldl step init)
      { b with cur := b.cur + (xs.map (entryEnc key enc)).flatten.length + 2 } :=
  bencodeReadDict_of_reads (ReadsEntries.of_forall hentry) h

/-- A sink that faults on an entry makes the loop fault there, after the entries it reads. -/
theorem bencodeReadDictLoop_fault {entry : α → List UInt8 → BufferM (Option α)} {xs : List β}
    {k : Nat} (acc : α) {b : LlarpBuffer} {bad tail : List UInt8}
    (hentry : ∀ x ∈ xs, ReadsEntry entry key enc step x) (hk : xs.length < k)
    (hbad : bad.length < 10 ^ 9)
    (hfault : ∀ acc (b : LlarpBuffer), b.mem.drop b.cur = tail → entry acc bad b = none)
    (h : b.mem.drop b.cur = (xs.map (entryEnc key enc)).flatten ++ (bytestringEnc bad ++ tail)) :
    bencodeReadDictLoop entry k acc b = none := by
  induction xs generalizing k acc b with
  | nil =>
    obtain ⟨k, rfl⟩ : ∃ j, k = j + 1 := ⟨k - 1, by simp at hk; omega⟩
    simp only [List.map_nil, List.flatten_nil, List.nil_append] at h
    exact bencodeReadDictLoop_of_fault hbad h (hfault acc _ (drop_advance h))
  | cons x xs ih =>
    obtain ⟨k, rfl⟩ : ∃ j, k = j + 1 := ⟨k - 1, by simp at hk; omega⟩
    obtain ⟨hkey, hread⟩ := hentry x (by simp)
    have hx' : b.mem.drop b.cur = bytestringEnc (key x) ++
        (enc x ++ ((xs.map (entryEnc key enc)).flatten ++ (bytestringEnc bad ++ tail))) := by
      simp [h, entryEnc]
    have hv := drop_advance hx'
    rw [bencodeReadDictLoop_of_entry hkey hx' (hread acc _ _ hv)]
    exact ih (step acc x) (fun y hy => hentry y (by simp [hy])) (by simp at hk; omega) (drop_advance hv)

/-- `bencode_read_dict` faults with its loop, whatever follows the entry the sink faults on. -/
theorem bencodeReadDict_fault {entry : α → List UInt8 → BufferM (Option α)}
    {done : α → BufferM (Option α)} {init : α} {xs : List β} {b : LlarpBuffer} {bad tail : List UInt8}
    (hentry : ∀ x ∈ xs, ReadsEntry entry key enc step x) (hbad : bad.length < 10 ^ 9)
    (hfault : ∀ acc (b : LlarpBuffer), b.mem.drop b.cur = tail → entry acc bad b = none)
    (h : b.mem.drop b.cur = 100 :: ((xs.map (entryEnc key enc)).flatten ++ (bytestringEnc bad ++ tail))) :
    bencodeReadDict entry done init b = none := by
  have h₁ := drop_advance_one h
  have hk := length_lt_fuel (fun x _ => by simp [entryEnc, bytestringEnc]) h₁
  have hlt : ¬b.sizeLeft < 2 := by
    rw [← length_drop_cur, h]
    simp [bytestringEnc]
  simp only [bencodeReadDict, get_bind, hlt, ↓reduceIte, bind_of_some (deref_of_drop h), ne_eq,
    not_true_eq_false, advance_bind]
  rw [bind_of_none (bencodeReadDictLoop_fault init hentry hk hbad hfault h₁)]

/-- A sink that refuses an entry, by faulting or by returning `false`, stops the loop there,
after the entries it reads. -/
theorem bencodeReadDictLoop_refuses {entry : α → List UInt8 → BufferM (Option α)} {xs : List β}
    {k : Nat} (acc : α) {b : LlarpBuffer} {bad tail : List UInt8}
    (hentry : ∀ x ∈ xs, ReadsEntry entry key enc step x) (hk : xs.length < k)
    (hbad : bad.length < 10 ^ 9)
    (hrefuse : ∀ acc (b : LlarpBuffer), b.mem.drop b.cur = tail →
      ∀ acc' b', entry acc bad b ≠ some (some acc', b'))
    (h : b.mem.drop b.cur = (xs.map (entryEnc key enc)).flatten ++ (bytestringEnc bad ++ tail)) :
    ∀ r b', bencodeReadDictLoop entry k acc b ≠ some (some r, b') := by
  induction xs generalizing k acc b with
  | nil =>
    obtain ⟨k, rfl⟩ : ∃ j, k = j + 1 := ⟨k - 1, by simp at hk; omega⟩
    simp only [List.map_nil, List.flatten_nil, List.nil_append] at h
    exact bencodeReadDictLoop_of_refusal hbad h (hrefuse acc _ (drop_advance h))
  | cons x xs ih =>
    obtain ⟨k, rfl⟩ : ∃ j, k = j + 1 := ⟨k - 1, by simp at hk; omega⟩
    obtain ⟨hkey, hread⟩ := hentry x (by simp)
    have hx' : b.mem.drop b.cur = bytestringEnc (key x) ++
        (enc x ++ ((xs.map (entryEnc key enc)).flatten ++ (bytestringEnc bad ++ tail))) := by
      simp [h, entryEnc]
    have hv := drop_advance hx'
    rw [bencodeReadDictLoop_of_entry hkey hx' (hread acc _ _ hv)]
    exact ih (step acc x) (fun y hy => hentry y (by simp [hy])) (by simp at hk; omega) (drop_advance hv)

/-- `bencode_read_dict` fails with its loop when the sink refuses an entry. -/
theorem bencodeReadDict_refuses {entry : α → List UInt8 → BufferM (Option α)}
    {done : α → BufferM (Option α)} {init : α} {xs : List β} {b : LlarpBuffer} {bad tail : List UInt8}
    (hentry : ∀ x ∈ xs, ReadsEntry entry key enc step x) (hbad : bad.length < 10 ^ 9)
    (hrefuse : ∀ acc (b : LlarpBuffer), b.mem.drop b.cur = tail →
      ∀ acc' b', entry acc bad b ≠ some (some acc', b'))
    (h : b.mem.drop b.cur = 100 :: ((xs.map (entryEnc key enc)).flatten ++ (bytestringEnc bad ++ tail))) :
    ∀ r b', bencodeReadDict entry done init b ≠ some (some r, b') := by
  have h₁ := drop_advance_one h
  have hk := length_lt_fuel (fun x _ => by simp [entryEnc, bytestringEnc]) h₁
  have hloop := bencodeReadDictLoop_refuses init hentry hk hbad hrefuse h₁
  have hlt : ¬b.sizeLeft < 2 := by
    rw [← length_drop_cur, h]
    simp [bytestringEnc]
  intro r b'
  simp only [bencodeReadDict, get_bind, hlt, ↓reduceIte, bind_of_some (deref_of_drop h), ne_eq,
    not_true_eq_false, advance_bind]
  -- the loop faults, or stops with the sink's `false`
  cases hres : bencodeReadDictLoop entry ({ b with cur := b.cur + 1 }.sizeLeft + 1) init
      { b with cur := b.cur + 1 } with
  | none => simp [bind_of_none hres]
  | some p =>
    obtain ⟨o, b''⟩ := p
    cases o with
    | none => simp [bind_of_some hres]
    | some acc => exact absurd hres (hloop acc b'')

/-- A list whose elements run to the end of the buffer with no closing `e`: the loop stops at
the end, and `bencode_read_list` then reads the byte past it. -/
theorem bencodeReadList_unterminated {item done : α → BufferM (Option α)} {init : α}
    {xs : List β} {b : LlarpBuffer} (hitem : ∀ x ∈ xs, ReadsItem item enc step x) (hxs : xs ≠ [])
    (h : b.mem.drop b.cur = 108 :: (xs.map enc).flatten) :
    bencodeReadList item done init b = none := by
  have hne : ∀ x ∈ xs, enc x ≠ [] := fun x hx => (hitem x hx).ne_nil
  have hflat := length_le_length_flatten hne
  have hpos := List.length_pos_iff.mpr hxs
  have hsize : b.sizeLeft = (xs.map enc).flatten.length + 1 := by
    rw [← length_drop_cur, h, List.length_cons]
  have h₁ : ({ b with cur := b.cur + 1 } : LlarpBuffer).mem.drop
      ({ b with cur := b.cur + 1 } : LlarpBuffer).cur = (xs.map enc).flatten ++ [] := by
    rw [List.append_nil]
    exact drop_advance_one h
  have hloop := bencodeReadListLoop_of_drop init hitem (length_lt_fuel hne h₁) h₁ (by simp)
  -- the loop leaves the cursor at the end, where the test for `e` dereferences
  have hend : b.mem.length ≤ b.cur + 1 + (xs.map enc).flatten.length := by
    simp only [sizeLeft] at hsize
    omega
  have hlt : ¬b.sizeLeft < 2 := by omega
  simp only [bencodeReadList, get_bind, hlt, ↓reduceIte, bind_of_some (deref_of_drop h), ne_eq,
    not_true_eq_false, advance_bind]
  rw [bind_of_some hloop]
  exact bind_of_none (deref_of_le hend)

/-! ### Sinks that stop the read

A sink that returns `false` stops `bencode_read_list` and `bencode_read_dict` where it is called:
the reader returns `false` too, with no fault, whatever follows. -/

/-- A list sink that returns `false` on the element after `xs` stops the loop there. -/
theorem bencodeReadListLoop_stops {item : α → BufferM (Option α)} {xs : List β} {k : Nat}
    (acc : α) {b : LlarpBuffer} {c : UInt8} {tail : List UInt8}
    (hitem : ReadsAll item enc step acc xs) (hk : xs.length < k) (hc : c ≠ 101)
    (hstop : ∀ b : LlarpBuffer, b.mem.drop b.cur = c :: tail →
      ∃ b', item (xs.foldl step acc) b = some (none, b'))
    (h : b.mem.drop b.cur = (xs.map enc).flatten ++ c :: tail) :
    ∃ b', bencodeReadListLoop item k acc b = some (none, b') := by
  induction xs generalizing k acc b with
  | nil =>
    obtain ⟨k, rfl⟩ : ∃ j, k = j + 1 := ⟨k - 1, by simp at hk; omega⟩
    simp only [List.map_nil, List.flatten_nil, List.nil_append] at h
    have hz : b.sizeLeft ≠ 0 := by rw [← length_drop_cur, h]; simp
    obtain ⟨b', hb'⟩ := hstop b h
    rw [List.foldl_nil] at hb'
    exact ⟨b', by simp [bencodeReadListLoop, hz, bind_of_some (deref_of_drop h), hc,
      bind_of_some hb']⟩
  | cons x xs ih =>
    obtain ⟨k, rfl⟩ : ∃ j, k = j + 1 := ⟨k - 1, by simp at hk; omega⟩
    obtain ⟨⟨⟨d, ds, hx, hd⟩, hread⟩, hrest⟩ := hitem
    have hx' : b.mem.drop b.cur = enc x ++ ((xs.map enc).flatten ++ c :: tail) := by simp [h]
    have hdrop : b.mem.drop b.cur = d :: (ds ++ ((xs.map enc).flatten ++ c :: tail)) := by
      simp [hx', hx]
    have hz : b.sizeLeft ≠ 0 := by rw [← length_drop_cur, hdrop]; simp
    -- the element is read, and the loop stops further on
    obtain ⟨b', hloop⟩ := ih (step acc x) hrest (by simp at hk; omega) hstop (drop_advance hx')
    refine ⟨b', ?_⟩
    simp only [bencodeReadListLoop, get_bind, hz, ↓reduceIte, bind_of_some (deref_of_drop hdrop), hd,
      bind_of_some (hread b _ hx')]
    exact hloop

theorem bencodeReadList_stops {item done : α → BufferM (Option α)} {init : α} {xs : List β}
    {b : LlarpBuffer} {c : UInt8} {tail : List UInt8} (hitem : ReadsAll item enc step init xs)
    (hc : c ≠ 101)
    (hstop : ∀ b : LlarpBuffer, b.mem.drop b.cur = c :: tail →
      ∃ b', item (xs.foldl step init) b = some (none, b'))
    (h : b.mem.drop b.cur = 108 :: ((xs.map enc).flatten ++ c :: tail)) :
    ∃ b', bencodeReadList item done init b = some (none, b') := by
  have h₁ := drop_advance_one h
  have hk := length_lt_fuel (ReadsAll.ne_nil hitem) h₁
  obtain ⟨b', hloop⟩ := bencodeReadListLoop_stops init hitem hk hc hstop h₁
  have hlt : ¬b.sizeLeft < 2 := by
    rw [← length_drop_cur, h]
    simp only [List.length_cons, List.length_append]
    omega
  refine ⟨b', ?_⟩
  simp only [bencodeReadList, get_bind, hlt, ↓reduceIte, bind_of_some (deref_of_drop h), ne_eq,
    not_true_eq_false, advance_bind]
  rw [bind_of_some hloop]
  rfl

/-- A turn of the dict loop whose sink returns `false` on the entry ends the loop there. -/
theorem bencodeReadDictLoop_of_stop {entry : α → List UInt8 → BufferM (Option α)} {k : Nat}
    {acc : α} {b b' : LlarpBuffer} {key' tail : List UInt8} (hkey : key'.length < 10 ^ 9)
    (h : b.mem.drop b.cur = bytestringEnc key' ++ tail)
    (hstop : entry acc key' { b with cur := b.cur + (bytestringEnc key').length } = some (none, b')) :
    bencodeReadDictLoop entry (k + 1) acc b = some (none, b') := by
  obtain ⟨c, cs, hdec, hc⟩ := decimal_head key'.length
  have hd : b.mem.drop b.cur = c :: (cs ++ 58 :: (key' ++ tail)) := by
    simp [h, bytestringEnc, hdec]
  have hz : b.sizeLeft ≠ 0 := by rw [← length_drop_cur, hd]; simp
  simp only [bencodeReadDictLoop, get_bind, hz, ↓reduceIte, bind_of_some (deref_of_drop hd),
    (digit_dispatch hc).1, bind_of_some (bencodeReadString_of_drop hkey h), bind_of_some hstop]
  rfl

/-- Entries read one after another, then entries read from where those leave the accumulator. -/
theorem ReadsEntries.append_reads {entry : α → List UInt8 → BufferM (Option α)} {xs ys : List β}
    {acc : α} (hxs : ReadsEntries entry key enc step acc xs)
    (hys : ReadsEntries entry key enc step (xs.foldl step acc) ys) :
    ReadsEntries entry key enc step acc (xs ++ ys) := by
  induction xs generalizing acc with
  | nil => exact hys
  | cons x xs ih => exact ⟨hxs.1, ih hxs.2 hys⟩

/-- A dict sink that returns `false` on the entry after `xs` stops the loop there. -/
theorem bencodeReadDictLoop_stops {entry : α → List UInt8 → BufferM (Option α)} {xs : List β}
    {k : Nat} (acc : α) {b : LlarpBuffer} {bad tail : List UInt8}
    (hentry : ReadsEntries entry key enc step acc xs) (hk : xs.length < k)
    (hbad : bad.length < 10 ^ 9)
    (hstop : ∀ b : LlarpBuffer, b.mem.drop b.cur = tail →
      ∃ b', entry (xs.foldl step acc) bad b = some (none, b'))
    (h : b.mem.drop b.cur = (xs.map (entryEnc key enc)).flatten ++ (bytestringEnc bad ++ tail)) :
    ∃ b', bencodeReadDictLoop entry k acc b = some (none, b') := by
  induction xs generalizing k acc b with
  | nil =>
    obtain ⟨k, rfl⟩ : ∃ j, k = j + 1 := ⟨k - 1, by simp at hk; omega⟩
    simp only [List.map_nil, List.flatten_nil, List.nil_append] at h
    obtain ⟨b', hb'⟩ := hstop _ (drop_advance h)
    exact ⟨b', bencodeReadDictLoop_of_stop hbad h hb'⟩
  | cons x xs ih =>
    obtain ⟨k, rfl⟩ : ∃ j, k = j + 1 := ⟨k - 1, by simp at hk; omega⟩
    obtain ⟨⟨hkey, hread⟩, hrest⟩ := hentry
    have hx' : b.mem.drop b.cur = bytestringEnc (key x) ++
        (enc x ++ ((xs.map (entryEnc key enc)).flatten ++ (bytestringEnc bad ++ tail))) := by
      simp [h, entryEnc]
    have hv := drop_advance hx'
    rw [bencodeReadDictLoop_of_entry hkey hx' (hread _ _ hv)]
    exact ih (step acc x) hrest (by simp at hk; omega) hstop (drop_advance hv)

theorem bencodeReadDict_stops {entry : α → List UInt8 → BufferM (Option α)}
    {done : α → BufferM (Option α)} {init : α} {xs : List β} {b : LlarpBuffer} {bad tail : List UInt8}
    (hentry : ReadsEntries entry key enc step init xs) (hbad : bad.length < 10 ^ 9)
    (hstop : ∀ b : LlarpBuffer, b.mem.drop b.cur = tail →
      ∃ b', entry (xs.foldl step init) bad b = some (none, b'))
    (h : b.mem.drop b.cur =
      100 :: ((xs.map (entryEnc key enc)).flatten ++ (bytestringEnc bad ++ tail))) :
    ∃ b', bencodeReadDict entry done init b = some (none, b') := by
  have h₁ := drop_advance_one h
  have hk := length_lt_fuel (fun x _ => by simp [entryEnc, bytestringEnc]) h₁
  obtain ⟨b', hloop⟩ := bencodeReadDictLoop_stops init hentry hk hbad hstop h₁
  have hlt : ¬b.sizeLeft < 2 := by
    rw [← length_drop_cur, h]
    simp [bytestringEnc]
  refine ⟨b', ?_⟩
  simp only [bencodeReadDict, get_bind, hlt, ↓reduceIte, bind_of_some (deref_of_drop h), ne_eq,
    not_true_eq_false, advance_bind]
  rw [bind_of_some hloop]
  rfl

/-! ### Sets -/

section Sets

variable {γ : Type} {lt : γ → γ → Bool} {item : BufferM (Option γ)} {f : β → γ}

/-- A set sink that appends each element read when everything in the set precedes it reads
elements that come back as a chain after the set. -/
theorem readsAll_emplace {sink : List γ → BufferM (Option (List γ))} {xs : List β}
    (hhead : ∀ x ∈ xs, ∃ c cs, enc x = c :: cs ∧ c ≠ 101)
    (hsink : ∀ x ∈ xs, ∀ s (b : LlarpBuffer) rest, b.mem.drop b.cur = enc x ++ rest →
      (∀ y ∈ s, StdSet.Precedes lt y (f x)) →
        sink s b = some (some (s ++ [f x]), { b with cur := b.cur + (enc x).length })) :
    ∀ set, (set ++ xs.map f).Pairwise (StdSet.Precedes lt) →
      ReadsAll sink enc (fun s x => s ++ [f x]) set xs := by
  induction xs with
  | nil => intro set _; trivial
  | cons x xs ih =>
    intro set hchain
    have hafter : ∀ y ∈ set, StdSet.Precedes lt y (f x) := fun y hy =>
      (List.pairwise_append.mp hchain).2.2 y hy (f x) (by simp)
    refine ⟨⟨hhead x (by simp), fun b rest hb => hsink x (by simp) set b rest hb hafter⟩,
      ih (fun y hy => hhead y (by simp [hy])) (fun y hy => hsink y (by simp [hy])) _ ?_⟩
    simpa using hchain

/-- `BEncodeReadSet` over elements that come back as a chain after the set: the set grows by
exactly those elements, in order. -/
theorem bEncodeReadSet_of_drop {set : List γ} {xs : List β} {b : LlarpBuffer} {rest : List UInt8}
    (hhead : ∀ x ∈ xs, ∃ c cs, enc x = c :: cs ∧ c ≠ 101)
    (hitem : ∀ x ∈ xs, ∀ (b : LlarpBuffer) rest, b.mem.drop b.cur = enc x ++ rest →
      item b = some (some (f x), { b with cur := b.cur + (enc x).length }))
    (hchain : (set ++ xs.map f).Pairwise (StdSet.Precedes lt))
    (h : b.mem.drop b.cur = 108 :: ((xs.map enc).flatten ++ 101 :: rest)) :
    bEncodeReadSet lt item set b =
      some (some (set ++ xs.map f), { b with cur := b.cur + (xs.map enc).flatten.length + 2 }) := by
  unfold bEncodeReadSet
  rw [bencodeReadList_of_reads (readsAll_emplace hhead ?_ set hchain) h, foldl_append_singleton]
  · rfl
  · intro x hx s b rest hb hafter
    simp [bind_of_some (hitem x hx b rest hb), StdSet.emplace_of_precedes lt hafter]

/-- `BEncodeReadSet` stops with `false` at the first element that comes back as a duplicate,
after the elements before it. -/
theorem bEncodeReadSet_stops {set : List γ} {xs : List β} {x : β} {b : LlarpBuffer}
    {rest : List UInt8} (hhead : ∀ y ∈ xs ++ [x], ∃ c cs, enc y = c :: cs ∧ c ≠ 101)
    (hitem : ∀ y ∈ xs ++ [x], ∀ (b : LlarpBuffer) rest, b.mem.drop b.cur = enc y ++ rest →
      item b = some (some (f y), { b with cur := b.cur + (enc y).length }))
    (hchain : (set ++ xs.map f).Pairwise (StdSet.Precedes lt))
    (hdup : (StdSet.emplace lt (set ++ xs.map f) (f x)).2 = false)
    (h : b.mem.drop b.cur = 108 :: ((xs.map enc).flatten ++ (enc x ++ rest))) :
    ∃ b', bEncodeReadSet lt item set b = some (none, b') := by
  obtain ⟨c, cs, hx, hc⟩ := hhead x (by simp)
  have h' : b.mem.drop b.cur = 108 :: ((xs.map enc).flatten ++ c :: (cs ++ rest)) := by
    simp [h, hx]
  unfold bEncodeReadSet
  refine bencodeReadList_stops
    (readsAll_emplace (fun y hy => hhead y (by simp [hy])) ?_ set hchain) hc ?_ h'
  · intro y hy s b rest hb hafter
    simp [bind_of_some (hitem y (by simp [hy]) b rest hb), StdSet.emplace_of_precedes lt hafter]
  · -- the duplicate is read, and the set refuses it
    intro b hb
    have hb' : b.mem.drop b.cur = enc x ++ rest := by simp [hb, hx]
    rw [foldl_append_singleton]
    exact ⟨{ b with cur := b.cur + (enc x).length },
      by simp [bind_of_some (hitem x (by simp) b rest hb'), hdup]⟩

end Sets

/-- What an in-place dict sink does with the entries `xs` read one after another from `acc`: each
key fits the length buffer, and the sink reads each value from wherever it starts and asks for
the next. -/
def ReadsEntriesInto (entry : α → List UInt8 → BufferM (α × Bool)) (key enc : β → List UInt8)
    (step : α → β → α) : α → List β → Prop
  | _, [] => True
  | acc, x :: xs =>
    ((key x).length < 10 ^ 9 ∧
      ∀ (b : LlarpBuffer) rest, b.mem.drop b.cur = enc x ++ rest →
        entry acc (key x) b = some ((step acc x, true), { b with cur := b.cur + (enc x).length })) ∧
      ReadsEntriesInto entry key enc step (step acc x) xs

/-- A turn of the in-place dict loop that meets an entry reads its key and calls the sink just
past it; when the sink asks for more, the loop goes on from where it stopped. -/
theorem bencodeReadDictIntoLoop_of_entry {entry : α → List UInt8 → BufferM (α × Bool)} {k : Nat}
    {acc acc' : α} {b b' : LlarpBuffer} {key' tail : List UInt8} (hkey : key'.length < 10 ^ 9)
    (h : b.mem.drop b.cur = bytestringEnc key' ++ tail)
    (hread : entry acc key' { b with cur := b.cur + (bytestringEnc key').length } = some ((acc', true), b')) :
    bencodeReadDictIntoLoop entry (k + 1) acc b = bencodeReadDictIntoLoop entry k acc' b' := by
  obtain ⟨c, cs, hdec, hc⟩ := decimal_head key'.length
  have hd : b.mem.drop b.cur = c :: (cs ++ 58 :: (key' ++ tail)) := by
    simp [h, bytestringEnc, hdec]
  have hz : b.sizeLeft ≠ 0 := by rw [← length_drop_cur, hd]; simp
  simp only [bencodeReadDictIntoLoop, get_bind, hz, ↓reduceIte, bind_of_some (deref_of_drop hd),
    (digit_dispatch hc).1, bind_of_some (bencodeReadString_of_drop hkey h), bind_of_some hread]

theorem bencodeReadDictIntoLoop_of_reads {entry : α → List UInt8 → BufferM (α × Bool)}
    {xs : List β} {k : Nat} (acc : α) {b : LlarpBuffer} {tail : List UInt8}
    (hentry : ReadsEntriesInto entry key enc step acc xs) (hk : xs.length < k)
    (h : b.mem.drop b.cur = (xs.map (entryEnc key enc)).flatten ++ tail)
    (htail : ∀ c ∈ tail.head?, c = 101) :
    bencodeReadDictIntoLoop entry k acc b = some ((xs.foldl step acc, true),
      { b with cur := b.cur + (xs.map (entryEnc key enc)).flatten.length }) := by
  induction xs generalizing k acc b with
  | nil =>
    obtain ⟨k, rfl⟩ : ∃ j, k = j + 1 := ⟨k - 1, by simp at hk; omega⟩
    simp only [List.map_nil, List.flatten_nil, List.nil_append] at h
    cases tail with
    | nil =>
      have hz : b.sizeLeft = 0 := by rw [← length_drop_cur, h]; rfl
      simp [bencodeReadDictIntoLoop, hz]
    | cons c rest =>
      obtain rfl : c = 101 := htail c rfl
      have hz : b.sizeLeft ≠ 0 := by rw [← length_drop_cur, h]; simp
      simp [bencodeReadDictIntoLoop, hz, bind_of_some (deref_of_drop h)]
  | cons x xs ih =>
    obtain ⟨k, rfl⟩ : ∃ j, k = j + 1 := ⟨k - 1, by simp at hk; omega⟩
    obtain ⟨⟨hkey, hread⟩, hrest⟩ := hentry
    have hx' : b.mem.drop b.cur =
        bytestringEnc (key x) ++ (enc x ++ ((xs.map (entryEnc key enc)).flatten ++ tail)) := by
      simp [h, entryEnc]
    -- the key, then the value, then the loop from just past the entry
    have hv := drop_advance hx'
    have hloop := ih (step acc x) hrest (by simp at hk; omega) (drop_advance hv)
    rw [bencodeReadDictIntoLoop_of_entry hkey hx' (hread _ _ hv), hloop]
    simp [entryEnc, Nat.add_assoc]

/-- The in-place `bencode_read_dict` over `d`, the entries and `e` hands the object the entries
made to the sink's final call, two bytes past them. -/
theorem bencodeReadDictInto_of_reads {entry : α → List UInt8 → BufferM (α × Bool)}
    {done : α → BufferM (α × Bool)} {init : α} {xs : List β} {b : LlarpBuffer} {rest : List UInt8}
    (hentry : ReadsEntriesInto entry key enc step init xs)
    (h : b.mem.drop b.cur = 100 :: ((xs.map (entryEnc key enc)).flatten ++ 101 :: rest)) :
    bencodeReadDictInto entry done init b = done (xs.foldl step init)
      { b with cur := b.cur + (xs.map (entryEnc key enc)).flatten.length + 2 } := by
  have hsize : b.sizeLeft = (xs.map (entryEnc key enc)).flatten.length + 2 + rest.length := by
    rw [← length_drop_cur, h]
    simp
    omega
  have h₁ := drop_advance_one h
  have hk := length_lt_fuel (fun x _ => by simp [entryEnc, bytestringEnc]) h₁
  have hloop := bencodeReadDictIntoLoop_of_reads init hentry hk h₁ (by simp)
  have hend := drop_advance h₁
  have hlt : ¬b.sizeLeft < 2 := by omega
  simp only [bencodeReadDictInto, get_bind, hlt, ↓reduceIte, bind_of_some (deref_of_drop h), ne_eq,
    not_true_eq_false, advance_bind]
  rw [bind_of_some hloop]
  simp only [Bool.not_true, Bool.false_eq_true, ↓reduceIte, bind_of_some (deref_of_drop hend),
    not_true_eq_false, advance_bind]
  congr 2
  omega

theorem ReadsEntriesInto.of_forall {entry : α → List UInt8 → BufferM (α × Bool)} {xs : List β}
    (h : ∀ x ∈ xs, (key x).length < 10 ^ 9 ∧ ∀ acc (b : LlarpBuffer) rest,
      b.mem.drop b.cur = enc x ++ rest →
        entry acc (key x) b = some ((step acc x, true), { b with cur := b.cur + (enc x).length })) :
    ∀ acc, ReadsEntriesInto entry key enc step acc xs := by
  induction xs with
  | nil => intro acc; trivial
  | cons x xs ih =>
    intro acc
    obtain ⟨hkey, hread⟩ := h x List.mem_cons_self
    exact ⟨⟨hkey, hread acc⟩, ih (fun y hy => h y (List.mem_cons_of_mem x hy)) _⟩

section Invariant

variable {entry : α → List UInt8 → BufferM (α × Bool)} {done : α → BufferM (α × Bool)}
  (P : α → Prop) (hentry : ∀ acc key b r, P acc → entry acc key b = some r → P r.1.1)
include hentry

/-- An invariant of the object that every call of the sink keeps holds of the object the
loop leaves, however it stops. -/
theorem bencodeReadDictIntoLoop_inv :
    ∀ (k : Nat) (acc : α) (b : LlarpBuffer) r, P acc →
      bencodeReadDictIntoLoop entry k acc b = some r → P r.1.1
  | 0, _, _, _, _, h => by simp [bencodeReadDictIntoLoop] at h
  | k + 1, acc, b, r, hacc, h => by
    simp only [bencodeReadDictIntoLoop, get_bind] at h
    split at h
    · cases h
      exact hacc
    obtain ⟨c, b₁, -, h⟩ := bind_eq_some.mp h
    split at h
    · cases h
      exact hacc
    obtain ⟨key?, b₂, -, h⟩ := bind_eq_some.mp h
    cases key? with
    | none =>
      cases h
      exact hacc
    | some key =>
      obtain ⟨⟨acc', ok⟩, b₃, hcall, h⟩ := bind_eq_some.mp h
      have hacc' := hentry acc key b₂ _ hacc hcall
      cases ok with
      | true => exact bencodeReadDictIntoLoop_inv k acc' b₃ r hacc' h
      | false =>
        cases h
        exact hacc'

/-- The same for the whole in-place `bencode_read_dict`, with the final call of the sink. -/
theorem bencodeReadDictInto_inv (hdone : ∀ acc b r, P acc → done acc b = some r → P r.1.1)
    {init : α} {b : LlarpBuffer} {r : (α × Bool) × LlarpBuffer} (hinit : P init)
    (h : bencodeReadDictInto entry done init b = some r) : P r.1.1 := by
  simp only [bencodeReadDictInto, get_bind] at h
  split at h
  · cases h
    exact hinit
  obtain ⟨c, b₁, -, h⟩ := bind_eq_some.mp h
  split at h
  · cases h
    exact hinit
  simp only [advance_bind, get_bind] at h
  obtain ⟨⟨acc, ok⟩, b₂, hloop, h⟩ := bind_eq_some.mp h
  have hacc := bencodeReadDictIntoLoop_inv P hentry _ init _ _ hinit hloop
  cases ok with
  | false =>
    cases h
    exact hacc
  | true =>
    simp only [Bool.not_true, Bool.false_eq_true, ↓reduceIte] at h
    obtain ⟨c', b₃, -, h⟩ := bind_eq_some.mp h
    split at h
    · cases h
      exact hacc
    simp only [advance_bind] at h
    exact hdone acc _ r hacc h

end Invariant

end ReadLoops

end Lokinet.Proofs.Bencode
