import Lokinet.Proofs.BencodeWrite

/-!
Reading back what the writers wrote: integers always, byte strings except the empty string at
the exact fit, and any value built with the writer API, which `bencode_discard` skips exactly.
-/

namespace Lokinet.Proofs.Bencode

open Lokinet.Util FaultState LlarpBuffer

theorem bencodeReadInteger_of_wrote {n : UInt64} {b b' : LlarpBuffer}
    (hw : Wrote b b' (integerEnc n)) : bencodeReadInteger ⟨b'.mem, b.cur⟩ = some (some n, b') := by
  rw [bencodeReadInteger_of_drop hw.drop_cur]
  obtain ⟨-, hc, -⟩ := hw
  rw [← hc]

theorem bencodeReadString_of_wrote {s : List UInt8} {b b' : LlarpBuffer} (hs : s.length < 10 ^ 9)
    (hw : Wrote b b' (bytestringEnc s)) :
    bencodeReadString ⟨b'.mem, b.cur⟩ = some (some s, b') := by
  rw [bencodeReadString_of_drop hs hw.drop_cur]
  obtain ⟨-, hc, -⟩ := hw
  rw [← hc]

/-- What `bencode_write_uint64` wrote, `bencode_read_integer` reads back from the same cursor,
and it stops where the writer stopped. -/
theorem bencodeReadInteger_after_write {n : UInt64} {b b' : LlarpBuffer}
    (h : bencodeWriteUint64 n b = some (true, b')) :
    bencodeReadInteger ⟨b'.mem, b.cur⟩ = some (some n, b') :=
  bencodeReadInteger_of_wrote (clean_bencodeWriteUint64 n b b' h)

theorem bencodeReadInteger_after_write_seven :
    bencodeWriteUint64 7 (ofBytes [0, 0, 0, 0]) = some (true, ⟨[105, 55, 101, 0], 3⟩) ∧
      bencodeReadInteger ⟨[105, 55, 101, 0], 0⟩ = some (some 7, ⟨[105, 55, 101, 0], 3⟩) := by
  have hw : bencodeWriteUint64 7 (ofBytes [0, 0, 0, 0]) = some (true, ⟨[105, 55, 101, 0], 3⟩) := by
    decide
  have hread := bencodeReadInteger_after_write hw
  exact ⟨hw, hread⟩

/-- What `bencode_write_bytestring` wrote, `bencode_read_string` reads back, except an empty
string written where exactly two bytes were left. -/
theorem bencodeReadString_after_write {s : List UInt8} {b b' : LlarpBuffer}
    (hs : s.length < 10 ^ 9) (hfit : s = [] → b.sizeLeft ≠ 2)
    (h : bencodeWriteBytestring s b = some (true, b')) :
    bencodeReadString ⟨b'.mem, b.cur⟩ = some (some s, b') :=
  bencodeReadString_of_wrote hs (bencodeWriteBytestring_wrote h hfit)

theorem bencodeReadString_after_write_one :
    bencodeWriteBytestring [7] (ofBytes [0, 0, 0, 0]) = some (true, ⟨[49, 58, 7, 0], 3⟩) ∧
      bencodeReadString ⟨[49, 58, 7, 0], 0⟩ = some (some [7], ⟨[49, 58, 7, 0], 3⟩) := by
  have hw : bencodeWriteBytestring [7] (ofBytes [0, 0, 0, 0]) =
      some (true, ⟨[49, 58, 7, 0], 3⟩) := by
    decide
  have hread := bencodeReadString_after_write (by decide) (fun h => by simp at h) hw
  exact ⟨hw, hread⟩

set_option maxRecDepth 8000 in
/-- Where exactly two bytes are left, `bencode_write_bytestring` of the empty string stores `0`
and the NUL of `vsnprintf` and reports success; `bencode_read_string` from the same cursor then
meets the end of the buffer before any `:`. -/
theorem bencodeWriteBytestring_exact_fit {b : LlarpBuffer} (hfit : b.sizeLeft = 2) :
    bencodeWriteBytestring [] b = some (true, ⟨Window.paste b.mem b.cur [48, 0], b.cur + 2⟩) ∧
      bencodeReadString ⟨Window.paste b.mem b.cur [48, 0], b.cur⟩ =
        some (none, ⟨Window.paste b.mem b.cur [48, 0], b.cur + 2⟩) := by
  have hcur : b.cur + 2 = b.mem.length := by
    simp only [sizeLeft] at hfit
    omega
  have hdec : Decimal.decimal ([] : List UInt8).length ++ [58] = [48, 58] := rfl
  have hlen : (Window.paste b.mem b.cur [48, 0]).length = b.mem.length :=
    Window.length_paste (by simp; omega)
  constructor
  · -- `vsnprintf` keeps one byte of `0:` and its NUL, and `writef` advances by two
    have hw : writef [48, 58] b = some (true, ⟨Window.paste b.mem b.cur [48, 0], b.cur + 2⟩) := by
      simp [writef, hfit]
    have hnil : write [] ⟨Window.paste b.mem b.cur [48, 0], b.cur + 2⟩ =
        some (true, ⟨Window.paste b.mem b.cur [48, 0], b.cur + 2⟩) := by
      simp [write, sizeLeft]
    rw [bencodeWriteBytestring, hdec, writeSeq_cons_of_true hw, writeSeq_cons_of_true hnil]
    rfl
  · have hdrop : (Window.paste b.mem b.cur [48, 0]).drop b.cur = [48, 0] := by
      rw [Window.drop_paste (by omega), List.length_cons, List.length_singleton, hcur,
        List.drop_length, List.append_nil]
    have hcur' : b.cur ≤ (Window.paste b.mem b.cur [48, 0]).length := by omega
    have hread := @readUntil_of_drop_end 58 [48, 0] 9 ⟨Window.paste b.mem b.cur [48, 0], b.cur⟩
      (by decide) (by decide) hcur' hdrop
    simp only [bencodeReadString]
    rw [bind_of_some hread]
    rfl

theorem bencodeWriteBytestring_exact_fit_two :
    (ofBytes [0, 0]).sizeLeft = 2 ∧
      (bencodeWriteBytestring [] (ofBytes [0, 0]) =
          some (true, ⟨Window.paste [0, 0] 0 [48, 0], 0 + 2⟩) ∧
        bencodeReadString ⟨Window.paste [0, 0] 0 [48, 0], 0⟩ =
          some (none, ⟨Window.paste [0, 0] 0 [48, 0], 0 + 2⟩)) :=
  ⟨rfl, bencodeWriteBytestring_exact_fit rfl⟩

/-! ### Values built with the writer API, and `bencode_discard` -/

/-- A value the writer API builds: byte strings, integers, and lists and dicts of values
between `bencode_start_list` or `bencode_start_dict` and `bencode_end`. -/
inductive BValue where
  | str (s : List UInt8)
  | int (n : UInt64)
  | list (xs : List BValue)
  | dict (entries : List (List UInt8 × BValue))

namespace BValue

mutual
def enc : BValue → List UInt8
  | str s => bytestringEnc s
  | int n => integerEnc n
  | list xs => 108 :: (encList xs ++ [101])
  | dict kvs => 100 :: (encDict kvs ++ [101])
def encList : List BValue → List UInt8
  | [] => []
  | v :: vs => v.enc ++ encList vs
def encDict : List (List UInt8 × BValue) → List UInt8
  | [] => []
  | (k, v) :: kvs => bytestringEnc k ++ v.enc ++ encDict kvs
end

mutual
/-- The writer calls that build a value, a dict's keys through `bencode_write_bytestring`. -/
def writers : BValue → List (BufferM Bool)
  | str s => [bencodeWriteBytestring s]
  | int n => [bencodeWriteUint64 n]
  | list xs => bencodeStartList :: (writersList xs ++ [bencodeEnd])
  | dict kvs => bencodeStartDict :: (writersDict kvs ++ [bencodeEnd])
def writersList : List BValue → List (BufferM Bool)
  | [] => []
  | v :: vs => v.writers ++ writersList vs
def writersDict : List (List UInt8 × BValue) → List (BufferM Bool)
  | [] => []
  | (k, v) :: kvs => bencodeWriteBytestring k :: (v.writers ++ writersDict kvs)
end

/-- Writing a value: its writer calls in order, stopping at the first that fails. -/
def write (v : BValue) : BufferM Bool := writeSeq v.writers

theorem encList_eq (xs : List BValue) : encList xs = (xs.map enc).flatten := by
  induction xs with
  | nil => rfl
  | cons v vs ih => rw [encList, ih, List.map_cons, List.flatten_cons]

theorem encDict_eq (kvs : List (List UInt8 × BValue)) :
    encDict kvs = (kvs.map (entryEnc Prod.fst fun p => p.2.enc)).flatten := by
  induction kvs with
  | nil => rfl
  | cons p kvs ih =>
    obtain ⟨k, v⟩ := p
    rw [encDict, ih, List.map_cons, List.flatten_cons, entryEnc]

/-- A container is written cleanly whatever its elements emit: the closing `bencode_end`
needs a byte that a spent buffer does not have. -/
theorem clean_container {c : UInt8} {ws : List (BufferM Bool)} {es : List UInt8}
    (h : Emits (writeSeq ws) es) :
    Clean (writeSeq (Lokinet.Util.write [c] :: (ws ++ [bencodeEnd]))) (c :: (es ++ [101])) :=
  Clean.cons (clean_write [c]).emits (Clean.append h (Clean.singleton (clean_write [101]))
    (List.cons_ne_nil _ _)) (by simp)

mutual
theorem emits_writers : ∀ v : BValue, Emits (writeSeq v.writers) v.enc
  | str s => by simpa [writers, enc] using Emits.cons (emits_bencodeWriteBytestring s) Emits.nil
  | int n => by
    simpa [writers, enc] using Emits.cons (clean_bencodeWriteUint64 n).emits Emits.nil
  | list xs => (clean_container (emits_writersList xs)).emits
  | dict kvs => (clean_container (emits_writersDict kvs)).emits
theorem emits_writersList : ∀ xs : List BValue, Emits (writeSeq (writersList xs)) (encList xs)
  | [] => Emits.nil
  | v :: vs => Emits.append (emits_writers v) (emits_writersList vs)
theorem emits_writersDict :
    ∀ kvs : List (List UInt8 × BValue), Emits (writeSeq (writersDict kvs)) (encDict kvs)
  | [] => Emits.nil
  | (k, v) :: kvs => by
    have h := Emits.cons (emits_bencodeWriteBytestring k)
      (Emits.append (emits_writers v) (emits_writersDict kvs))
    simpa [writersDict, encDict] using h
end

/-- A successful write of a value wrote its wire form, unless the value is an empty string
written where exactly two bytes were left. -/
theorem wrote_of_write {v : BValue} {b b' : LlarpBuffer} (h : v.write b = some (true, b'))
    (hfit : v = str [] → b.sizeLeft ≠ 2) : Wrote b b' v.enc := by
  cases v with
  | str s =>
    apply bencodeWriteBytestring_wrote (writeSeq_singleton_true h)
    rintro rfl
    exact hfit rfl
  | int n => exact clean_bencodeWriteUint64 n b b' (writeSeq_singleton_true h)
  | list xs => exact clean_container (emits_writersList xs) b b' h
  | dict kvs => exact clean_container (emits_writersDict kvs) b b' h

theorem enc_head (v : BValue) : ∃ c cs, v.enc = c :: cs ∧ c ≠ 101 := by
  cases v with
  | str s =>
    obtain ⟨c, cs, hd, hc⟩ := decimal_head s.length
    exact ⟨c, cs ++ 58 :: s, by simp [enc, bytestringEnc, hd], (digit_dispatch hc).1⟩
  | int n => exact ⟨105, _, rfl, by decide⟩
  | list xs => exact ⟨108, _, rfl, by decide⟩
  | dict kvs => exact ⟨100, _, rfl, by decide⟩

end BValue

open BValue

section Discard

variable {f : Nat}
  (ih : ∀ {v : BValue} {b : LlarpBuffer} {rest : List UInt8}, v.enc.length < f →
    v.enc.length ≤ 10 ^ 9 → b.mem.drop b.cur = v.enc ++ rest →
    bencodeDiscardWith f b = some (true, { b with cur := b.cur + v.enc.length }))
include ih

/-- The list elements are read by the sink that discards them with one level less fuel. -/
theorem readsItem_discard {xs : List BValue} (hf : (list xs).enc.length ≤ f)
    (hv : (list xs).enc.length ≤ 10 ^ 9) :
    ∀ x ∈ xs, ReadsItem (fun _ => asSink (bencodeDiscardWith f)) enc (fun _ _ => ()) x := by
  intro x hx
  have hle : x.enc.length ≤ (encList xs).length := by
    rw [encList_eq]
    exact (List.sublist_flatten_of_mem (List.mem_map_of_mem hx)).length_le
  have hlen : (list xs).enc.length = (encList xs).length + 2 := by simp [enc]
  refine ⟨enc_head x, fun _ b rest h => asSink_of_true (ih (by omega) (by omega) h)⟩

theorem readsEntry_discard {kvs : List (List UInt8 × BValue)} (hf : (dict kvs).enc.length ≤ f)
    (hv : (dict kvs).enc.length ≤ 10 ^ 9) :
    ∀ p ∈ kvs, ReadsEntry (fun _ _ => asSink (bencodeDiscardWith f)) Prod.fst (fun p => p.2.enc)
      (fun _ _ => ()) p := by
  intro p hp
  have hle : (entryEnc Prod.fst (fun p => p.2.enc) p).length ≤ (encDict kvs).length := by
    rw [encDict_eq]
    exact (List.sublist_flatten_of_mem (List.mem_map_of_mem hp)).length_le
  have hlen : (dict kvs).enc.length = (encDict kvs).length + 2 := by simp [enc]
  have hentry : (entryEnc Prod.fst (fun p => p.2.enc) p).length =
      (bytestringEnc p.1).length + p.2.enc.length := by simp [entryEnc]
  have hkey : p.1.length < (bytestringEnc p.1).length := by
    simp only [bytestringEnc, List.length_append, List.length_cons]
    omega
  refine ⟨by omega, fun _ b rest h => asSink_of_true (ih (by omega) (by omega) h)⟩

end Discard

/-- `bencode_discard` skips a value written by the writer API, given one level of fuel per
byte; no string in it may need ten digits for its length. -/
theorem bencodeDiscardWith_of_drop (fuel : Nat) {v : BValue} {b : LlarpBuffer}
    {rest : List UInt8} (hf : v.enc.length < fuel) (hv : v.enc.length ≤ 10 ^ 9)
    (h : b.mem.drop b.cur = v.enc ++ rest) :
    bencodeDiscardWith fuel b = some (true, { b with cur := b.cur + v.enc.length }) := by
  induction fuel generalizing v b rest with
  | zero => omega
  | succ f ih =>
    obtain ⟨c, cs, hcs, -⟩ := enc_head v
    have hz : b.sizeLeft ≠ 0 := by rw [← length_drop_cur, h, hcs]; simp
    cases v with
    | str s =>
      obtain ⟨d, ds, hd, hdig⟩ := decimal_head s.length
      have hds : b.mem.drop b.cur = d :: (ds ++ 58 :: (s ++ rest)) := by
        simp [h, enc, bytestringEnc, hd]
      obtain ⟨-, h108, h105, h100, hlo, hhi⟩ := digit_dispatch hdig
      have hs : s.length < 10 ^ 9 := by simp [enc, bytestringEnc] at hv; omega
      simp only [bencodeDiscardWith, get_bind, hz, ↓reduceIte, bind_of_some (deref_of_drop hds),
        h108, h105, h100, hlo, hhi, and_self, bind_of_some (bencodeReadString_of_drop hs h),
        Option.isSome_some, pure_apply, enc]
    | int n =>
      have hds : b.mem.drop b.cur = 105 :: (Decimal.decimal n.toNat ++ 101 :: rest) := by
        simp [h, enc, integerEnc]
      have h108 : (105 : UInt8) ≠ 108 := by decide
      simp only [bencodeDiscardWith, get_bind, hz, ↓reduceIte, bind_of_some (deref_of_drop hds),
        h108, bind_of_some (bencodeReadInteger_of_drop h), Option.isSome_some, pure_apply, enc]
    | list xs =>
      have hds : b.mem.drop b.cur = 108 :: ((xs.map enc).flatten ++ 101 :: rest) := by
        simp [h, enc, encList_eq]
      have hread : bencodeReadList (fun _ => asSink (bencodeDiscardWith f))
          (fun _ => pure (some ())) () b =
          some (some (), { b with cur := b.cur + (xs.map enc).flatten.length + 2 }) :=
        bencodeReadList_of_drop (readsItem_discard ih (by omega) hv) hds
      simp only [bencodeDiscardWith, get_bind, hz, ↓reduceIte, bind_of_some (deref_of_drop hds),
        bind_of_some hread]
      simp [enc, encList_eq]
      omega
    | dict kvs =>
      have hds : b.mem.drop b.cur =
          100 :: ((kvs.map (entryEnc Prod.fst fun p => p.2.enc)).flatten ++ 101 :: rest) := by
        simp [h, enc, encDict_eq]
      have hread : bencodeReadDict (fun _ _ => asSink (bencodeDiscardWith f))
          (fun _ => pure (some ())) () b = some (some (), { b with cur := b.cur +
            (kvs.map (entryEnc Prod.fst fun p => p.2.enc)).flatten.length + 2 }) :=
        bencodeReadDict_of_drop (readsEntry_discard ih (by omega) hv) hds
      have h108 : (100 : UInt8) ≠ 108 := by decide
      have h105 : (100 : UInt8) ≠ 105 := by decide
      simp only [bencodeDiscardWith, get_bind, hz, ↓reduceIte, bind_of_some (deref_of_drop hds),
        h108, h105, bind_of_some hread]
      simp [enc, encDict_eq]
      omega

theorem bencodeDiscard_of_drop {v : BValue} {b : LlarpBuffer} {rest : List UInt8}
    (hv : v.enc.length ≤ 10 ^ 9) (h : b.mem.drop b.cur = v.enc ++ rest) :
    bencodeDiscard b = some (true, { b with cur := b.cur + v.enc.length }) := by
  have hf : v.enc.length < b.sizeLeft + 1 := by
    rw [← length_drop_cur, h, List.length_append]
    omega
  exact bencodeDiscardWith_of_drop _ hf hv h

/-- What the model takes of oxenmq's `bt_serialize` and `bt_deserialize` at `x`: the bytes
serialized are one bencoded value, short enough for `bencode_discard`, and deserialize to `x`. -/
def BtReads {α : Type} (serialize : α → List UInt8) (deserialize : List UInt8 → Option α) (x : α) :
    Prop :=
  ∃ v : BValue, v.enc = serialize x ∧ v.enc.length ≤ 10 ^ 9 ∧ deserialize (serialize x) = some x

/-- A decoder that skips a value with `bencode_discard` and hands the bytes skipped to
`bt_deserialize` gets `x` back from the serialization of `x`. -/
theorem BtReads.discard {α : Type} {serialize : α → List UInt8} {deserialize : List UInt8 → Option α}
    {x : α} (hx : BtReads serialize deserialize x) {b : LlarpBuffer} {rest : List UInt8}
    (h : b.mem.drop b.cur = serialize x ++ rest) :
    bencodeDiscard b = some (true, { b with cur := b.cur + (serialize x).length }) ∧
      deserialize ((b.mem.drop b.cur).take (serialize x).length) = some x := by
  obtain ⟨v, hv, hlen, hback⟩ := hx
  refine ⟨?_, by rw [h, List.take_left' rfl, hback]⟩
  rw [← hv] at h ⊢
  exact bencodeDiscard_of_drop hlen h

/-- `bencode_discard`, run from where a successful write of a value began, skips exactly what
was written, unless the value is an empty string written at the exact fit. -/
theorem bencodeDiscard_after_write {v : BValue} {b b' : LlarpBuffer} (hv : v.enc.length ≤ 10 ^ 9)
    (hfit : v = str [] → b.sizeLeft ≠ 2) (h : v.write b = some (true, b')) :
    bencodeDiscard ⟨b'.mem, b.cur⟩ = some (true, b') := by
  have hw := wrote_of_write h hfit
  rw [bencodeDiscard_of_drop hv hw.drop_cur]
  obtain ⟨-, hc, -⟩ := hw
  rw [← hc]

theorem bencodeDiscard_after_write_list :
    (list [int 1]).write (ofBytes [0, 0, 0, 0, 0, 0]) =
        some (true, ⟨[108, 105, 49, 101, 101, 0], 5⟩) ∧
      bencodeDiscard ⟨[108, 105, 49, 101, 101, 0], 0⟩ =
        some (true, ⟨[108, 105, 49, 101, 101, 0], 5⟩) := by
  have hw : (list [int 1]).write (ofBytes [0, 0, 0, 0, 0, 0]) =
      some (true, ⟨[108, 105, 49, 101, 101, 0], 5⟩) := by
    decide
  have hskip := bencodeDiscard_after_write (by decide) (fun h => by simp at h) hw
  exact ⟨hw, hskip⟩

end Lokinet.Proofs.Bencode
