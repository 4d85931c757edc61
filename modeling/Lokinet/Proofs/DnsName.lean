import Lokinet.Dns.Message

/-!
The DNS name codec on names made of labels: `EncodeName` writes every label, given enough
space, and `DecodeName` reads the dotted name back from the same place, stopping where the
encoder stopped; likewise for `Question`. Where the space ends before the final zero byte,
`EncodeName` stores it past the end, and where the bytes end after a label, `DecodeName`
reads past the end.
-/

namespace Lokinet.Proofs.DnsName

open Lokinet.Util Lokinet.Dns FaultState LlarpBuffer

/-- A label of a domain name: one to 63 bytes, none of them a dot. -/
structure Label where
  bytes : List UInt8
  length_pos : 0 < bytes.length
  length_le : bytes.length ≤ 63
  dot_not_mem : 46 ∉ bytes

namespace Label

/-- A label on the wire: its length byte, then its bytes. -/
def enc (l : Label) : List UInt8 := UInt8.ofNat l.bytes.length :: l.bytes

theorem length_enc (l : Label) : l.enc.length = l.bytes.length + 1 := by
  simp [enc]

theorem toNat_length_byte (l : Label) : (UInt8.ofNat l.bytes.length).toNat = l.bytes.length := by
  have h := l.length_le
  rw [UInt8.toNat_ofNat']
  omega

theorem ne_dot (l : Label) : ∀ c ∈ l.bytes, c ≠ 46 := fun _ hc he => l.dot_not_mem (he ▸ hc)

end Label

/-- The name with dots between its labels, as a caller writes it. -/
def dotted (ls : List Label) : List UInt8 := [46].intercalate (ls.map Label.bytes)

/-- The name as `DecodeName` builds it: every label followed by a dot. -/
def dottedEach (ls : List Label) : List UInt8 := (ls.map fun l => l.bytes ++ [46]).flatten

/-- The label bytes `EncodeName` writes before the final zero. -/
def labelsEnc (ls : List Label) : List UInt8 := (ls.map Label.enc).flatten

/-- The wire form of a name. -/
def nameEnc (ls : List Label) : List UInt8 := labelsEnc ls ++ [0]

/-- The name as given to `EncodeName`: with or without a trailing dot. -/
def written (ls : List Label) (trailingDot : Bool) : List UInt8 :=
  if trailingDot then dotted ls ++ [46] else dotted ls

@[simp] theorem labelsEnc_nil : labelsEnc [] = [] := rfl

@[simp] theorem labelsEnc_cons (l : Label) (ls : List Label) :
    labelsEnc (l :: ls) = l.enc ++ labelsEnc ls := rfl

@[simp] theorem dottedEach_nil : dottedEach [] = [] := rfl

@[simp] theorem dottedEach_cons (l : Label) (ls : List Label) :
    dottedEach (l :: ls) = l.bytes ++ 46 :: dottedEach ls := by
  simp [dottedEach]

theorem dotted_cons_cons (l l' : Label) (ls : List Label) :
    dotted (l :: l' :: ls) = l.bytes ++ 46 :: dotted (l' :: ls) := by
  simp [dotted, List.intercalate_cons_cons]

theorem length_labelsEnc_ge (ls : List Label) : ls.length ≤ (labelsEnc ls).length := by
  induction ls with
  | nil => simp
  | cons l ls ih =>
    simp only [labelsEnc_cons, List.length_append, Label.length_enc, List.length_cons]
    omega

theorem dotted_ne_nil (l : Label) (ls : List Label) : dotted (l :: ls) ≠ [] := by
  cases ls with
  | nil => simpa [dotted] using List.ne_nil_of_length_pos l.length_pos
  | cons l' ls => simp [dotted_cons_cons]

/-! ### Splitting the name -/

theorem getlineFrom_append {delim : UInt8} {l : List UInt8} (hl : ∀ c ∈ l, c ≠ delim)
    (part s : List UInt8) : getlineFrom delim part (l ++ s) = getlineFrom delim (part ++ l) s := by
  induction l generalizing part with
  | nil => simp
  | cons c cs ih =>
    have hc : c ≠ delim := hl c (by simp)
    rw [List.cons_append, getlineFrom, if_neg hc, ih (fun x hx => hl x (by simp [hx]))]
    simp

/-- `std::getline` gives back the labels the dots separate. -/
theorem getlineFrom_dotted : ∀ (l : Label) (ls : List Label),
    getlineFrom 46 [] (dotted (l :: ls)) = (l :: ls).map Label.bytes
  | l, [] => by
    have h := getlineFrom_append l.ne_dot [] []
    simpa [dotted, getlineFrom] using h
  | l, l' :: ls => by
    rw [dotted_cons_cons, getlineFrom_append l.ne_dot, getlineFrom, if_pos rfl,
      if_neg (dotted_ne_nil l' ls), getlineFrom_dotted l' ls]
    simp

theorem getlineParts_dotted (ls : List Label) : getlineParts 46 (dotted ls) = ls.map Label.bytes := by
  cases ls with
  | nil => rfl
  | cons l ls => rw [getlineParts, if_neg (dotted_ne_nil l ls), getlineFrom_dotted]

/-- The last byte of a dotted name is the last byte of a label, never a dot. -/
theorem getLast?_dotted : ∀ (ls : List Label) (x : UInt8), (dotted ls).getLast? = some x → x ≠ 46
  | [], x, h => by simp [dotted] at h
  | [l], x, h => l.ne_dot x (List.mem_of_getLast? (by simpa [dotted] using h))
  | l :: l' :: ls, x, h => by
    obtain ⟨y, hy⟩ := Option.isSome_iff_exists.mp (List.getLast?_isSome.mpr (dotted_ne_nil l' ls))
    rw [dotted_cons_cons, List.getLast?_append, List.getLast?_cons, hy] at h
    simp only [Option.getD_some, Option.some_or, Option.some.injEq] at h
    subst h
    exact getLast?_dotted (l' :: ls) y hy

/-- With or without its trailing dot, `EncodeName` splits a name into its labels. -/
theorem encodeName_written (ls : List Label) (trailingDot : Bool) :
    encodeName (written ls trailingDot) = encodeParts (ls.map Label.bytes) := by
  have hstrip : (if (written ls trailingDot).getLast? = some 46 then
      (written ls trailingDot).dropLast else written ls trailingDot) = dotted ls := by
    cases trailingDot with
    | true => simp [written]
    | false =>
      have hlast : (dotted ls).getLast? ≠ some 46 := fun h => getLast?_dotted ls 46 h rfl
      simp [written, hlast]
  rw [encodeName, hstrip, getlineParts_dotted]

/-! ### Encoding -/

theorem encodeNameEnd_of_lt {b : LlarpBuffer} (h : b.cur < b.mem.length) :
    encodeNameEnd b = some (true, ⟨Window.paste b.mem b.cur [0], b.cur + 1⟩) := by
  rw [encodeNameEnd, bind_of_some (store_of_lt h)]
  rfl

theorem encodeNameEnd_of_le {b : LlarpBuffer} (h : b.mem.length ≤ b.cur) : encodeNameEnd b = none :=
  bind_of_none (store_of_le h)

/-- A label with room for it: its length byte and its bytes are written, and the loop goes on
from just past them. -/
theorem encodeParts_cons {l : Label} (ps : List (List UInt8)) {b : LlarpBuffer}
    (hroom : l.enc.length ≤ b.sizeLeft) :
    ∃ b₁, Wrote b b₁ l.enc ∧ encodeParts (l.bytes :: ps) b = encodeParts ps b₁ := by
  have hlen := l.length_enc
  have hcur : b.cur < b.mem.length := by
    simp only [sizeLeft] at hroom
    omega
  have hgt : ¬l.bytes.length > 63 := Nat.not_lt.mpr l.length_le
  have hne : l.bytes.length ≠ 0 := Nat.pos_iff_ne_zero.mp l.length_pos
  -- the length byte, stored before any check, then the bytes after the check passed
  have hw₀ : Wrote b ⟨Window.paste b.mem b.cur [UInt8.ofNat l.bytes.length], b.cur + 1⟩
      [UInt8.ofNat l.bytes.length] := Wrote.paste (by simp; omega)
  have hroom₀ : ¬(⟨Window.paste b.mem b.cur [UInt8.ofNat l.bytes.length], b.cur + 1⟩ :
      LlarpBuffer).sizeLeft < l.bytes.length := by
    rw [hw₀.sizeLeft_eq]
    simp only [List.length_singleton]
    omega
  have hcopy : b.cur + 1 + l.bytes.length ≤
      (Window.paste b.mem b.cur [UInt8.ofNat l.bytes.length]).length := by
    rw [hw₀.1]
    simp only [sizeLeft] at hroom
    omega
  refine ⟨_, hw₀.trans (Wrote.paste hcopy), ?_⟩
  simp only [encodeParts, hgt, ↓reduceIte, bind_of_some (store_of_lt hcur), advance_bind, get_bind]
  rw [if_neg hroom₀, if_pos hne, bind_of_some (memcpy_of_le hcopy)]
  rfl

/-- A label without room for it: the run does not report success. It faults storing the
length byte at the end, or fails the check after it. -/
theorem encodeParts_cons_short {l : Label} (ps : List (List UInt8)) {b b' : LlarpBuffer}
    (hshort : b.sizeLeft < l.enc.length) : encodeParts (l.bytes :: ps) b ≠ some (true, b') := by
  have hlen := l.length_enc
  have hgt : ¬l.bytes.length > 63 := Nat.not_lt.mpr l.length_le
  intro h
  by_cases hcur : b.cur < b.mem.length
  · have hlt : (⟨Window.paste b.mem b.cur [UInt8.ofNat l.bytes.length], b.cur + 1⟩ :
        LlarpBuffer).sizeLeft < l.bytes.length := by
      have hpaste : (Window.paste b.mem b.cur [UInt8.ofNat l.bytes.length]).length =
          b.mem.length := Window.length_paste (by simp; omega)
      simp only [sizeLeft, hpaste] at hshort ⊢
      omega
    simp only [encodeParts, hgt, ↓reduceIte, bind_of_some (store_of_lt hcur), advance_bind,
      get_bind] at h
    rw [if_pos hlt] at h
    simp at h
  · simp only [encodeParts, hgt, ↓reduceIte] at h
    rw [bind_of_none (store_of_le (Nat.le_of_not_lt hcur))] at h
    simp at h

/-- Labels with room for them are all written; what remains is the final zero byte. -/
theorem encodeParts_labels (ls : List Label) {b : LlarpBuffer}
    (hroom : (labelsEnc ls).length ≤ b.sizeLeft) :
    ∃ b₁, Wrote b b₁ (labelsEnc ls) ∧ encodeParts (ls.map Label.bytes) b = encodeNameEnd b₁ := by
  induction ls generalizing b with
  | nil => exact ⟨b, Wrote.refl b, rfl⟩
  | cons l ls ih =>
    rw [labelsEnc_cons, List.length_append] at hroom
    have hroom₁ : l.enc.length ≤ b.sizeLeft := by omega
    obtain ⟨b₁, hw₁, hrun₁⟩ := encodeParts_cons (ls.map Label.bytes) hroom₁
    have hroom₂ : (labelsEnc ls).length ≤ b₁.sizeLeft := by
      rw [hw₁.sizeLeft_eq]
      omega
    obtain ⟨b₂, hw₂, hrun₂⟩ := ih hroom₂
    exact ⟨b₂, hw₁.trans hw₂, by rw [List.map_cons, hrun₁, hrun₂]⟩

/-- With room for the whole name, `EncodeName` writes it. -/
theorem encodeName_of_room (ls : List Label) (trailingDot : Bool) {b : LlarpBuffer}
    (hroom : (nameEnc ls).length ≤ b.sizeLeft) :
    ∃ b', encodeName (written ls trailingDot) b = some (true, b') ∧ Wrote b b' (nameEnc ls) := by
  simp only [nameEnc, List.length_append, List.length_singleton] at hroom
  have hroom₁ : (labelsEnc ls).length ≤ b.sizeLeft := by omega
  obtain ⟨b₁, hw₁, hrun⟩ := encodeParts_labels ls hroom₁
  have hcur : b₁.cur < b₁.mem.length := by
    have hleft := hw₁.sizeLeft_eq
    simp only [sizeLeft] at hleft hroom ⊢
    omega
  refine ⟨_, by rw [encodeName_written, hrun, encodeNameEnd_of_lt hcur], ?_⟩
  exact hw₁.trans (Wrote.paste (by simp; omega))

/-- `EncodeName` reports success only where the whole name fit. -/
theorem encodeName_true_room {ls : List Label} {trailingDot : Bool} {b b' : LlarpBuffer}
    (h : encodeName (written ls trailingDot) b = some (true, b')) :
    (nameEnc ls).length ≤ b.sizeLeft := by
  rw [encodeName_written] at h
  induction ls generalizing b with
  | nil =>
    have hcur : b.cur < b.mem.length := by
      by_contra hle
      rw [List.map_nil, encodeParts, encodeNameEnd_of_le (Nat.le_of_not_lt hle)] at h
      contradiction
    simp only [nameEnc, labelsEnc_nil, List.nil_append, List.length_singleton, sizeLeft]
    omega
  | cons l ls ih =>
    by_cases hroom : l.enc.length ≤ b.sizeLeft
    · obtain ⟨b₁, hw₁, hrun₁⟩ := encodeParts_cons (ls.map Label.bytes) hroom
      rw [List.map_cons, hrun₁] at h
      have hrest := ih h
      rw [hw₁.sizeLeft_eq] at hrest
      simp only [nameEnc, labelsEnc_cons, List.length_append] at hrest ⊢
      omega
    · exact absurd h (encodeParts_cons_short (ls.map Label.bytes) (Nat.lt_of_not_le hroom))

/-- Whenever `EncodeName` reports success, it wrote the wire form of the name. -/
theorem encodeName_wrote {ls : List Label} {trailingDot : Bool} {b b' : LlarpBuffer}
    (h : encodeName (written ls trailingDot) b = some (true, b')) : Wrote b b' (nameEnc ls) := by
  obtain ⟨b'', h', hw⟩ := encodeName_of_room ls trailingDot (encodeName_true_room h)
  rw [h'] at h
  cases h
  exact hw

/-- A name whose labels fill the space left, with no byte for the final zero: `EncodeName`
stores that zero one past the end of the buffer. -/
theorem encodeName_stores_past_end (ls : List Label) (trailingDot : Bool) {b : LlarpBuffer}
    (hfit : b.sizeLeft = (labelsEnc ls).length) : encodeName (written ls trailingDot) b = none := by
  obtain ⟨b₁, hw₁, hrun⟩ := encodeParts_labels ls (Nat.le_of_eq hfit.symm)
  have hend : b₁.mem.length ≤ b₁.cur := by
    have hleft := hw₁.sizeLeft_eq
    rw [hfit, Nat.sub_self] at hleft
    simp only [sizeLeft] at hleft
    omega
  rw [encodeName_written, hrun, encodeNameEnd_of_le hend]

/-- The label `a`. -/
def labelA : Label := ⟨[97], by decide, by decide, by decide⟩

theorem encodeName_stores_past_end_a :
    (ofBytes [0, 0]).sizeLeft = (labelsEnc [labelA]).length ∧
      encodeName (written [labelA] false) (ofBytes [0, 0]) = none :=
  ⟨rfl, encodeName_stores_past_end [labelA] false rfl⟩

/-! ### Decoding -/

theorem decodeLabels_zero {fuel : Nat} {acc rest : List UInt8} {b : LlarpBuffer}
    (h : b.mem.drop b.cur = 0 :: rest) :
    decodeLabels (fuel + 1) acc b = some (some acc, { b with cur := b.cur + 1 }) := by
  simp [decodeLabels, bind_of_some (deref_of_drop h)]

theorem decodeLabels_past_end {fuel : Nat} {acc : List UInt8} {b : LlarpBuffer}
    (h : b.mem.length ≤ b.cur) : decodeLabels (fuel + 1) acc b = none :=
  bind_of_none (deref_of_le h)

/-- The loop of `DecodeName` reads labels on the wire, each followed by a dot, and goes on
just past them. -/
theorem decodeLabels_labels (ls : List Label) (fuel : Nat) (acc : List UInt8) {b : LlarpBuffer}
    {tail : List UInt8} (h : b.mem.drop b.cur = labelsEnc ls ++ tail) :
    decodeLabels (fuel + ls.length) acc b =
      decodeLabels fuel (acc ++ dottedEach ls) { b with cur := b.cur + (labelsEnc ls).length } := by
  induction ls generalizing acc b with
  | nil => simp
  | cons l ls ih =>
    have hd : b.mem.drop b.cur =
        UInt8.ofNat l.bytes.length :: (l.bytes ++ (labelsEnc ls ++ tail)) := by
      simp [h, Label.enc]
    have hbyte : UInt8.ofNat l.bytes.length ≠ 0 := by
      intro h0
      have hn := congrArg UInt8.toNat h0
      rw [l.toNat_length_byte] at hn
      exact Nat.pos_iff_ne_zero.mp l.length_pos hn
    -- the label's bytes, just after its length byte
    have h₁ : b.mem.drop (b.cur + 1) = l.bytes ++ (labelsEnc ls ++ tail) :=
      Window.drop_succ_of_drop_eq_cons hd
    have hfit : ¬({ b with cur := b.cur + 1 } : LlarpBuffer).sizeLeft < l.bytes.length := by
      rw [← length_drop_cur]
      simp only [h₁, List.length_append]
      omega
    have htake : (b.mem.drop (b.cur + 1)).take l.bytes.length = l.bytes := by
      rw [h₁, List.take_left' rfl]
    have h₂ := drop_advance (drop_advance_one hd)
    rw [List.length_cons, ← Nat.add_assoc]
    simp only [decodeLabels, bind_of_some (deref_of_drop hd), advance_bind, hbyte, ↓reduceIte,
      get_bind, l.toNat_length_byte, hfit, htake]
    rw [ih _ h₂]
    congr 1
    · simp
    · simp only [labelsEnc_cons, List.length_append, Label.length_enc]
      congr 1
      omega

theorem findLastOf_append_self (c : UInt8) (s : List UInt8) :
    findLastOf c (s ++ [c]) = some s.length := by
  induction s with
  | nil => simp [findLastOf]
  | cons x s ih => simp [findLastOf, ih]

theorem dottedEach_eq : ∀ (l : Label) (ls : List Label),
    dottedEach (l :: ls) = dotted (l :: ls) ++ [46]
  | l, [] => by simp [dotted]
  | l, l' :: ls => by
    rw [dottedEach_cons, dottedEach_eq l' ls, dotted_cons_cons]
    simp

/-- `name.substr(0, name.find_last_of('.'))` removes the dot after the last label. -/
theorem trim_dottedEach (ls : List Label) :
    (dottedEach ls).take ((findLastOf 46 (dottedEach ls)).getD (dottedEach ls).length) =
      dotted ls := by
  cases ls with
  | nil => rfl
  | cons l ls =>
    rw [dottedEach_eq, findLastOf_append_self]
    simp

/-- `DecodeName` reads the wire form of a name, with the trailing dot unless it trims it. -/
theorem decodeName_of_drop (ls : List Label) (trimTrailingDot : Bool) {b : LlarpBuffer}
    {rest : List UInt8} (h : b.mem.drop b.cur = nameEnc ls ++ rest) :
    decodeName trimTrailingDot b = some (some (if trimTrailingDot then dotted ls else dottedEach ls),
      { b with cur := b.cur + (nameEnc ls).length }) := by
  have hsize : b.sizeLeft = (labelsEnc ls).length + 1 + rest.length := by
    rw [← length_drop_cur, h]
    simp [nameEnc]
    omega
  have hlen := length_labelsEnc_ge ls
  have hpos : ¬b.sizeLeft < 1 := by omega
  have hfuel : b.sizeLeft + 1 = (b.sizeLeft - ls.length) + 1 + ls.length := by omega
  have h₀ : b.mem.drop b.cur = labelsEnc ls ++ 0 :: rest := by simp [h, nameEnc]
  have hloop : decodeLabels (b.sizeLeft + 1) [] b =
      some (some (dottedEach ls), { b with cur := b.cur + (nameEnc ls).length }) := by
    rw [hfuel, decodeLabels_labels ls _ [] h₀, decodeLabels_zero (drop_advance h₀)]
    simp [nameEnc, Nat.add_assoc]
  simp only [decodeName, get_bind, hpos, ↓reduceIte, bind_of_some hloop]
  cases trimTrailingDot <;> simp [trim_dottedEach]

theorem decodeName_of_wrote {ls : List Label} (trimTrailingDot : Bool) {b b' : LlarpBuffer}
    (hw : Wrote b b' (nameEnc ls)) :
    decodeName trimTrailingDot ⟨b'.mem, b.cur⟩ =
      some (some (if trimTrailingDot then dotted ls else dottedEach ls), b') := by
  rw [decodeName_of_drop ls trimTrailingDot hw.drop_cur]
  obtain ⟨-, hc, -⟩ := hw
  rw [← hc]

/-- Labels that run to the end of the buffer with no final zero: `DecodeName` reads the length
byte of a next label one past the end. -/
theorem decodeName_reads_past_end (ls : List Label) (hls : ls ≠ []) (trimTrailingDot : Bool)
    {b : LlarpBuffer} (h : b.mem.drop b.cur = labelsEnc ls) : decodeName trimTrailingDot b = none := by
  have hsize : b.sizeLeft = (labelsEnc ls).length := by rw [← length_drop_cur, h]
  have hlen := length_labelsEnc_ge ls
  have hpos : 0 < ls.length := List.length_pos_iff.mpr hls
  have hend : b.mem.length ≤ b.cur + (labelsEnc ls).length := by
    simp only [sizeLeft] at hsize
    omega
  have hfuel : b.sizeLeft + 1 = (b.sizeLeft - ls.length) + 1 + ls.length := by omega
  have hloop : decodeLabels (b.sizeLeft + 1) [] b = none := by
    rw [hfuel, decodeLabels_labels ls _ [] (h.trans (List.append_nil _).symm)]
    exact decodeLabels_past_end hend
  simp only [decodeName, get_bind, Nat.not_lt.mpr (Nat.le_trans hpos (hsize ▸ hlen)), ↓reduceIte]
  exact bind_of_none hloop

/-! ### Questions -/

/-- A question whose name is a list of labels, written with or without the trailing dot. -/
structure NamedQuestion where
  labels : List Label
  trailingDot : Bool
  qtype : UInt16
  qclass : UInt16

namespace NamedQuestion

/-- The `Question` a caller builds. -/
def toQuestion (q : NamedQuestion) : Question := ⟨written q.labels q.trailingDot, q.qtype, q.qclass⟩

/-- The `Question` a decoder fills in: the name keeps a dot after every label. -/
def decoded (q : NamedQuestion) : Question := ⟨dottedEach q.labels, q.qtype, q.qclass⟩

/-- The wire form of a question. -/
def enc (q : NamedQuestion) : List UInt8 :=
  nameEnc q.labels ++ BigEndian.bytes 2 q.qtype.toNat ++ BigEndian.bytes 2 q.qclass.toNat

end NamedQuestion

/-- Whenever `Question::Encode` reports success, it wrote the wire form of the question. -/
theorem question_encode_wrote {q : NamedQuestion} {b b' : LlarpBuffer}
    (h : q.toQuestion.encode b = some (true, b')) : Wrote b b' q.enc := by
  obtain ⟨b₁, hname, h₁⟩ := writeSeq_cons_true h
  obtain ⟨b₂, htype, h₂⟩ := writeSeq_cons_true h₁
  exact ((encodeName_wrote hname).trans (putUint16_true htype)).trans
    (putUint16_true (writeSeq_singleton_true h₂))

/-- With room for its wire form, `Question::Encode` succeeds and writes it. -/
theorem question_encode_of_room (q : NamedQuestion) {b : LlarpBuffer}
    (hroom : q.enc.length ≤ b.sizeLeft) :
    ∃ b', q.toQuestion.encode b = some (true, b') ∧ Wrote b b' q.enc := by
  have hlen : q.enc.length = (nameEnc q.labels).length + 2 + 2 := by
    simp [NamedQuestion.enc]
  obtain ⟨b₁, hname, hw₁⟩ := encodeName_of_room q.labels q.trailingDot (b := b) (by omega)
  -- the two 16-bit fields, each with its two bytes of room
  have hroom₁ : (BigEndian.bytes 2 q.qtype.toNat).length ≤ b₁.sizeLeft := by
    rw [hw₁.sizeLeft_eq, BigEndian.length_bytes]
    omega
  obtain ⟨b₂, htype, hw₂⟩ := write_of_le hroom₁
  have hroom₂ : (BigEndian.bytes 2 q.qclass.toNat).length ≤ b₂.sizeLeft := by
    rw [hw₂.sizeLeft_eq, hw₁.sizeLeft_eq, BigEndian.length_bytes, BigEndian.length_bytes]
    omega
  obtain ⟨b₃, hclass, hw₃⟩ := write_of_le hroom₂
  refine ⟨b₃, ?_, (hw₁.trans hw₂).trans hw₃⟩
  rw [← putUint_eq_write, ← putUint16] at htype hclass
  rw [NamedQuestion.toQuestion, Question.encode, writeSeq_cons_of_true hname,
    writeSeq_cons_of_true htype, writeSeq_cons_of_true hclass]
  rfl

/-- `Question::Decode` reads the wire form of a question into any question. -/
theorem question_decode_of_drop (q₀ : Question) (q : NamedQuestion) {b : LlarpBuffer}
    {rest : List UInt8} (h : b.mem.drop b.cur = q.enc ++ rest) :
    q₀.decode b = some (some q.decoded, { b with cur := b.cur + q.enc.length }) := by
  have hd : b.mem.drop b.cur = nameEnc q.labels ++ (BigEndian.bytes 2 q.qtype.toNat ++
      (BigEndian.bytes 2 q.qclass.toNat ++ rest)) := by
    simp [h, NamedQuestion.enc]
  have hd₁ := Window.drop_add_of_drop_eq_append hd
  have hd₂ := Window.drop_add_of_drop_eq_append hd₁
  rw [BigEndian.length_bytes] at hd₂
  have hlen : q.enc.length = (nameEnc q.labels).length + 2 + 2 := by
    simp [NamedQuestion.enc]
  simp only [Question.decode, bind_of_some (decodeName_of_drop q.labels false hd),
    Bool.false_eq_true, ↓reduceIte, bind_of_some (@readUint16_of_drop q.qtype ⟨b.mem, _⟩ _ hd₁),
    bind_of_some (@readUint16_of_drop q.qclass ⟨b.mem, _⟩ _ hd₂), pure_apply, hlen]
  rfl

theorem question_decode_of_encode (q₀ : Question) {q : NamedQuestion} {b b' : LlarpBuffer}
    (h : q.toQuestion.encode b = some (true, b')) :
    q₀.decode ⟨b'.mem, b.cur⟩ = some (some q.decoded, b') := by
  have hw := question_encode_wrote h
  rw [question_decode_of_drop q₀ q hw.drop_cur]
  obtain ⟨-, hc, -⟩ := hw
  rw [← hc]

/-- The name codec round trip. With room for a name, `EncodeName` succeeds, and `DecodeName` from
the old cursor reads the name back, with the dot after every label or trimmed of the last one,
and stops where the encoder stopped; with room for a question, `Question::Encode` succeeds and
`Question::Decode` reads back what it wrote. -/
theorem encodeName_decodeName_round_trip :
    (∀ (ls : List Label) (trailingDot : Bool) (b : LlarpBuffer),
      (nameEnc ls).length ≤ b.sizeLeft →
      ∃ b', encodeName (written ls trailingDot) b = some (true, b') ∧
        decodeName false ⟨b'.mem, b.cur⟩ = some (some (dottedEach ls), b') ∧
        decodeName true ⟨b'.mem, b.cur⟩ = some (some (dotted ls), b')) ∧
    ∀ (q : NamedQuestion) (q₀ : Question) (b : LlarpBuffer), q.enc.length ≤ b.sizeLeft →
      ∃ b', q.toQuestion.encode b = some (true, b') ∧
        q₀.decode ⟨b'.mem, b.cur⟩ = some (some q.decoded, b') := by
  refine ⟨fun ls trailingDot b hroom => ?_, fun q q₀ b hroom => ?_⟩
  · obtain ⟨b', henc, hw⟩ := encodeName_of_room ls trailingDot hroom
    refine ⟨b', henc, ?_, ?_⟩
    · simpa using decodeName_of_wrote false hw
    · simpa using decodeName_of_wrote true hw
  · obtain ⟨b', henc, -⟩ := question_encode_of_room q hroom
    exact ⟨b', henc, question_decode_of_encode q₀ henc⟩

end Lokinet.Proofs.DnsName
