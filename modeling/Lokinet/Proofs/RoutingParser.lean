import Lokinet.Routing.MessageParser
import Lokinet.Proofs.BencodeCodec

/-!
What a routing message leaves behind in `InboundMessageParser`. A parse writes only into the
object its `A` letter selects and then `Clear`s it, so between two messages every object has the
members its `Clear` resets at their reset values; the other members keep what the last message of
that type wrote. For `PathLatencyMessage` that is `S`: a latency message without an `S` is handed
the `S` of the latency message before it.
-/

namespace Lokinet.Routing

open Lokinet.Util Lokinet.Proofs.Bencode FaultState LlarpBuffer

/-- The members of a message that its `Clear` resets, at their reset values. -/
def Message.Cleared : Message → Prop
  | .D m => m.version = 0
  | .L m => m.T = 0 ∧ m.L = 0 ∧ m.version = 0
  | .P m => m.pathLifetime = 0 ∧ m.pathCreated = 0 ∧ m.version = 0
  | .G m => m.T = 0 ∧ m.Y = AlignedBuffer.zero 16 ∧ m.Z = AlignedBuffer.zero 64
  | .U m => m.P = AlignedBuffer.zero 16 ∧ m.T = 0 ∧ m.Y = AlignedBuffer.zero 16 ∧
      m.Z = AlignedBuffer.zero 64
  | .C m => m.Y = AlignedBuffer.zero 16 ∧ m.Z = AlignedBuffer.zero 64
  | .other _ _ => True

namespace MessageHolder

variable (others : OtherMessages)

theorem get_modifyBase_of_ne (h : MessageHolder) (f : IMessage → IMessage) {j k : MessageKind}
    (hjk : j ≠ k) : (h.modifyBase f k).get j = h.get j := by
  cases k <;> cases j <;> simp_all [modifyBase, get, Function.update_of_ne]

/-- `DecodeKey` writes only into the object it is called on. -/
theorem get_decodeKey_of_ne (h : MessageHolder) {key : List UInt8} {j k : MessageKind}
    {b : LlarpBuffer} {r : (MessageHolder × Bool) × LlarpBuffer}
    (hd : h.decodeKey others key k b = some r) (hjk : j ≠ k) : r.1.1.get j = h.get j := by
  cases k <;>
  · simp only [decodeKey] at hd
    obtain ⟨⟨m, ok⟩, b', -, hd⟩ := bind_eq_some.mp hd
    simp only [pure_apply, Option.some.injEq] at hd
    subst hd
    cases j <;> simp_all [get, Function.update_of_ne]

theorem get_clear_of_ne (h : MessageHolder) {j k : MessageKind} (hjk : j ≠ k) :
    (h.clear others k).get j = h.get j := by
  cases k <;> cases j <;> simp_all [clear, get, Function.update_of_ne]

/-- `Clear` resets what it resets. -/
theorem cleared_clear (h : MessageHolder) (k : MessageKind) : ((h.clear others k).get k).Cleared := by
  cases k <;> simp [clear, get, Message.Cleared, DataDiscardMessage.clear, PathLatencyMessage.clear,
    PathConfirmMessage.clear, GrantExitMessage.clear, UpdateExitMessage.clear,
    CloseExitMessage.clear]

end MessageHolder

namespace InboundMessageParser

variable (others : OtherMessages)

/-- A parser between two messages: no object selected, the version zero, and every object with
the members its `Clear` resets at their reset values. -/
structure Idle (p : InboundMessageParser) : Prop where
  version : p.version = 0
  msg : p.msg = none
  cleared : ∀ k, (p.holder.get k).Cleared

theorem idle_create : create.Idle := by
  refine ⟨rfl, rfl, fun k => ?_⟩
  cases k <;> simp [create, MessageHolder.create, MessageHolder.get, Message.Cleared,
    DataDiscardMessage.create, PathLatencyMessage.create, PathConfirmMessage.create,
    GrantExitMessage.create, UpdateExitMessage.create, CloseExitMessage.create, IMessage.create,
    Net.llarpProtoVersion]

/-- The parser as `ParseMessageBuffer` hands it to `bencode_read_dict`, after the version seek. -/
def start (p : InboundMessageParser) (seek : UInt64 × Bool) : InboundMessageParser :=
  if seek.2 then { p with msg := none, firstKey := true, version := seek.1 }
  else { p with msg := none, firstKey := true }

/-- What `ParseMessageBuffer` does once the dict is read: it hands the message when it read,
then `Clear`s the object and resets the parser. -/
def afterRead (h : Message → Bool) (fromPath : PathID) (q : InboundMessageParser) (ok : Bool) :
    Option (Bool × Option Message × InboundMessageParser) := do
  let (result, handed, p) ← if ok then do
      let k ← q.msg
      let holder := q.holder.modifyBase (fun m => { m with from_ := fromPath }) k
      pure (h (holder.get k), some (holder.get k), { q with holder })
    else pure (false, none, q)
  let holder := match p.msg with
    | some k => p.holder.clear others k
    | none => p.holder
  return (result, handed, { p with holder, msg := none, version := 0 })

theorem parseMessageBuffer_eq (h : Message → Bool) (p : InboundMessageParser) (buf : List UInt8)
    (fromPath : PathID) :
    parseMessageBuffer others h p buf fromPath =
      (bEncodeSeekDictVersion 86 0 (ofBytes buf)).bind fun s =>
        (bencodeReadDictInto (onKey others) onEnd (p.start s.1) s.2).bind fun r =>
          afterRead others h fromPath r.1.1 r.1.2 := by
  simp only [parseMessageBuffer, start]
  rfl

theorem afterRead_true {q : InboundMessageParser} {k : MessageKind} (hq : q.msg = some k)
    (h : Message → Bool) (fromPath : PathID) :
    afterRead others h fromPath q true =
      some (h ((q.holder.modifyBase (fun m => { m with from_ := fromPath }) k).get k),
        some ((q.holder.modifyBase (fun m => { m with from_ := fromPath }) k).get k),
        { q with holder := (q.holder.modifyBase (fun m => { m with from_ := fromPath }) k).clear others k,
                 msg := none, version := 0 }) := by
  simp [afterRead, hq]

theorem afterRead_false {q : InboundMessageParser} (h : Message → Bool) (fromPath : PathID) :
    afterRead others h fromPath q false =
      some (false, none, { q with holder := (q.msg.map (q.holder.clear others)).getD q.holder,
                                  msg := none, version := 0 }) := by
  cases hq : q.msg <;> simp [afterRead, hq]

/-- A message read with no object selected is not handed to anyone: `msg` is dereferenced. -/
theorem afterRead_true_of_none {q : InboundMessageParser} (hq : q.msg = none) (h : Message → Bool)
    (fromPath : PathID) : afterRead others h fromPath q true = none := by
  simp [afterRead, hq]

/-- During the read of a message that began from `p`: before the first key no object is
selected, and every object but the selected one is as it was in `p`. -/
structure Reading (p q : InboundMessageParser) : Prop where
  unselected : q.firstKey = true → q.msg = none
  frame : ∀ j, q.msg ≠ some j → q.holder.get j = p.holder.get j

theorem reading_start (p : InboundMessageParser) (s : UInt64 × Bool) : Reading p (p.start s) := by
  refine ⟨fun _ => ?_, fun j _ => ?_⟩ <;> unfold start <;> split <;> rfl

/-- The parser as a sink writes only into the selected object. -/
theorem Reading.onKey {p q : InboundMessageParser} (hq : Reading p q) {key : List UInt8}
    {b : LlarpBuffer} {r : (InboundMessageParser × Bool) × LlarpBuffer}
    (hr : q.onKey others key b = some r) : Reading p r.1.1 := by
  unfold InboundMessageParser.onKey at hr
  split at hr
  · -- the first key: `A` and the letter that selects the object
    rename_i hfirst
    have hnone := hq.unselected hfirst
    split at hr
    · simp only [pure_apply, Option.some.injEq] at hr
      subst hr
      exact hq
    obtain ⟨strbuf?, b₁, -, hr⟩ := bind_eq_some.mp hr
    cases strbuf? with
    | none =>
      obtain rfl : ((q, false), b₁) = r := Option.some.inj hr
      exact hq
    | some strbuf =>
      dsimp only at hr
      by_cases hlen : strbuf.length ≠ 1
      · rw [if_pos hlen] at hr
        obtain rfl : ((q, false), b₁) = r := Option.some.inj hr
        exact hq
      rw [if_neg hlen] at hr
      cases hsel : strbuf.head?.bind MessageKind.ofByte with
      | none =>
        -- an unknown letter: nothing is selected
        rw [hsel] at hr
        obtain rfl := Option.some.inj hr
        exact ⟨fun h => absurd h Bool.false_ne_true, hq.frame⟩
      | some k =>
        -- the letter selects `k`, whose version is set
        rw [hsel] at hr
        obtain rfl := Option.some.inj hr
        refine ⟨fun h => absurd h Bool.false_ne_true, fun j hj => ?_⟩
        have hjk : j ≠ k := fun h => hj (by rw [h])
        rw [MessageHolder.get_modifyBase_of_ne _ _ hjk]
        exact hq.frame j (by rw [hnone]; simp)
  · -- a later key goes to the selected object
    rename_i hfirst
    cases hk : q.msg with
    | none => simp [hk] at hr
    | some k =>
      simp only [hk] at hr
      obtain ⟨⟨holder, ok⟩, b₁, hdec, hr⟩ := bind_eq_some.mp hr
      simp only [pure_apply, Option.some.injEq] at hr
      subst hr
      refine ⟨fun h => absurd h hfirst, fun j hj => ?_⟩
      have hjk : j ≠ k := fun h => hj (by simp [h])
      rw [MessageHolder.get_decodeKey_of_ne others q.holder hdec hjk]
      exact hq.frame j (by rw [hk]; simpa using hj)

/-- The objects a read leaves: everything but the selected object as in `p`. -/
theorem reading_read {p : InboundMessageParser} {s : UInt64 × Bool} {copy : LlarpBuffer}
    {r : (InboundMessageParser × Bool) × LlarpBuffer}
    (hr : bencodeReadDictInto (onKey others) onEnd (p.start s) copy = some r) : Reading p r.1.1 :=
  bencodeReadDictInto_inv (Reading p) (fun _ _ _ _ hacc hcall => hacc.onKey others hcall)
    (fun acc _ _ hacc hend => by
      obtain rfl := Option.some.inj hend
      exact hacc)
    (reading_start p s) hr

/-- A parse, of any buffer and however it ends, leaves an idle parser idle. -/
theorem Idle.parseMessageBuffer {p : InboundMessageParser} (hp : p.Idle) {h : Message → Bool}
    {buf : List UInt8} {fromPath : PathID} {r : Bool × Option Message × InboundMessageParser}
    (hr : parseMessageBuffer others h p buf fromPath = some r) : r.2.2.Idle := by
  rw [parseMessageBuffer_eq] at hr
  obtain ⟨s, -, hr⟩ := Option.bind_eq_some_iff.mp hr
  obtain ⟨⟨⟨q, ok⟩, b'⟩, hread, hafter⟩ := Option.bind_eq_some_iff.mp hr
  have hq : Reading p q := reading_read others hread
  -- an object other than the one the message selected is as it was before the message
  have hkeep : ∀ j, q.msg ≠ some j → (q.holder.get j).Cleared := fun j hj => by
    rw [hq.frame j hj]
    exact hp.cleared j
  cases ok with
  | true =>
    cases hk : q.msg with
    | none => rw [afterRead_true_of_none others hk] at hafter; cases hafter
    | some k =>
      rw [afterRead_true others hk] at hafter
      obtain rfl := Option.some.inj hafter
      refine ⟨rfl, rfl, fun j => ?_⟩
      by_cases hjk : j = k
      · subst hjk
        exact MessageHolder.cleared_clear others _ _
      · rw [MessageHolder.get_clear_of_ne others _ hjk, MessageHolder.get_modifyBase_of_ne _ _ hjk]
        exact hkeep j (by rw [hk]; simpa using Ne.symm hjk)
  | false =>
    rw [afterRead_false] at hafter
    obtain rfl := Option.some.inj hafter
    refine ⟨rfl, rfl, fun j => ?_⟩
    cases hk : q.msg with
    | none =>
      simp only [Option.map_none, Option.getD_none]
      exact hkeep j (by simp [hk])
    | some k =>
      simp only [Option.map_some, Option.getD_some]
      by_cases hjk : j = k
      · subst hjk
        exact MessageHolder.cleared_clear others _ _
      · rw [MessageHolder.get_clear_of_ne others _ hjk]
        exact hkeep j (by rw [hk]; simpa using Ne.symm hjk)

/-- The parser after it parsed the buffers `ms` one after another, each from its path; `none`
when one of them is read outside its buffer. -/
def parseAll (h : Message → Bool) : InboundMessageParser → List (List UInt8 × PathID) →
    Option InboundMessageParser
  | p, [] => some p
  | p, (buf, fromPath) :: ms =>
    (parseMessageBuffer others h p buf fromPath).bind fun r => parseAll h r.2.2 ms

/-- After any sequence of messages, accepted or not, the parser is idle. -/
theorem Idle.parseAll {p : InboundMessageParser} (hp : p.Idle) {h : Message → Bool}
    {ms : List (List UInt8 × PathID)} {p' : InboundMessageParser}
    (hr : parseAll others h p ms = some p') : p'.Idle := by
  induction ms generalizing p with
  | nil =>
    obtain rfl := Option.some.inj hr
    exact hp
  | cons m ms ih =>
    obtain ⟨r, hr₁, hr₂⟩ := Option.bind_eq_some_iff.mp hr
    exact ih (hp.parseMessageBuffer others hr₁) hr₂

end InboundMessageParser

/-! ### Reading a latency message -/

theorem bEncodeMaybeReadDictInt_of_ne (k : String) (key : List UInt8) (hk : keyIs key k = false)
    (i : UInt64) (read : Bool) : bEncodeMaybeReadDictInt k i read key = pure (some (i, read)) := by
  simp [bEncodeMaybeReadDictInt, hk]

theorem bEncodeMaybeReadDictInt_of_drop (k : String) (key : List UInt8) (hk : keyIs key k = true)
    {n : UInt64} {b : LlarpBuffer} {rest : List UInt8} (h : b.mem.drop b.cur = integerEnc n ++ rest)
    (i : UInt64) (read : Bool) :
    bEncodeMaybeReadDictInt k i read key b =
      some (some (n, true), { b with cur := b.cur + (integerEnc n).length }) := by
  simp [bEncodeMaybeReadDictInt, hk, bind_of_some (bencodeReadInteger_of_drop h)]

/-- The version seek finds no version in a dict without the key, and leaves the buffer at its
start. -/
theorem bEncodeSeekDictVersion_of_absent {k : UInt8} (v : UInt64) {kvs : List (List UInt8 × BValue)}
    (hkvs : ∀ e ∈ kvs, e.1 ≠ [k] ∧ e.1.length < 10 ^ 9 ∧ e.2.enc.length ≤ 10 ^ 9) :
    bEncodeSeekDictVersion k v (ofBytes (BValue.dict kvs).enc) =
      some ((v, true), ofBytes (BValue.dict kvs).enc) := by
  have hdrop : (ofBytes (BValue.dict kvs).enc).mem.drop (ofBytes (BValue.dict kvs).enc).cur =
      100 :: ((kvs.map (entryEnc Prod.fst fun e => e.2.enc)).flatten ++ 101 :: []) := by
    simp [ofBytes, BValue.enc, BValue.encDict_eq]
  have hread (entry : UInt64 → List UInt8 → BufferM (UInt64 × Bool))
      (hentry : ∀ e ∈ kvs, ∀ acc (b : LlarpBuffer) rest, b.mem.drop b.cur = e.2.enc ++ rest →
        entry acc e.1 b = some ((acc, true), { b with cur := b.cur + e.2.enc.length })) :
      ReadsEntriesInto entry Prod.fst (fun e => e.2.enc) (fun v _ => v) v kvs :=
    ReadsEntriesInto.of_forall (fun e he => ⟨(hkvs e he).2.1, hentry e he⟩) v
  simp only [bEncodeSeekDictVersion]
  refine (bind_of_some (bencodeReadDictInto_of_reads (hread _ fun e he acc b rest hb => ?_) hdrop)).trans ?_
  · -- every value is discarded
    simp [(hkvs e he).1, bind_of_some (bencodeDiscard_of_drop (hkvs e he).2.2 hb)]
  · simp [ofBytes]

namespace PathLatencyMessage

/-- What `DecodeKey` writes for an integer entry under `L`, `S` or `T`. -/
def setEntry (m : PathLatencyMessage) (e : UInt8 × UInt64) : PathLatencyMessage :=
  if e.1 = 76 then { m with L := e.2 }
  else if e.1 = 83 then { m with S := e.2 }
  else if e.1 = 84 then { m with T := e.2 }
  else m

theorem decodeKey_int (m : PathLatencyMessage) {c : UInt8} (hc : c = 76 ∨ c = 83 ∨ c = 84)
    {n : UInt64} {b : LlarpBuffer} {rest : List UInt8} (h : b.mem.drop b.cur = integerEnc n ++ rest) :
    m.decodeKey [c] b =
      some ((m.setEntry (c, n), true), { b with cur := b.cur + (integerEnc n).length }) := by
  rcases hc with rfl | rfl | rfl
  · simp [decodeKey, bind_of_some (bEncodeMaybeReadDictInt_of_drop "L" [76] (by decide) h m.L false),
      bEncodeMaybeReadDictInt_of_ne "S" [76] (by decide),
      bEncodeMaybeReadDictInt_of_ne "T" [76] (by decide), setEntry]
  · simp [decodeKey, bEncodeMaybeReadDictInt_of_ne "L" [83] (by decide),
      bind_of_some (bEncodeMaybeReadDictInt_of_drop "S" [83] (by decide) h m.S false),
      bEncodeMaybeReadDictInt_of_ne "T" [83] (by decide), setEntry]
  · simp [decodeKey, bEncodeMaybeReadDictInt_of_ne "L" [84] (by decide),
      bEncodeMaybeReadDictInt_of_ne "S" [84] (by decide),
      bind_of_some (bEncodeMaybeReadDictInt_of_drop "T" [84] (by decide) h m.T false), setEntry]

/-- Entries other than `S` leave `S` as it was. -/
theorem S_foldl_setEntry {es : List (UInt8 × UInt64)} (hes : ∀ e ∈ es, e.1 ≠ 83) :
    ∀ m : PathLatencyMessage, (es.foldl setEntry m).S = m.S := by
  induction es with
  | nil => intro m; rfl
  | cons e es ih =>
    intro m
    have hS : (m.setEntry e).S = m.S := by
      unfold setEntry
      split_ifs <;> simp_all
    rw [List.foldl_cons, ih (fun e' he' => hes e' (List.mem_cons_of_mem e he')), hS]

/-- No entry writes `from`. -/
theorem foldl_setEntry_from (es : List (UInt8 × UInt64)) (x : PathID) :
    ∀ m : PathLatencyMessage,
      es.foldl setEntry { m with from_ := x } = { es.foldl setEntry m with from_ := x } := by
  induction es with
  | nil => intro m; rfl
  | cons e es ih =>
    intro m
    have hstep : setEntry { m with from_ := x } e = { m.setEntry e with from_ := x } := by
      unfold setEntry
      split_ifs <;> rfl
    rw [List.foldl_cons, hstep, ih]
    rfl

end PathLatencyMessage

namespace InboundMessageParser

variable (others : OtherMessages)

/-- The first key, `A` with a known letter, selects the object and gives it the parser's
version. -/
theorem onKey_select {p : InboundMessageParser} (hp : p.firstKey = true) {c : UInt8}
    {k : MessageKind} (hk : MessageKind.ofByte c = some k) {b : LlarpBuffer} {rest : List UInt8}
    (h : b.mem.drop b.cur = bytestringEnc [c] ++ rest) :
    p.onKey others (ascii "A") b =
      some (({ p with firstKey := false, msg := some k,
                      holder := p.holder.modifyBase (fun m => { m with version := p.version }) k },
              true), { b with cur := b.cur + (bytestringEnc [c]).length }) := by
  have hA : keyIs (ascii "A") "A" = true := by decide
  simp [onKey, hp, hA, bind_of_some (bencodeReadString_of_drop (by simp) h), hk]

/-- Every later key goes to the selected object's `DecodeKey`. -/
theorem onKey_selected {p : InboundMessageParser} (hp : p.firstKey = false) {k : MessageKind}
    (hk : p.msg = some k) (key : List UInt8) :
    p.onKey others key = do
      let (holder, ok) ← p.holder.decodeKey others key k
      return ({ p with holder }, ok) := by
  simp [onKey, hp, hk]

end InboundMessageParser

/-- The wire form of a `PathLatencyMessage` whose entries after `A` are the integers `es` under
one-letter keys. -/
def latencyWire (es : List (UInt8 × UInt64)) : List UInt8 :=
  (BValue.dict ((ascii "A", .str (ascii "L")) :: es.map fun e => ([e.1], .int e.2))).enc

/-- What the parser makes of the entries of a latency message: `A` selects the latency object,
and each integer entry is written into it. -/
def latencyStep (p : InboundMessageParser) (e : List UInt8 × BValue) : InboundMessageParser :=
  if p.firstKey then
    { p with firstKey := false, msg := some .L,
             holder := p.holder.modifyBase (fun m => { m with version := p.version }) .L }
  else match e.2 with
    | .int n => { p with holder := { p.holder with L := p.holder.L.setEntry (e.1.headD 0, n) } }
    | _ => p

/-- The latency object a parse of `latencyWire es` hands, from the object `m` the last latency
message left and the path the message came from. -/
def latencyRead (m : PathLatencyMessage) (es : List (UInt8 × UInt64)) (fromPath : PathID) :
    PathLatencyMessage :=
  { es.foldl PathLatencyMessage.setEntry { m with version := 0 } with from_ := fromPath }

/-- From an object whose `T` and `L` are cleared, a latency message is read as from a new object
with the old `S` written first. -/
theorem latencyRead_of_cleared {m : PathLatencyMessage} (hT : m.T = 0) (hL : m.L = 0)
    (es : List (UInt8 × UInt64)) (fromPath : PathID) :
    latencyRead m es fromPath = latencyRead PathLatencyMessage.create ((83, m.S) :: es) fromPath := by
  obtain ⟨⟨f, S, v⟩, T, L⟩ := m
  simp only at hT hL
  subst hT hL
  -- the old object is the new one with `S` written, but for its `from`, which no entry reads
  have hm : ({ (⟨⟨f, S, v⟩, 0, 0⟩ : PathLatencyMessage) with version := 0 } : PathLatencyMessage) =
      { ({ PathLatencyMessage.create with version := 0 } : PathLatencyMessage).setEntry (83, S) with
        from_ := f } := rfl
  unfold latencyRead
  rw [List.foldl_cons, hm, PathLatencyMessage.foldl_setEntry_from]

section Latency

variable (others : OtherMessages)

/-- The integer entries of a latency message go one after another into the latency object. -/
theorem reads_latency_entries {es : List (UInt8 × UInt64)}
    (hes : ∀ e ∈ es, e.1 = 76 ∨ e.1 = 83 ∨ e.1 = 84) :
    ∀ q : InboundMessageParser, q.firstKey = false → q.msg = some .L →
      ReadsEntriesInto (InboundMessageParser.onKey others) Prod.fst (fun e => e.2.enc) latencyStep q
        (es.map fun e => ([e.1], .int e.2)) := by
  induction es with
  | nil => intro q _ _; trivial
  | cons e es ih =>
    intro q hq hk
    have hnext : latencyStep q ([e.1], .int e.2) =
        { q with holder := { q.holder with L := q.holder.L.setEntry e } } := by
      simp [latencyStep, hq]
    refine ⟨⟨by simp, fun b rest hb => ?_⟩,
      ih (fun e' he' => hes e' (List.mem_cons_of_mem e he')) _ (by rw [hnext]; exact hq)
        (by rw [hnext]; exact hk)⟩
    have hint : b.mem.drop b.cur = integerEnc e.2 ++ rest := hb
    rw [InboundMessageParser.onKey_selected others hq hk, hnext]
    simp only [MessageHolder.decodeKey, bind_assoc, pure_bind,
      bind_of_some (PathLatencyMessage.decodeKey_int q.holder.L (hes e List.mem_cons_self) hint)]
    rfl

theorem foldl_latencyStep {es : List (UInt8 × UInt64)} :
    ∀ q : InboundMessageParser, q.firstKey = false →
      (es.map fun e => ([e.1], BValue.int e.2)).foldl latencyStep q =
        { q with holder := { q.holder with L := es.foldl PathLatencyMessage.setEntry q.holder.L } } := by
  induction es with
  | nil => intro q _; rfl
  | cons e es ih =>
    intro q hq
    have hnext : latencyStep q ([e.1], .int e.2) =
        { q with holder := { q.holder with L := q.holder.L.setEntry e } } := by
      simp [latencyStep, hq]
    have hrest := ih { q with holder := { q.holder with L := q.holder.L.setEntry e } } hq
    rw [List.map_cons, List.foldl_cons, hnext, hrest]
    rfl

/-- A latency message of integer entries, parsed from any state: it is handed the latency object
as the previous latency message left it, with its entries written over it, and the object is
then cleared. -/
theorem parseMessageBuffer_latency (h : Message → Bool) (p : InboundMessageParser)
    (fromPath : PathID) {es : List (UInt8 × UInt64)}
    (hes : ∀ e ∈ es, e.1 = 76 ∨ e.1 = 83 ∨ e.1 = 84) :
    p.parseMessageBuffer others h (latencyWire es) fromPath =
      some (h (.L (latencyRead p.holder.L es fromPath)), some (.L (latencyRead p.holder.L es fromPath)),
        { p with version := 0, firstKey := false, msg := none,
                 holder := { p.holder with L := (latencyRead p.holder.L es fromPath).clear } }) := by
  -- no entry is `V`, so the seek leaves the version zero
  have hkvs : ∀ e ∈ (ascii "A", BValue.str (ascii "L")) :: es.map (fun e => ([e.1], BValue.int e.2)),
      e.1 ≠ [86] ∧ e.1.length < 10 ^ 9 ∧ e.2.enc.length ≤ 10 ^ 9 := by
    intro e he
    rcases List.mem_cons.mp he with rfl | he
    · decide
    · obtain ⟨e', he', rfl⟩ := List.mem_map.mp he
      have hlen := length_decimal_uint64 e'.2
      rcases hes e' he' with hc | hc | hc <;>
        simp [hc, BValue.enc, integerEnc] <;> omega
  have hdrop : (ofBytes (latencyWire es)).mem.drop (ofBytes (latencyWire es)).cur =
      100 :: ((((ascii "A", BValue.str (ascii "L")) :: es.map (fun e => ([e.1], BValue.int e.2))).map
        (entryEnc Prod.fst fun e => e.2.enc)).flatten ++ 101 :: []) := by
    simp [ofBytes, latencyWire, BValue.enc, BValue.encDict_eq]
  -- `A` selects the latency object, then the entries go into it
  have hreads : ReadsEntriesInto (InboundMessageParser.onKey others) Prod.fst (fun e => e.2.enc)
      latencyStep (p.start (0, true))
      ((ascii "A", BValue.str (ascii "L")) :: es.map (fun e => ([e.1], BValue.int e.2))) := by
    refine ⟨⟨by decide, fun b rest hb => ?_⟩, reads_latency_entries others hes _ rfl rfl⟩
    rw [InboundMessageParser.onKey_select others rfl (c := 76) (k := .L) (by decide) hb]
    rfl
  rw [InboundMessageParser.parseMessageBuffer_eq, latencyWire, bEncodeSeekDictVersion_of_absent 0 hkvs,
    Option.bind_some, ← latencyWire, bencodeReadDictInto_of_reads hreads hdrop]
  have hfold : (((ascii "A", BValue.str (ascii "L")) :: es.map (fun e => ([e.1], BValue.int e.2))).foldl
      latencyStep (p.start (0, true))) =
        { p with version := 0, firstKey := false, msg := some .L,
                 holder := { p.holder with L := es.foldl PathLatencyMessage.setEntry { p.holder.L with version := 0 } } } := by
    rw [List.foldl_cons, foldl_latencyStep _ rfl]
    rfl
  rw [hfold]
  simp only [InboundMessageParser.onEnd, pure_apply, Option.bind_some, Bool.not_false]
  rw [InboundMessageParser.afterRead_true others rfl]
  rfl

end Latency

section History

variable (others : OtherMessages)

theorem latency_message_keeps_S (h : Message → Bool) (from₁ from₂ : PathID) {s : UInt64}
    (hs : s ≠ 0) {es : List (UInt8 × UInt64)} (hes : ∀ e ∈ es, e.1 = 76 ∨ e.1 = 84) :
    ∃ p₁, InboundMessageParser.parseAll others h .create [(latencyWire [(83, s)], from₁)] = some p₁ ∧
      (p₁.parseMessageBuffer others h (latencyWire es) from₂).map (·.2.1) ≠
        (InboundMessageParser.create.parseMessageBuffer others h (latencyWire es) from₂).map (·.2.1) := by
  have hes' : ∀ e ∈ es, e.1 = 76 ∨ e.1 = 83 ∨ e.1 = 84 := fun e he => by
    rcases hes e he with hc | hc <;> simp [hc]
  have hnoS : ∀ e ∈ es, e.1 ≠ 83 := fun e he => by
    rcases hes e he with hc | hc <;> simp [hc]
  have hfirst := parseMessageBuffer_latency others h .create from₁
    (by simp : ∀ e ∈ [((83 : UInt8), s)], e.1 = 76 ∨ e.1 = 83 ∨ e.1 = 84)
  refine ⟨_, by rw [InboundMessageParser.parseAll, hfirst]; rfl, ?_⟩
  rw [parseMessageBuffer_latency others h _ from₂ hes', parseMessageBuffer_latency others h _ from₂ hes']
  simp only [Option.map_some, ne_eq, Option.some.injEq, Message.L.injEq]
  -- the first message left `S = s` in the latency object; the fresh object has `S = 0`
  intro heq
  have hS := congrArg (fun m => m.S) heq
  simp only [latencyRead, PathLatencyMessage.S_foldl_setEntry hnoS] at hS
  exact hs hS

/-- The other message types as objects that take no key. -/
def OtherMessages.rejectAll : OtherMessages := ⟨fun _ m _ => pure (m, false), fun _ m => m⟩

theorem latency_message_keeps_S_five :
    (5 : UInt64) ≠ 0 ∧ (∀ e ∈ [((76 : UInt8), (7 : UInt64))], e.1 = 76 ∨ e.1 = 84) ∧
      ∃ p₁, InboundMessageParser.parseAll OtherMessages.rejectAll (fun _ => true) .create
          [(latencyWire [(83, 5)], AlignedBuffer.zero 16)] = some p₁ ∧
        (p₁.parseMessageBuffer OtherMessages.rejectAll (fun _ => true) (latencyWire [(76, 7)])
            (AlignedBuffer.zero 16)).map (·.2.1) ≠
          (InboundMessageParser.create.parseMessageBuffer OtherMessages.rejectAll (fun _ => true)
            (latencyWire [(76, 7)]) (AlignedBuffer.zero 16)).map (·.2.1) :=
  have hes : ∀ e ∈ [((76 : UInt8), (7 : UInt64))], e.1 = 76 ∨ e.1 = 84 := by simp
  ⟨by decide, hes,
    latency_message_keeps_S OtherMessages.rejectAll (fun _ => true) _ _ (by decide) hes⟩

/-- Whatever messages came before, a latency message gets the result and is handed the message
that the fresh parser gives it with the `S` left by the last latency message written first. -/
theorem latency_after_history (h : Message → Bool) {ms : List (List UInt8 × PathID)}
    {p : InboundMessageParser} (hp : InboundMessageParser.parseAll others h .create ms = some p)
    (fromPath : PathID) {es : List (UInt8 × UInt64)}
    (hes : ∀ e ∈ es, e.1 = 76 ∨ e.1 = 83 ∨ e.1 = 84) :
    (p.parseMessageBuffer others h (latencyWire es) fromPath).map (fun r => (r.1, r.2.1)) =
      (InboundMessageParser.create.parseMessageBuffer others h
        (latencyWire ((83, p.holder.L.S) :: es)) fromPath).map (fun r => (r.1, r.2.1)) := by
  obtain ⟨hT, hL, -⟩ : p.holder.L.T = 0 ∧ p.holder.L.L = 0 ∧ p.holder.L.version = 0 :=
    (InboundMessageParser.idle_create.parseAll others hp).cleared .L
  have hes' : ∀ e ∈ ((83 : UInt8), p.holder.L.S) :: es, e.1 = 76 ∨ e.1 = 83 ∨ e.1 = 84 := by
    intro e he
    rcases List.mem_cons.mp he with rfl | he
    · simp
    · exact hes e he
  rw [parseMessageBuffer_latency others h p fromPath hes,
    parseMessageBuffer_latency others h _ fromPath hes', latencyRead_of_cleared hT hL]
  rfl

theorem latency_after_history_after_S :
    ∃ p, InboundMessageParser.parseAll OtherMessages.rejectAll (fun _ => true) .create
        [(latencyWire [(83, 5)], AlignedBuffer.zero 16)] = some p ∧
      (∀ e ∈ [((76 : UInt8), (7 : UInt64))], e.1 = 76 ∨ e.1 = 83 ∨ e.1 = 84) ∧
      (p.parseMessageBuffer OtherMessages.rejectAll (fun _ => true) (latencyWire [(76, 7)])
          (AlignedBuffer.zero 16)).map (fun r => (r.1, r.2.1)) =
        (InboundMessageParser.create.parseMessageBuffer OtherMessages.rejectAll (fun _ => true)
          (latencyWire ((83, p.holder.L.S) :: [(76, 7)])) (AlignedBuffer.zero 16)).map
            (fun r => (r.1, r.2.1)) := by
  have hfirst := parseMessageBuffer_latency OtherMessages.rejectAll (fun _ => true) .create
    (AlignedBuffer.zero 16) (by simp : ∀ e ∈ [((83 : UInt8), (5 : UInt64))], e.1 = 76 ∨ e.1 = 83 ∨ e.1 = 84)
  obtain ⟨p, hp⟩ : ∃ p, InboundMessageParser.parseAll OtherMessages.rejectAll (fun _ => true) .create
      [(latencyWire [(83, 5)], AlignedBuffer.zero 16)] = some p :=
    ⟨_, by rw [InboundMessageParser.parseAll, hfirst]; rfl⟩
  have hes : ∀ e ∈ [((76 : UInt8), (7 : UInt64))], e.1 = 76 ∨ e.1 = 83 ∨ e.1 = 84 := by simp
  exact ⟨p, hp, hes, latency_after_history OtherMessages.rejectAll (fun _ => true) hp _ hes⟩

end History

end Lokinet.Routing
