import Lokinet.Proofs.DnsName

/-!
DNS messages through `Message::Encode` and the receiver's `MessageHeader::Decode`, `Message(hdr)`
and `Message::Decode`. A message with answers does not come back: `ResourceRecord::Encode`
writes the owner name in full while `ResourceRecord::Decode` skips two bytes for it. A message
with questions only, fewer than 65536 of them, comes back with its id, its fields and its
questions.
-/

namespace Lokinet.Proofs.DnsMessage

open Lokinet.Util Lokinet.Dns FaultState LlarpBuffer Lokinet.Proofs.DnsName

/-- The wire form of a header: six 16-bit fields, big-endian. -/
def headerEnc (h : MessageHeader) : List UInt8 :=
  ([h.id, h.fields, h.qdCount, h.anCount, h.nsCount, h.arCount].map
    fun i => BigEndian.bytes 2 i.toNat).flatten

theorem length_headerEnc (h : MessageHeader) : (headerEnc h).length = 12 := by
  simp [headerEnc]

theorem header_encode_wrote {h : MessageHeader} {b b' : LlarpBuffer}
    (hrun : h.encode b = some (true, b')) : Wrote b b' (headerEnc h) := by
  apply writeSeq_wrote _ hrun
  repeat (first | exact .nil | refine .cons (fun _ _ => putUint16_true) ?_)

/-- `MessageHeader::Decode` reads the six fields of a header. -/
theorem header_decode_of_drop (h : MessageHeader) {b : LlarpBuffer} {rest : List UInt8}
    (hd : b.mem.drop b.cur = headerEnc h ++ rest) :
    MessageHeader.decode b = some (some h, { b with cur := b.cur + 12 }) := by
  have d₀ : b.mem.drop b.cur = BigEndian.bytes 2 h.id.toNat ++ (BigEndian.bytes 2 h.fields.toNat ++
      (BigEndian.bytes 2 h.qdCount.toNat ++ (BigEndian.bytes 2 h.anCount.toNat ++
      (BigEndian.bytes 2 h.nsCount.toNat ++ (BigEndian.bytes 2 h.arCount.toNat ++ rest))))) := by
    simp [hd, headerEnc]
  -- each field starts two bytes after the one before
  have d₁ := Window.drop_add_of_drop_eq_append d₀
  have d₂ := Window.drop_add_of_drop_eq_append d₁
  have d₃ := Window.drop_add_of_drop_eq_append d₂
  have d₄ := Window.drop_add_of_drop_eq_append d₃
  have d₅ := Window.drop_add_of_drop_eq_append d₄
  simp only [BigEndian.length_bytes] at d₁ d₂ d₃ d₄ d₅
  simp only [MessageHeader.decode, bind_of_some (@readUint16_of_drop h.id ⟨b.mem, _⟩ _ d₀),
    bind_of_some (@readUint16_of_drop h.fields ⟨b.mem, _⟩ _ d₁),
    bind_of_some (@readUint16_of_drop h.qdCount ⟨b.mem, _⟩ _ d₂),
    bind_of_some (@readUint16_of_drop h.anCount ⟨b.mem, _⟩ _ d₃),
    bind_of_some (@readUint16_of_drop h.nsCount ⟨b.mem, _⟩ _ d₄),
    bind_of_some (@readUint16_of_drop h.arCount ⟨b.mem, _⟩ _ d₅), pure_apply]

theorem questions_encode_wrote {qs : List NamedQuestion} {b b' : LlarpBuffer}
    (h : writeSeq ((qs.map NamedQuestion.toQuestion).map Question.encode) b = some (true, b')) :
    Wrote b b' (qs.map NamedQuestion.enc).flatten := by
  apply writeSeq_wrote _ h
  rw [List.map_map, List.forall₂_map_left_iff, List.forall₂_map_right_iff, List.forall₂_same]
  exact fun q _ _ _ => question_encode_wrote

/-- The questions of `Message::Decode` read one after another, each into a default question. -/
theorem decodeEach_questions (qs : List NamedQuestion) {b : LlarpBuffer} {rest : List UInt8}
    (h : b.mem.drop b.cur = (qs.map NamedQuestion.enc).flatten ++ rest) :
    decodeEach Question.decode (List.replicate qs.length default) b =
      some (some (qs.map NamedQuestion.decoded),
        { b with cur := b.cur + (qs.map NamedQuestion.enc).flatten.length }) := by
  induction qs generalizing b with
  | nil => simp [decodeEach]
  | cons q qs ih =>
    have hq : b.mem.drop b.cur = q.enc ++ ((qs.map NamedQuestion.enc).flatten ++ rest) := by
      simp [h]
    simp only [List.length_cons, List.replicate_succ, decodeEach,
      bind_of_some (question_decode_of_drop default q hq), bind_of_some (ih (drop_advance hq)),
      pure_apply, List.map_cons, List.flatten_cons, List.length_append, Nat.add_assoc]

/-- A message with one answer, both names `a`. -/
def answerMessage : Message := ⟨5, 256, [⟨[97], 1, 1⟩], [⟨[97], 1, 1, 1, []⟩]⟩

/-- The answer's owner name takes three bytes on the wire and `ResourceRecord::Decode` skips two:
the type, class and ttl are read one byte out of step, and the rdata length read is 256 with
one byte left, so `Message::Decode` fails. -/
theorem answerMessage_not_decoded :
    answerMessage.encode (ofBytes (List.replicate 32 0)) = some (true,
      ⟨[0, 5, 1, 0, 0, 1, 0, 1, 0, 0, 0, 0, 1, 97, 0, 0, 1, 0, 1, 1, 97, 0, 0, 1, 0, 1, 0, 0, 0, 1,
        0, 0], 32⟩) ∧
    decodeMessage (ofBytes [0, 5, 1, 0, 0, 1, 0, 1, 0, 0, 0, 0, 1, 97, 0, 0, 1, 0, 1, 1, 97, 0, 0,
      1, 0, 1, 0, 0, 0, 1, 0, 0]) =
      some (none, ⟨[0, 5, 1, 0, 0, 1, 0, 1, 0, 0, 0, 0, 1, 97, 0, 0, 1, 0, 1, 1, 97, 0, 0, 1, 0, 1,
        0, 0, 0, 1, 0, 0], 31⟩) := by
  decide +kernel

/-- The message of the round trip: questions only. -/
def questionMessage (id fields : UInt16) (qs : List NamedQuestion) : Message :=
  ⟨id, fields, qs.map NamedQuestion.toQuestion, []⟩

/-- A message of questions only, fewer than 65536 of them: whenever `Message::Encode` reports
success, the receiver's decoding from the old cursor gives back its id, its fields and its
questions (each name with a dot after every label) and stops where the encoder stopped. -/
theorem decodeMessage_of_encode (id fields : UInt16) (qs : List NamedQuestion)
    (hqs : qs.length < 65536) {b b' : LlarpBuffer}
    (h : (questionMessage id fields qs).encode b = some (true, b')) :
    decodeMessage ⟨b'.mem, b.cur⟩ =
      some (some ⟨id, fields, qs.map NamedQuestion.decoded, []⟩, b') := by
  obtain ⟨b₁, hhdr, hrest⟩ := writeSeq_cons_true h
  simp only [questionMessage, List.map_nil, List.append_eq, List.append_nil] at hrest
  have hw := (header_encode_wrote hhdr).trans (questions_encode_wrote hrest)
  have hd : b'.mem.drop b.cur = headerEnc (questionMessage id fields qs).header ++
      ((qs.map NamedQuestion.enc).flatten ++ b'.mem.drop b'.cur) := by
    simp [hw.drop_cur]
  have hcount : (UInt16.ofNat qs.length).toNat = qs.length := by
    rw [UInt16.toNat_ofNat']
    omega
  have hq := @decodeEach_questions qs ⟨b'.mem, b.cur + 12⟩ _
    (by simpa [length_headerEnc] using Window.drop_add_of_drop_eq_append hd)
  have hc : b.cur + 12 + (qs.map NamedQuestion.enc).flatten.length = b'.cur := by
    obtain ⟨-, hc, -⟩ := hw
    rw [hc, List.length_append, length_headerEnc, Nat.add_assoc]
  simp only [decodeMessage, bind_of_some (@header_decode_of_drop _ ⟨b'.mem, b.cur⟩ _ hd),
    Message.ofHeader, Message.header, questionMessage, List.length_map, hcount,
    Message.decode, bind_of_some hq]
  -- no answers to decode
  have hnone : (UInt16.ofNat ([] : List ResourceRecord).length).toNat = 0 := rfl
  simp only [hnone, List.replicate_zero, decodeEach, pure_bind, pure_apply, hc]

/-- The question `a`, type and class 1. -/
def questionA : NamedQuestion := ⟨[labelA], false, 1, 1⟩

theorem decodeMessage_of_encode_a :
    [questionA].length < 65536 ∧
      (questionMessage 5 256 [questionA]).encode (ofBytes (List.replicate 19 0)) =
        some (true, ⟨[0, 5, 1, 0, 0, 1, 0, 0, 0, 0, 0, 0, 1, 97, 0, 0, 1, 0, 1], 19⟩) ∧
      decodeMessage ⟨[0, 5, 1, 0, 0, 1, 0, 0, 0, 0, 0, 0, 1, 97, 0, 0, 1, 0, 1], 0⟩ =
        some (some ⟨5, 256, [questionA.decoded], []⟩,
          ⟨[0, 5, 1, 0, 0, 1, 0, 0, 0, 0, 0, 0, 1, 97, 0, 0, 1, 0, 1], 19⟩) := by
  have hw : (questionMessage 5 256 [questionA]).encode (ofBytes (List.replicate 19 0)) =
      some (true, ⟨[0, 5, 1, 0, 0, 1, 0, 0, 0, 0, 0, 0, 1, 97, 0, 0, 1, 0, 1], 19⟩) := by
    decide
  have hread := decodeMessage_of_encode 5 256 [questionA] (by decide) hw
  exact ⟨by decide, hw, hread⟩

end Lokinet.Proofs.DnsMessage
