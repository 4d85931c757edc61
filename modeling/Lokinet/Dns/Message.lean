import Lokinet.Dns.Name

/-!
DNS questions, resource records and messages of llarp/dns: `Question`, `ResourceRecord`,
`MessageHeader` and `Message`, with their `Encode` and `Decode` and the rdata helpers of
serialize.cpp. A `Decode` fills the fields of an existing object; here it returns that object
with the fields it read.
-/

namespace Lokinet.Dns

open Lokinet.Util FaultState LlarpBuffer

structure Question where
  qname : List UInt8
  qtype : UInt16
  qclass : UInt16
  deriving DecidableEq, Repr, Inhabited

/-- `Question::Encode`. -/
def Question.encode (q : Question) : BufferM Bool :=
  writeSeq [encodeName q.qname, putUint16 q.qtype, putUint16 q.qclass]

/-- `Question::Decode`: the name keeps its trailing dot. -/
def Question.decode (q : Question) : BufferM (Option Question) := do
  let some qname ← decodeName false | return none
  let some qtype ← readUint16 | return none
  let some qclass ← readUint16 | return none
  return some { q with qname, qtype, qclass }

/-- `EncodeRData`: a 16-bit length, then that many bytes of `v`; a vector of 65536 bytes
passes the size check and its length wraps to zero. -/
def encodeRData (v : List UInt8) : BufferM Bool := do
  if v.length > 65536 then return false
  let len : UInt16 := UInt16.ofNat v.length
  if !(← putUint16 len) then return false
  if (← get).sizeLeft < len.toNat then return false
  memcpy (v.take len.toNat)
  advance len.toNat
  return true

/-- `DecodeRData`. -/
def decodeRData : BufferM (Option (List UInt8)) := do
  let some len ← readUint16 | return none
  let b ← get
  if b.sizeLeft < len.toNat then return none
  advance len.toNat
  return some ((b.mem.drop b.cur).take len.toNat)

structure ResourceRecord where
  rrName : List UInt8
  rrType : UInt16
  rrClass : UInt16
  ttl : UInt32
  rData : List UInt8
  deriving DecidableEq, Repr, Inhabited

/-- `ResourceRecord::Encode`: the owner name written in full. -/
def ResourceRecord.encode (rr : ResourceRecord) : BufferM Bool :=
  writeSeq [encodeName rr.rrName, putUint16 rr.rrType, putUint16 rr.rrClass, putUint32 rr.ttl,
    encodeRData rr.rData]

/-- `ResourceRecord::Decode`: two bytes are skipped for the owner name, as if it were a
compression pointer, and `rr_name` is left as it was. -/
def ResourceRecord.decode (rr : ResourceRecord) : BufferM (Option ResourceRecord) := do
  let some _ ← readUint16 | return none
  let some rrType ← readUint16 | return none
  let some rrClass ← readUint16 | return none
  let some ttl ← readUint32 | return none
  let some rData ← decodeRData | return none
  return some { rr with rrType, rrClass, ttl, rData }

structure MessageHeader where
  id : UInt16
  fields : UInt16
  qdCount : UInt16
  anCount : UInt16
  nsCount : UInt16
  arCount : UInt16
  deriving DecidableEq, Repr

/-- `MessageHeader::Encode`. -/
def MessageHeader.encode (h : MessageHeader) : BufferM Bool :=
  writeSeq [putUint16 h.id, putUint16 h.fields, putUint16 h.qdCount, putUint16 h.anCount,
    putUint16 h.nsCount, putUint16 h.arCount]

/-- `MessageHeader::Decode`. -/
def MessageHeader.decode : BufferM (Option MessageHeader) := do
  let some id ← readUint16 | return none
  let some fields ← readUint16 | return none
  let some qdCount ← readUint16 | return none
  let some anCount ← readUint16 | return none
  let some nsCount ← readUint16 | return none
  let some arCount ← readUint16 | return none
  return some ⟨id, fields, qdCount, anCount, nsCount, arCount⟩

/-- A `dns::Message` as its `Encode` and `Decode` see it. -/
structure Message where
  hdrId : UInt16
  hdrFields : UInt16
  questions : List Question
  answers : List ResourceRecord
  deriving DecidableEq, Repr

/-- `Message(const MessageHeader &)`: default questions and answers, as many as the counts say. -/
def Message.ofHeader (hdr : MessageHeader) : Message :=
  ⟨hdr.id, hdr.fields, List.replicate hdr.qdCount.toNat default,
    List.replicate hdr.anCount.toNat default⟩

/-- The header `Message::Encode` writes: the counts are the sizes of the vectors, truncated to
16 bits, and no authorities or additional records. -/
def Message.header (m : Message) : MessageHeader :=
  ⟨m.hdrId, m.hdrFields, UInt16.ofNat m.questions.length, UInt16.ofNat m.answers.length, 0, 0⟩

/-- `Message::Encode`. -/
def Message.encode (m : Message) : BufferM Bool :=
  writeSeq (m.header.encode :: m.questions.map Question.encode ++ m.answers.map ResourceRecord.encode)

/-- Decoding each object of a list in turn, stopping at the first failure. -/
def decodeEach {α : Type} (dec : α → BufferM (Option α)) : List α → BufferM (Option (List α))
  | [] => return some []
  | x :: xs => do
    let some x ← dec x | return none
    let some xs ← decodeEach dec xs | return none
    return some (x :: xs)

/-- `Message::Decode`: every question, then every answer. -/
def Message.decode (m : Message) : BufferM (Option Message) := do
  let some questions ← decodeEach Question.decode m.questions | return none
  let some answers ← decodeEach ResourceRecord.decode m.answers | return none
  return some { m with questions, answers }

/-- How a receiver reads a message: `MessageHeader::Decode`, `Message(hdr)`, `Message::Decode`. -/
def decodeMessage : BufferM (Option Message) := do
  let some hdr ← MessageHeader.decode | return none
  (Message.ofHeader hdr).decode

end Lokinet.Dns
