import Lokinet.Service.IntroSet
import Lokinet.Proofs.AddressCodec

/-!
What the encoders of an exit policy and of a hidden service's descriptor write. Each record is
a dict of entries, key first, in the order `BEncode` writes them; on a zeroed buffer with room
the encoder succeeds and leaves exactly those bytes, and whenever it succeeds it wrote them.
-/

namespace Lokinet.Proofs.Net

open Lokinet.Util Lokinet.Net Lokinet.Proofs.Bencode

variable (inet : Inet6) (inet4 : Inet4) (bt : BtString)

/-- The bytes `IPRange::BEncode` writes: the text of the range as a bencoded string. -/
def IPRange.enc (r : IPRange) : List UInt8 := bt.serialize (IPRange.toString inet inet4 r)

theorem IPRange.puts_bEncode (r : IPRange) :
    Puts (IPRange.bEncode inet inet4 bt r) (IPRange.enc inet inet4 bt r) :=
  puts_write _

theorem IPRange.clean_bEncode (r : IPRange) :
    Clean (IPRange.bEncode inet inet4 bt r) (IPRange.enc inet inet4 bt r) :=
  clean_write _

/-- The bytes `ProtocolInfo::BEncode` writes: the protocol, then the port in host order. -/
def ProtocolInfo.enc (p : ProtocolInfo) : List UInt8 :=
  108 :: (integerEnc p.protocol.toUInt64 ++
    (p.port.toList.map fun n => integerEnc (htons n).toUInt64).flatten ++ [101])

theorem ProtocolInfo.puts_bEncode (p : ProtocolInfo) : Puts p.bEncode (ProtocolInfo.enc p) := by
  have hport : Puts (writeSeq (p.port.toList.map fun n => bencodeWriteUint64 (htons n).toUInt64))
      (p.port.toList.map fun n => integerEnc (htons n).toUInt64).flatten :=
    Puts.map fun n _ => puts_bencodeWriteUint64 _
  have h := Puts.container 108 (Puts.cons (puts_bencodeWriteUint64 p.protocol.toUInt64) hport)
  simpa [ProtocolInfo.bEncode, ProtocolInfo.enc, bencodeStartList] using h

theorem ProtocolInfo.clean_bEncode (p : ProtocolInfo) : Clean p.bEncode (ProtocolInfo.enc p) := by
  have hport : Emits (writeSeq (p.port.toList.map fun n => bencodeWriteUint64 (htons n).toUInt64))
      (p.port.toList.map fun n => integerEnc (htons n).toUInt64).flatten :=
    Emits.map fun n _ => (clean_bencodeWriteUint64 _).emits
  have h := BValue.clean_container (c := 108)
    (Emits.cons (clean_bencodeWriteUint64 p.protocol.toUInt64).emits hport)
  simpa [ProtocolInfo.bEncode, ProtocolInfo.enc, bencodeStartList] using h

/-- The bytes `TrafficPolicy::BEncode` writes: the protocols under `p`, the ranges under `r`. -/
def TrafficPolicy.enc (t : TrafficPolicy) : List UInt8 :=
  100 :: (bytestringEnc (ascii "p") ++ 108 :: ((t.protocols.map ProtocolInfo.enc).flatten ++ [101]) ++
    bytestringEnc (ascii "r") ++ 108 :: ((t.ranges.map (IPRange.enc inet inet4 bt)).flatten ++ [101]) ++
    [101])

theorem TrafficPolicy.puts_bEncode (t : TrafficPolicy) :
    Puts (t.bEncode inet inet4 bt) (TrafficPolicy.enc inet inet4 bt t) := by
  have hps := Puts.container 108
    (Puts.map fun p (_ : p ∈ t.protocols) => ProtocolInfo.puts_bEncode p)
  have hrs := Puts.container 108
    (Puts.map fun r (_ : r ∈ t.ranges) => IPRange.puts_bEncode inet inet4 bt r)
  -- the two lists, each after its key, inside the dict
  have h := Puts.container 100 (Puts.cons (puts_bencodeWriteBytestring (ascii "p"))
    (Puts.append hps (Puts.cons (puts_bencodeWriteBytestring (ascii "r")) hrs)))
  simpa [TrafficPolicy.bEncode, TrafficPolicy.enc, bencodeStartList, bencodeStartDict] using h

theorem TrafficPolicy.clean_bEncode (t : TrafficPolicy) :
    Clean (t.bEncode inet inet4 bt) (TrafficPolicy.enc inet inet4 bt t) := by
  have hps : Emits (writeSeq (bencodeStartList :: (t.protocols.map ProtocolInfo.bEncode ++ [bencodeEnd])))
      (108 :: ((t.protocols.map ProtocolInfo.enc).flatten ++ [101])) :=
    (BValue.clean_container (Emits.map fun p (_ : p ∈ t.protocols) =>
      (ProtocolInfo.clean_bEncode p).emits)).emits
  have hrs : Emits (writeSeq (bencodeStartList ::
        (t.ranges.map (IPRange.bEncode inet inet4 bt) ++ [bencodeEnd])))
      (108 :: ((t.ranges.map (IPRange.enc inet inet4 bt)).flatten ++ [101])) :=
    (BValue.clean_container (Emits.map fun r (_ : r ∈ t.ranges) =>
      (IPRange.clean_bEncode inet inet4 bt r).emits)).emits
  have h := BValue.clean_container (c := 100) (Emits.cons (emits_bencodeWriteBytestring (ascii "p"))
    (Emits.append hps (Emits.cons (emits_bencodeWriteBytestring (ascii "r")) hrs)))
  simpa [TrafficPolicy.bEncode, TrafficPolicy.enc, bencodeStartList, bencodeStartDict] using h

end Lokinet.Proofs.Net

namespace Lokinet.Proofs.Service

open Lokinet.Util Lokinet.Net Lokinet.Service Lokinet.Proofs.Bencode Lokinet.Proofs.Net
open Lokinet.Proofs.Router (puts_bEncodeWriteList clean_bEncodeWriteList)

/-! ### `ServiceInfo` -/

namespace ServiceInfo

/-- The entries of the dict `ServiceInfo::BEncode` writes. -/
inductive Entry where
  | enckey (k : AlignedBuffer 32)
  | signkey (k : AlignedBuffer 32)
  | version
  | vanity (v : AlignedBuffer 16)

namespace Entry

def key : Entry → List UInt8
  | enckey _ => ascii "e"
  | signkey _ => ascii "s"
  | version => ascii "v"
  | vanity _ => ascii "x"

/-- The wire form of the value; the version is always `LLARP_PROTO_VERSION`. -/
def enc : Entry → List UInt8
  | enckey k => bytestringEnc k.bytes
  | signkey k => bytestringEnc k.bytes
  | version => integerEnc llarpProtoVersion
  | vanity v => bytestringEnc v.bytes

def writers : Entry → List (BufferM Bool)
  | enckey k => [bencodeWriteBytestring (ascii "e"), k.bEncode]
  | signkey k => [bencodeWriteBytestring (ascii "s"), k.bEncode]
  | version => [bencodeWriteUint64Entry (ascii "v") llarpProtoVersion]
  | vanity v => [bencodeWriteBytestring (ascii "x"), v.bEncode]

theorem puts_writers (x : Entry) : Puts (writeSeq x.writers) (entryEnc key enc x) := by
  cases x with
  | enckey k => exact Puts.pair (puts_bencodeWriteBytestring _) _
  | signkey k => exact Puts.pair (puts_bencodeWriteBytestring _) _
  | version => exact Puts.singleton (puts_bencodeWriteUint64Entry _ _)
  | vanity v => exact Puts.pair (puts_bencodeWriteBytestring _) _

theorem emits_writers (x : Entry) : Emits (writeSeq x.writers) (entryEnc key enc x) := by
  cases x with
  | enckey k => exact Emits.pair (emits_bencodeWriteBytestring _) _
  | signkey k => exact Emits.pair (emits_bencodeWriteBytestring _) _
  | version => exact Emits.singleton (emits_bencodeWriteUint64Entry _ _)
  | vanity v => exact Emits.pair (emits_bencodeWriteBytestring _) _

end Entry

/-- The entries written: a zero vanity nonce is left out. -/
def entries (si : ServiceInfo) : List Entry :=
  [Entry.enckey si.enckey, Entry.signkey si.signkey, Entry.version] ++
    (if si.vanity = AlignedBuffer.zero 16 then [] else [Entry.vanity si.vanity])

def enc (si : ServiceInfo) : List UInt8 :=
  100 :: (((entries si).map (entryEnc Entry.key Entry.enc)).flatten ++ [101])

theorem bEncode_eq (si : ServiceInfo) :
    si.bEncode = writeSeq (bencodeStartDict :: ((entries si).flatMap Entry.writers ++ [bencodeEnd])) := by
  unfold ServiceInfo.bEncode entries
  split <;> simp [Entry.writers]

theorem puts_bEncode (si : ServiceInfo) : Puts si.bEncode (enc si) := by
  rw [bEncode_eq]
  exact Puts.container 100 (Puts.flatMap fun x _ => Entry.puts_writers x)

theorem clean_bEncode (si : ServiceInfo) : Clean si.bEncode (enc si) := by
  rw [bEncode_eq]
  exact BValue.clean_container (Emits.flatMap fun x _ => Entry.emits_writers x)

end ServiceInfo

/-! ### `Introduction` -/

namespace Introduction

/-- The entries of the dict `Introduction::BEncode` writes. -/
inductive Entry where
  | router (k : AlignedBuffer 32)
  | latency (l : UInt64)
  | pathID (p : AlignedBuffer 16)
  | version (v : UInt64)
  | expiresAt (t : UInt64)

namespace Entry

def key : Entry → List UInt8
  | router _ => ascii "k"
  | latency _ => ascii "l"
  | pathID _ => ascii "p"
  | version _ => ascii "v"
  | expiresAt _ => ascii "x"

def enc : Entry → List UInt8
  | router k => bytestringEnc k.bytes
  | latency l => integerEnc l
  | pathID p => bytestringEnc p.bytes
  | version v => integerEnc v
  | expiresAt t => integerEnc t

def writers : Entry → List (BufferM Bool)
  | router k => [bencodeWriteBytestring (ascii "k"), k.bEncode]
  | latency l => [bencodeWriteUint64Entry (ascii "l") l]
  | pathID p => [bencodeWriteBytestring (ascii "p"), p.bEncode]
  | version v => [bencodeWriteUint64Entry (ascii "v") v]
  | expiresAt t => [bencodeWriteUint64Entry (ascii "x") t]

theorem puts_writers (x : Entry) : Puts (writeSeq x.writers) (entryEnc key enc x) := by
  cases x with
  | router k => exact Puts.pair (puts_bencodeWriteBytestring _) _
  | latency l => exact Puts.singleton (puts_bencodeWriteUint64Entry _ _)
  | pathID p => exact Puts.pair (puts_bencodeWriteBytestring _) _
  | version v => exact Puts.singleton (puts_bencodeWriteUint64Entry _ _)
  | expiresAt t => exact Puts.singleton (puts_bencodeWriteUint64Entry _ _)

theorem emits_writers (x : Entry) : Emits (writeSeq x.writers) (entryEnc key enc x) := by
  cases x with
  | router k => exact Emits.pair (emits_bencodeWriteBytestring _) _
  | latency l => exact Emits.singleton (emits_bencodeWriteUint64Entry _ _)
  | pathID p => exact Emits.pair (emits_bencodeWriteBytestring _) _
  | version v => exact Emits.singleton (emits_bencodeWriteUint64Entry _ _)
  | expiresAt t => exact Emits.singleton (emits_bencodeWriteUint64Entry _ _)

end Entry

/-- The entries written: the latency only when it is positive as a signed count. -/
def entries (i : Introduction) : List Entry :=
  [Entry.router i.router] ++
    (if 0 < i.latency ∧ i.latency < 0x8000000000000000 then [Entry.latency i.latency] else []) ++
    [Entry.pathID i.pathID, Entry.version i.version, Entry.expiresAt i.expiresAt]

def enc (i : Introduction) : List UInt8 :=
  100 :: (((entries i).map (entryEnc Entry.key Entry.enc)).flatten ++ [101])

theorem bEncode_eq (i : Introduction) :
    i.bEncode = writeSeq (bencodeStartDict :: ((entries i).flatMap Entry.writers ++ [bencodeEnd])) := by
  unfold Introduction.bEncode entries
  split <;> simp [Entry.writers]

theorem puts_bEncode (i : Introduction) : Puts i.bEncode (enc i) := by
  rw [bEncode_eq]
  exact Puts.container 100 (Puts.flatMap fun x _ => Entry.puts_writers x)

theorem clean_bEncode (i : Introduction) : Clean i.bEncode (enc i) := by
  rw [bEncode_eq]
  exact BValue.clean_container (Emits.flatMap fun x _ => Entry.emits_writers x)

end Introduction

/-! ### `IntroSet` -/

namespace IntroSet

/-- The entries of the dict `IntroSet::BEncode` writes. -/
inductive Entry where
  | addressKeys (si : ServiceInfo)
  | exitPolicy (p : TrafficPolicy)
  | intros (l : List Introduction)
  | sntrupKey (k : AlignedBuffer pqPubkeySize)
  | topic (t : AlignedBuffer 16)
  | protocols (ps : List UInt64)
  | ranges (rs : List IPRange)
  | srvs (s : List SRVTuple)
  | timestamp (t : UInt64)
  | version (v : UInt64)
  | signature (s : AlignedBuffer 64)

namespace Entry

def key : Entry → List UInt8
  | addressKeys _ => ascii "a"
  | exitPolicy _ => ascii "e"
  | intros _ => ascii "i"
  | sntrupKey _ => ascii "k"
  | topic _ => ascii "n"
  | protocols _ => ascii "p"
  | ranges _ => ascii "r"
  | srvs _ => ascii "s"
  | timestamp _ => ascii "t"
  | version _ => ascii "v"
  | signature _ => ascii "z"

variable (inet : Inet6) (inet4 : Inet4) (bt : BtString) (srv : SrvCodec)

/-- The wire form of the value; the SRV records are what the serializer gives, unchecked. -/
def enc : Entry → List UInt8
  | addressKeys si => ServiceInfo.enc si
  | exitPolicy p => TrafficPolicy.enc inet inet4 bt p
  | intros l => 108 :: ((l.map Introduction.enc).flatten ++ [101])
  | sntrupKey k => bytestringEnc k.bytes
  | topic t => bytestringEnc t.bytes
  | protocols ps => 108 :: ((ps.map integerEnc).flatten ++ [101])
  | ranges rs => 108 :: ((rs.map (IPRange.enc inet inet4 bt)).flatten ++ [101])
  | srvs s => srv.serialize s
  | timestamp t => integerEnc t
  | version v => integerEnc v
  | signature s => bytestringEnc s.bytes

def writers : Entry → List (BufferM Bool)
  | addressKeys si => [bencodeWriteBytestring (ascii "a"), si.bEncode]
  | exitPolicy p => [bencodeWriteBytestring (ascii "e"), p.bEncode inet inet4 bt]
  | intros l => [bencodeWriteBytestring (ascii "i"), bEncodeWriteList (l.map Introduction.bEncode)]
  | sntrupKey k => [bencodeWriteBytestring (ascii "k"), k.bEncode]
  | topic t => [bencodeWriteBytestring (ascii "n"), t.bEncode]
  | protocols ps =>
    [bencodeWriteBytestring (ascii "p"), bencodeStartList] ++ ps.map bencodeWriteUint64 ++ [bencodeEnd]
  | ranges rs =>
    [bencodeWriteBytestring (ascii "r"), bEncodeWriteList (rs.map (IPRange.bEncode inet inet4 bt))]
  | srvs s => [bencodeWriteBytestring (ascii "s"), write (srv.serialize s)]
  | timestamp t => [bencodeWriteUint64Entry (ascii "t") t]
  | version v => [bencodeWriteUint64Entry (ascii "v") v]
  | signature s => [bencodeWriteBytestring (ascii "z"), s.bEncode]

theorem puts_writers (x : Entry) :
    Puts (writeSeq (x.writers inet inet4 bt srv)) (entryEnc key (enc inet inet4 bt srv) x) := by
  cases x with
  | addressKeys si => exact Puts.pair (ServiceInfo.puts_bEncode si) _
  | exitPolicy p => exact Puts.pair (TrafficPolicy.puts_bEncode inet inet4 bt p) _
  | intros l =>
    exact Puts.pair (puts_bEncodeWriteList fun i _ => Introduction.puts_bEncode i) _
  | sntrupKey k => exact Puts.pair (puts_bencodeWriteBytestring _) _
  | topic t => exact Puts.pair (puts_bencodeWriteBytestring _) _
  | protocols ps =>
    have h := Puts.cons (puts_bencodeWriteBytestring (ascii "p"))
      (Puts.container 108 (Puts.map fun n (_ : n ∈ ps) => puts_bencodeWriteUint64 n))
    simpa [writers, entryEnc, enc, key, bencodeStartList] using h
  | ranges rs =>
    exact Puts.pair (puts_bEncodeWriteList fun r _ => IPRange.puts_bEncode inet inet4 bt r) _
  | srvs s => exact Puts.pair (puts_write _) _
  | timestamp t => exact Puts.singleton (puts_bencodeWriteUint64Entry _ _)
  | version v => exact Puts.singleton (puts_bencodeWriteUint64Entry _ _)
  | signature s => exact Puts.pair (puts_bencodeWriteBytestring _) _

theorem emits_writers (x : Entry) :
    Emits (writeSeq (x.writers inet inet4 bt srv)) (entryEnc key (enc inet inet4 bt srv) x) := by
  cases x with
  | addressKeys si => exact Emits.pair (ServiceInfo.clean_bEncode si).emits _
  | exitPolicy p => exact Emits.pair (TrafficPolicy.clean_bEncode inet inet4 bt p).emits _
  | intros l =>
    exact Emits.pair (clean_bEncodeWriteList fun i _ => (Introduction.clean_bEncode i).emits).emits _
  | sntrupKey k => exact Emits.pair (emits_bencodeWriteBytestring _) _
  | topic t => exact Emits.pair (emits_bencodeWriteBytestring _) _
  | protocols ps =>
    have hps : Emits (writeSeq (ps.map bencodeWriteUint64)) (ps.map integerEnc).flatten :=
      Emits.map fun n _ => (clean_bencodeWriteUint64 n).emits
    have h := Emits.cons (emits_bencodeWriteBytestring (ascii "p"))
      (BValue.clean_container (c := 108) hps).emits
    simpa [writers, entryEnc, enc, key, bencodeStartList] using h
  | ranges rs =>
    exact Emits.pair (clean_bEncodeWriteList fun r _ => (IPRange.clean_bEncode inet inet4 bt r).emits).emits _
  | srvs s => exact Emits.pair (clean_write _).emits _
  | timestamp t => exact Emits.singleton (emits_bencodeWriteUint64Entry _ _)
  | version v => exact Emits.singleton (emits_bencodeWriteUint64Entry _ _)
  | signature s => exact Emits.pair (emits_bencodeWriteBytestring _) _

end Entry

variable (inet : Inet6) (inet4 : Inet4) (bt : BtString) (srv : SrvCodec)

/-- The entries `BEncode` writes, in its order: the exit policy when there is one, the topic,
the protocols, the ranges and the SRV records when they are not empty. -/
def entries (i : IntroSet) : List Entry :=
  [Entry.addressKeys i.addressKeys] ++ i.exitTrafficPolicy.toList.map Entry.exitPolicy ++
    [Entry.intros i.intros, Entry.sntrupKey i.sntrupKey] ++
    (if i.topic.bytes.isEmpty then [] else [Entry.topic i.topic]) ++
    (if i.supportedProtocols.isEmpty then [] else [Entry.protocols i.supportedProtocols]) ++
    (if i.ownedRanges.isEmpty then [] else [Entry.ranges i.ownedRanges]) ++
    (if i.srvs.isEmpty then [] else [Entry.srvs i.srvs]) ++
    [Entry.timestamp i.timestampSignedAt, Entry.version i.version, Entry.signature i.signature]

def enc (i : IntroSet) : List UInt8 :=
  100 :: (((entries i).map (entryEnc Entry.key (Entry.enc inet inet4 bt srv))).flatten ++ [101])

theorem bEncode_eq (i : IntroSet) :
    i.bEncode inet inet4 bt srv = writeSeq (bencodeStartDict ::
      ((entries i).flatMap (Entry.writers inet inet4 bt srv) ++ [bencodeEnd])) := by
  unfold IntroSet.bEncode entries
  cases i.exitTrafficPolicy <;> simp [Entry.writers, apply_ite (List.flatMap _)]

/-- On a zeroed buffer with room, `IntroSet::BEncode` succeeds and writes its entries. -/
theorem puts_bEncode (i : IntroSet) : Puts (i.bEncode inet inet4 bt srv) (enc inet inet4 bt srv i) := by
  rw [bEncode_eq]
  exact Puts.container 100 (Puts.flatMap fun x _ => Entry.puts_writers inet inet4 bt srv x)

/-- Whenever `IntroSet::BEncode` reports success, it wrote its entries at the cursor. -/
theorem clean_bEncode (i : IntroSet) : Clean (i.bEncode inet inet4 bt srv) (enc inet inet4 bt srv i) := by
  rw [bEncode_eq]
  exact BValue.clean_container (Emits.flatMap fun x _ => Entry.emits_writers inet inet4 bt srv x)

/-- The encoding reads only oxenmq's serializer, not its deserializer. -/
theorem enc_of_serialize_eq {bt bt' : BtString} (h : bt.serialize = bt'.serialize) (i : IntroSet) :
    enc inet inet4 bt srv i = enc inet inet4 bt' srv i := by
  obtain ⟨ser, de⟩ := bt
  obtain ⟨ser', de'⟩ := bt'
  cases h
  rfl

end IntroSet

end Lokinet.Proofs.Service
