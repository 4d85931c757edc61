import Lokinet.Proofs.IwpSession

/-!
Reliable delivery between two IWP sessions. `Tick` puts the id of an inbound message that timed
out before all its fragments came into the same replay filter that `HandleRecvMsgCompleted`
fills with delivered ids, and `HandleDATA` answers a fragment for an id in the replay filter
with a MACK. A fragment still in the network when the receiver ticks then makes the sender
report the message delivered although the receiver never passed it on.
-/

namespace Lokinet.Proofs.Iwp

open Lokinet.Iwp Session

/-- A parent whose MAC is zero bytes and whose cipher is the identity, for concrete runs; its
LIM has the `LinkIntroMessage::MaxSize + PacketOverhead` bytes `SendOurLIM` sends. -/
def plainParent : Parent where
  ourPubKey := List.replicate 32 0
  ourEncPubKey := List.replicate 32 0
  limData := some (List.replicate 1344 0)
  shorthash := ShortHash.ofBytes
  hmac := fun _ _ => List.replicate 32 0
  xchacha20 := fun _ _ body => some body
  verify := fun _ _ _ => true
  sign := fun _ => List.replicate 64 0
  transportDhServer := fun _ _ => some (List.replicate 32 0)
  transportDhClient := fun _ _ => some (List.replicate 32 0)

variable (p : Parent) (now : Nat)

theorem tick_txMsgs_subset (s : Session) :
    ∀ e ∈ (s.tick now).txMsgs.entries, e ∈ s.txMsgs.entries := by
  -- the first loop of `Tick` only erases outbound messages, the others leave them alone
  have htx : ∀ es (s : Session), ∀ e ∈ (timeoutTX now es s).txMsgs.entries, e ∈ s.txMsgs.entries := by
    intro es
    induction es with
    | nil => intro s e he; exact he
    | cons e' es ih =>
      intro s e he
      obtain ⟨k, m⟩ := e'
      simp only [timeoutTX] at he
      split at he
      · have he' := SortedMap.mem_of_mem_erase _ _ (ih _ e he)
        rwa [callHandler_txMsgs] at he'
      · exact ih s e he
  intro e he
  simp only [tick] at he
  rw [(timeoutRX_keeps now _ _).2.1] at he
  exact htx _ s e he

theorem TxBounded.insert {s : Session} (hs : TxBounded s) (k : Nat) {m : OutboundMessage}
    (hm : m.data.length ≤ maxLinkMsgSize) :
    ∀ e ∈ (s.txMsgs.insert k m).entries, e.2.data.length ≤ maxLinkMsgSize := by
  intro e he
  rcases SortedMap.mem_insertEntry he with rfl | he
  · exact hm
  · exact hs e he

/-- The receiver handed the XMIT of a message of more than one fragment for an id it has not
seen opens the message, stamped with the time. -/
theorem receiver_opens (b : Session) (hb : TxBounded b) {sz rxid : Nat} (h : ShortHash)
    (payload : List UInt8) (hsz : fragmentSize < sz) (hsz16 : sz < 2 ^ 16) (hid : rxid < 2 ^ 64)
    (hrf : b.replayFilter.find? rxid = none) (hrx : b.rxMsgs.find? rxid = none) :
    ∃ b', b.handlePlaintextPackets p now [xmitPacket sz rxid h payload] = some b' ∧
      (∃ m, b'.rxMsgs.find? rxid = some m ∧ m.lastActiveAt = now) ∧
      b'.replayFilter = b.replayFilter ∧ b'.delivered = b.delivered ∧ TxBounded b' := by
  obtain ⟨m, hx, -, -, hm⟩ := handleXMIT_new p now b h payload hsz hsz16 hid hrf hrx
  set b₁ : Session := { b with rxMsgs := b.rxMsgs.insert rxid m }
  obtain ⟨b', hp, hf⟩ := pump_frame p now b₁.sendMACK hb
  refine ⟨b', ?_, ?_, hf.replayFilter, hf.delivered, TxBounded.of_frame hf hb⟩
  · rw [handlePlaintextPackets_singleton, xmitPacket, dispatch_xmit, ← xmitPacket, hx]
    exact hp
  · -- `Pump` may only have moved the ACKS time of the message
    obtain ⟨m', hm', he⟩ := hf.rx_some (show b₁.sendMACK.rxMsgs.find? rxid = some m by
      simp [b₁, sendMACK_frame])
    refine ⟨m', hm', ?_⟩
    have := congrArg InboundMessage.lastActiveAt he
    simpa [ackless, hm] using this

/-- The receiver handed a fragment for an id its replay filter holds, with no message open,
sends a MACK for the id and delivers nothing. -/
theorem receiver_macks_replayed (b : Session) (hb : TxBounded b) {idx rxid : Nat} (frag : List UInt8)
    (hidx : idx < 2 ^ 16) (hid : rxid < 2 ^ 64) (hrx : b.rxMsgs.find? rxid = none)
    (hrf : (b.replayFilter.find? rxid).isSome) :
    ∃ b', b.handlePlaintextPackets p now [dataPacket idx rxid frag] = some b' ∧
      (∃ c, mackPacket c ∈ b'.sent ∧ rxid ∈ c ∧ c.length ≤ maxACKSInMACK) ∧
      b'.delivered = b.delivered := by
  set b₁ : Session := { b with sendMACKs := b.sendMACKs ++ [rxid] }
  obtain ⟨c, hc, hk, hl⟩ := sendMACK_sends (show rxid ∈ b₁.sendMACKs by simp [b₁])
  obtain ⟨b', hp, hf⟩ := pump_frame p now b₁.sendMACK hb
  refine ⟨b', ?_, ⟨c, hf.sent.subset hc, hk, hl⟩, ?_⟩
  · rw [handlePlaintextPackets_singleton, dataPacket, dispatch_data, ← dataPacket,
      handleDATA_replayed p now b frag hidx hid hrx hrf]
    exact hp
  · rw [hf.delivered, sendMACK_frame]

/-- The sender handed a MACK carrying the id of a queued message calls its handler with
success. -/
theorem sender_completes (a : Session) (ha : TxBounded a) {k : Nat} {m : OutboundMessage}
    (hm : a.txMsgs.find? k = some m) (hc : m.completed ≠ .none) (hk : k < 2 ^ 64) {c : List Nat}
    (hkc : k ∈ c) (hl : c.length ≤ maxACKSInMACK) :
    ∃ a', a.handlePlaintextPackets p now [mackPacket c] = some a' ∧
      (some k, DeliveryStatus.success) ∈ a'.completions := by
  set a₁ := ackAll (c.map (· % 2 ^ 64)) a
  have hdone : (some k, DeliveryStatus.success) ∈ a₁.completions :=
    ackAll_completes hc _ a (List.mem_map.mpr ⟨k, hkc, Nat.mod_eq_of_lt hk⟩) hm
  have hb : TxBounded a₁.sendMACK := by
    rw [sendMACK_frame]
    exact TxBounded.of_subset ha (ackAll_frame _ a).2.1
  obtain ⟨a', hp, hf⟩ := pump_frame p now a₁.sendMACK hb
  refine ⟨a', ?_, ?_⟩
  · rw [handlePlaintextPackets_singleton, mackPacket, dispatch_mack, ← mackPacket,
      handleMACK_mackPacket a c hl]
    exact hp
  · rw [hf.completions, sendMACK_frame]
    exact hdone

/-- A message of more than one fragment sent over the network is reported delivered to its
sender without ever reaching the receiver's link layer: its XMIT arrives, the receiver ticks
after `DeliveryTimeout` while the other fragments are still in the network, one of them then
arrives and is answered with a MACK, and the MACK reaches the sender before its own timeout.
This holds from every network state whose outbound messages fit in `MAX_LINK_MSG_SIZE` and
where the receiver knows nothing of the sender's next id. -/
theorem acked_without_delivery (pa pb : Parent) (n : Network) (msg : List UInt8) (tA tB tB' : Nat)
    (hA : TxBounded n.a) (hB : TxBounded n.b)
    (hmsg : fragmentSize < msg.length) (hmax : msg.length ≤ maxLinkMsgSize)
    (hroom : n.a.txMsgs.size < maxSendQueueSize) (hk : n.a.txMsgs.find? n.a.txid.toNat = none)
    (hrx : n.b.rxMsgs.find? n.a.txid.toNat = none) (hrf : n.b.replayFilter.find? n.a.txid.toNat = none)
    (htA : n.clockA ≤ tA) (htB : n.clockB ≤ tB) (hto : tB + deliveryTimeout < tB') :
    ∃ n', Network.Steps pa pb n n' ∧
      (some n.a.txid.toNat, DeliveryStatus.success) ∈ n'.a.completions ∧ n'.b.delivered = n.b.delivered := by
  set k := n.a.txid.toNat
  set m := OutboundMessage.create pa.shorthash k msg tA .sender
  have hk64 : k < 2 ^ 64 := n.a.txid.toNat_lt
  have hsz16 : msg.length < 2 ^ 16 := by
    simp only [maxLinkMsgSize] at hmax
    omega
  -- the sender queues the message and sends its XMIT and the other fragments
  have hsend := sendMessageBuffer_new pa tA n.a msg .sender hroom hk hmsg hmax
  set a₁ : Session := { n.a with
    txid := n.a.txid + 1
    txMsgs := n.a.txMsgs.insert k { m with lastFlush := tA }
    sent := n.a.sent ++ m.xmit :: OutboundMessage.owed m 0 (OutboundMessage.fragmentCount msg.length) }
  have hA₁ : TxBounded a₁ := TxBounded.insert hA k hmax
  have hxmit : m.xmit ∈ a₁.sent := by simp [a₁]
  have hdata : m.fragment fragmentSize ∈ a₁.sent := by
    simp only [a₁, List.mem_append, List.mem_cons]
    exact .inr (.inr (fragment_mem_owed pa.shorthash k msg tA .sender hmsg))
  -- the XMIT opens the message at the receiver
  have hxmit' : m.xmit = xmitPacket msg.length k (pa.shorthash msg) (msg.take fragmentSize) := by
    rw [xmit_eq]
    simp [m, OutboundMessage.create, Nat.min_eq_right hmsg.le]
  obtain ⟨b₁, hb₁, ⟨mi, hmi, hat⟩, hrf₁, hd₁, hB₁⟩ :=
    receiver_opens pb tB n.b hB (pa.shorthash msg) (msg.take fragmentSize) hmsg hsz16 hk64 hrf hrx
  -- the receiver ticks after the delivery timeout: the id goes to the replay filter
  have htimed : mi.isTimedOut tB' := by
    simp only [InboundMessage.isTimedOut, hat, deliveryTimeout] at hto ⊢
    simp only [Bool.and_eq_true, decide_eq_true_eq]
    omega
  obtain ⟨hrx₂, hrf₂, hd₂⟩ := tick_timedOut tB' b₁ hmi htimed (hrf₁ ▸ hrf)
  have hB₂ : TxBounded (b₁.tick tB') := TxBounded.of_subset hB₁ (tick_txMsgs_subset tB' b₁)
  -- the second fragment arrives and is answered with a MACK
  obtain ⟨frag, hfrag⟩ : ∃ frag, m.fragment fragmentSize = dataPacket fragmentSize k frag :=
    ⟨_, fragment_eq m fragmentSize⟩
  obtain ⟨b₃, hb₃, ⟨c, hc, hkc, hcl⟩, hd₃⟩ := receiver_macks_replayed pb tB' (b₁.tick tB') hB₂ frag
    (show fragmentSize < 2 ^ 16 by decide) hk64 hrx₂ (by simp [hrf₂])
  -- the MACK reaches the sender, which still holds the message
  have hm₁ : a₁.txMsgs.find? k = some { m with lastFlush := tA } := SortedMap.find?_insert_self _ _ _
  obtain ⟨a₃, ha₃, hdone⟩ := sender_completes pa tA a₁ hA₁ hm₁ (by simp [m, OutboundMessage.create])
    hk64 hkc hcl
  refine ⟨⟨a₃, b₃, tA, tB'⟩, ?_, hdone, ?_⟩
  · have s₁ : Network.Step pa pb n { n with a := a₁, clockA := tA } := .send n msg tA true a₁ htA hsend
    have s₂ : Network.Step pa pb { n with a := a₁, clockA := tA } ⟨a₁, b₁, tA, tB⟩ :=
      .deliverToB _ _ tB b₁ htB hxmit (hxmit' ▸ hb₁)
    have s₃ : Network.Step pa pb ⟨a₁, b₁, tA, tB⟩ ⟨a₁, b₁.tick tB', tA, tB'⟩ :=
      .tickB _ tB' (by simp only; omega)
    have s₄ : Network.Step pa pb ⟨a₁, b₁.tick tB', tA, tB'⟩ ⟨a₁, b₃, tA, tB'⟩ :=
      .deliverToB _ _ tB' b₃ le_rfl hdata (hfrag ▸ hb₃)
    have s₅ : Network.Step pa pb ⟨a₁, b₃, tA, tB'⟩ ⟨a₃, b₃, tA, tB'⟩ :=
      .deliverToA _ _ tA a₃ le_rfl hc ha₃
    exact (((((Relation.ReflTransGen.refl.tail s₁).tail s₂).tail s₃).tail s₄).tail s₅)
  · exact hd₃.trans (hd₂.trans (hd₁.trans rfl))

theorem acked_without_delivery_fresh_pair :
    ∃ n', Network.Steps plainParent plainParent
      ⟨mkOutbound plainParent [] [], mkInbound plainParent (List.replicate tokenSize 0), 0, 0⟩ n' ∧
      (some 0, DeliveryStatus.success) ∈ n'.a.completions ∧ n'.b.delivered = [] :=
  acked_without_delivery plainParent plainParent _ (List.replicate 1025 0) 0 0 501
    (by intro e he; cases he) (by intro e he; cases he) (by rw [List.length_replicate]; decide)
    (by rw [List.length_replicate]; decide) (by decide) rfl rfl rfl
    le_rfl le_rfl (by decide)

/-! ### Fragments past the acknowledgement bits

`InboundMessage` takes the size of an XMIT as the 16-bit number on the wire, while `m_Acks`
holds `MAX_LINK_MSG_SIZE / FragmentSize` bits, and `HandleData` bounds the bytes of a fragment
by the size but not its bit `idx / FragmentSize`. -/

theorem handlePlaintextPackets_cons (s : Session) (pkt : Packet) (pkts : List Packet) :
    s.handlePlaintextPackets p now (pkt :: pkts) =
      (s.dispatch p now pkt).bind fun s => s.handlePlaintextPackets p now pkts := by
  simp only [handlePlaintextPackets, dispatchAll, Option.bind_eq_bind]
  cases s.dispatch p now pkt <;> rfl

/-- An XMIT announcing at least `MAX_LINK_MSG_SIZE` bytes for a new id, followed by a DATA
packet whose fragment fits in them at an offset past `MAX_LINK_MSG_SIZE`, makes
`std::bitset::set` throw in `HandleData`. -/
theorem fragment_past_acks_throws (s : Session) {sz k o : Nat} (h : ShortHash) (payload frag : List UInt8)
    (hsz : maxLinkMsgSize ≤ sz) (hsz16 : sz < 2 ^ 16) (ho : maxLinkMsgSize ≤ o) (hfit : o + frag.length ≤ sz)
    (hid : k < 2 ^ 64) (hrf : s.replayFilter.find? k = none) (hrx : s.rxMsgs.find? k = none) :
    s.handlePlaintextPackets p now [xmitPacket sz k h payload, dataPacket o k frag] = none := by
  have hfs : fragmentSize < sz := lt_of_lt_of_le (by decide) hsz
  obtain ⟨m, hx, -, hlen, -⟩ := handleXMIT_new p now s h payload hfs hsz16 hid hrf hrx
  have hm : ({ s with rxMsgs := s.rxMsgs.insert k m } : Session).rxMsgs.find? k = some m :=
    SortedMap.find?_insert_self _ _ _
  have hthrow : m.handleData o frag now = none :=
    InboundMessage.handleData_eq_none m o frag now (hlen ▸ hfit) ho
  rw [handlePlaintextPackets_cons, xmitPacket, dispatch_xmit, ← xmitPacket, hx, Option.bind_some,
    handlePlaintextPackets_singleton, dataPacket, dispatch_data, ← dataPacket,
    handleDATA_open p now _ frag (by omega) hid hm, hthrow]
  rfl

theorem fragment_past_acks_throws_full_size :
    (mkInbound plainParent (List.replicate tokenSize 0)).handlePlaintextPackets plainParent 0
      [xmitPacket 8192 0 (ShortHash.ofBytes []) [], dataPacket 8192 0 []] = none :=
  fragment_past_acks_throws plainParent 0 _ _ [] [] le_rfl (by decide) le_rfl (by decide) (by decide) rfl rfl

end Lokinet.Proofs.Iwp
