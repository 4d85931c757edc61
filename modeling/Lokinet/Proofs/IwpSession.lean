import Lokinet.Proofs.IwpMessages
import Lokinet.Iwp.Network

/-!
What the handlers of an IWP session do to its state: `Pump` and `SendMACK` only send packets and
move timers, `Tick` moves timed-out inbound messages into the replay filter, and the handlers
of the packets of a delivery act as their spec lemmas say.
-/

namespace Lokinet.Proofs.Iwp

open Lokinet.Iwp Session

/-- An inbound message with its ACKS time forgotten. -/
def ackless (m : InboundMessage) : InboundMessage := { m with lastACKSent := 0 }

/-- An outbound message with its flush time forgotten. -/
def flushless (m : OutboundMessage) : OutboundMessage := { m with lastFlush := 0 }

/-- What `Pump` leaves alone: everything but the packets sent, which only grow, the timers of
the messages and the queues of the decrypt worker. -/
structure PumpFrame (s s' : Session) : Prop where
  state : s'.state = s.state
  limHandler : s'.limHandler = s.limHandler
  txid : s'.txid = s.txid
  replayFilter : s'.replayFilter = s.replayFilter
  sendMACKs : s'.sendMACKs = s.sendMACKs
  delivered : s'.delivered = s.delivered
  completions : s'.completions = s.completions
  sent : s.sent <+: s'.sent
  rx : ∀ k, (s'.rxMsgs.find? k).map ackless = (s.rxMsgs.find? k).map ackless
  tx : ∀ k, (s'.txMsgs.find? k).map flushless = (s.txMsgs.find? k).map flushless

namespace PumpFrame

theorem refl (s : Session) : PumpFrame s s :=
  ⟨rfl, rfl, rfl, rfl, rfl, rfl, rfl, List.prefix_refl _, fun _ => rfl, fun _ => rfl⟩

theorem trans {s₁ s₂ s₃ : Session} (h₁ : PumpFrame s₁ s₂) (h₂ : PumpFrame s₂ s₃) : PumpFrame s₁ s₃ :=
  ⟨h₂.state.trans h₁.state, h₂.limHandler.trans h₁.limHandler, h₂.txid.trans h₁.txid,
    h₂.replayFilter.trans h₁.replayFilter, h₂.sendMACKs.trans h₁.sendMACKs,
    h₂.delivered.trans h₁.delivered, h₂.completions.trans h₁.completions, h₁.sent.trans h₂.sent,
    fun k => (h₂.rx k).trans (h₁.rx k), fun k => (h₂.tx k).trans (h₁.tx k)⟩

/-- An inbound message keeps everything but its ACKS time. -/
theorem rx_some {s s' : Session} (h : PumpFrame s s') {k : Nat} {m : InboundMessage}
    (hm : s.rxMsgs.find? k = some m) : ∃ m', s'.rxMsgs.find? k = some m' ∧ ackless m' = ackless m := by
  have hk := h.rx k
  rw [hm] at hk
  obtain ⟨m', hm', he⟩ := Option.map_eq_some_iff.mp hk
  exact ⟨m', hm', he⟩

theorem rx_none {s s' : Session} (h : PumpFrame s s') {k : Nat} (hm : s.rxMsgs.find? k = none) :
    s'.rxMsgs.find? k = none := by
  have hk := h.rx k
  rw [hm, Option.map_none] at hk
  exact Option.map_eq_none_iff.mp hk

/-- An outbound message keeps everything but its flush time. -/
theorem tx_some {s s' : Session} (h : PumpFrame s s') {k : Nat} {m : OutboundMessage}
    (hm : s.txMsgs.find? k = some m) : ∃ m', s'.txMsgs.find? k = some m' ∧ flushless m' = flushless m := by
  have hk := h.tx k
  rw [hm] at hk
  obtain ⟨m', hm', he⟩ := Option.map_eq_some_iff.mp hk
  exact ⟨m', hm', he⟩

end PumpFrame

/-- The outbound messages fit in `MAX_LINK_MSG_SIZE`, so their fragments have bits in `m_Acks`. -/
def TxBounded (s : Session) : Prop := ∀ e ∈ s.txMsgs.entries, e.2.data.length ≤ maxLinkMsgSize

variable (p : Parent) (now : Nat)

/-- One ACKS of `Pump`: the message at `k` gets its ACKS time. -/
theorem ackStep_frame (s : Session) {k : Nat} {m : InboundMessage} (pkt : Packet)
    (hk : (s.rxMsgs.find? k).map ackless = some (ackless m)) :
    PumpFrame s (({ s with rxMsgs := s.rxMsgs.insert k { m with lastACKSent := now } }).send pkt) := by
  refine ⟨rfl, rfl, rfl, rfl, rfl, rfl, rfl, List.prefix_append _ _, fun j => ?_, fun _ => rfl⟩
  by_cases hj : j = k
  · subst hj
    rw [hk]
    simp [send]
    rfl
  · simp only [send]
    rw [SortedMap.find?_insert_of_ne _ _ hj]

/-- The ACKS loop of `Pump` over entries that agree with the map. -/
theorem sendDueACKS_frame (es : List (Nat × InboundMessage)) (s : Session)
    (hes : ∀ e ∈ es, (s.rxMsgs.find? e.1).map ackless = some (ackless e.2)) :
    PumpFrame s (sendDueACKS now es s) ∧ (sendDueACKS now es s).txMsgs = s.txMsgs := by
  induction es generalizing s with
  | nil => exact ⟨PumpFrame.refl s, rfl⟩
  | cons e es ih =>
    obtain ⟨k, m⟩ := e
    simp only [sendDueACKS]
    split
    · have h₁ := ackStep_frame now s m.ackPacket (hes (k, m) List.mem_cons_self)
      obtain ⟨hf, ht⟩ := ih _ fun e he => (h₁.rx e.1).trans (hes e (List.mem_cons_of_mem _ he))
      exact ⟨h₁.trans hf, ht⟩
    · exact ih s fun e he => hes e (List.mem_cons_of_mem _ he)

/-- One flush of `Pump`: the message at `k` gets its flush time and its packets are sent. -/
theorem flushStep_frame (s : Session) {k : Nat} {m : OutboundMessage} (pkts : List Packet)
    (hk : (s.txMsgs.find? k).map flushless = some (flushless m)) :
    PumpFrame s { s with
      txMsgs := s.txMsgs.insert k { m with lastFlush := now }
      sent := s.sent ++ pkts } := by
  refine ⟨rfl, rfl, rfl, rfl, rfl, rfl, rfl, List.prefix_append _ _, fun _ => rfl, fun j => ?_⟩
  by_cases hj : j = k
  · subst hj
    rw [hk]
    simp
    rfl
  · simp only
    rw [SortedMap.find?_insert_of_ne _ _ hj]

/-- The flush loop of `Pump` over entries that agree with the map and fit in
`MAX_LINK_MSG_SIZE`: it does not throw. -/
theorem flushDue_frame (es : List (Nat × OutboundMessage)) (s : Session)
    (hes : ∀ e ∈ es, (s.txMsgs.find? e.1).map flushless = some (flushless e.2))
    (hlen : ∀ e ∈ es, e.2.data.length ≤ maxLinkMsgSize) :
    ∃ s', flushDue now es s = some s' ∧ PumpFrame s s' := by
  induction es generalizing s with
  | nil => exact ⟨s, rfl, PumpFrame.refl s⟩
  | cons e es ih =>
    obtain ⟨k, m⟩ := e
    have hes' := fun e he => hes e (List.mem_cons_of_mem (k, m) he)
    have hlen' := fun e he => hlen e (List.mem_cons_of_mem (k, m) he)
    simp only [flushDue]
    split
    · rw [OutboundMessage.flushUnAcked_eq m (hlen (k, m) List.mem_cons_self)]
      simp only [Option.bind_eq_bind, Option.bind_some]
      have h₁ := flushStep_frame now s (OutboundMessage.owed m 0
        (OutboundMessage.fragmentCount m.data.length)) (hes (k, m) List.mem_cons_self)
      obtain ⟨s', hs', hf⟩ := ih _ (fun e he => (h₁.tx e.1).trans (hes' e he)) hlen'
      exact ⟨s', hs', h₁.trans hf⟩
    · exact ih s hes' hlen'

theorem decryptWorker_frame (s : Session) : PumpFrame s (s.decryptWorker p) :=
  ⟨rfl, rfl, rfl, rfl, rfl, rfl, rfl, List.prefix_refl _, fun _ => rfl, fun _ => rfl⟩

theorem entries_rx (s : Session) :
    ∀ e ∈ s.rxMsgs.entries, (s.rxMsgs.find? e.1).map ackless = some (ackless e.2) := by
  intro e he
  rw [(SortedMap.find?_eq_some_iff _).mpr he]
  rfl

theorem entries_tx (s : Session) :
    ∀ e ∈ s.txMsgs.entries, (s.txMsgs.find? e.1).map flushless = some (flushless e.2) := by
  intro e he
  rw [(SortedMap.find?_eq_some_iff _).mpr he]
  rfl

/-- `Pump` on a session whose outbound messages fit in `MAX_LINK_MSG_SIZE` does not throw, and
only sends packets and moves timers. -/
theorem pump_frame (s : Session) (hs : TxBounded s) :
    ∃ s', s.pump p now = some s' ∧ PumpFrame s s' := by
  -- the end of `Pump`: the decrypt worker, if anything is queued
  have hjp : ∀ s₁, PumpFrame s s₁ → ∃ s', (if s₁.decryptNext = [] then some s₁
      else some (s₁.decryptWorker p)) = some s' ∧ PumpFrame s s' := by
    intro s₁ hf
    split
    · exact ⟨s₁, rfl, hf⟩
    · exact ⟨_, rfl, hf.trans (decryptWorker_frame p s₁)⟩
  unfold pump
  split
  · -- the ACKS and flush loops run only while the session is up
    obtain ⟨ha, ht⟩ := sendDueACKS_frame now s.rxMsgs.entries s (entries_rx s)
    have hlen : ∀ e ∈ (sendDueACKS now s.rxMsgs.entries s).txMsgs.entries,
        e.2.data.length ≤ maxLinkMsgSize := by
      rw [ht]
      exact hs
    have hes : ∀ e ∈ (sendDueACKS now s.rxMsgs.entries s).txMsgs.entries,
        ((sendDueACKS now s.rxMsgs.entries s).txMsgs.find? e.1).map flushless = some (flushless e.2) := by
      rw [ht]
      exact entries_tx s
    obtain ⟨s₁, h₁, hf⟩ := flushDue_frame now _ _ hes hlen
    simp only [h₁, Option.bind_eq_bind, Option.bind_some]
    exact hjp s₁ (ha.trans hf)
  · exact hjp s (PumpFrame.refl s)

theorem TxBounded.of_frame {s s' : Session} (h : PumpFrame s s') (hs : TxBounded s) :
    TxBounded s' := by
  intro e he
  obtain ⟨m, hm, hfl⟩ := Option.map_eq_some_iff.mp
    ((h.tx e.1).symm.trans (by rw [(SortedMap.find?_eq_some_iff _).mpr he]; rfl))
  have hd : (flushless m).data = (flushless e.2).data := congrArg OutboundMessage.data hfl
  change m.data = e.2.data at hd
  rw [← hd]
  exact hs (e.1, m) ((SortedMap.find?_eq_some_iff _).mp hm)

/-! ### `SendMACK` -/

/-- Every id of a list sent by `SendMACK` travels in a MACK of at most `MaxACKSInMACK` ids. -/
theorem mem_mackPackets {k : Nat} :
    ∀ fuel ids, k ∈ ids → ids.length ≤ fuel →
      ∃ c, mackPacket c ∈ mackPackets fuel ids ∧ k ∈ c ∧ c.length ≤ maxACKSInMACK := by
  intro fuel
  induction fuel with
  | zero => intro ids hk hl; simp_all
  | succ fuel ih =>
    intro ids hk hl
    cases ids with
    | nil => cases hk
    | cons i is =>
      simp only [mackPackets]
      by_cases ht : k ∈ (i :: is).take maxACKSInMACK
      · exact ⟨_, List.mem_cons_self, ht, List.length_take_le _ _⟩
      · -- the id is in a later packet
        have hd : k ∈ (i :: is).drop maxACKSInMACK := by
          rw [← List.take_append_drop maxACKSInMACK (i :: is)] at hk
          exact (List.mem_append.mp hk).resolve_left ht
        obtain ⟨c, hc, hkc, hcl⟩ := ih _ hd (by simp [maxACKSInMACK] at hl ⊢; omega)
        exact ⟨c, List.mem_cons_of_mem _ hc, hkc, hcl⟩

theorem sendMACK_frame (s : Session) :
    s.sendMACK = { s with
      sendMACKs := []
      sent := s.sent ++ mackPackets s.sendMACKs.length (s.sendMACKs.insertionSort (· ≤ ·)) } := by
  simp [sendMACK, List.length_insertionSort]

/-- A queued id leaves in a MACK of at most `MaxACKSInMACK` ids. -/
theorem sendMACK_sends {s : Session} {k : Nat} (hk : k ∈ s.sendMACKs) :
    ∃ c, mackPacket c ∈ s.sendMACK.sent ∧ k ∈ c ∧ c.length ≤ maxACKSInMACK := by
  obtain ⟨c, hc, hkc, hcl⟩ := mem_mackPackets _ (s.sendMACKs.insertionSort (· ≤ ·))
    ((List.perm_insertionSort _ _).mem_iff.mpr hk) le_rfl
  exact ⟨c, List.mem_append_right s.sent hc, hkc, hcl⟩

/-! ### Completion handlers and `Tick` -/

section Handler

variable (s : Session) (k : Option Nat) (h : CompletionHandler) (st : DeliveryStatus)

/-- A handler other than none records its call, and the handler of `GotOutboundLIM` makes the
session ready on success. -/
theorem callHandler_eq : s.callHandler k h st = { s with
    state := if h = .ourLIM ∧ st = .success then .ready else s.state
    completions := s.completions ++ (if h = .none then [] else [(k, st)]) } := by
  cases h <;> cases st <;> simp [callHandler]

@[simp] theorem callHandler_txMsgs : (s.callHandler k h st).txMsgs = s.txMsgs := by
  rw [callHandler_eq]

@[simp] theorem callHandler_rxMsgs : (s.callHandler k h st).rxMsgs = s.rxMsgs := by
  rw [callHandler_eq]

@[simp] theorem callHandler_replayFilter : (s.callHandler k h st).replayFilter = s.replayFilter := by
  rw [callHandler_eq]

@[simp] theorem callHandler_delivered : (s.callHandler k h st).delivered = s.delivered := by
  rw [callHandler_eq]

@[simp] theorem callHandler_sent : (s.callHandler k h st).sent = s.sent := by
  rw [callHandler_eq]

@[simp] theorem callHandler_sendMACKs : (s.callHandler k h st).sendMACKs = s.sendMACKs := by
  rw [callHandler_eq]

end Handler

/-- The first loop of `Tick` touches only the outbound messages and their handlers. -/
theorem timeoutTX_frame (es : List (Nat × OutboundMessage)) (s : Session) :
    (timeoutTX now es s).rxMsgs = s.rxMsgs ∧ (timeoutTX now es s).replayFilter = s.replayFilter ∧
      (timeoutTX now es s).delivered = s.delivered := by
  induction es generalizing s with
  | nil => exact ⟨rfl, rfl, rfl⟩
  | cons e es ih =>
    obtain ⟨k, m⟩ := e
    simp only [timeoutTX]
    split
    · obtain ⟨h₁, h₂, h₃⟩ := ih _
      exact ⟨by simpa using h₁, by simpa using h₂, by simpa using h₃⟩
    · exact ih s

/-- The second loop of `Tick` touches only the inbound messages and the replay filter. -/
theorem timeoutRX_keeps (es : List (Nat × InboundMessage)) (s : Session) :
    (timeoutRX now es s).state = s.state ∧ (timeoutRX now es s).txMsgs = s.txMsgs ∧
      (timeoutRX now es s).delivered = s.delivered := by
  induction es generalizing s with
  | nil => exact ⟨rfl, rfl, rfl⟩
  | cons e es ih =>
    simp only [timeoutRX]
    split
    · exact ih _
    · exact ih s

/-- The second loop of `Tick` leaves the ids it does not visit alone. -/
theorem timeoutRX_other (es : List (Nat × InboundMessage)) (s : Session) {j : Nat}
    (hj : j ∉ es.map Prod.fst) :
    (timeoutRX now es s).rxMsgs.find? j = s.rxMsgs.find? j ∧
      (timeoutRX now es s).replayFilter.find? j = s.replayFilter.find? j := by
  induction es generalizing s with
  | nil => exact ⟨rfl, rfl⟩
  | cons e es ih =>
    obtain ⟨k, m⟩ := e
    simp only [List.map_cons, List.mem_cons, not_or] at hj
    simp only [timeoutRX]
    split
    · obtain ⟨h₁, h₂⟩ := ih _ hj.2
      refine ⟨h₁.trans (SortedMap.find?_erase_of_ne _ hj.1), h₂.trans ?_⟩
      -- `emplace` at another key
      unfold SortedMap.emplace
      split
      · rfl
      · exact SortedMap.find?_insert_of_ne _ _ hj.1
    · exact ih s hj.2

/-- The second loop of `Tick`, over entries with distinct keys: a timed-out message leaves, and
its id enters the replay filter unless it is there already. -/
theorem timeoutRX_timedOut (es : List (Nat × InboundMessage)) (s : Session)
    (hnd : (es.map Prod.fst).Nodup) {k : Nat} {m : InboundMessage} (hk : (k, m) ∈ es)
    (hto : m.isTimedOut now) :
    (timeoutRX now es s).rxMsgs.find? k = none ∧
      (timeoutRX now es s).replayFilter.find? k = some ((s.replayFilter.find? k).getD now) := by
  induction es generalizing s with
  | nil => cases hk
  | cons e es ih =>
    obtain ⟨k', m'⟩ := e
    simp only [List.map_cons, List.nodup_cons] at hnd
    rcases List.mem_cons.mp hk with he | hk
    · -- the message is visited now, and never again
      cases he
      have hnot : k ∉ es.map Prod.fst := hnd.1
      simp only [timeoutRX, hto, if_true]
      obtain ⟨h₁, h₂⟩ := timeoutRX_other now es _ hnot
      refine ⟨h₁.trans (SortedMap.find?_erase_self _ _), h₂.trans ?_⟩
      cases hf : s.replayFilter.find? k with
      | none => simp [SortedMap.emplace_of_none _ _ hf]
      | some t => simp [SortedMap.emplace_of_isSome _ _ (by simp [hf] : (s.replayFilter.find? k).isSome), hf]
    · have hne : k ≠ k' := fun he => hnd.1 (he ▸ List.mem_map.mpr ⟨(k, m), hk, rfl⟩)
      simp only [timeoutRX]
      split
      · obtain ⟨h₁, h₂⟩ := ih _ hnd.2 hk
        refine ⟨h₁, h₂.trans ?_⟩
        unfold SortedMap.emplace
        split
        · rfl
        · rw [SortedMap.find?_insert_of_ne _ _ hne]
      · exact ih s hnd.2 hk

/-- `Tick` at a time when the inbound message `k` has timed out drops it and puts its id in the
replay filter, without delivering anything. -/
theorem tick_timedOut (s : Session) {k : Nat} {m : InboundMessage} (hm : s.rxMsgs.find? k = some m)
    (hto : m.isTimedOut now) (hrf : s.replayFilter.find? k = none) :
    (s.tick now).rxMsgs.find? k = none ∧ (s.tick now).replayFilter.find? k = some now ∧
      (s.tick now).delivered = s.delivered := by
  obtain ⟨hrx₁, hrf₁, hd₁⟩ := timeoutTX_frame now s.txMsgs.entries s
  have hk : (k, m) ∈ (timeoutTX now s.txMsgs.entries s).rxMsgs.entries := by
    rw [hrx₁]
    exact (SortedMap.find?_eq_some_iff _).mp hm
  obtain ⟨h₁, h₂⟩ := timeoutRX_timedOut now _ _ (SortedMap.nodup_keys _) hk hto
  refine ⟨h₁, ?_, (timeoutRX_keeps now _ _).2.2.trans hd₁⟩
  -- the entry made now is younger than the replay window
  simp only [tick, SortedMap.find?_filter, h₂, hrf₁, hrf, Option.getD_none]
  simp [replayWindow, receivalTimeout, deliveryTimeout]

/-! ### Packets of a delivery -/

/-- An XMIT as any peer can send it: an announced size, an id, a digest and a payload. -/
def xmitPacket (sz rxid : Nat) (h : ShortHash) (payload : List UInt8) : Packet :=
  createPacket .xmit (BigEndian.bytes 2 sz ++ BigEndian.bytes 8 rxid ++ h.bytes ++ payload) 0

/-- A DATA packet as any peer can send it: an offset, an id and a fragment. -/
def dataPacket (idx rxid : Nat) (frag : List UInt8) : Packet :=
  createPacket .data (BigEndian.bytes 2 idx ++ BigEndian.bytes 8 rxid ++ frag) 0

theorem xmit_eq (m : OutboundMessage) :
    m.xmit = xmitPacket m.data.length m.msgID m.digest (m.data.take (min m.data.length fragmentSize)) :=
  rfl

theorem fragment_eq (m : OutboundMessage) (idx : Nat) :
    m.fragment idx = dataPacket idx m.msgID
      ((m.data.drop idx).take (if idx + fragmentSize < m.data.length then fragmentSize
        else m.data.length - idx)) :=
  rfl

theorem ShortHash.ofBytes_append (h : ShortHash) (rest : List UInt8) :
    ShortHash.ofBytes (h.bytes ++ rest) = h := by
  obtain ⟨bs, hl⟩ := h
  simp only [ShortHash.ofBytes, ShortHash.mk.injEq, List.append_assoc]
  exact List.take_left' hl

section Dispatch

variable (s : Session) (body : List UInt8) (pad : Nat)

theorem dispatch_xmit :
    s.dispatch p now (createPacket .xmit body pad) = s.handleXMIT p now (createPacket .xmit body pad) := by
  simp [dispatch, createPacket_command]

theorem dispatch_data :
    s.dispatch p now (createPacket .data body pad) = s.handleDATA p now (createPacket .data body pad) := by
  simp [dispatch, createPacket_command]

theorem dispatch_mack :
    s.dispatch p now (createPacket .mack body pad) = some (s.handleMACK (createPacket .mack body pad)) := by
  simp [dispatch, createPacket_command]

end Dispatch

theorem handlePlaintextPackets_singleton (s : Session) (pkt : Packet) :
    s.handlePlaintextPackets p now [pkt] = (s.dispatch p now pkt).bind fun s => s.sendMACK.pump p now := by
  simp only [handlePlaintextPackets, dispatchAll, Option.bind_eq_bind]
  cases s.dispatch p now pkt <;> rfl

theorem finishRecv_of_incomplete (s : Session) {m : InboundMessage} (h : m.isCompleted = some false) :
    s.finishRecv p now m = some s := by
  simp [finishRecv, h]

/-- An XMIT for an id the session has not seen opens a message of the announced size: its first
fragment comes with it when the payload is exactly one fragment, and the message is not
complete when it has more. -/
theorem handleXMIT_new (s : Session) {sz rxid : Nat} (h : ShortHash) (payload : List UInt8)
    (hsz : fragmentSize < sz) (hsz16 : sz < 2 ^ 16) (hid : rxid < 2 ^ 64)
    (hrf : s.replayFilter.find? rxid = none) (hrx : s.rxMsgs.find? rxid = none) :
    ∃ m, s.handleXMIT p now (xmitPacket sz rxid h payload) = some { s with rxMsgs := s.rxMsgs.insert rxid m } ∧
      m.msgID = rxid ∧ m.data.length = sz ∧ m.lastActiveAt = now := by
  have d₀ : (xmitPacket sz rxid h payload).drop (commandOverhead + packetOverhead) =
      BigEndian.bytes 2 sz ++ (BigEndian.bytes 8 rxid ++ (h.bytes ++ payload)) := by
    simp [xmitPacket, drop_createPacket]
  have d₁ := Window.drop_add_of_drop_eq_append d₀
  have d₂ := Window.drop_add_of_drop_eq_append d₁
  simp only [BigEndian.length_bytes, Nat.add_assoc] at d₁ d₂
  have hsz' : readBE (xmitPacket sz rxid h payload) (commandOverhead + packetOverhead) 2 = sz := by
    rw [readBE_of_drop d₀]
    exact Nat.mod_eq_of_lt hsz16
  have hid' : readBE (xmitPacket sz rxid h payload) (commandOverhead + packetOverhead + 2) 8 = rxid := by
    rw [Nat.add_assoc, readBE_of_drop d₁]
    exact Nat.mod_eq_of_lt hid
  have hh : ShortHash.ofBytes ((xmitPacket sz rxid h payload).drop (commandOverhead + packetOverhead + 10)) = h := by
    rw [Nat.add_assoc, d₂]
    exact ShortHash.ofBytes_append h payload
  have hlen : (xmitPacket sz rxid h payload).length = xmitOverhead + payload.length := by
    simp [xmitPacket, xmitOverhead, commandOverhead, packetOverhead, h.length_eq]
    omega
  have hmin : min sz fragmentSize = fragmentSize := Nat.min_eq_right hsz.le
  have hnot : ¬ (xmitPacket sz rxid h payload).length < xmitOverhead := by
    rw [hlen]
    omega
  simp only [handleXMIT, hnot, if_false, hsz', hid', hh, hrf, hrx, hmin, Option.isSome_none,
    Bool.false_eq_true]
  split
  · -- the short XMIT: the payload is the first fragment
    rename_i hpl
    rw [hlen, Nat.add_sub_cancel_left] at hpl
    have d₃ := Window.drop_add_of_drop_eq_append d₂
    have hdrop : (xmitPacket sz rxid h payload).drop (xmitOverhead + payload.length - fragmentSize) =
        payload := by
      have hoff : xmitOverhead + payload.length - fragmentSize =
          commandOverhead + (packetOverhead + (2 + 8)) + h.bytes.length := by
        rw [hpl, h.length_eq]
        rfl
      rw [hoff, d₃]
    rw [hlen, hdrop]
    have hfit : 0 + payload.length ≤ (InboundMessage.create rxid sz h now).data.length := by
      simp [InboundMessage.create, hpl]
      omega
    have hset : (InboundMessage.create rxid sz h now).acks.set 0 = some ⟨0 ||| BitVec.twoPow _ 0⟩ :=
      Bitset.set_of_lt _ (by decide)
    rw [InboundMessage.handleData_of_le _ 0 payload now hfit, Nat.zero_div, hset]
    simp only [Option.map_some, Option.bind_eq_bind, Option.bind_some]
    have hdone : ({ InboundMessage.create rxid sz h now with
        data := Window.paste (InboundMessage.create rxid sz h now).data 0 payload
        acks := ⟨0 ||| BitVec.twoPow _ 0⟩
        lastActiveAt := now } : InboundMessage).isCompleted = some false := by
      have hl : (Window.paste (InboundMessage.create rxid sz h now).data 0 payload).length = sz := by
        rw [Window.length_paste hfit]
        simp [InboundMessage.create]
      simp only [InboundMessage.isCompleted, hl]
      refine allAcked_first_only hsz (Bitset.test_set_self hset) ?_
      rw [Bitset.test_set_of_ne hset (by decide)]
      exact Bitset.test_empty (by decide)
    rw [finishRecv_of_incomplete p now _ hdone, SortedMap.insert_insert]
    refine ⟨_, rfl, rfl, ?_, rfl⟩
    rw [Window.length_paste hfit]
    simp [InboundMessage.create]
  · exact ⟨_, rfl, rfl, by simp [InboundMessage.create], rfl⟩

/-- `HandleDATA` on a DATA packet: the offset and id it carries, and the fragment after them. -/
theorem handleDATA_dataPacket (s : Session) {idx rxid : Nat} (frag : List UInt8)
    (hidx : idx < 2 ^ 16) (hid : rxid < 2 ^ 64) :
    s.handleDATA p now (dataPacket idx rxid frag) =
      (s.rxMsgs.find? rxid).elim
        (if (s.replayFilter.find? rxid).isSome then some { s with sendMACKs := s.sendMACKs ++ [rxid] }
          else some (s.send (createPacket .nack (BigEndian.bytes 8 rxid) defaultPad)))
        fun m => (m.handleData idx frag now).bind fun m =>
          ({ s with rxMsgs := s.rxMsgs.insert rxid m }).finishRecv p now m := by
  have d₀ : (dataPacket idx rxid frag).drop (commandOverhead + packetOverhead) =
      BigEndian.bytes 2 idx ++ (BigEndian.bytes 8 rxid ++ frag) := by
    simp [dataPacket, drop_createPacket]
  have d₁ := Window.drop_add_of_drop_eq_append d₀
  have d₂ := Window.drop_add_of_drop_eq_append d₁
  simp only [BigEndian.length_bytes] at d₁ d₂
  have hidx' : readBE (dataPacket idx rxid frag) (commandOverhead + packetOverhead) 2 = idx := by
    rw [readBE_of_drop d₀]
    exact Nat.mod_eq_of_lt hidx
  have hid' : readBE (dataPacket idx rxid frag) (commandOverhead + 2 + packetOverhead) 8 = rxid := by
    rw [show commandOverhead + 2 + packetOverhead = commandOverhead + packetOverhead + 2 from rfl,
      readBE_of_drop d₁]
    exact Nat.mod_eq_of_lt hid
  have hfrag : (dataPacket idx rxid frag).drop (packetOverhead + 12) = frag := d₂
  have hnot : ¬ (dataPacket idx rxid frag).length < commandOverhead + 2 + 8 + packetOverhead := by
    simp [dataPacket, commandOverhead, packetOverhead]
    omega
  simp only [handleDATA, hnot, if_false, hidx', hid', hfrag, Option.bind_eq_bind]
  cases s.rxMsgs.find? rxid <;> rfl

/-- A DATA packet for an id the replay filter holds, with no message open, queues a MACK. -/
theorem handleDATA_replayed (s : Session) {idx rxid : Nat} (frag : List UInt8)
    (hidx : idx < 2 ^ 16) (hid : rxid < 2 ^ 64) (hrx : s.rxMsgs.find? rxid = none)
    (hrf : (s.replayFilter.find? rxid).isSome) :
    s.handleDATA p now (dataPacket idx rxid frag) = some { s with sendMACKs := s.sendMACKs ++ [rxid] } := by
  rw [handleDATA_dataPacket p now s frag hidx hid, hrx]
  simp [hrf]

/-- A DATA packet for an open message hands its fragment to `HandleData`. -/
theorem handleDATA_open (s : Session) {idx rxid : Nat} (frag : List UInt8)
    (hidx : idx < 2 ^ 16) (hid : rxid < 2 ^ 64) {m : InboundMessage} (hrx : s.rxMsgs.find? rxid = some m) :
    s.handleDATA p now (dataPacket idx rxid frag) = (m.handleData idx frag now).bind fun m =>
      ({ s with rxMsgs := s.rxMsgs.insert rxid m }).finishRecv p now m := by
  rw [handleDATA_dataPacket p now s frag hidx hid, hrx, Option.elim_some]

/-- The ids of a MACK, eight bytes each, from the `i`-th on. -/
theorem drop_ids (ids : List Nat) (r : List UInt8) :
    ∀ i, i ≤ ids.length → ((ids.map (BigEndian.bytes 8)).flatten ++ r).drop (8 * i) =
      ((ids.drop i).map (BigEndian.bytes 8)).flatten ++ r := by
  induction ids with
  | nil => intro i hi; simp at hi; subst hi; rfl
  | cons x xs ih =>
    intro i hi
    cases i with
    | zero => rfl
    | succ i =>
      rw [Nat.mul_succ, Nat.add_comm, ← List.drop_drop]
      simp only [List.map_cons, List.flatten_cons, List.append_assoc]
      rw [List.drop_left' (BigEndian.length_bytes 8 x)]
      exact ih i (by simpa using hi)

/-- `HandleMACK` on a MACK of at most `MaxACKSInMACK` ids reads them back, each modulo
`2 ^ 64`. -/
theorem handleMACK_mackPacket (s : Session) (ids : List Nat) (hlen : ids.length ≤ maxACKSInMACK) :
    s.handleMACK (mackPacket ids) = ackAll (ids.map (· % 2 ^ 64)) s := by
  have hl : (mackPacket ids).length = packetOverhead + 2 + (1 + 8 * ids.length) + defaultPad := by
    simp [mackPacket, List.length_flatten, Function.comp_def]
    omega
  have hn : ((mackPacket ids).getD (commandOverhead + packetOverhead) 0).toNat = ids.length := by
    simp only [mackPacket, createPacket, List.getD_eq_getElem?_getD, commandOverhead, packetOverhead]
    simp [maxACKSInMACK] at hlen ⊢
    omega
  have d₀ : (mackPacket ids).drop (3 + packetOverhead) =
      (ids.map (BigEndian.bytes 8)).flatten ++ List.replicate defaultPad 0 := by
    simp [mackPacket, createPacket, packetOverhead, List.drop_append]
  have hids : (List.range ids.length).map (fun i => readBE (mackPacket ids) (3 + packetOverhead + 8 * i) 8) =
      ids.map (· % 2 ^ 64) := by
    refine List.ext_getElem (by simp) fun i h₁ h₂ => ?_
    simp only [List.length_map, List.length_range] at h₁
    have hd : (mackPacket ids).drop (3 + packetOverhead + 8 * i) =
        BigEndian.bytes 8 ids[i] ++ (((ids.drop (i + 1)).map (BigEndian.bytes 8)).flatten ++
          List.replicate defaultPad 0) := by
      rw [← List.drop_drop, d₀, drop_ids ids _ i h₁.le, List.drop_eq_getElem_cons h₁, List.map_cons,
        List.flatten_cons, List.append_assoc]
    simp [readBE_of_drop hd]
  simp only [handleMACK, hn]
  rw [if_neg (by simp [hl, defaultPad, packetOverhead]; omega),
    if_neg (by simp [hl, defaultPad, packetOverhead, commandOverhead]; omega), hids]

/-! ### Completions of outbound messages -/

/-- `MACK` processing erases acknowledged messages, records their handlers' calls, and leaves
the inbound side alone. -/
theorem ackAll_frame (ks : List Nat) (s : Session) :
    s.completions <+: (ackAll ks s).completions ∧ (∀ e ∈ (ackAll ks s).txMsgs.entries, e ∈ s.txMsgs.entries) ∧
      (ackAll ks s).delivered = s.delivered := by
  induction ks generalizing s with
  | nil => exact ⟨List.prefix_refl _, fun _ he => he, rfl⟩
  | cons k ks ih =>
    simp only [ackAll]
    split
    · rename_i m _
      obtain ⟨h₁, h₂, h₃⟩ := ih (s.completeTX k m)
      refine ⟨?_, fun e he => ?_, by simpa [completeTX] using h₃⟩
      · refine List.IsPrefix.trans ?_ h₁
        simp only [completeTX, callHandler_eq]
        exact List.prefix_append _ _
      · have he' := h₂ e he
        simp only [completeTX, callHandler_txMsgs, SortedMap.erase, SortedMap.filter] at he'
        exact (List.mem_filter.mp he').1
    · exact ih s

/-- A MACK carrying the id of a queued message calls its handler with success. -/
theorem ackAll_completes {k : Nat} {m : OutboundMessage} (hc : m.completed ≠ .none) :
    ∀ ks (s : Session), k ∈ ks → s.txMsgs.find? k = some m →
      (some k, DeliveryStatus.success) ∈ (ackAll ks s).completions := by
  intro ks
  induction ks with
  | nil => intro s hk; cases hk
  | cons k' ks ih =>
    intro s hk hm
    by_cases hkk : k' = k
    · subst hkk
      simp only [ackAll, hm]
      refine (ackAll_frame ks _).1.subset ?_
      simp [completeTX, callHandler_eq, hc]
    · have hk' : k ∈ ks := (List.mem_cons.mp hk).resolve_left (Ne.symm hkk)
      simp only [ackAll]
      split
      · rename_i m' _
        refine ih _ hk' ?_
        simp only [completeTX, callHandler_txMsgs]
        rw [SortedMap.find?_erase_of_ne _ (Ne.symm hkk), hm]
      · exact ih s hk' hm

theorem TxBounded.of_subset {s s' : Session} (hs : TxBounded s)
    (h : ∀ e ∈ s'.txMsgs.entries, e ∈ s.txMsgs.entries) : TxBounded s' :=
  fun e he => hs e (h e he)

/-- `SendMessageBuffer` with room in the queue, a free id and a message of more than one
fragment that fits in `MAX_LINK_MSG_SIZE`: the message is queued under the next id, and its XMIT
and the DATA packets of its other fragments are sent. -/
theorem sendMessageBuffer_new (s : Session) (msg : List UInt8) (h : CompletionHandler)
    (hroom : s.txMsgs.size < maxSendQueueSize) (hk : s.txMsgs.find? s.txid.toNat = none)
    (hmsg : fragmentSize < msg.length) (hmax : msg.length ≤ maxLinkMsgSize) :
    s.sendMessageBuffer p now msg h = some (true, { s with
      txid := s.txid + 1
      txMsgs := s.txMsgs.insert s.txid.toNat
        { OutboundMessage.create p.shorthash s.txid.toNat msg now h with lastFlush := now }
      sent := s.sent ++ (OutboundMessage.create p.shorthash s.txid.toNat msg now h).xmit ::
        OutboundMessage.owed (OutboundMessage.create p.shorthash s.txid.toNat msg now h) 0
          (OutboundMessage.fragmentCount msg.length) }) := by
  have hlen : (OutboundMessage.create p.shorthash s.txid.toNat msg now h).data.length ≤ maxLinkMsgSize :=
    hmax
  simp only [sendMessageBuffer, Nat.not_le.mpr hroom, if_false, hk, Option.getD_none,
    SortedMap.emplace_of_none _ _ hk, gt_iff_lt, hmsg, if_true,
    OutboundMessage.flushUnAcked_eq _ hlen, Option.bind_eq_bind, Option.bind_some, send]
  simp [OutboundMessage.create]

/-- The DATA packet of the second fragment of a new message of more than one fragment is among
those `SendMessageBuffer` sends. -/
theorem fragment_mem_owed (shorthash : List UInt8 → ShortHash) (msgid : Nat) (msg : List UInt8)
    (now : Nat) (h : CompletionHandler) (hmsg : fragmentSize < msg.length) :
    (OutboundMessage.create shorthash msgid msg now h).fragment fragmentSize ∈
      OutboundMessage.owed (OutboundMessage.create shorthash msgid msg now h) 0
        (OutboundMessage.fragmentCount msg.length) := by
  refine List.mem_map.mpr ⟨1, List.mem_filter.mpr ⟨?_, ?_⟩, by simp⟩
  · simp only [List.mem_range', OutboundMessage.fragmentCount, fragmentSize] at hmsg ⊢
    exact ⟨1, by omega, by simp⟩
  · rw [OutboundMessage.create_test shorthash msgid msg now h (by decide)]
    rfl

end Lokinet.Proofs.Iwp
