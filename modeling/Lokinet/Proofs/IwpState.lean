import Lokinet.Proofs.IwpDelivery

/-!
The states of an IWP session. `Close` leaves `GotLIM` bound, and the completion handler that
`GotOutboundLIM` hands `SendOurLIM` stays with the queued LIM, so a closed session becomes
`Ready` again. The other half holds: a session becomes `Ready` only after a LIM carrying the
key it expects, whatever else it receives and whenever its timers run.
-/

namespace Lokinet.Proofs.Iwp

open Lokinet.Iwp Session

variable (p : Parent) (now : Nat)

/-! ### A closed session becomes ready -/

/-- `Close` changes only the state, and the packets sent. -/
theorem close_eq_with (s : Session) : ∃ sent, s.close = { s with state := .closed, sent := sent } := by
  unfold Session.close
  split
  · rename_i h
    refine ⟨s.sent, ?_⟩
    cases s
    simp only at h
    subst h
    rfl
  · exact ⟨_, rfl⟩

theorem run_append (s : Session) (es es' : List (Nat × Event)) :
    s.run p (es ++ es') = (s.run p es).bind fun s => s.run p es' := by
  induction es generalizing s with
  | nil => rfl
  | cons e es ih =>
    obtain ⟨t, e⟩ := e
    simp only [List.cons_append, run, Option.bind_eq_bind, ih]
    cases s.step p t e <;> rfl

@[simp] theorem completeTX_txMsgs (s : Session) (k : Nat) (m : OutboundMessage) :
    (s.completeTX k m).txMsgs = s.txMsgs.erase k := by
  simp [completeTX]

/-- Only the handler `GotOutboundLIM` gives our LIM changes the state when its message is done. -/
theorem completeTX_state (s : Session) (k : Nat) (m : OutboundMessage) :
    (s.completeTX k m).state = if m.completed = .ourLIM then .ready else s.state := by
  simp [completeTX, callHandler_eq]

/-- A session bound to `GotInboundLIM` that is closed becomes `Ready` when a LIM with the key
its intro announced arrives. -/
theorem closed_session_becomes_ready (s : Session) (hin : s.limHandler = .inbound) (t t' : Nat) :
    s.close.state = .closed ∧
      ∃ s', s.run p [(t, .close), (t', .gotLIM s.expectedIdent)] = some s' ∧ s'.state = .ready := by
  obtain ⟨sent, hc⟩ := close_eq_with s
  refine ⟨by rw [hc], ?_⟩
  simp [run, step, hc, gotLIM, hin, gotInboundLIM]

theorem closed_session_becomes_ready_fresh :
    (mkInbound plainParent []).close.state = .closed ∧
      ∃ s', (mkInbound plainParent []).run plainParent
        [(0, .close), (0, .gotLIM (mkInbound plainParent []).expectedIdent)] = some s' ∧
        s'.state = .ready :=
  closed_session_becomes_ready plainParent _ rfl 0 0

/-- `GotOutboundLIM` on the LIM of the router we dialed queues our LIM under the next id, with
the handler that makes the session ready. -/
theorem gotLIM_outbound (s : Session) {d : List UInt8} (hout : s.limHandler = .outbound)
    (hlim : p.limData = some d) (hd : fragmentSize < d.length) (hdmax : d.length ≤ maxLinkMsgSize)
    (hroom : s.txMsgs.size < maxSendQueueSize) (hk : s.txMsgs.find? s.txid.toNat = none) :
    ∃ sent, s.gotLIM p now s.remotePubKey = some { s with
      limHandler := .reneg
      txid := s.txid + 1
      txMsgs := s.txMsgs.insert s.txid.toNat
        { OutboundMessage.create p.shorthash s.txid.toNat d now .ourLIM with lastFlush := now }
      sent := sent } := by
  have hsend := sendMessageBuffer_new p now { s with limHandler := .reneg } d .ourLIM hroom hk hd hdmax
  simp only [gotLIM, hout, gotOutboundLIM, ne_eq, not_true_eq_false, if_false, sendOurLIM, hlim]
  rw [hsend]
  exact ⟨_, rfl⟩

/-- A closed session with nothing queued hands a packet that decrypts to our protocol to the
plaintext queue: `Recv_LL` in `Closed` still queues it, and `Pump` decrypts it. -/
theorem closed_recvLL_pump (s : Session) {raw pkt : Packet} (hc : s.state = .closed)
    (hq : s.decryptNext = []) (hpt : s.plaintextRecv = [])
    (hraw : decryptMessageInPlace p s.sessionKey raw = some pkt)
    (hv : pkt[packetOverhead]? = some llarpProtoVersion) :
    s.run p [(now, .recvLL raw), (now, .pump)] = some { s with plaintextRecv := [[pkt]] } := by
  have hd : (decryptMessageInPlace p s.sessionKey raw).filter
      (fun d => decide (d[packetOverhead]? = some llarpProtoVersion)) = some pkt := by
    rw [hraw]
    simp [hv]
  simp [run, step, recvLL, hc, hq, pump, decryptWorker, hd, hpt, plaintextQueueSize]

/-- The MACK for our LIM, handled from the plaintext queue, runs the handler `GotOutboundLIM`
gave it and makes the session ready. -/
theorem handlePlaintext_ourLIM (s : Session) {k : Nat} {m : OutboundMessage}
    (hpt : s.plaintextRecv = [[mackPacket [k]]]) (hm : s.txMsgs.find? k = some m)
    (hc : m.completed = .ourLIM) (hk : k < 2 ^ 64) (hb : TxBounded s) :
    ∃ s', s.handlePlaintext p now = some s' ∧ s'.state = .ready := by
  set s₀ : Session := { s with plaintextRecv := [] }
  have hack : s₀.handleMACK (mackPacket [k]) = s₀.completeTX k m := by
    rw [handleMACK_mackPacket s₀ [k] (by simp [maxACKSInMACK]), List.map_singleton,
      Nat.mod_eq_of_lt hk]
    simp [ackAll, s₀, hm]
  have hb' : TxBounded (s₀.completeTX k m).sendMACK := by
    rw [sendMACK_frame]
    refine TxBounded.of_subset hb fun e he => ?_
    simp only [completeTX_txMsgs] at he
    exact SortedMap.mem_of_mem_erase _ _ he
  obtain ⟨s', hp, hf⟩ := pump_frame p now _ hb'
  refine ⟨s', ?_, ?_⟩
  · rw [handlePlaintext, hpt, List.flatten_singleton, handlePlaintextPackets_singleton, mackPacket,
      dispatch_mack, ← mackPacket, Option.bind_some, hack]
    exact hp
  · rw [hf.state, sendMACK_frame, completeTX_state, if_pos hc]

/-- The completion of our LIM after `Close`: an outbound session answers the LIM of the router
it dialed with its own, is closed, and the MACK for our LIM then arrives. -/
theorem lim_acknowledged_after_close (s : Session) {d raw : List UInt8}
    (hout : s.limHandler = .outbound) (hlim : p.limData = some d) (hd : fragmentSize < d.length)
    (hdmax : d.length ≤ maxLinkMsgSize) (hroom : s.txMsgs.size < maxSendQueueSize)
    (hk : s.txMsgs.find? s.txid.toNat = none) (hq : s.decryptNext = []) (hpt : s.plaintextRecv = [])
    (hb : TxBounded s) (hraw : decryptMessageInPlace p s.sessionKey raw = some (mackPacket [s.txid.toNat])) :
    ∃ s', s.run p [(now, .gotLIM s.remotePubKey), (now, .close), (now, .recvLL raw), (now, .pump),
      (now, .handlePlaintext)] = some s' ∧ s'.state = .ready := by
  set k := s.txid.toNat
  set m := { OutboundMessage.create p.shorthash k d now .ourLIM with lastFlush := now }
  -- `GotOutboundLIM` queues our LIM, then `Close`
  obtain ⟨sent, h₁⟩ := gotLIM_outbound p now s hout hlim hd hdmax hroom hk
  set s₁ : Session := { s with
    limHandler := .reneg
    txid := s.txid + 1
    txMsgs := s.txMsgs.insert k m
    sent := sent }
  obtain ⟨sent', h₂⟩ := close_eq_with s₁
  set s₂ : Session := { s₁ with state := .closed, sent := sent' }
  -- the MACK for it arrives at the closed session and is decrypted
  have hv : (mackPacket [k])[packetOverhead]? = some llarpProtoVersion := by
    simp [mackPacket, createPacket, packetOverhead]
  have h₃ := closed_recvLL_pump p now s₂ rfl hq hpt hraw hv
  have hb₃ : TxBounded { s₂ with plaintextRecv := [[mackPacket [k]]] } := TxBounded.insert hb k hdmax
  obtain ⟨s', h₄, hready⟩ := handlePlaintext_ourLIM p now { s₂ with plaintextRecv := [[mackPacket [k]]] }
    rfl (SortedMap.find?_insert_self _ _ _) rfl s.txid.toNat_lt hb₃
  refine ⟨s', ?_, hready⟩
  have hrun : s.run p [(now, .gotLIM s.remotePubKey), (now, .close)] = some s₂ := by
    simp [run, step, h₁, h₂, s₂]
  rw [show [(now, Event.gotLIM s.remotePubKey), (now, .close), (now, .recvLL raw), (now, .pump),
      (now, .handlePlaintext)] = [(now, .gotLIM s.remotePubKey), (now, .close)] ++
        ([(now, .recvLL raw), (now, .pump)] ++ [(now, .handlePlaintext)]) from rfl,
    run_append, hrun, Option.bind_some, run_append, h₃, Option.bind_some]
  simp [run, step, h₄]

/-! ### Ready only through an authenticated LIM

The invariant is that the session is not ready and no queued message carries the handler of
`GotOutboundLIM`. Every event keeps it but a LIM handed to `GotLIM` with the key the session
expects. -/

/-- No outbound message carries the completion handler of `GotOutboundLIM`. -/
def NoOurLIM (txs : SortedMap Nat OutboundMessage) : Prop :=
  ∀ e ∈ txs.entries, e.2.completed ≠ .ourLIM

namespace NoOurLIM

variable {txs : SortedMap Nat OutboundMessage}

theorem insert (h : NoOurLIM txs) (k : Nat) {m : OutboundMessage} (hm : m.completed ≠ .ourLIM) :
    NoOurLIM (txs.insert k m) := by
  intro e he
  rcases SortedMap.mem_insert _ _ _ he with rfl | he
  · exact hm
  · exact h e he

theorem erase (h : NoOurLIM txs) (k : Nat) : NoOurLIM (txs.erase k) :=
  fun e he => h e (SortedMap.mem_of_mem_erase _ _ he)

theorem emplace (h : NoOurLIM txs) (k : Nat) {m : OutboundMessage} (hm : m.completed ≠ .ourLIM) :
    NoOurLIM (txs.emplace k m).1 := by
  unfold SortedMap.emplace
  split
  · exact h
  · exact h.insert k hm

theorem find (h : NoOurLIM txs) {k : Nat} {m : OutboundMessage} (hk : txs.find? k = some m) :
    m.completed ≠ .ourLIM :=
  h (k, m) ((SortedMap.find?_eq_some_iff _).mp hk)

end NoOurLIM

/-- A session that is not `Ready` and holds no LIM of ours awaiting its acknowledgement. -/
structure Calm (s : Session) : Prop where
  state_ne : s.state ≠ .ready
  noOurLIM : NoOurLIM s.txMsgs

/-- A LIM that `GotLIM` acts on: the key the intro announced on an inbound session, the key we
dialed on an outbound one. -/
def Authenticated (s : Session) (pk : List UInt8) : Prop :=
  (s.limHandler = .inbound ∧ pk = s.expectedIdent) ∨ (s.limHandler = .outbound ∧ pk = s.remotePubKey)

@[simp] theorem send_state (s : Session) (pkt : Packet) : (s.send pkt).state = s.state := rfl

@[simp] theorem send_txMsgs (s : Session) (pkt : Packet) : (s.send pkt).txMsgs = s.txMsgs := rfl

theorem flushUnAcked_completed {m m' : OutboundMessage} {pkts : List Packet}
    (h : m.flushUnAcked now = some (pkts, m')) : m'.completed = m.completed := by
  unfold OutboundMessage.flushUnAcked at h
  obtain ⟨_, -, h⟩ := Option.bind_eq_some_iff.mp h
  cases h
  rfl

/-! The handlers of received data touch neither the state nor the outbound messages. -/

theorem finishRecv_keeps {s s' : Session} {m : InboundMessage} (h : s.finishRecv p now m = some s') :
    s'.state = s.state ∧ s'.txMsgs = s.txMsgs := by
  obtain ⟨done, -, h⟩ := Option.bind_eq_some_iff.mp h
  split at h
  · cases h
    simp only [handleRecvMsgCompleted]
    split <;> exact ⟨rfl, rfl⟩
  · cases h
    exact ⟨rfl, rfl⟩

theorem handleXMIT_keeps {s s' : Session} {pkt : Packet} (h : s.handleXMIT p now pkt = some s') :
    s'.state = s.state ∧ s'.txMsgs = s.txMsgs := by
  unfold Session.handleXMIT at h
  dsimp only at h
  split at h
  · cases h; exact ⟨rfl, rfl⟩
  split at h
  · cases h; exact ⟨rfl, rfl⟩
  split at h
  · cases h; exact ⟨rfl, rfl⟩
  -- a new message: the short XMIT may complete it at once
  split at h
  · obtain ⟨_, -, h⟩ := Option.bind_eq_some_iff.mp h
    obtain ⟨h₁, h₂⟩ := finishRecv_keeps p now h
    exact ⟨h₁, h₂⟩
  · cases h; exact ⟨rfl, rfl⟩

theorem handleDATA_keeps {s s' : Session} {pkt : Packet} (h : s.handleDATA p now pkt = some s') :
    s'.state = s.state ∧ s'.txMsgs = s.txMsgs := by
  unfold Session.handleDATA at h
  dsimp only at h
  split at h
  · cases h; exact ⟨rfl, rfl⟩
  split at h
  · split at h <;> (cases h; exact ⟨rfl, rfl⟩)
  · obtain ⟨_, -, h⟩ := Option.bind_eq_some_iff.mp h
    obtain ⟨h₁, h₂⟩ := finishRecv_keeps p now h
    exact ⟨h₁, h₂⟩

namespace Calm

variable {p now}

theorem of_keeps {s s' : Session} (hs : Calm s) (h : s'.state = s.state ∧ s'.txMsgs = s.txMsgs) :
    Calm s' :=
  ⟨h.1 ▸ hs.state_ne, h.2 ▸ hs.noOurLIM⟩

/-- A handler other than that of `GotOutboundLIM`, or a failed delivery, leaves the state. -/
theorem callHandler {s : Session} (hs : Calm s) {k : Option Nat} {h : CompletionHandler}
    {st : DeliveryStatus} (hh : h ≠ .ourLIM ∨ st ≠ .success) : Calm (s.callHandler k h st) := by
  refine ⟨?_, by simpa using hs.noOurLIM⟩
  rw [callHandler_eq, if_neg (by tauto)]
  exact hs.state_ne

theorem completeTX {s : Session} (hs : Calm s) (k : Nat) {m : OutboundMessage}
    (hm : m.completed ≠ .ourLIM) : Calm (s.completeTX k m) := by
  refine ⟨?_, ?_⟩
  · rw [completeTX_state, if_neg hm]
    exact hs.state_ne
  · rw [completeTX_txMsgs]
    exact hs.noOurLIM.erase k

theorem ackAll : ∀ (ks : List Nat) {s : Session}, Calm s → Calm (ackAll ks s)
  | [], _, hs => hs
  | k :: ks, s, hs => by
    simp only [Session.ackAll]
    split
    · rename_i m hm
      exact ackAll ks (hs.completeTX k (hs.noOurLIM.find hm))
    · exact ackAll ks hs

theorem handleMACK {s : Session} (hs : Calm s) (pkt : Packet) : Calm (s.handleMACK pkt) := by
  unfold Session.handleMACK
  dsimp only
  split
  · exact hs
  split
  · exact hs
  · exact hs.ackAll _

theorem handleACKS {s s' : Session} (hs : Calm s) {pkt : Packet} (h : s.handleACKS now pkt = some s') :
    Calm s' := by
  unfold Session.handleACKS at h
  dsimp only at h
  split at h
  · cases h; exact hs
  split at h
  · cases h; exact hs
  rename_i m hm
  have hm' : m.completed ≠ .ourLIM := hs.noOurLIM.find hm
  obtain ⟨done, -, h⟩ := Option.bind_eq_some_iff.mp h
  split at h
  · cases h
    exact hs.completeTX _ hm'
  · -- not all acknowledged: the missing fragments are sent again
    obtain ⟨⟨pkts, m'⟩, hf, h⟩ := Option.bind_eq_some_iff.mp h
    cases h
    refine ⟨hs.state_ne, hs.noOurLIM.insert _ ?_⟩
    rw [flushUnAcked_completed now hf]
    exact hm'

theorem close {s : Session} (hs : Calm s) : Calm s.close := by
  obtain ⟨sent, hc⟩ := close_eq_with s
  rw [hc]
  exact ⟨by simp, hs.noOurLIM⟩

theorem dispatch {s s' : Session} (hs : Calm s) {pkt : Packet} (h : s.dispatch p now pkt = some s') :
    Calm s' := by
  unfold Session.dispatch at h
  split at h
  · cases h
  split at h
  · exact hs.of_keeps (handleXMIT_keeps p now h)
  · exact hs.of_keeps (handleDATA_keeps p now h)
  · exact hs.handleACKS h
  · cases h; exact hs
  · cases h
    unfold Session.handleNACK
    split
    · exact hs
    · split <;> exact ⟨hs.state_ne, hs.noOurLIM⟩
  · cases h; exact hs.close
  · cases h; exact hs.handleMACK _
  · cases h; exact hs

theorem dispatchAll : ∀ (pkts : List Packet) {s s' : Session}, Calm s →
    s.dispatchAll p now pkts = some s' → Calm s'
  | [], _, _, hs, h => by cases h; exact hs
  | pkt :: pkts, _, _, hs, h => by
    obtain ⟨s₁, h₁, h⟩ := Option.bind_eq_some_iff.mp h
    exact dispatchAll pkts (hs.dispatch h₁) h

theorem flushDue : ∀ (es : List (Nat × OutboundMessage)) {s s' : Session}, Calm s →
    (∀ e ∈ es, e.2.completed ≠ .ourLIM) → Session.flushDue now es s = some s' → Calm s'
  | [], _, _, hs, _, h => by cases h; exact hs
  | (k, m) :: es, s, _, hs, hes, h => by
    have hes' := fun e he => hes e (List.mem_cons_of_mem (k, m) he)
    simp only [Session.flushDue] at h
    split at h
    · obtain ⟨⟨pkts, m'⟩, hf, h⟩ := Option.bind_eq_some_iff.mp h
      refine flushDue es ?_ hes' h
      refine ⟨hs.state_ne, hs.noOurLIM.insert k ?_⟩
      rw [flushUnAcked_completed now hf]
      exact hes (k, m) List.mem_cons_self
    · exact flushDue es hs hes' h

theorem pump {s s' : Session} (hs : Calm s) (h : s.pump p now = some s') : Calm s' := by
  unfold Session.pump at h
  dsimp only at h
  split at h
  · -- the ACKS loop keeps the state and the outbound messages, the flush loop the handlers
    obtain ⟨s₁, h₁, h⟩ := Option.bind_eq_some_iff.mp h
    obtain ⟨hf, ht⟩ := sendDueACKS_frame now s.rxMsgs.entries s (entries_rx s)
    have ha : Calm (sendDueACKS now s.rxMsgs.entries s) := hs.of_keeps ⟨hf.state, ht⟩
    have hc₁ := flushDue _ ha ha.noOurLIM h₁
    split at h <;> (cases h; exact ⟨hc₁.state_ne, hc₁.noOurLIM⟩)
  · obtain ⟨s₁, h₁, h⟩ := Option.bind_eq_some_iff.mp h
    cases h₁
    split at h <;> (cases h; exact ⟨hs.state_ne, hs.noOurLIM⟩)

theorem handlePlaintextPackets {s s' : Session} (hs : Calm s) {pkts : List Packet}
    (h : s.handlePlaintextPackets p now pkts = some s') : Calm s' := by
  obtain ⟨s₁, h₁, h⟩ := Option.bind_eq_some_iff.mp h
  have hc₁ := dispatchAll pkts hs h₁
  exact pump (show Calm s₁.sendMACK from ⟨hc₁.state_ne, hc₁.noOurLIM⟩) h

theorem handlePlaintext {s s' : Session} (hs : Calm s) (h : s.handlePlaintext p now = some s') :
    Calm s' :=
  handlePlaintextPackets (show Calm { s with plaintextRecv := [] } from ⟨hs.state_ne, hs.noOurLIM⟩) h

theorem timeoutTX : ∀ (es : List (Nat × OutboundMessage)) {s : Session}, Calm s →
    Calm (Session.timeoutTX now es s)
  | [], _, hs => hs
  | (k, m) :: es, s, hs => by
    simp only [Session.timeoutTX]
    split
    · -- the handler is told the message was dropped, which never makes the session ready
      have hc : Calm (s.callHandler (some k) m.completed .dropped) := hs.callHandler (.inr (by decide))
      exact timeoutTX es ⟨hc.state_ne, hc.noOurLIM.erase k⟩
    · exact timeoutTX es hs

theorem tick {s : Session} (hs : Calm s) : Calm (s.tick now) := by
  have h₁ : Calm (Session.timeoutTX now s.txMsgs.entries s) := hs.timeoutTX s.txMsgs.entries
  obtain ⟨hst, htx, -⟩ := timeoutRX_keeps now (Session.timeoutTX now s.txMsgs.entries s).rxMsgs.entries
    (Session.timeoutTX now s.txMsgs.entries s)
  have h₂ := h₁.of_keeps ⟨hst, htx⟩
  exact ⟨h₂.state_ne, h₂.noOurLIM⟩

theorem sendMessageBuffer {s s' : Session} (hs : Calm s) {msg : List UInt8} {h : CompletionHandler}
    (hh : h ≠ .ourLIM) {ok : Bool} (hsend : s.sendMessageBuffer p now msg h = some (ok, s')) :
    Calm s' := by
  unfold Session.sendMessageBuffer at hsend
  split at hsend
  · cases hsend
    exact hs.callHandler (.inl hh)
  -- the message under the next id is the one already there or the new one
  have hm : ((s.txMsgs.find? s.txid.toNat).getD
      (OutboundMessage.create p.shorthash s.txid.toNat msg now h)).completed ≠ .ourLIM := by
    cases hf : s.txMsgs.find? s.txid.toNat with
    | none => exact hh
    | some m => exact hs.noOurLIM.find hf
  have hq : NoOurLIM (s.txMsgs.emplace s.txid.toNat
      (OutboundMessage.create p.shorthash s.txid.toNat msg now h)).1 := hs.noOurLIM.emplace _ hh
  split at hsend
  · obtain ⟨⟨pkts, m'⟩, hf, hsend⟩ := Option.bind_eq_some_iff.mp hsend
    cases hsend
    refine ⟨hs.state_ne, hq.insert _ ?_⟩
    rw [flushUnAcked_completed now hf]
    exact hm
  · cases hsend
    exact ⟨hs.state_ne, hq⟩

theorem sendOurLIM {s s' : Session} (hs : Calm s) {h : CompletionHandler} (hh : h ≠ .ourLIM)
    (hsend : s.sendOurLIM p now h = some s') : Calm s' := by
  unfold Session.sendOurLIM at hsend
  split at hsend
  · cases hsend; exact hs
  · obtain ⟨⟨ok, s₁⟩, h₁, rfl⟩ := Option.map_eq_some_iff.mp hsend
    exact hs.sendMessageBuffer hh h₁

/-! The handshake moves a session only between `Initial`, `Introduction` and `LinkIntro`. -/

theorem handleGotIntro {s : Session} (hs : Calm s) (pkt : Packet) : Calm (s.handleGotIntro p pkt) := by
  unfold Session.handleGotIntro
  dsimp only
  split
  · exact hs
  split
  · exact ⟨hs.state_ne, hs.noOurLIM⟩
  split
  · exact ⟨hs.state_ne, hs.noOurLIM⟩
  · exact ⟨by simp, hs.noOurLIM⟩

theorem handleCreateSessionRequest {s s' : Session} (hs : Calm s) {pkt : Packet}
    (h : s.handleCreateSessionRequest p now pkt = some s') : Calm s' := by
  unfold Session.handleCreateSessionRequest at h
  split at h
  · cases h; exact hs
  split at h
  · cases h; exact hs
  split at h
  · cases h; exact hs
  · have hl : Calm { s with state := .linkIntro } := ⟨by simp, hs.noOurLIM⟩
    exact hl.sendOurLIM (by decide) h

theorem handleGotIntroAck {s : Session} (hs : Calm s) (pkt : Packet) :
    Calm (s.handleGotIntroAck p pkt) := by
  unfold Session.handleGotIntroAck
  split
  · exact hs
  split
  · exact hs
  · exact ⟨by simp, hs.noOurLIM⟩

theorem start {s : Session} (hs : Calm s) (n : List UInt8) : Calm (s.start p n) := by
  unfold Session.start Session.generateAndSendIntro
  dsimp only
  split
  · exact hs
  split
  · exact ⟨by simp, hs.noOurLIM⟩
  · exact ⟨by simp, hs.noOurLIM⟩

theorem recvLL {s s' : Session} (hs : Calm s) {pkt : Packet} {ok : Bool}
    (h : s.recvLL p now pkt = some (ok, s')) : Calm s' := by
  unfold Session.recvLL at h
  split at h
  · -- `Initial`: only an inbound session takes the intro
    split at h
    · split at h
      · cases h; exact hs.handleGotIntro _
      · cases h; exact hs
    · cases h; exact hs
  · split at h
    · obtain ⟨s₁, h₁, h⟩ := Option.map_eq_some_iff.mp h
      cases h
      exact hs.handleCreateSessionRequest h₁
    · cases h; exact hs.handleGotIntroAck _
  · cases h
    exact ⟨hs.state_ne, hs.noOurLIM⟩

/-- `GotLIM` keeps a calm session calm unless the LIM carries the key the session expects. -/
theorem gotLIM {s s' : Session} (hs : Calm s) {pk : List UInt8} (h : s.gotLIM p now pk = some s') :
    Calm s' ∨ Authenticated s pk := by
  unfold Session.gotLIM at h
  split at h
  · rename_i hin
    cases h
    unfold Session.gotInboundLIM
    split
    · exact .inl hs
    · rename_i hpk
      exact .inr (.inl ⟨hin, not_not.mp hpk⟩)
  · rename_i hout
    unfold Session.gotOutboundLIM at h
    split at h
    · cases h; exact .inl hs
    · rename_i hpk
      exact .inr (.inr ⟨hout, not_not.mp hpk⟩)
  · cases h; exact .inl hs

/-- One event keeps a calm session calm, unless it is a LIM with the key the session expects. -/
theorem step {s s' : Session} (hs : Calm s) {e : Event} (h : s.step p now e = some s') :
    Calm s' ∨ ∃ pk, e = .gotLIM pk ∧ Authenticated s pk := by
  cases e with
  | recvLL pkt =>
    obtain ⟨⟨ok, s₁⟩, h₁, rfl⟩ := Option.map_eq_some_iff.mp h
    exact .inl (hs.recvLL h₁)
  | handlePlaintext => exact .inl (hs.handlePlaintext h)
  | gotLIM pk =>
    rcases hs.gotLIM h with hc | ha
    · exact .inl hc
    · exact .inr ⟨pk, rfl, ha⟩
  | sendMessage msg =>
    obtain ⟨⟨ok, s₁⟩, h₁, rfl⟩ := Option.map_eq_some_iff.mp h
    exact .inl (hs.sendMessageBuffer (by decide) h₁)
  | tick => cases h; exact .inl hs.tick
  | pump => exact .inl (hs.pump h)
  | close => cases h; exact .inl hs.close
  | start n => cases h; exact .inl (hs.start n)

end Calm

/-- A session that is not ready and holds no LIM of ours becomes `Ready` in a run only after a
LIM with the key it expects at that point: the intro's key on an inbound session, the dialed
one on an outbound session. -/
theorem ready_only_through_authenticated_lim (s : Session) (evs : List (Nat × Event)) {s' : Session}
    (hs : Calm s) (hrun : s.run p evs = some s') (hready : s'.state = .ready) :
    ∃ pre t pk post s₁, evs = pre ++ (t, .gotLIM pk) :: post ∧ s.run p pre = some s₁ ∧
      Authenticated s₁ pk := by
  induction evs generalizing s with
  | nil =>
    cases hrun
    exact absurd hready hs.state_ne
  | cons e evs ih =>
    obtain ⟨t, e⟩ := e
    simp only [run, Option.bind_eq_bind] at hrun
    obtain ⟨s₁, h₁, h₂⟩ := Option.bind_eq_some_iff.mp hrun
    rcases hs.step h₁ with hc | ⟨pk, rfl, hpk⟩
    · -- calm after the first event: the LIM comes later
      obtain ⟨pre, t', pk, post, s₂, rfl, hpre, hauth⟩ := ih s₁ hc h₂
      refine ⟨(t, e) :: pre, t', pk, post, s₂, rfl, ?_, hauth⟩
      simp [run, h₁, hpre]
    · exact ⟨[], t, pk, evs, s, rfl, rfl, hpk⟩

theorem ready_only_through_authenticated_lim_inbound :
    ∃ pre t pk post s₁,
      [(0, Event.close), (0, .gotLIM (mkInbound plainParent []).expectedIdent)] =
        pre ++ (t, .gotLIM pk) :: post ∧
      (mkInbound plainParent []).run plainParent pre = some s₁ ∧ Authenticated s₁ pk :=
  ready_only_through_authenticated_lim plainParent (mkInbound plainParent []) _
    ⟨by decide, by intro e he; cases he⟩ rfl rfl

end Lokinet.Proofs.Iwp
