import Lokinet.Proofs.IwpDelivery

/-!
Fragmentation against reassembly in IWP. A receiver handed `XMIT()` and then DATA packets that
`FlushUnAcked` cuts from the same message, in any order and with repeats, holds every fragment it
got at its offset, with its bit set in `m_Acks`. It completes exactly when every fragment is in;
it then hands the message to the link layer and answers with the bitmask of all fragments, and
that bitmask makes `IsTransmitted()` true at the sender.
-/

namespace Lokinet.Proofs.Iwp

open Lokinet.Iwp Session OutboundMessage

/-! ### Fragments -/

/-- The bytes of fragment `i`: `FragmentSize` bytes from its offset, fewer for the last. -/
def chunk (data : List UInt8) (i : Nat) : List UInt8 :=
  (data.drop (i * fragmentSize)).take fragmentSize

theorem length_chunk (data : List UInt8) (i : Nat) :
    (chunk data i).length = min fragmentSize (data.length - i * fragmentSize) := by
  simp [chunk]

/-- `XMIT()` carries the first fragment. -/
theorem take_min_eq_chunk (data : List UInt8) :
    data.take (min data.length fragmentSize) = chunk data 0 := by
  rw [chunk, Nat.zero_mul, List.drop_zero, ← List.take_take,
    List.take_of_length_le (List.length_take_le' _ _)]

/-- The DATA packet `FlushUnAcked` sends for fragment `i`. -/
theorem fragment_chunk (m : OutboundMessage) (i : Nat) :
    m.fragment (i * fragmentSize) = dataPacket (i * fragmentSize) m.msgID (chunk m.data i) := by
  rw [fragment_eq, chunk]
  split
  · rfl
  · rename_i hlast
    rw [List.take_of_length_le (by simp), List.take_of_length_le (by simp; omega)]

/-- The DATA packets `FlushUnAcked` sends are those of the fragments not acknowledged. -/
theorem flushUnAcked_fragments (m : OutboundMessage) (hlen : m.data.length ≤ maxLinkMsgSize) (now : Nat) :
    ∃ is : List Nat, (∀ i ∈ is, i < fragmentCount m.data.length ∧ m.acks.test i = some false) ∧
      m.flushUnAcked now = some (is.map fun i => m.fragment (i * fragmentSize), { m with lastFlush := now }) := by
  refine ⟨(List.range' 0 (fragmentCount m.data.length - 0)).filter fun i => m.acks.test i = some false,
    fun i hi => ?_, flushUnAcked_eq m hlen now⟩
  obtain ⟨hrange, htest⟩ := List.mem_filter.mp hi
  exact ⟨by simpa using (List.mem_range'_1.mp hrange).2, by simpa using htest⟩

theorem fragmentCount_le {sz : Nat} (hsz : sz ≤ maxLinkMsgSize) :
    fragmentCount sz ≤ maxLinkMsgSize / fragmentSize := by
  simp only [fragmentCount, fragmentSize, maxLinkMsgSize] at *
  omega

/-! ### Reassembly of one message -/

/-- What the receiver holds of message `m` when the fragments `got` are in: their bits and
their bytes. -/
structure Reassembles (m : OutboundMessage) (got : List Nat) (r : InboundMessage) : Prop where
  msgID_eq : r.msgID = m.msgID
  digset_eq : r.digset = m.digest
  length_eq : r.data.length = m.data.length
  test_eq : ∀ k < maxLinkMsgSize / fragmentSize, r.acks.test k = some (decide (k ∈ got))
  agree : ∀ j, j / fragmentSize ∈ got → r.data[j]? = m.data[j]?

section Reassembly

variable {m : OutboundMessage} {got : List Nat} {r : InboundMessage}

/-- The message `HandleXMIT` opens holds no fragment yet. -/
theorem reassembles_create (m : OutboundMessage) (now : Nat) :
    Reassembles m [] (InboundMessage.create m.msgID m.data.length m.digest now) where
  msgID_eq := rfl
  digset_eq := rfl
  length_eq := by simp [InboundMessage.create]
  test_eq k hk := by simp [InboundMessage.create, Bitset.test_empty hk]
  agree _ hj := absurd hj List.not_mem_nil

/-- `HandleData` with fragment `i` adds it: its bit and its bytes. -/
theorem Reassembles.handleData (hr : Reassembles m got r) {i : Nat}
    (hi : i < maxLinkMsgSize / fragmentSize) (hoff : i * fragmentSize ≤ m.data.length) (now : Nat) :
    ∃ r', r.handleData (i * fragmentSize) (chunk m.data i) now = some r' ∧
      Reassembles m (got ++ [i]) r' := by
  have hfit : i * fragmentSize + (chunk m.data i).length ≤ r.data.length := by
    rw [hr.length_eq, length_chunk]
    omega
  have hdiv : i * fragmentSize / fragmentSize = i := Nat.mul_div_cancel i (by decide)
  obtain ⟨acks, hset⟩ : ∃ acks, r.acks.set i = some acks := ⟨_, Bitset.set_of_lt r.acks hi⟩
  rw [InboundMessage.handleData_of_le r _ _ now hfit, hdiv, hset]
  refine ⟨_, rfl, hr.msgID_eq, hr.digset_eq, ?_, ?_, ?_⟩
  · rw [Window.length_paste hfit, hr.length_eq]
  · intro k hk
    by_cases hki : k = i
    · subst hki
      simp [Bitset.test_set_self hset]
    · rw [Bitset.test_set_of_ne hset hki, hr.test_eq k hk]
      simp [hki]
  · intro j hj
    rw [Window.getElem?_paste hfit]
    split
    · -- inside fragment `i`: the byte copied from the message
      rename_i hin
      have hlt : j - i * fragmentSize < fragmentSize := by
        rw [length_chunk] at hin
        omega
      rw [chunk, List.getElem?_take_of_lt hlt, List.getElem?_drop]
      congr 1
      omega
    · -- outside it: a fragment got before, or the bytes past the end of the message
      rename_i hout
      rcases List.mem_append.mp hj with hj | hj
      · exact hr.agree j hj
      · have hji : j / fragmentSize = i := List.mem_singleton.mp hj
        have hend : m.data.length ≤ j := by
          rw [length_chunk] at hout
          simp only [fragmentSize] at *
          omega
        rw [List.getElem?_eq_none (by rw [hr.length_eq]; exact hend), List.getElem?_eq_none hend]

theorem allAcked_of_test {acks : Acks} {f : Nat → Bool} :
    ∀ {ks : List Nat}, (∀ k ∈ ks, acks.test k = some (f k)) → allAcked acks ks = some (ks.all f)
  | [], _ => rfl
  | k :: ks, h => by
    have hk := h k List.mem_cons_self
    have hks := allAcked_of_test fun k' hk' => h k' (List.mem_cons_of_mem k hk')
    simp only [allAcked, hk, Option.bind_eq_bind, Option.bind_some, List.all_cons]
    cases f k <;> simp [hks]

/-- `IsCompleted()` holds exactly when every fragment is in. -/
theorem Reassembles.isCompleted (hr : Reassembles m got r) (hlen : m.data.length ≤ maxLinkMsgSize) :
    r.isCompleted = some (decide (∀ k < fragmentCount m.data.length, k ∈ got)) := by
  have htest : ∀ k ∈ fragments m.data.length, r.acks.test k = some (decide (k ∈ got)) :=
    fun k hk => hr.test_eq k (fragments_lt hlen hk)
  rw [InboundMessage.isCompleted, hr.length_eq, allAcked_of_test htest, Option.some.injEq,
    Bool.eq_iff_iff, decide_eq_true_iff]
  simp [fragments, fragmentCount]

/-- With every fragment in, the receiver holds the message. -/
theorem Reassembles.data_eq (hr : Reassembles m got r)
    (hall : ∀ k < fragmentCount m.data.length, k ∈ got) : r.data = m.data := by
  apply List.ext_getElem?
  intro j
  by_cases hj : j < m.data.length
  · exact hr.agree j (hall _ (by simp only [fragmentCount, fragmentSize] at *; omega))
  · rw [List.getElem?_eq_none (by rw [hr.length_eq]; omega), List.getElem?_eq_none (by omega)]

/-- `AcksBitmask()` has the bits of the fragments in and no other. -/
theorem Reassembles.testBit_acksBitmask (hr : Reassembles m got r) {k : Nat}
    (hk : k < maxLinkMsgSize / fragmentSize) : r.acksBitmask.toNat.testBit k = decide (k ∈ got) := by
  have ht := hr.test_eq k hk
  simp only [Bitset.test, hk, if_true, Option.some.injEq] at ht
  have hlt : r.acks.toNat < 2 ^ 8 := r.acks.toNat_lt
  rw [InboundMessage.acksBitmask, UInt8.toNat_ofNat', Nat.mod_eq_of_lt hlt, Bitset.toNat,
    BitVec.testBit_toNat, ht]

end Reassembly

/-- `Ack(AcksBitmask())` gives the sender the receiver's bits. -/
theorem acks_ack_acksBitmask (m : OutboundMessage) (r : InboundMessage) :
    (m.ack r.acksBitmask).acks = r.acks := by
  have hlt : r.acks.toNat < 2 ^ 8 := r.acks.toNat_lt
  rw [OutboundMessage.ack, InboundMessage.acksBitmask, UInt8.toNat_ofNat', Nat.mod_eq_of_lt hlt]
  exact Bitset.ofNat_toNat r.acks

/-- After `Ack(AcksBitmask())`, `IsTransmitted()` answers as `IsCompleted()` for a message of the
same size. -/
theorem isTransmitted_ack_acksBitmask (m : OutboundMessage) (r : InboundMessage)
    (h : m.data.length = r.data.length) : (m.ack r.acksBitmask).isTransmitted = r.isCompleted := by
  rw [OutboundMessage.isTransmitted, acks_ack_acksBitmask, InboundMessage.isCompleted, ← h]
  rfl

/-! ### The receiving session -/

section Receiver

variable (p : Parent) (now : Nat)

/-- `HandleRecvMsgCompleted` on a message whose id is new to the replay filter delivers it,
acknowledges it and closes it. -/
theorem handleRecvMsgCompleted_of_new (s : Session) {r : InboundMessage}
    (hrf : s.replayFilter.find? r.msgID = none) :
    s.handleRecvMsgCompleted now r = { s with
      replayFilter := s.replayFilter.insert r.msgID now
      delivered := s.delivered ++ [(r.msgID, r.data)]
      sent := s.sent ++ [r.ackPacket]
      rxMsgs := s.rxMsgs.erase r.msgID } := by
  simp [handleRecvMsgCompleted, SortedMap.emplace_of_none _ _ hrf, send]

/-- `HandleXMIT` on the `XMIT()` of a message whose id is new to the receiver opens it with its
first fragment, then finishes it as any fragment does. -/
theorem handleXMIT_xmit (s : Session) (m : OutboundMessage) (hlen : m.data.length ≤ maxLinkMsgSize)
    (hid : m.msgID < 2 ^ 64) (hrf : s.replayFilter.find? m.msgID = none)
    (hrx : s.rxMsgs.find? m.msgID = none) :
    s.handleXMIT p now m.xmit =
      ((InboundMessage.create m.msgID m.data.length m.digest now).handleData 0 (chunk m.data 0) now).bind
        fun r => ({ s with rxMsgs := s.rxMsgs.insert m.msgID r }).finishRecv p now r := by
  set payload := m.data.take (min m.data.length fragmentSize)
  have hpl : payload.length = min m.data.length fragmentSize := by simp [payload]
  have d₀ : m.xmit.drop (commandOverhead + packetOverhead) =
      BigEndian.bytes 2 m.data.length ++ (BigEndian.bytes 8 m.msgID ++ (m.digest.bytes ++ payload)) := by
    simp [xmit_eq, xmitPacket, drop_createPacket, payload]
  have d₁ := Window.drop_add_of_drop_eq_append d₀
  have d₂ := Window.drop_add_of_drop_eq_append d₁
  have d₃ := Window.drop_add_of_drop_eq_append d₂
  simp only [BigEndian.length_bytes, Nat.add_assoc] at d₁ d₂ d₃
  have hsz : readBE m.xmit (commandOverhead + packetOverhead) 2 = m.data.length := by
    rw [readBE_of_drop d₀]
    exact Nat.mod_eq_of_lt (by simp only [maxLinkMsgSize] at hlen; omega)
  have hrxid : readBE m.xmit (commandOverhead + packetOverhead + 2) 8 = m.msgID := by
    rw [Nat.add_assoc, readBE_of_drop d₁]
    exact Nat.mod_eq_of_lt hid
  have hh : ShortHash.ofBytes (m.xmit.drop (commandOverhead + packetOverhead + 10)) = m.digest := by
    rw [Nat.add_assoc, d₂]
    exact ShortHash.ofBytes_append m.digest payload
  have hxlen : m.xmit.length = xmitOverhead + payload.length := by
    simp [xmit_eq, xmitPacket, xmitOverhead, commandOverhead, packetOverhead, m.digest.length_eq, payload]
    omega
  have hnot : ¬ m.xmit.length < xmitOverhead := by omega
  have hshort : m.xmit.length - xmitOverhead = min m.data.length fragmentSize := by omega
  -- the first fragment is the rest of the packet after the digest
  have hdrop : m.xmit.drop (m.xmit.length - min m.data.length fragmentSize) = chunk m.data 0 := by
    have hoff : m.xmit.length - min m.data.length fragmentSize =
        commandOverhead + (packetOverhead + (2 + (8 + m.digest.bytes.length))) := by
      rw [hxlen, hpl, m.digest.length_eq]
      simp only [xmitOverhead, commandOverhead, packetOverhead]
      omega
    rw [hoff, d₃]
    exact take_min_eq_chunk m.data
  simp only [handleXMIT, hnot, if_false, hsz, hrxid, hh, hrf, hrx, Option.isSome_none,
    Bool.false_eq_true, hshort, if_true, hdrop, SortedMap.insert_insert, Option.bind_eq_bind]

variable (m : OutboundMessage) (d₀ : List (Nat × List UInt8))

/-- The receiver with message `m` open and the fragments `got` in; nothing delivered yet. -/
def Receiving (got : List Nat) (b : Session) : Prop :=
  b.replayFilter.find? m.msgID = none ∧ b.delivered = d₀ ∧
    ∃ r, b.rxMsgs.find? m.msgID = some r ∧ Reassembles m got r

/-- The receiver after `m` completed: delivered once, closed, its id in the replay filter, and
the ACKS of the complete message sent. -/
def Delivered (b : Session) : Prop :=
  b.rxMsgs.find? m.msgID = none ∧ (b.replayFilter.find? m.msgID).isSome ∧
    b.delivered = d₀ ++ [(m.msgID, m.data)] ∧
    ∃ got r, r.ackPacket ∈ b.sent ∧ Reassembles m got r ∧
      ∀ k, k ∈ got ↔ k = 0 ∨ k < fragmentCount m.data.length

/-- Where the receiver is once the fragments `got` came: delivered when they are all the
fragments, open otherwise. -/
def Phase (got : List Nat) (b : Session) : Prop :=
  ((∀ k < fragmentCount m.data.length, k ∈ got) → Delivered m d₀ b) ∧
    ((¬ ∀ k < fragmentCount m.data.length, k ∈ got) → Receiving m d₀ got b)

variable {m d₀}

/-- The end of both handlers: the fragment just in either completes the message or leaves it
open. -/
theorem finishRecv_phase (hlen : m.data.length ≤ maxLinkMsgSize) (hdig : p.shorthash m.data = m.digest)
    {b : Session} {got : List Nat} (h0 : 0 ∈ got)
    (hgot : ∀ k ∈ got, k = 0 ∨ k < fragmentCount m.data.length)
    (hrf : b.replayFilter.find? m.msgID = none) (hdel : b.delivered = d₀) {r : InboundMessage}
    (hr : Reassembles m got r) :
    ∃ b', ({ b with rxMsgs := b.rxMsgs.insert m.msgID r }).finishRecv p now r = some b' ∧
      Phase m d₀ got b' := by
  have hc := hr.isCompleted hlen
  set b₁ : Session := { b with rxMsgs := b.rxMsgs.insert m.msgID r }
  by_cases hall : ∀ k < fragmentCount m.data.length, k ∈ got
  · have hdata := hr.data_eq hall
    have hverify : r.verify p.shorthash = true := by
      simp [InboundMessage.verify, hdata, hr.digset_eq, hdig]
    have hnew : b₁.replayFilter.find? r.msgID = none := by
      rw [hr.msgID_eq]
      exact hrf
    refine ⟨b₁.handleRecvMsgCompleted now r, ?_, fun _ => ?_, fun h => absurd hall h⟩
    · simp only [finishRecv, hc, Option.bind_eq_bind, Option.bind_some, decide_eq_true hall, hverify,
        Bool.and_self, if_true]
    · rw [handleRecvMsgCompleted_of_new now _ hnew, hr.msgID_eq, hdata]
      refine ⟨SortedMap.find?_erase_self _ _, by simp, by rw [hdel], got, r, by simp, hr, fun k => ?_⟩
      constructor
      · exact hgot k
      · rintro (rfl | hk)
        · exact h0
        · exact hall k hk
  · have hinc : r.isCompleted = some false := by rw [hc, decide_eq_false hall]
    refine ⟨b₁, finishRecv_of_incomplete p now _ hinc, fun h => absurd h hall, fun _ => ?_⟩
    exact ⟨hrf, hdel, r, SortedMap.find?_insert_self _ _ _, hr⟩

theorem dispatch_xmitPacket (s : Session) (m : OutboundMessage) :
    s.dispatch p now m.xmit = s.handleXMIT p now m.xmit :=
  dispatch_xmit p now s _ 0

theorem dispatch_dataPacket (s : Session) (idx rxid : Nat) (frag : List UInt8) :
    s.dispatch p now (dataPacket idx rxid frag) = s.handleDATA p now (dataPacket idx rxid frag) :=
  dispatch_data p now s _ 0

/-- The fragments in are the first one and fragments of the message. -/
theorem inFragments_append {got : List Nat} (hgot : ∀ k ∈ got, k = 0 ∨ k < fragmentCount m.data.length)
    {i : Nat} (hi : i < fragmentCount m.data.length) :
    ∀ k ∈ got ++ [i], k = 0 ∨ k < fragmentCount m.data.length := by
  intro k hk
  rcases List.mem_append.mp hk with hk | hk
  · exact hgot k hk
  · exact .inr (List.mem_singleton.mp hk ▸ hi)

section Run

variable (hlen : m.data.length ≤ maxLinkMsgSize) (hid : m.msgID < 2 ^ 64)
  (hdig : p.shorthash m.data = m.digest)

include hlen hid hdig

/-- The `XMIT()` of a message new to the receiver brings fragment 0. -/
theorem handleXMIT_phase (b : Session) (hrf : b.replayFilter.find? m.msgID = none)
    (hrx : b.rxMsgs.find? m.msgID = none) :
    ∃ b', b.handleXMIT p now m.xmit = some b' ∧ Phase m b.delivered [0] b' := by
  obtain ⟨r, hdata, hr⟩ := (reassembles_create m now).handleData (i := 0) (by decide) (Nat.zero_le _) now
  rw [Nat.zero_mul] at hdata
  rw [List.nil_append] at hr
  rw [handleXMIT_xmit p now b m hlen hid hrf hrx, hdata, Option.bind_some]
  exact finishRecv_phase p now hlen hdig (List.mem_singleton_self 0) (by simp) hrf rfl hr

/-- A DATA packet of fragment `i` adds it while the message is open, and is answered with a
MACK once it is delivered. -/
theorem handleDATA_phase {b : Session} {got : List Nat} (h0 : 0 ∈ got)
    (hgot : ∀ k ∈ got, k = 0 ∨ k < fragmentCount m.data.length) (hb : Phase m d₀ got b) {i : Nat}
    (hi : i < fragmentCount m.data.length) :
    ∃ b', b.handleDATA p now (dataPacket (i * fragmentSize) m.msgID (chunk m.data i)) = some b' ∧
      Phase m d₀ (got ++ [i]) b' := by
  have hbit : i < maxLinkMsgSize / fragmentSize := lt_of_lt_of_le hi (fragmentCount_le hlen)
  have hidx : i * fragmentSize < 2 ^ 16 := by
    simp only [maxLinkMsgSize, fragmentSize] at hbit ⊢
    omega
  have hgot' := inFragments_append hgot hi
  by_cases hall : ∀ k < fragmentCount m.data.length, k ∈ got
  · -- delivered already: the fragment meets the replay filter
    obtain ⟨hrx, hrf, hdel, got₁, r₁, hack, hr₁, hiff⟩ := hb.1 hall
    have hall' : ∀ k < fragmentCount m.data.length, k ∈ got ++ [i] :=
      fun k hk => List.mem_append_left _ (hall k hk)
    refine ⟨_, handleDATA_replayed p now b _ hidx hid hrx hrf, fun _ => ?_, fun h => absurd hall' h⟩
    exact ⟨hrx, hrf, hdel, got₁, r₁, hack, hr₁, hiff⟩
  · obtain ⟨hrf, hdel, r, hrx, hr⟩ := hb.2 hall
    have hoff : i * fragmentSize ≤ m.data.length := by
      simp only [fragmentCount, fragmentSize] at hi ⊢
      omega
    obtain ⟨r', hdata, hr'⟩ := hr.handleData hbit hoff now
    rw [handleDATA_open p now b _ hidx hid hrx, hdata, Option.bind_some]
    exact finishRecv_phase p now hlen hdig (List.mem_append_left _ h0) hgot' hrf hdel hr'

/-- The run over DATA packets, by induction on the fragments they carry. -/
theorem dispatchAll_fragments :
    ∀ (is : List Nat) {b : Session} {got : List Nat}, 0 ∈ got →
      (∀ k ∈ got, k = 0 ∨ k < fragmentCount m.data.length) →
      (∀ i ∈ is, i < fragmentCount m.data.length) → Phase m d₀ got b →
      ∃ b', dispatchAll p now (is.map fun i => m.fragment (i * fragmentSize)) b = some b' ∧
        Phase m d₀ (got ++ is) b'
  | [], b, got, _, _, _, hb => ⟨b, rfl, by rw [List.append_nil]; exact hb⟩
  | i :: is, b, got, h0, hgot, his, hb => by
    have hi := his i List.mem_cons_self
    obtain ⟨b₁, h₁, hb₁⟩ := handleDATA_phase p now hlen hid hdig h0 hgot hb hi
    obtain ⟨b', h', hb'⟩ := dispatchAll_fragments is (List.mem_append_left _ h0)
      (inFragments_append hgot hi)
      (fun j hj => his j (List.mem_cons_of_mem i hj)) hb₁
    refine ⟨b', ?_, by rwa [List.append_assoc, List.singleton_append] at hb'⟩
    rw [List.map_cons, dispatchAll, fragment_chunk, dispatch_dataPacket, h₁]
    exact h'

end Run

end Receiver

theorem xmit_data_reassembly (p : Parent) (now : Nat) (b : Session) (m : OutboundMessage)
    (hlen : m.data.length ≤ maxLinkMsgSize) (hid : m.msgID < 2 ^ 64)
    (hdig : p.shorthash m.data = m.digest) (hrf : b.replayFilter.find? m.msgID = none)
    (hrx : b.rxMsgs.find? m.msgID = none) (is : List Nat)
    (his : ∀ i ∈ is, i < fragmentCount m.data.length) :
    ∃ b', dispatchAll p now (m.xmit :: is.map fun i => m.fragment (i * fragmentSize)) b = some b' ∧
      ((∀ k < fragmentCount m.data.length, k = 0 ∨ k ∈ is) →
        b'.delivered = b.delivered ++ [(m.msgID, m.data)] ∧ b'.rxMsgs.find? m.msgID = none ∧
        ∃ r : InboundMessage, r.ackPacket ∈ b'.sent ∧ r.isCompleted = some true ∧ r.data = m.data ∧
          (∀ k < maxLinkMsgSize / fragmentSize,
            r.acksBitmask.toNat.testBit k = decide (k = 0 ∨ k < fragmentCount m.data.length)) ∧
          (m.ack r.acksBitmask).isTransmitted = some true) ∧
      ((¬ ∀ k < fragmentCount m.data.length, k = 0 ∨ k ∈ is) →
        b'.delivered = b.delivered ∧
        ∃ r, b'.rxMsgs.find? m.msgID = some r ∧ r.isCompleted = some false ∧
          (∀ k < maxLinkMsgSize / fragmentSize, r.acksBitmask.toNat.testBit k = decide (k = 0 ∨ k ∈ is)) ∧
          (m.ack r.acksBitmask).isTransmitted = some false) := by
  obtain ⟨b₁, h₁, hb₁⟩ := handleXMIT_phase p now hlen hid hdig b hrf hrx
  obtain ⟨b', h', hb'⟩ := dispatchAll_fragments p now hlen hid hdig is (List.mem_singleton_self 0)
    (fun k hk => .inl (List.mem_singleton.mp hk)) his hb₁
  have hmem : ∀ k, k ∈ [0] ++ is ↔ k = 0 ∨ k ∈ is := by simp
  have hcov : (∀ k < fragmentCount m.data.length, k = 0 ∨ k ∈ is) ↔
      ∀ k < fragmentCount m.data.length, k ∈ [0] ++ is := by simp
  refine ⟨b', ?_, fun hall => ?_, fun hnot => ?_⟩
  · rw [dispatchAll, dispatch_xmitPacket, h₁]
    exact h'
  · -- every fragment came: the message was delivered when its last missing fragment came
    obtain ⟨hrx', -, hdel, got, r, hack, hr, hiff⟩ := hb'.1 (hcov.mp hall)
    have hall₁ : ∀ k < fragmentCount m.data.length, k ∈ got := fun k hk => (hiff k).mpr (.inr hk)
    have hdone : r.isCompleted = some true := by rw [hr.isCompleted hlen, decide_eq_true hall₁]
    refine ⟨hdel, hrx', r, hack, hdone, hr.data_eq hall₁, fun k hk => ?_, ?_⟩
    · rw [hr.testBit_acksBitmask hk]
      exact decide_eq_decide.mpr (hiff k)
    · rw [isTransmitted_ack_acksBitmask m r hr.length_eq.symm, hdone]
  · have hnot' : ¬ ∀ k < fragmentCount m.data.length, k ∈ [0] ++ is := fun h => hnot (hcov.mpr h)
    obtain ⟨-, hdel, r, hrx', hr⟩ := hb'.2 hnot'
    have hopen : r.isCompleted = some false := by rw [hr.isCompleted hlen, decide_eq_false hnot']
    refine ⟨hdel, r, hrx', hopen, fun k hk => ?_, ?_⟩
    · rw [hr.testBit_acksBitmask hk]
      exact decide_eq_decide.mpr (hmem k)
    · rw [isTransmitted_ack_acksBitmask m r hr.length_eq.symm, hopen]

/-- A message of two fragments. -/
def twoFragments : OutboundMessage :=
  OutboundMessage.create plainParent.shorthash 0 (List.replicate 2000 7) 0 .sender

theorem xmit_data_reassembly_twoFragments :
    twoFragments.data.length ≤ maxLinkMsgSize ∧ twoFragments.msgID < 2 ^ 64 ∧
    plainParent.shorthash twoFragments.data = twoFragments.digest ∧
    (Session.mkInbound plainParent []).replayFilter.find? twoFragments.msgID = none ∧
    (Session.mkInbound plainParent []).rxMsgs.find? twoFragments.msgID = none ∧
    (∀ i ∈ [1, 1], i < fragmentCount twoFragments.data.length) ∧
    ∃ b', dispatchAll plainParent 0 (twoFragments.xmit :: [1, 1].map fun i => twoFragments.fragment (i * fragmentSize))
        (Session.mkInbound plainParent []) = some b' ∧
      ((∀ k < fragmentCount twoFragments.data.length, k = 0 ∨ k ∈ [1, 1]) →
        b'.delivered = (Session.mkInbound plainParent []).delivered ++ [(twoFragments.msgID, twoFragments.data)] ∧
        b'.rxMsgs.find? twoFragments.msgID = none ∧
        ∃ r : InboundMessage, r.ackPacket ∈ b'.sent ∧ r.isCompleted = some true ∧ r.data = twoFragments.data ∧
          (∀ k < maxLinkMsgSize / fragmentSize,
            r.acksBitmask.toNat.testBit k = decide (k = 0 ∨ k < fragmentCount twoFragments.data.length)) ∧
          (twoFragments.ack r.acksBitmask).isTransmitted = some true) ∧
      ((¬ ∀ k < fragmentCount twoFragments.data.length, k = 0 ∨ k ∈ [1, 1]) →
        b'.delivered = (Session.mkInbound plainParent []).delivered ∧
        ∃ r, b'.rxMsgs.find? twoFragments.msgID = some r ∧ r.isCompleted = some false ∧
          (∀ k < maxLinkMsgSize / fragmentSize, r.acksBitmask.toNat.testBit k = decide (k = 0 ∨ k ∈ [1, 1])) ∧
          (twoFragments.ack r.acksBitmask).isTransmitted = some false) := by
  have hl : twoFragments.data.length = 2000 := List.length_replicate
  have hlen : twoFragments.data.length ≤ maxLinkMsgSize := by rw [hl]; decide
  have his : ∀ i ∈ [1, 1], i < fragmentCount twoFragments.data.length := by rw [hl]; decide
  exact ⟨hlen, by decide, rfl, rfl, rfl, his,
    xmit_data_reassembly plainParent 0 (Session.mkInbound plainParent []) twoFragments hlen (by decide) rfl rfl rfl
      [1, 1] his⟩

end Lokinet.Proofs.Iwp
