import Lokinet.Iwp.MessageBuffer

/-!
What the message buffers of IWP do: where `CreatePacket` puts the command and the body, which
DATA packets `FlushUnAcked` sends, when `IsCompleted` and `IsTransmitted` answer and when they
throw, and that `HandleData` writes only inside the message.
-/

namespace Lokinet.Proofs.Iwp

open Lokinet.Iwp

/-! ### Packets -/

section Packets

variable (cmd : Command) (body : List UInt8) (pad : Nat)

@[simp] theorem length_createPacket :
    (createPacket cmd body pad).length = packetOverhead + 2 + body.length + pad := by
  simp [createPacket]
  omega

theorem createPacket_command : (createPacket cmd body pad)[packetOverhead + 1]? = some cmd.toByte := by
  simp [createPacket, packetOverhead]

theorem drop_createPacket :
    (createPacket cmd body pad).drop (commandOverhead + packetOverhead) = body ++ List.replicate pad 0 := by
  simp [createPacket, commandOverhead, packetOverhead, List.drop_append]

end Packets

@[simp] theorem ofByte?_toByte (c : Command) : Command.ofByte? c.toByte = some c := by
  cases c <;> rfl

theorem readBE_of_drop {pkt rest : List UInt8} {off w n : Nat}
    (h : pkt.drop off = BigEndian.bytes w n ++ rest) : readBE pkt off w = n % 256 ^ w := by
  rw [readBE, h, List.take_left' (BigEndian.length_bytes w n), BigEndian.value_bytes]

theorem readBE_lt (pkt : List UInt8) (off w : Nat) : readBE pkt off w < 256 ^ w :=
  lt_of_lt_of_le (BigEndian.value_lt _) (Nat.pow_le_pow_right (by decide) (List.length_take_le _ _))

/-! ### Acknowledgement bits -/

theorem allAcked_append_cons_false {acks : Acks} {is js : List Nat} {j : Nat}
    (his : ∀ i ∈ is, acks.test i = some true) (hj : acks.test j = some false) :
    allAcked acks (is ++ j :: js) = some false := by
  induction is with
  | nil => simp [allAcked, hj]
  | cons i is ih =>
    have hi := his i List.mem_cons_self
    simp only [List.cons_append, allAcked, hi, Option.bind_eq_bind, Option.bind_some, if_true]
    exact ih fun i' hi' => his i' (List.mem_cons_of_mem i hi')

theorem allAcked_append_cons_none {acks : Acks} {is js : List Nat} {j : Nat}
    (his : ∀ i ∈ is, acks.test i = some true) (hj : acks.test j = none) :
    allAcked acks (is ++ j :: js) = none := by
  induction is with
  | nil => simp [allAcked, hj]
  | cons i is ih =>
    have hi := his i List.mem_cons_self
    simp only [List.cons_append, allAcked, hi, Option.bind_eq_bind, Option.bind_some, if_true]
    exact ih fun i' hi' => his i' (List.mem_cons_of_mem i hi')

theorem allAcked_isSome {acks : Acks} {is : List Nat}
    (h : ∀ i ∈ is, i < maxLinkMsgSize / fragmentSize) : (allAcked acks is).isSome := by
  induction is with
  | nil => rfl
  | cons i is ih =>
    obtain ⟨t, ht⟩ := Option.isSome_iff_exists.mp
      ((Bitset.test_isSome_iff acks i).mpr (h i List.mem_cons_self))
    simp only [allAcked, ht, Option.bind_eq_bind, Option.bind_some]
    split
    · exact ih fun i' hi' => h i' (List.mem_cons_of_mem i hi')
    · rfl

theorem mem_fragments {sz i : Nat} : i ∈ fragments sz ↔ i * fragmentSize < sz := by
  simp only [fragments, List.mem_range, fragmentSize]
  omega

theorem fragments_lt {sz i : Nat} (hsz : sz ≤ maxLinkMsgSize) (hi : i ∈ fragments sz) :
    i < maxLinkMsgSize / fragmentSize := by
  have := mem_fragments.mp hi
  simp only [maxLinkMsgSize, fragmentSize] at *
  omega

/-- The fragments of a message longer than one fragment start with the first two. -/
theorem fragments_eq_zero_one {sz : Nat} (h : fragmentSize < sz) :
    ∃ rest, fragments sz = [0] ++ 1 :: rest := by
  obtain ⟨n, hn⟩ : ∃ n, (sz + fragmentSize - 1) / fragmentSize = n + 2 := by
    refine ⟨(sz + fragmentSize - 1) / fragmentSize - 2, ?_⟩
    simp only [fragmentSize] at *
    omega
  refine ⟨(List.range n).map (· + 2), ?_⟩
  rw [fragments, hn, List.range_succ_eq_map, List.range_succ_eq_map]
  simp [Function.comp_def]

/-- The first fragment alone is acknowledged: a message of more fragments is not complete. -/
theorem allAcked_first_only {acks : Acks} {sz : Nat} (h : fragmentSize < sz)
    (h0 : acks.test 0 = some true) (h1 : acks.test 1 = some false) :
    allAcked acks (fragments sz) = some false := by
  obtain ⟨rest, hr⟩ := fragments_eq_zero_one h
  rw [hr]
  exact allAcked_append_cons_false (by simpa using h0) h1

/-! ### Inbound messages -/

namespace InboundMessage

variable (m : InboundMessage) (idx : Nat) (buf : List UInt8) (now : Nat)

theorem handleData_of_gt (h : m.data.length < idx + buf.length) : m.handleData idx buf now = some m := by
  simp [InboundMessage.handleData, h]

theorem handleData_of_le (h : idx + buf.length ≤ m.data.length) :
    m.handleData idx buf now = (m.acks.set (idx / fragmentSize)).map fun acks =>
      { m with data := Window.paste m.data idx buf, acks, lastActiveAt := now } := by
  simp only [InboundMessage.handleData, gt_iff_lt, Nat.not_lt.mpr h, if_false]
  cases m.acks.set (idx / fragmentSize) <;> rfl

/-- A fragment at an offset past `MAX_LINK_MSG_SIZE` that fits in the message makes `set`
throw. -/
theorem handleData_eq_none (h : idx + buf.length ≤ m.data.length) (hidx : maxLinkMsgSize ≤ idx) :
    m.handleData idx buf now = none := by
  have hbit : maxLinkMsgSize / fragmentSize ≤ idx / fragmentSize := Nat.div_le_div_right hidx
  rw [handleData_of_le m idx buf now h, Bitset.set_eq_none hbit]
  rfl

/-- `HandleData` writes only inside `m_Data`: the data keeps its length, the fragment lands at
its offset, and every other byte stays. -/
theorem handleData_data {m m' : InboundMessage} {idx now : Nat} {buf : List UInt8}
    (h : m.handleData idx buf now = some m') :
    m'.data.length = m.data.length ∧
      (m'.data = m.data ∨ (m'.data.drop idx).take buf.length = buf) ∧
      ∀ i, (i < idx ∨ idx + buf.length ≤ i) → m'.data[i]? = m.data[i]? := by
  by_cases hfit : idx + buf.length ≤ m.data.length
  · rw [handleData_of_le m idx buf now hfit] at h
    obtain ⟨acks, -, rfl⟩ := Option.map_eq_some_iff.mp h
    refine ⟨Window.length_paste hfit, .inr ?_, fun i hi => ?_⟩
    · rw [Window.drop_paste (by omega), List.take_left' rfl]
    · simp only [Window.paste]
      rcases hi with hi | hi
      · rw [List.append_assoc, List.getElem?_append_left (by simp; omega),
          List.getElem?_take_of_lt hi]
      · rw [List.append_assoc, List.getElem?_append_right (by simp; omega),
          List.getElem?_append_right (by simp; omega), List.getElem?_drop]
        congr 1
        simp
        omega
  · rw [handleData_of_gt m idx buf now (by omega)] at h
    cases h
    exact ⟨rfl, .inl rfl, fun _ _ => rfl⟩

theorem handleData_data_second_byte :
    ∃ m', (InboundMessage.create 0 2 (ShortHash.ofBytes []) 0).handleData 1 [7] 5 = some m' ∧
      m'.data.length = 2 ∧ (m'.data = [0, 0] ∨ (m'.data.drop 1).take 1 = [7]) ∧
      ∀ i, (i < 1 ∨ 1 + 1 ≤ i) → m'.data[i]? = ([0, 0] : List UInt8)[i]? :=
  ⟨_, rfl, @handleData_data (InboundMessage.create 0 2 (ShortHash.ofBytes []) 0) _ 1 5 [7] rfl⟩

end InboundMessage

/-! ### Outbound messages -/

namespace OutboundMessage

/-- The number of fragments of a message of `sz` bytes. -/
def fragmentCount (sz : Nat) : Nat := (sz + fragmentSize - 1) / fragmentSize

/-- The DATA packets owed for the fragments `j, j + 1, …, n - 1`: one for each fragment not
acknowledged, in order. -/
def owed (m : OutboundMessage) (j n : Nat) : List Packet :=
  ((List.range' j (n - j)).filter fun i => m.acks.test i = some false).map
    fun i => m.fragment (i * fragmentSize)

theorem uint16_ofNat_add_fragment (a : Nat) :
    UInt16.ofNat (a * fragmentSize) + 1024 = UInt16.ofNat ((a + 1) * fragmentSize) := by
  rw [Nat.succ_mul, UInt16.ofNat_add]
  rfl

/-- From fragment `j` on, the loop of `FlushUnAcked` sends the DATA packets owed, when the
message fits in `MAX_LINK_MSG_SIZE` and the fuel covers the fragments left. The induction is
on the fuel, one fragment per round. -/
theorem flushFrom_eq (m : OutboundMessage) (hlen : m.data.length ≤ maxLinkMsgSize) :
    ∀ fuel j, j ≤ fragmentCount m.data.length → fragmentCount m.data.length - j < fuel →
      m.flushFrom fuel (UInt16.ofNat (j * fragmentSize)) = some (owed m j (fragmentCount m.data.length)) := by
  intro fuel
  induction fuel with
  | zero => intro j _ hf; omega
  | succ fuel ih =>
    intro j hj hf
    have hidx : (UInt16.ofNat (j * fragmentSize)).toNat = j * fragmentSize := by
      rw [UInt16.toNat_ofNat']
      simp only [fragmentCount, fragmentSize, maxLinkMsgSize] at *
      omega
    rw [OutboundMessage.flushFrom, hidx]
    by_cases hlt : j * fragmentSize < m.data.length
    · -- fragment `j` exists, so its bit is inside the width
      have hjn : j < fragmentCount m.data.length := by
        simp only [fragmentCount, fragmentSize] at *
        omega
      obtain ⟨b, hb⟩ := Option.isSome_iff_exists.mp ((Bitset.test_isSome_iff m.acks j).mpr (by
        simp only [fragmentCount, fragmentSize, maxLinkMsgSize] at *
        omega))
      have hdiv : j * fragmentSize / fragmentSize = j := Nat.mul_div_cancel j (by decide)
      have hrange : List.range' j (fragmentCount m.data.length - j) =
          j :: List.range' (j + 1) (fragmentCount m.data.length - (j + 1)) := by
        rw [List.range'_eq_cons_iff]
        exact ⟨rfl, by omega, by congr 1⟩
      rw [if_pos hlt, hdiv, hb, uint16_ofNat_add_fragment, ih (j + 1) hjn (by omega)]
      cases b <;> simp [owed, hrange, hb]
    · have hjn : j = fragmentCount m.data.length := by
        simp only [fragmentCount, fragmentSize] at *
        omega
      subst hjn
      simp [hlt, owed]

/-- `FlushUnAcked` on a message that fits in `MAX_LINK_MSG_SIZE` sends a DATA packet for each
fragment not acknowledged. -/
theorem flushUnAcked_eq (m : OutboundMessage) (hlen : m.data.length ≤ maxLinkMsgSize) (now : Nat) :
    m.flushUnAcked now = some (owed m 0 (fragmentCount m.data.length), { m with lastFlush := now }) := by
  have h := flushFrom_eq m hlen (65536 / fragmentSize + 1) 0 (Nat.zero_le _) (by
    simp only [fragmentCount, fragmentSize, maxLinkMsgSize] at *
    omega)
  simp only [OutboundMessage.flushUnAcked, Nat.zero_mul] at h ⊢
  rw [show (0 : UInt16) = UInt16.ofNat 0 from rfl, h]
  rfl

/-- A new message has its first fragment acknowledged and no other. -/
theorem create_test (shorthash : List UInt8 → ShortHash) (msgid : Nat) (data : List UInt8)
    (now : Nat) (h : CompletionHandler) {i : Nat} (hi : i < maxLinkMsgSize / fragmentSize) :
    (OutboundMessage.create shorthash msgid data now h).acks.test i = some (decide (i = 0)) := by
  have hset : (Bitset.empty : Acks).set 0 = some ⟨0 ||| BitVec.twoPow _ 0⟩ :=
    Bitset.set_of_lt _ (by decide)
  simp only [OutboundMessage.create, hset, Option.getD_some]
  by_cases h0 : i = 0
  · subst h0
    exact Bitset.test_set_self hset
  · rw [Bitset.test_set_of_ne hset h0, Bitset.test_empty hi]
    simp [h0]

end OutboundMessage

end Lokinet.Proofs.Iwp
