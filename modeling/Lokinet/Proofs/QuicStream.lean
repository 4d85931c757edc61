import Lokinet.Quic.Stream

/-!
A stream's buffer refines a queue of bytes. `ByteQueue` is what the buffer is for: the bytes
given to the stream and not yet acknowledged, the first `sent` of them handed to ngtcp2. `Holds`
says how a stream lays such a queue out, in its ring or in its user buffers; every call the
stream allows keeps it, and `pending()` returns the unsent part of the queue.
-/

namespace Lokinet.Quic

/-- The bytes appended to a stream and not yet acknowledged, of which the first `sent` have been
handed out, with room for `cap` bytes in all. -/
structure ByteQueue where
  bytes : List UInt8
  sent : Nat
  cap : Nat
  sent_le : sent ≤ bytes.length

namespace ByteQueue

theorem sent_le_append (q : ByteQueue) (d : List UInt8) : q.sent ≤ (q.bytes ++ d).length := by
  have := q.sent_le
  simp only [List.length_append]
  omega

theorem sent_sub_le_drop (q : ByteQueue) (n : Nat) : q.sent - n ≤ (q.bytes.drop n).length := by
  have := q.sent_le
  simp only [List.length_drop]
  omega

def empty (cap : Nat) : ByteQueue := ⟨[], 0, cap, Nat.le_refl 0⟩

def room (q : ByteQueue) : Nat := q.cap - q.bytes.length

def push (q : ByteQueue) (d : List UInt8) : ByteQueue := ⟨q.bytes ++ d, q.sent, q.cap, q.sent_le_append d⟩

def markSent (q : ByteQueue) (n : Nat) : ByteQueue :=
  ⟨q.bytes, min (q.sent + n) q.bytes.length, q.cap, Nat.min_le_right _ _⟩

def ack (q : ByteQueue) (n : Nat) : ByteQueue := ⟨q.bytes.drop n, q.sent - n, q.cap, q.sent_sub_le_drop n⟩

/-- What each call does to the queue: an `append` that does not fit changes nothing, and
`append_any` takes what fits. -/
def step (q : ByteQueue) : Stream.Op → ByteQueue
  | .append d => if d.length ≤ q.room then q.push d else q
  | .appendAny d => q.push (d.take q.room)
  | .appendBuffer d => q.push d
  | .wrote n => q.markSent n
  | .acknowledge n => q.ack n

def run (q : ByteQueue) : List Stream.Op → ByteQueue
  | [] => q
  | op :: ops => (q.step op).run ops

/-- The calls the stream's interface allows: the copying appends on a ring, `append_buffer` on
user buffers, and no more written or acknowledged than there is. -/
def allowed (q : ByteQueue) : Stream.Op → Bool
  | .append _ | .appendAny _ => 0 < q.cap
  | .appendBuffer _ => q.cap = 0
  | .wrote n => n ≤ q.bytes.length - q.sent
  | .acknowledge n => n ≤ q.sent

def allowedRun (q : ByteQueue) : List Stream.Op → Bool
  | [] => true
  | op :: ops => q.allowed op && (q.step op).allowedRun ops

theorem cap_step (q : ByteQueue) (op : Stream.Op) : (q.step op).cap = q.cap := by
  cases op <;> simp only [step] <;> (try split) <;> rfl

/-- The capacity never changes: a stream keeps its ring, or its user buffers. -/
theorem cap_run (q : ByteQueue) (ops : List Stream.Op) : (q.run ops).cap = q.cap := by
  induction ops generalizing q with
  | nil => rfl
  | cons op ops ih => rw [run, ih, cap_step]

end ByteQueue

namespace Stream

/-- The ring holds the queue: it starts at `start`, and its first `size` cells are the bytes. -/
structure RingLayout (s : Stream) (q : ByteQueue) : Prop where
  cap_eq : q.cap = s.buffer.length
  cap_pos : 0 < s.buffer.length
  start_lt : s.start < s.buffer.length
  size_le : s.size ≤ s.buffer.length
  bytes_eq : (s.buffer.rotate s.start).take s.size = q.bytes

/-- The user buffers hold the queue: their bytes from `start` on, `start` lying in the first. -/
structure UserLayout (s : Stream) (q : ByteQueue) : Prop where
  cap_eq : q.cap = 0
  buffer_eq : s.buffer = []
  start_le : s.start ≤ (s.userBuffers.headD []).length
  bytes_eq : s.userBuffers.flatten.drop s.start = q.bytes

theorem RingLayout.isEmpty_eq {s : Stream} {q : ByteQueue} (hr : RingLayout s q) :
    s.buffer.isEmpty = false :=
  List.isEmpty_eq_false_iff.mpr (List.ne_nil_of_length_pos hr.cap_pos)

/-- Seen `k` cells after its start, the ring holds the queue without its first `k` bytes. -/
theorem RingLayout.take_rotate_add {s : Stream} {q : ByteQueue} (hr : RingLayout s q) {k : Nat}
    (hk : k ≤ s.size) :
    (s.buffer.rotate ((s.start + k) % s.buffer.length)).take (s.size - k) = q.bytes.drop k := by
  rw [List.rotate_mod, ← List.rotate_rotate,
    Ring.take_rotate hk (by simpa using hr.size_le), hr.bytes_eq]

theorem UserLayout.isEmpty_eq {s : Stream} {q : ByteQueue} (hu : UserLayout s q) :
    s.buffer.isEmpty = true := by
  simp [hu.buffer_eq]

structure Holds (s : Stream) (q : ByteQueue) : Prop where
  not_closing : s.isClosing = false
  unacked_eq : s.unackedSize = q.sent
  size_eq : s.size = q.bytes.length
  layout : RingLayout s q ∨ UserLayout s q

theorem holds_create (n : Nat) : Holds (create n) (ByteQueue.empty n) := by
  refine ⟨rfl, rfl, rfl, ?_⟩
  rcases Nat.eq_zero_or_pos n with rfl | hn
  · exact Or.inr ⟨rfl, rfl, le_refl 0, rfl⟩
  · exact Or.inl ⟨by simp [create, ByteQueue.empty], by simpa [create] using hn,
      by simpa [create] using hn, Nat.zero_le _, by simp [create, ByteQueue.empty]⟩

theorem Holds.available_eq {s : Stream} {q : ByteQueue} (h : Holds s q) : s.available = q.room := by
  rcases h.layout with hr | hu
  · simp [available, h.not_closing, hr.isEmpty_eq, ByteQueue.room, hr.cap_eq, h.size_eq]
  · simp [available, hu.buffer_eq, ByteQueue.room, hu.cap_eq]

/-- Copying into the ring after its contents appends to the queue. -/
theorem RingLayout.write {s : Stream} {q : ByteQueue} (hr : RingLayout s q) {d : List UInt8}
    (hd : s.size + d.length ≤ s.buffer.length) :
    RingLayout { s with buffer := Ring.write s.buffer ((s.start + s.size) % s.buffer.length) d,
                        size := s.size + d.length } (q.push d) := by
  have hlen : (Ring.write s.buffer ((s.start + s.size) % s.buffer.length) d).length = s.buffer.length :=
    Ring.length_write (Nat.mod_lt _ hr.cap_pos).le (by omega)
  refine ⟨?_, ?_, ?_, ?_, ?_⟩
  · simp [ByteQueue.push, hlen, hr.cap_eq]
  · simpa [hlen] using hr.cap_pos
  · simpa [hlen] using hr.start_lt
  · simpa [hlen] using hd
  · have hrot := @Ring.rotate_write_add _ s.buffer d s.start s.size hr.start_lt hd
    have htake := @Window.take_paste _ (s.buffer.rotate s.start) d s.size (by simpa using hr.size_le)
    simp only [hrot, htake, hr.bytes_eq, ByteQueue.push]

/-- `append` takes all of the data exactly when it fits in `available()`. -/
theorem Holds.append {s : Stream} {q : ByteQueue} (h : Holds s q) (hr : RingLayout s q)
    (d : List UInt8) :
    ∃ s', s.append d = some (decide (d.length ≤ s.available), s') ∧ Holds s' (q.step (.append d)) := by
  have hav := h.available_eq
  by_cases hfit : d.length ≤ q.room
  · have hd : s.size + d.length ≤ s.buffer.length := by
      have hc := hr.cap_eq
      have hs := h.size_eq
      have hle := hr.size_le
      simp only [ByteQueue.room] at hfit
      omega
    refine ⟨{ s with buffer := Ring.write s.buffer ((s.start + s.size) % s.buffer.length) d,
                     size := s.size + d.length }, ?_, ?_⟩
    · have hN : s.buffer.length ≠ 0 := Nat.pos_iff_ne_zero.mp hr.cap_pos
      simp [Stream.append, hav, hfit, hN]
    · simp only [ByteQueue.step, hfit, ↓reduceIte]
      exact ⟨h.not_closing, h.unacked_eq, by simp [ByteQueue.push, h.size_eq], Or.inl (hr.write hd)⟩
  · refine ⟨s, ?_, ?_⟩
    · simp [Stream.append, hav, hfit]
    · simpa [ByteQueue.step, hfit] using h

/-- `append_any` takes `min(data.size(), available())` bytes, the front of the data. -/
theorem Holds.appendAny {s : Stream} {q : ByteQueue} (h : Holds s q) (hr : RingLayout s q)
    (d : List UInt8) :
    ∃ s', s.appendAny d = some (min d.length s.available, s') ∧ Holds s' (q.step (.appendAny d)) := by
  have hav := h.available_eq
  -- what `append_any` passes on is the front of the data that fits
  have htrim : (if d.length > s.available then d.take s.available else d) = d.take q.room := by
    split
    · rw [hav]
    · rw [List.take_of_length_le (by omega)]
  obtain ⟨s', happ, hs'⟩ := h.append hr (d.take q.room)
  have hfit : (d.take q.room).length ≤ q.room := by simp
  refine ⟨s', ?_, ?_⟩
  · unfold Stream.appendAny
    dsimp only
    rw [htrim, happ, Option.map_some, List.length_take, hav, Nat.min_comm]
  · simpa [ByteQueue.step, hfit] using hs'

theorem length_headD_le_flatten (bufs : List (List UInt8)) :
    (bufs.headD []).length ≤ bufs.flatten.length := by
  cases bufs with
  | nil => simp
  | cons b bufs => simp

theorem Holds.appendBuffer {s : Stream} {q : ByteQueue} (h : Holds s q) (hu : UserLayout s q)
    (d : List UInt8) : Holds (s.appendBuffer d) (q.step (.appendBuffer d)) := by
  have hstart : s.start ≤ s.userBuffers.flatten.length :=
    hu.start_le.trans (length_headD_le_flatten _)
  refine ⟨h.not_closing, h.unacked_eq, ?_, Or.inr ⟨hu.cap_eq, hu.buffer_eq, ?_, ?_⟩⟩
  · simp [Stream.appendBuffer, ByteQueue.step, ByteQueue.push, h.size_eq]
  · -- the first buffer stays the first, or `d` becomes it with `start` at 0
    cases hb : s.userBuffers with
    | nil =>
      have h0 : s.start = 0 := by simpa [hb] using hu.start_le
      simp [Stream.appendBuffer, hb, h0]
    | cons b bufs => simpa [Stream.appendBuffer, hb] using hu.start_le
  · simp [Stream.appendBuffer, ByteQueue.step, ByteQueue.push, List.drop_append_of_le_length hstart,
      hu.bytes_eq]

theorem Holds.wrote {s : Stream} {q : ByteQueue} (h : Holds s q) {n : Nat}
    (hn : n ≤ q.bytes.length - q.sent) : Holds (s.wrote n) (q.step (.wrote n)) := by
  have hsent : min (q.sent + n) q.bytes.length = q.sent + n := by
    have := q.sent_le
    omega
  refine ⟨h.not_closing, ?_, h.size_eq, ?_⟩
  · simp [Stream.wrote, ByteQueue.step, ByteQueue.markSent, h.unacked_eq, hsent]
  · exact h.layout.imp (fun hr => ⟨hr.cap_eq, hr.cap_pos, hr.start_lt, hr.size_le, hr.bytes_eq⟩)
      (fun hu => ⟨hu.cap_eq, hu.buffer_eq, hu.start_le, hu.bytes_eq⟩)

/-- The loop over the user buffers drops `bytes` from the front of what they hold, as long as
they hold that many. -/
theorem ackUserBuffers_spec (bufs : List (List UInt8)) (start bytes : Nat)
    (hs : start ≤ (bufs.headD []).length) (hb : bytes ≤ (bufs.flatten.drop start).length) :
    ∃ bufs' start', ackUserBuffers bufs start bytes = some (bufs', start') ∧
      start' ≤ (bufs'.headD []).length ∧
      bufs'.flatten.drop start' = (bufs.flatten.drop start).drop bytes := by
  induction bufs generalizing start bytes with
  | nil =>
    cases bytes with
    | zero => exact ⟨[], start, rfl, hs, rfl⟩
    | succ bytes => simp at hb
  | cons b bufs ih =>
    cases bytes with
    | zero => exact ⟨b :: bufs, start, rfl, hs, rfl⟩
    | succ bytes =>
      have hsb : start ≤ b.length := by simpa using hs
      have hflat : (b :: bufs).flatten.drop start = b.drop start ++ bufs.flatten := by
        rw [List.flatten_cons, List.drop_append_of_le_length hsb]
      rw [hflat, List.length_append, List.length_drop] at hb
      by_cases hc : bytes + 1 ≥ b.length - start
      · -- the first buffer is acked to its end and popped
        obtain ⟨bufs', start', hack, hle, heq⟩ :=
          ih 0 (bytes + 1 - (b.length - start)) (Nat.zero_le _) (by rw [List.drop_zero]; omega)
        refine ⟨bufs', start', by simp [ackUserBuffers, hc, hack], hle, ?_⟩
        rw [heq, hflat, List.drop_zero, List.drop_append,
          List.drop_eq_nil_of_le (show (b.drop start).length ≤ bytes + 1 by simp; omega),
          List.nil_append, List.length_drop]
      · refine ⟨b :: bufs, start + (bytes + 1), by simp [ackUserBuffers, hc], by simp; omega, ?_⟩
        rw [List.drop_drop]

/-- `get_buffer_it` finds the buffer holding byte `offset`, and the views from there are the
bytes from `offset` on. -/
theorem getBufferIt_spec (bufs : List (List UInt8)) (offset : Nat)
    (h : offset < bufs.flatten.length) :
    ∃ b rest off, getBufferIt bufs offset = some (b :: rest, off) ∧
      b.drop off ++ rest.flatten = bufs.flatten.drop offset := by
  induction bufs generalizing offset with
  | nil => simp at h
  | cons b bufs ih =>
    by_cases hc : offset ≥ b.length
    · rw [List.flatten_cons, List.length_append] at h
      obtain ⟨b', rest, off, hget, heq⟩ := ih (offset - b.length) (by omega)
      refine ⟨b', rest, off, by simp [getBufferIt, hc, hget], ?_⟩
      rw [heq, List.flatten_cons, List.drop_append, List.drop_eq_nil_of_le hc, List.nil_append]
    · refine ⟨b, bufs, offset, by simp [getBufferIt, hc], ?_⟩
      rw [List.flatten_cons, List.drop_append_of_le_length (by omega)]

/-- Acknowledged bytes leave the front of the queue, in the ring and in the user buffers. -/
theorem Holds.acknowledge {s : Stream} {q : ByteQueue} (h : Holds s q) {n : Nat} (hn : n ≤ q.sent) :
    ∃ s', s.acknowledge n = some s' ∧ Holds s' (q.step (.acknowledge n)) := by
  have hsent := q.sent_le
  have hun := h.unacked_eq
  have hsz := h.size_eq
  have hq : q.step (.acknowledge n) = q.ack n := rfl
  rcases h.layout with hr | hu
  · refine ⟨{ s with unackedSize := s.unackedSize - n, size := s.size - n,
                     start := if s.size - n = 0 then 0 else (s.start + n) % s.buffer.length },
      by simp [Stream.acknowledge, hr.isEmpty_eq], ?_⟩
    have hsl := hr.size_le
    rw [hq]
    refine ⟨h.not_closing, by simp [ByteQueue.ack, hun], by simp [ByteQueue.ack, hsz],
      Or.inl ⟨hr.cap_eq, hr.cap_pos, ?_, by simp; omega, ?_⟩⟩
    · dsimp only
      split
      · exact hr.cap_pos
      · exact Nat.mod_lt _ hr.cap_pos
    · dsimp only
      split
      · -- everything was acknowledged
        rename_i h0
        rw [h0, List.take_zero]
        exact (List.drop_eq_nil_of_le (by omega)).symm
      · -- the ring now starts `n` cells later
        exact hr.take_rotate_add (by omega)
  · by_cases h0 : s.size - n = 0
    · refine ⟨{ s with unackedSize := s.unackedSize - n, size := s.size - n, userBuffers := [],
                       start := 0 }, by simp [Stream.acknowledge, hu.isEmpty_eq, h0], ?_⟩
      rw [hq]
      refine ⟨h.not_closing, by simp [ByteQueue.ack, hun], by simp [ByteQueue.ack, hsz],
        Or.inr ⟨hu.cap_eq, hu.buffer_eq, le_refl 0, ?_⟩⟩
      exact (List.drop_eq_nil_of_le (by omega)).symm
    · obtain ⟨bufs', start', hack, hle, heq⟩ := ackUserBuffers_spec s.userBuffers s.start n hu.start_le
        (by rw [hu.bytes_eq]; omega)
      refine ⟨{ s with unackedSize := s.unackedSize - n, size := s.size - n, userBuffers := bufs',
                       start := start' }, by simp [Stream.acknowledge, hu.isEmpty_eq, h0, hack], ?_⟩
      rw [hq]
      refine ⟨h.not_closing, by simp [ByteQueue.ack, hun], by simp [ByteQueue.ack, hsz],
        Or.inr ⟨hu.cap_eq, hu.buffer_eq, hle, ?_⟩⟩
      rw [heq, hu.bytes_eq]
      rfl

/-- `pending()` returns the unsent bytes of the queue. -/
theorem Holds.pending {s : Stream} {q : ByteQueue} (h : Holds s q) :
    ∃ views, s.pending = some views ∧ views.flatten = q.bytes.drop q.sent := by
  have hsent := q.sent_le
  have hun := h.unacked_eq
  have hsz := h.size_eq
  by_cases hr0 : s.unsent = 0
  · have hnil : q.bytes.drop q.sent = [] := by
      simp only [unsent, used, unacked] at hr0
      exact List.drop_eq_nil_of_le (by omega)
    exact ⟨[], by simp [Stream.pending, hr0], by simp [hnil]⟩
  · have hunsent : s.unsent = s.size - s.unackedSize := rfl
    rcases h.layout with hr | hu
    · refine ⟨Ring.slices s.buffer ((s.start + s.unackedSize) % s.buffer.length) s.unsent,
        by simp [Stream.pending, hr0, hr.isEmpty_eq], ?_⟩
      have hsl := hr.size_le
      rw [Ring.flatten_slices (Nat.mod_lt _ hr.cap_pos) (by rw [hunsent]; omega), hunsent,
        hr.take_rotate_add (by omega), hun]
    · -- the unsent bytes begin `unacked_size` bytes into what the buffers hold from `start`
      have hoff : s.start + s.unackedSize < s.userBuffers.flatten.length := by
        have hstart : s.start ≤ s.userBuffers.flatten.length :=
          hu.start_le.trans (length_headD_le_flatten _)
        have hlen := congrArg List.length hu.bytes_eq
        simp only [List.length_drop] at hlen
        simp only [unsent, used, unacked] at hr0
        omega
      obtain ⟨b, rest, off, hget, heq⟩ := getBufferIt_spec _ _ hoff
      refine ⟨b.drop off :: rest, by simp [Stream.pending, hr0, hu.isEmpty_eq, hget], ?_⟩
      rw [List.flatten_cons, heq, ← List.drop_drop, hu.bytes_eq, hun]

theorem Holds.ring_of_cap_pos {s : Stream} {q : ByteQueue} (h : Holds s q) (hc : 0 < q.cap) :
    RingLayout s q := by
  rcases h.layout with hr | hu
  · exact hr
  · have := hu.cap_eq
    omega

theorem Holds.user_of_cap_zero {s : Stream} {q : ByteQueue} (h : Holds s q) (hc : q.cap = 0) :
    UserLayout s q := by
  rcases h.layout with hr | hu
  · have := hr.cap_eq
    have := hr.cap_pos
    omega
  · exact hu

theorem Holds.invariants {s : Stream} {q : ByteQueue} (h : Holds s q) :
    s.unackedSize ≤ s.size ∧ s.size ≤ s.bufferSize ∧ (0 < q.cap → s.start < s.buffer.length) := by
  have hsent := q.sent_le
  refine ⟨by rw [h.unacked_eq, h.size_eq]; exact hsent, ?_, fun hc => (h.ring_of_cap_pos hc).start_lt⟩
  rcases h.layout with hr | hu
  · simpa [bufferSize, hr.isEmpty_eq] using hr.size_le
  · simp [bufferSize, hu.buffer_eq]

/-- Every call the interface allows keeps the layout, the queue stepping alike. -/
theorem Holds.step {s : Stream} {q : ByteQueue} (h : Holds s q) {op : Op}
    (ha : q.allowed op = true) : ∃ s', s.step op = some s' ∧ Holds s' (q.step op) := by
  cases op with
  | append d =>
    obtain ⟨s', happ, hs'⟩ := h.append (h.ring_of_cap_pos (by simpa [ByteQueue.allowed] using ha)) d
    exact ⟨s', by simp [Stream.step, happ], hs'⟩
  | appendAny d =>
    obtain ⟨s', happ, hs'⟩ :=
      h.appendAny (h.ring_of_cap_pos (by simpa [ByteQueue.allowed] using ha)) d
    exact ⟨s', by simp [Stream.step, happ], hs'⟩
  | appendBuffer d =>
    exact ⟨_, rfl, h.appendBuffer (h.user_of_cap_zero (by simpa [ByteQueue.allowed] using ha)) d⟩
  | wrote n => exact ⟨_, rfl, h.wrote (by simpa [ByteQueue.allowed] using ha)⟩
  | acknowledge n => exact h.acknowledge (by simpa [ByteQueue.allowed] using ha)

/-- A run of allowed calls keeps the layout; induction on the calls, one `Holds.step` each. -/
theorem Holds.run {s : Stream} {q : ByteQueue} (h : Holds s q) (ops : List Op)
    (ha : q.allowedRun ops = true) : ∃ s', s.run ops = some s' ∧ Holds s' (q.run ops) := by
  induction ops generalizing s q with
  | nil => exact ⟨s, rfl, h⟩
  | cons op ops ih =>
    simp only [ByteQueue.allowedRun, Bool.and_eq_true] at ha
    obtain ⟨s₁, hs₁, h₁⟩ := h.step ha.1
    obtain ⟨s', hs', h'⟩ := ih h₁ ha.2
    exact ⟨s', by simp [Stream.run, hs₁, hs'], h'⟩

theorem stream_refines_byte_queue (n : Nat) (ops : List Op)
    (hops : (ByteQueue.empty n).allowedRun ops = true) :
    ∃ s, (create n).run ops = some s ∧
      s.unackedSize = ((ByteQueue.empty n).run ops).sent ∧
      s.size = ((ByteQueue.empty n).run ops).bytes.length ∧
      s.unackedSize ≤ s.size ∧ s.size ≤ s.bufferSize ∧ (0 < n → s.start < s.buffer.length) ∧
      (∃ views, s.pending = some views ∧
        views.flatten = ((ByteQueue.empty n).run ops).bytes.drop s.unackedSize) ∧
      (0 < n → ∀ d, (∃ s', s.append d = some (decide (d.length ≤ s.available), s')) ∧
        ∃ s', s.appendAny d = some (min d.length s.available, s')) := by
  obtain ⟨s, hrun, h⟩ := (holds_create n).run ops hops
  have hc : ((ByteQueue.empty n).run ops).cap = n := ByteQueue.cap_run _ _
  obtain ⟨hle, hsize, hstart⟩ := h.invariants
  obtain ⟨views, hp, hv⟩ := h.pending
  refine ⟨s, hrun, h.unacked_eq, h.size_eq, hle, hsize, fun hn => hstart (by omega),
    ⟨views, hp, by rw [hv, h.unacked_eq]⟩, fun hn d => ?_⟩
  have hr := h.ring_of_cap_pos (by omega)
  obtain ⟨s₁, h₁, -⟩ := h.append hr d
  obtain ⟨s₂, h₂, -⟩ := h.appendAny hr d
  exact ⟨⟨s₁, h₁⟩, s₂, h₂⟩

/-- Four bytes of ring, acknowledged past the middle; the `append_any` then wraps around the end,
and the unsent bytes lie in two views. -/
def wrapOps : List Op := [.append [1, 2, 3], .wrote 3, .acknowledge 2, .appendAny [4, 5, 6, 7]]

theorem stream_refines_byte_queue_wrap :
    (ByteQueue.empty 4).allowedRun wrapOps = true ∧
      ∃ s, (create 4).run wrapOps = some s ∧
        s.unackedSize = ((ByteQueue.empty 4).run wrapOps).sent ∧
        s.size = ((ByteQueue.empty 4).run wrapOps).bytes.length ∧
        s.unackedSize ≤ s.size ∧ s.size ≤ s.bufferSize ∧ (0 < 4 → s.start < s.buffer.length) ∧
        (∃ views, s.pending = some views ∧
          views.flatten = ((ByteQueue.empty 4).run wrapOps).bytes.drop s.unackedSize) ∧
        (0 < 4 → ∀ d, (∃ s', s.append d = some (decide (d.length ≤ s.available), s')) ∧
          ∃ s', s.appendAny d = some (min d.length s.available, s')) :=
  ⟨by decide, stream_refines_byte_queue 4 wrapOps (by decide)⟩

example : ((create 4).run wrapOps).bind pending = some [[4], [5, 6]] := by decide

end Stream

end Lokinet.Quic
