import Lokinet.Lib.Ring

/-!
The outgoing data of a QUIC stream (llarp/quic/stream.cpp). A stream holds what it has been
given to send until the peer acknowledges it, either in a ring buffer of fixed size or, when the
buffer is empty, in a queue of buffers handed over by the user. Of the bytes held, the first
`unacked_size` have been passed to ngtcp2 and the rest are pending.

The model follows a build with `NDEBUG`, as the default `RelWithDebInfo` build is: the
`assert`s are gone, and what they guarded is undefined behaviour (`none`) where it is one.
Sizes are `Nat`; the subtractions the asserts guard do not underflow in any run the results
below consider.
-/

namespace Lokinet.Quic

/-- The buffer state of a `Stream`; the user buffers are their bytes. -/
structure Stream where
  buffer : List UInt8
  userBuffers : List (List UInt8)
  start : Nat
  unackedSize : Nat
  size : Nat
  isClosing : Bool
  deriving DecidableEq

namespace Stream

/-- A stream as its constructor leaves it, with a buffer of `bufferSize` bytes; `0` puts it
in user-provided buffer mode. -/
def create (bufferSize : Nat) : Stream := ⟨List.replicate bufferSize 0, [], 0, 0, 0, false⟩

/-- `buffer_size()`: in user-provided buffer mode, the held bytes and those acked of the first
buffer. -/
def bufferSize (s : Stream) : Nat := if s.buffer.isEmpty then s.size + s.start else s.buffer.length

def available (s : Stream) : Nat :=
  if s.isClosing || s.buffer.isEmpty then 0 else s.buffer.length - s.size

def used (s : Stream) : Nat := s.size

def unacked (s : Stream) : Nat := s.unackedSize

def unsent (s : Stream) : Nat := s.used - s.unacked

/-- `append`: all of `data` or nothing. The copy starts at `(start + size) % buffer.size()` and
wraps to the front; on an empty buffer that `%` is undefined. -/
def append (s : Stream) (data : List UInt8) : Option (Bool × Stream) :=
  if data.length > s.available then some (false, s)
  else if s.buffer.length = 0 then none
  else
    let wpos := (s.start + s.size) % s.buffer.length
    some (true, { s with buffer := Ring.write s.buffer wpos data, size := s.size + data.length })

/-- `append_any`: as much of `data` as is available, and how much that was. -/
def appendAny (s : Stream) (data : List UInt8) : Option (Nat × Stream) :=
  let data := if data.length > s.available then data.take s.available else data
  (s.append data).map fun r => (data.length, r.2)

def appendBuffer (s : Stream) (data : List UInt8) : Stream :=
  { s with userBuffers := s.userBuffers ++ [data], size := s.size + data.length }

/-- The loop of `acknowledge` over the user buffers: `start` is how much of the first one is
acked, and a buffer acked to its end is popped. `front()` of an empty deque is undefined. -/
def ackUserBuffers : List (List UInt8) → Nat → Nat → Option (List (List UInt8) × Nat)
  | bufs, start, 0 => some (bufs, start)
  | [], _, _ + 1 => none
  | b :: bufs, start, bytes + 1 =>
    if bytes + 1 ≥ b.length - start then ackUserBuffers bufs 0 (bytes + 1 - (b.length - start))
    else some (b :: bufs, start + (bytes + 1))

/-- `acknowledge`: the first `bytes` held bytes are freed; an emptied ring starts over at 0. -/
def acknowledge (s : Stream) (bytes : Nat) : Option Stream :=
  let unackedSize := s.unackedSize - bytes
  let size := s.size - bytes
  if !s.buffer.isEmpty then
    some { s with unackedSize := unackedSize, size := size,
                  start := if size = 0 then 0 else (s.start + bytes) % s.buffer.length }
  else if size = 0 then
    some { s with unackedSize := unackedSize, size := size, userBuffers := [], start := 0 }
  else (ackUserBuffers s.userBuffers s.start bytes).map fun r =>
    { s with unackedSize := unackedSize, size := size, userBuffers := r.1, start := r.2 }

/-- `get_buffer_it`: the user buffers from the one holding byte `offset` on, and the offset in
it. Walking past the last buffer is undefined. -/
def getBufferIt : List (List UInt8) → Nat → Option (List (List UInt8) × Nat)
  | [], _ => none
  | b :: bufs, offset =>
    if offset ≥ b.length then getBufferIt bufs (offset - b.length) else some (b :: bufs, offset)

/-- `pending()`: the views of the unsent bytes, in order. -/
def pending (s : Stream) : Option (List (List UInt8)) :=
  let rsize := s.unsent
  if rsize = 0 then some []
  else if !s.buffer.isEmpty then
    some (Ring.slices s.buffer ((s.start + s.unackedSize) % s.buffer.length) rsize)
  else
    match getBufferIt s.userBuffers (s.start + s.unackedSize) with
    | some (b :: bufs, offset) => some (b.drop offset :: bufs)
    | _ => none

def wrote (s : Stream) (bytes : Nat) : Stream := { s with unackedSize := s.unackedSize + bytes }

/-- The calls a connection and the stream's user make. -/
inductive Op where
  | append (data : List UInt8)
  | appendAny (data : List UInt8)
  | appendBuffer (data : List UInt8)
  | wrote (bytes : Nat)
  | acknowledge (bytes : Nat)

def step (s : Stream) : Op → Option Stream
  | .append data => (s.append data).map Prod.snd
  | .appendAny data => (s.appendAny data).map Prod.snd
  | .appendBuffer data => some (s.appendBuffer data)
  | .wrote bytes => some (s.wrote bytes)
  | .acknowledge bytes => s.acknowledge bytes

def run (s : Stream) : List Op → Option Stream
  | [] => some s
  | op :: ops => (s.step op).bind fun s' => run s' ops

end Stream

end Lokinet.Quic
