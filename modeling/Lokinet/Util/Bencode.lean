import Lokinet.Util.Buffer
import Lokinet.Lib.StdSet

/-!
The bencode routines of llarp/util/bencode.cpp and bencode.hpp over `llarp_buffer_t`.

The sinks the C++ readers take are closures over the object being decoded; here they pass
that object along explicitly as an accumulator, and `none` is the sink returning `false`.
The loops of `bencode_read_list`, `bencode_read_dict` and the recursion of
`bencode_discard` carry fuel; the readers start it at `size_left() + 1`.
-/

namespace Lokinet.Util

open FaultState LlarpBuffer

/-- `bencode_read_integer`: `i`, then the digits up to `e` read into a 32-byte buffer,
converted by `strtoull`. The first byte is read before any size check. -/
def bencodeReadInteger : BufferM (Option UInt64) := do
  if (← deref) ≠ 105 then return none
  advance 1
  let (len, numbuf) ← readUntil 101 31
  if len = 0 then return none
  advance 1
  return some (Decimal.strtoull (numbuf.take len))

/-- `bencode_read_string`: the length read into a 10-byte buffer by `atoi`, a skipped `:`,
then the bytes `result` points at. -/
def bencodeReadString : BufferM (Option (List UInt8)) := do
  let (len, numbuf) ← readUntil 58 9
  if len = 0 then return none
  let num := Decimal.atoi (numbuf.take len)
  if num < 0 then return none
  advance 1
  let b ← get
  if b.sizeLeft < num.toNat then return none
  advance num.toNat
  return some ((b.mem.drop b.cur).take num.toNat)

/-- `bencode_write_bytestring`: `writef("%zu:", sz)`, then the bytes. -/
def bencodeWriteBytestring (data : List UInt8) : BufferM Bool :=
  writeSeq [writef (Decimal.decimal data.length ++ [58]), write data]

/-- `bencode_write_uint64`: `writef("i%" PRIu64, i)`, then `e`. -/
def bencodeWriteUint64 (i : UInt64) : BufferM Bool :=
  writeSeq [writef (105 :: Decimal.decimal i.toNat), write [101]]

def bencodeWriteUint64Entry (name : List UInt8) (i : UInt64) : BufferM Bool :=
  writeSeq [bencodeWriteBytestring name, bencodeWriteUint64 i]

def bencodeStartList : BufferM Bool := write [108]

def bencodeStartDict : BufferM Bool := write [100]

def bencodeEnd : BufferM Bool := write [101]

/-- The loop of `bencode_read_list`: `while (size_left() && *cur != 'e')` call the sink
with `more = true`. -/
def bencodeReadListLoop {α : Type} (item : α → BufferM (Option α)) :
    Nat → α → BufferM (Option α)
  | 0, _ => failure
  | fuel + 1, acc => do
    if (← get).sizeLeft = 0 then return some acc
    if (← deref) = 101 then return some acc
    match ← item acc with
    | none => return none
    | some acc => bencodeReadListLoop item fuel acc

/-- `bencode_read_list`; `item` and `done` are the sink's `more = true` and `more = false`
branches. The byte after the loop is tested for `e` whether or not the loop ran out of bytes. -/
def bencodeReadList {α : Type} (item : α → BufferM (Option α)) (done : α → BufferM (Option α))
    (init : α) : BufferM (Option α) := do
  if (← get).sizeLeft < 2 then return none
  if (← deref) ≠ 108 then return none
  advance 1
  match ← bencodeReadListLoop item ((← get).sizeLeft + 1) init with
  | none => return none
  | some acc =>
    if (← deref) ≠ 101 then return none
    advance 1
    done acc

/-- The loop of `bencode_read_dict`: read a key string, hand it to the sink. -/
def bencodeReadDictLoop {α : Type} (entry : α → List UInt8 → BufferM (Option α)) :
    Nat → α → BufferM (Option α)
  | 0, _ => failure
  | fuel + 1, acc => do
    if (← get).sizeLeft = 0 then return some acc
    if (← deref) = 101 then return some acc
    match ← bencodeReadString with
    | none => return none
    | some key =>
      match ← entry acc key with
      | none => return none
      | some acc => bencodeReadDictLoop entry fuel acc

/-- `bencode_read_dict`; `entry` is the sink called with a key, `done` the one called with
`nullptr` after the closing `e`. -/
def bencodeReadDict {α : Type} (entry : α → List UInt8 → BufferM (Option α))
    (done : α → BufferM (Option α)) (init : α) : BufferM (Option α) := do
  if (← get).sizeLeft < 2 then return none
  if (← deref) ≠ 100 then return none
  advance 1
  match ← bencodeReadDictLoop entry ((← get).sizeLeft + 1) init with
  | none => return none
  | some acc =>
    if (← deref) ≠ 101 then return none
    advance 1
    done acc

/-- `bencode_decode_dict`: every key goes to the object's `DecodeKey`. -/
def bencodeDecodeDict {α : Type} (decodeKey : α → List UInt8 → BufferM (Option α)) (init : α) :
    BufferM (Option α) :=
  bencodeReadDict decodeKey (fun acc => pure (some acc)) init

/-- The loop of `bencode_read_dict` for a sink that writes into an object in place: the object
keeps what the sink wrote when the sink stops the read. -/
def bencodeReadDictIntoLoop {α : Type} (entry : α → List UInt8 → BufferM (α × Bool)) :
    Nat → α → BufferM (α × Bool)
  | 0, _ => failure
  | fuel + 1, acc => do
    if (← get).sizeLeft = 0 then return (acc, true)
    if (← deref) = 101 then return (acc, true)
    match ← bencodeReadString with
    | none => return (acc, false)
    | some key =>
      let (acc, ok) ← entry acc key
      if ok then bencodeReadDictIntoLoop entry fuel acc else return (acc, false)

/-- `bencode_read_dict` with a sink that writes into an object in place. -/
def bencodeReadDictInto {α : Type} (entry : α → List UInt8 → BufferM (α × Bool))
    (done : α → BufferM (α × Bool)) (init : α) : BufferM (α × Bool) := do
  if (← get).sizeLeft < 2 then return (init, false)
  if (← deref) ≠ 100 then return (init, false)
  advance 1
  let (acc, ok) ← bencodeReadDictIntoLoop entry ((← get).sizeLeft + 1) init
  if !ok then return (acc, false)
  if (← deref) ≠ 101 then return (acc, false)
  advance 1
  done acc

/-- A `bool` routine as a sink that keeps no state. -/
def asSink (x : BufferM Bool) : BufferM (Option Unit) := do
  return if (← x) then some () else none

/-- `bencode_discard`, with `fuel` bounding the nesting. An empty buffer is skipped as
`true` without consuming anything. -/
def bencodeDiscardWith : Nat → BufferM Bool
  | 0 => failure
  | fuel + 1 => do
    if (← get).sizeLeft = 0 then return true
    let c ← deref
    if c = 108 then
      return (← bencodeReadList (fun _ => asSink (bencodeDiscardWith fuel))
        (fun _ => pure (some ())) ()).isSome
    else if c = 105 then return (← bencodeReadInteger).isSome
    else if c = 100 then
      return (← bencodeReadDict (fun _ _ => asSink (bencodeDiscardWith fuel))
        (fun _ => pure (some ())) ()).isSome
    else if 48 ≤ c ∧ c ≤ 57 then return (← bencodeReadString).isSome
    else return false

def bencodeDiscard : BufferM Bool := fun b => bencodeDiscardWith (b.sizeLeft + 1) b

/-- `BEncodeWriteList`: the items between `l` and `e`. -/
def bEncodeWriteList (items : List (BufferM Bool)) : BufferM Bool :=
  writeSeq (bencodeStartList :: items ++ [bencodeEnd])

/-- `BEncodeReadList`: each item is decoded into a new element at the end of `result`. -/
def bEncodeReadList {β : Type} (item : BufferM (Option β)) (result : List β) :
    BufferM (Option (List β)) :=
  bencodeReadList
    (fun acc => do
      match ← item with
      | none => return none
      | some x => return some (acc ++ [x]))
    (fun acc => pure (some acc)) result

/-- `BEncodeReadSet`: each element is decoded into a fresh value and emplaced in the set under
the comparator `lt`; a duplicate makes the sink fail. -/
def bEncodeReadSet {β : Type} (lt : β → β → Bool) (item : BufferM (Option β)) (set : List β) :
    BufferM (Option (List β)) :=
  bencodeReadList
    (fun s => do
      match ← item with
      | none => return none
      | some x => return if (StdSet.emplace lt s x).2 then some (StdSet.emplace lt s x).1 else none)
    (fun s => pure (some s)) set

/-- The bytes of an ASCII string literal of the source. -/
def ascii (k : String) : List UInt8 := k.toList.map fun c => c.toNat.toUInt8

/-- `operator==(const llarp_buffer_t &, const char *)`: it walks the C string and stops at the
buffer's end, so it holds when the string is a prefix of the key. -/
def keyIs (key : List UInt8) (k : String) : Bool := (ascii k).isPrefixOf key

end Lokinet.Util
