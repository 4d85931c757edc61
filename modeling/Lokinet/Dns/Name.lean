import Lokinet.Util.Buffer

/-!
The DNS name codec of llarp/dns/name.cpp. A `Name_t` is the bytes of its `std::string`.
`EncodeName` drops one trailing dot, splits the rest at dots with `std::getline` and writes
each part as a length byte and its bytes, then a zero byte; `DecodeName` reads the labels
back, each followed by a dot.
-/

namespace Lokinet.Dns

open Lokinet.Util FaultState LlarpBuffer

/-- The parts after `part` that `std::getline(ss, part, delim)` extracts from the rest `s` of
the stream. A delimiter ends a part; one at the very end leaves the stream empty, and the next
call fails. -/
def getlineFrom (delim : UInt8) (part : List UInt8) : List UInt8 → List (List UInt8)
  | [] => [part]
  | c :: cs =>
    if c = delim then part :: (if cs = [] then [] else getlineFrom delim [] cs)
    else getlineFrom delim (part ++ [c]) cs

/-- `while (std::getline(ss, part, delim))`: the parts of `s`; an empty stream gives none. -/
def getlineParts (delim : UInt8) (s : List UInt8) : List (List UInt8) :=
  if s = [] then [] else getlineFrom delim [] s

/-- The end of `EncodeName`: `*buf->cur = 0; buf->cur++;`, with no check that a byte is left. -/
def encodeNameEnd : BufferM Bool := do
  store 0
  advance 1
  return true

/-- The loop of `EncodeName` over the parts: the length byte is stored before the space left
is checked, and an empty part ends the name like the last one. -/
def encodeParts : List (List UInt8) → BufferM Bool
  | [] => encodeNameEnd
  | part :: parts => do
    let l := part.length
    if l > 63 then return false
    store (UInt8.ofNat l)
    advance 1
    if (← get).sizeLeft < l then return false
    if l ≠ 0 then
      memcpy part
      advance l
      encodeParts parts
    else encodeNameEnd

/-- `EncodeName(buf, name)`. -/
def encodeName (name : List UInt8) : BufferM Bool :=
  let name := if name.getLast? = some 46 then name.dropLast else name
  encodeParts (getlineParts 46 name)

/-- The loop of `DecodeName`: the length byte is read at the cursor with no check that a byte
is left, and a label that does not fit fails; `fuel` bounds the iterations, each of which
consumes at least one byte. -/
def decodeLabels : Nat → List UInt8 → BufferM (Option (List UInt8))
  | 0, _ => failure
  | fuel + 1, acc => do
    let l ← deref
    advance 1
    if l = 0 then return some acc
    let b ← get
    if b.sizeLeft < l.toNat then return none
    advance l.toNat
    decodeLabels fuel (acc ++ (b.mem.drop b.cur).take l.toNat ++ [46])

/-- `s.find_last_of(c)`, `none` for `npos`. -/
def findLastOf (c : UInt8) : List UInt8 → Option Nat
  | [] => none
  | x :: xs =>
    match findLastOf c xs with
    | some i => some (i + 1)
    | none => if x = c then some 0 else none

/-- `DecodeName(buf, name, trimTrailingDot)`: `name.substr(0, name.find_last_of('.'))` when
trimming, where `npos` keeps the whole name. -/
def decodeName (trimTrailingDot : Bool) : BufferM (Option (List UInt8)) := do
  let b ← get
  if b.sizeLeft < 1 then return none
  match ← decodeLabels (b.sizeLeft + 1) [] with
  | none => return none
  | some name =>
    if trimTrailingDot then return some (name.take ((findLastOf 46 name).getD name.length))
    else return some name

end Lokinet.Dns
