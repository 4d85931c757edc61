import Mathlib

/-!
`llarp::uint128_t` (llarp/net/uint128.hpp): a 128-bit unsigned integer kept as two 64-bit
halves, with the carries, borrows and shifts written out by hand. `huint128_t` wraps it, and
the IPv6 address and netmask arithmetic of `IPRange` goes through it.
-/

namespace Lokinet.Net

/-- `uint128_t`: the most significant half and the least significant one. -/
structure Uint128 where
  upper : UInt64
  lower : UInt64
  deriving DecidableEq, Repr

namespace Uint128

/-- `uint128_t(uint64_t lower)`. -/
def ofLower (lower : UInt64) : Uint128 := ⟨0, lower⟩

def and (a b : Uint128) : Uint128 := ⟨a.upper &&& b.upper, a.lower &&& b.lower⟩

def or (a b : Uint128) : Uint128 := ⟨a.upper ||| b.upper, a.lower ||| b.lower⟩

def xor (a b : Uint128) : Uint128 := ⟨a.upper ^^^ b.upper, a.lower ^^^ b.lower⟩

/-- `operator~`. -/
def not (a : Uint128) : Uint128 := ⟨~~~a.upper, ~~~a.lower⟩

/-- `operator bool`: some bit is set. -/
def toBool (a : Uint128) : Bool := a.lower != 0 || a.upper != 0

def beq (a b : Uint128) : Bool := a.lower == b.lower && a.upper == b.upper

def bne (a b : Uint128) : Bool := a.lower != b.lower || a.upper != b.upper

def lt (a b : Uint128) : Bool := a.upper < b.upper || (a.upper == b.upper && a.lower < b.lower)

def le (a b : Uint128) : Bool := a.upper < b.upper || (a.upper == b.upper && a.lower ≤ b.lower)

def gt (a b : Uint128) : Bool := a.upper > b.upper || (a.upper == b.upper && a.lower > b.lower)

def ge (a b : Uint128) : Bool := a.upper > b.upper || (a.upper == b.upper && a.lower ≥ b.lower)

/-- `operator++`: the upper half is incremented when the lower one wraps to zero. -/
def increment (a : Uint128) : Uint128 :=
  let lower := a.lower + 1
  if lower = 0 then ⟨a.upper + 1, lower⟩ else ⟨a.upper, lower⟩

/-- `operator+=`: the lower sum carried when it wrapped below `b.lower`. -/
def add (a b : Uint128) : Uint128 :=
  let lower := a.lower + b.lower
  let upper := if lower < b.lower then a.upper + 1 else a.upper
  ⟨upper + b.upper, lower⟩

/-- `operator-=`: the upper half borrows when `b.lower` is the larger. -/
def sub (a b : Uint128) : Uint128 :=
  let upper := if b.lower > a.lower then a.upper - 1 else a.upper
  ⟨upper - b.upper, a.lower - b.lower⟩

/-- `operator<<=`, by the five ranges of the shift. -/
def shiftLeft (a : Uint128) (shift : UInt64) : Uint128 :=
  if shift = 0 then a
  else if shift < 64 then ⟨a.upper <<< shift ||| a.lower >>> (64 - shift), a.lower <<< shift⟩
  else if shift = 64 then ⟨a.lower, 0⟩
  else if shift < 128 then ⟨a.lower <<< (shift - 64), 0⟩
  else ⟨0, 0⟩

/-- `operator>>=`, by the five ranges of the shift. -/
def shiftRight (a : Uint128) (shift : UInt64) : Uint128 :=
  if shift = 0 then a
  else if shift < 64 then ⟨a.upper >>> shift, a.lower >>> shift ||| a.upper <<< (64 - shift)⟩
  else if shift = 64 then ⟨0, a.upper⟩
  else if shift < 128 then ⟨0, a.upper >>> (shift - 64)⟩
  else ⟨0, 0⟩

end Uint128

end Lokinet.Net
