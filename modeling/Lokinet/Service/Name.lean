import Lokinet.Util.Str
import Lokinet.Dns.Name

/-!
`service::NameIsValid` (llarp/service/name.cpp): whether a string is an ONS name. It takes the
text before the `.loki` suffix, checks its characters, splits it at dots and judges the last
piece, the primary name. `string_view::operator[]` past the end is undefined, so each index of
the primary name is read as an option and `none` is a read out of bounds.
-/

namespace Lokinet.Service

open Lokinet.Util

/-- The bytes `NameIsValid` lets through: `-`, `.`, `a` to `z` and `0` to `9`. -/
def saneChar (ch : UInt8) : Bool :=
  ch == 45 || ch == 46 || (97 ≤ ch && ch ≤ 122) || (48 ≤ ch && ch ≤ 57)

/-- The checks of `NameIsValid` on the primary name, from the blacklist on. `MaxNameLen` is 32
and `MaxPunycodeNameLen` 63; a name with two dashes after its first two bytes must start with
`xn`. -/
def checkPrimaryName (primaryName : List UInt8) : Option Bool := do
  if primaryName == ascii "localhost" then return false
  if primaryName == ascii "loki" then return false
  if primaryName == ascii "snode" then return false
  if !primaryName.contains 45 then return decide (primaryName.length ≤ 32)
  let first ← primaryName[0]?
  let last ← primaryName[primaryName.length - 1]?
  if first == 45 || last == 45 then return false
  if primaryName.length > 63 then return false
  -- the `and` of the punycode test reads `[3]` only after `[2]` is a dash
  let c2 ← primaryName[2]?
  if c2 != 45 then return true
  let c3 ← primaryName[3]?
  if c3 != 45 then return true
  let c0 ← primaryName[0]?
  let c1 ← primaryName[1]?
  return c0 == 120 && c1 == 110

/-- `NameIsValid`. -/
def nameIsValid (lnsName : List UInt8) : Option Bool :=
  if !endsWith lnsName (ascii ".loki") then some false
  else
    let lnsName := lnsName.take ((Dns.findLastOf 46 lnsName).getD lnsName.length)
    if !lnsName.all saneChar then some false
    else
      let parts := split lnsName (ascii ".") false
      match parts[parts.length - 1]? with
      | none => none
      | some primaryName => checkPrimaryName primaryName

end Lokinet.Service
