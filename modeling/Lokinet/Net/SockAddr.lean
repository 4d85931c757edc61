import Lokinet.Util.Str
import Lokinet.Net.AddressInfo
import Lokinet.Net.Bogon

/-!
`SockAddr` (llarp/net/sock_addr.hpp, sock_addr.cpp): a `sockaddr_in6`, `m_addr`, with a
`sockaddr_in`, `m_addr4`, that mirrors it when it holds an IPv4-mapped address, and a flag
`m_empty`.

Addresses are their network-order bytes. Ports are the host-order values `getPort` reads: the
fields hold their `htons`, and every setter writes both fields the same way, so equality of the
fields is equality of these values. The family, flow and scope fields are not read by the
members modelled here. `inet_pton(AF_INET6, ...)` is the `pton` of `Inet6`: it returns `1` with
the address, or `0` and leaves the destination as it was.
-/

namespace Lokinet.Net

open Lokinet.Util

/-- The mapped IPv6 address of an IPv4 address: `applyIPv4MapBytes` and the bytes after it. -/
def mapIpv4 (ip : AlignedBuffer 4) : AlignedBuffer 16 :=
  ⟨ipv4MapPrefix ++ ip.bytes, by simp [ipv4MapPrefix, ip.length_eq]⟩

/-- Bytes 12 to 15 of an IPv6 address, the ones `setIPv4` is called with. -/
def lowBytes (addr : AlignedBuffer 16) : AlignedBuffer 4 :=
  ⟨addr.bytes.drop 12, by simp [addr.length_eq]⟩

/-- `SockAddr`. -/
structure SockAddr where
  empty : Bool
  addr6 : AlignedBuffer 16
  port6 : UInt16
  addr4 : AlignedBuffer 4
  port4 : UInt16
  deriving DecidableEq

/-- The exceptions `fromString` throws, with their `what()`. -/
inductive Exception where
  | invalidArgument (what : List UInt8)
  | runtimeError (what : List UInt8)
  deriving DecidableEq

namespace SockAddr

variable (inet : Inet6)

/-- `SockAddr()`: `init()` on an object whose `m_empty` starts `true`. -/
def create : SockAddr := ⟨true, AlignedBuffer.zero 16, 0, AlignedBuffer.zero 4, 0⟩

/-- `init()`: both structures zeroed; `m_empty` is left as it was. -/
def init (a : SockAddr) : SockAddr :=
  { a with addr6 := AlignedBuffer.zero 16, port6 := 0, addr4 := AlignedBuffer.zero 4, port4 := 0 }

def isIPv4 (a : SockAddr) : Bool := ipv6IsMappedIpv4 a.addr6.bytes

def isEmpty (a : SockAddr) : Bool := a.empty

/-- `getPort()`. -/
def getPort (a : SockAddr) : UInt16 := a.port6

/-- `setIPv4(nuint32_t)`: the bytes go after the map prefix and to the mirror. -/
def setIPv4 (a : SockAddr) (ip : AlignedBuffer 4) : SockAddr :=
  { a with addr6 := mapIpv4 ip, addr4 := ip, empty := false }

/-- `setIPv4(uint8_t a, b, c, d)`: `htonl(ipaddr_ipv4_bits(a, b, c, d))` in the mirror is the
bytes `a b c d`, as after the prefix. -/
def setIPv4Octets (a : SockAddr) (w x y z : UInt8) : SockAddr := a.setIPv4 ⟨[w, x, y, z], rfl⟩

/-- `setPort`. -/
def setPort (a : SockAddr) (port : UInt16) : SockAddr := { a with port6 := port, port4 := port }

/-- The step `setIPv6` and the assignments from an IPv6 address share: a mapped IPv4 address
goes through `setIPv4` to the mirror, and the port is copied after it. -/
def syncMapped (a : SockAddr) : SockAddr :=
  if a.isIPv4 then { a.setIPv4 (lowBytes a.addr6) with port4 := a.port6 } else a

/-- `setIPv6(nuint128_t)`: `m_empty` changes only for a mapped address. -/
def setIPv6 (a : SockAddr) (ip : AlignedBuffer 16) : SockAddr := syncMapped { a with addr6 := ip }

/-- `operator=(const sockaddr_in&)`. -/
def assignIn (a : SockAddr) (addr : AlignedBuffer 4) (port : UInt16) : SockAddr :=
  { a.init with addr6 := mapIpv4 addr, port6 := port, addr4 := addr, port4 := port, empty := false }

/-- `operator=(const sockaddr_in6&)`; `operator=(const SockAddr&)` is this with the other's
`m_addr`. -/
def assignIn6 (a : SockAddr) (addr : AlignedBuffer 16) (port : UInt16) : SockAddr :=
  { syncMapped { a.init with addr6 := addr, port6 := port } with empty := false }

/-- `operator=(const in6_addr&)`: the port is the zero `init()` wrote. -/
def assignAddr6 (a : SockAddr) (addr : AlignedBuffer 16) : SockAddr :=
  { syncMapped { a.init with addr6 := addr } with empty := false }

/-- `parse_int(str, value)` into an unsigned type whose values are below `bound`:
`std::from_chars` in base 10 takes digits only, must take the whole string, and fails when the
value does not fit. -/
def parseInt (bound : Nat) (str : List UInt8) : Option Nat :=
  if str ≠ [] ∧ str.all Decimal.isDigit = true ∧ Decimal.value str < bound then
    some (Decimal.value str)
  else none

/-- `fromString(str, allow_port)`. Text with more than two `:`-separated parts goes to
`inet_pton(AF_INET6, ...)`, which for this family returns `1` or `0`, never the `-1` the code
throws on: the text is taken whether or not it parses, and only the address of `m_addr` is
written. Otherwise the first part must be four `.`-separated bytes and a second part a port;
the port is set before the address. -/
def fromString (a : SockAddr) (str : List UInt8) (allowPort : Bool) : Except Exception SockAddr := do
  if str.isEmpty then return { a.init with empty := true }
  let splits := split str (ascii ":") false
  if splits.length > 2 then
    -- `std::string data{str}`, read by `inet_pton` as a C string
    match inet.pton (str.takeWhile (· ≠ 0)) with
    | some addr => return { a with addr6 := addr }
    | none => return a
  let ipSplits := split (splits.headD []) (ascii ".") false
  if ipSplits.length ≠ 4 then
    throw (.invalidArgument (str ++ ascii " is not a valid IPv4 address"))
  let some ipBytes := ipSplits.mapM (parseInt 256)
    | throw (.runtimeError (str ++ ascii " contains invalid numeric value"))
  let a ← if splits.length = 2 then do
      if !allowPort then
        throw (.runtimeError (ascii "invalid ip address (port not allowed here): " ++ str))
      let some port := parseInt 65536 (splits.getD 1 [])
        | throw (.runtimeError (splits.getD 1 [] ++ ascii " is not a valid port"))
      pure (a.setPort port.toUInt16)
    else pure a
  return a.setIPv4Octets (ipBytes.getD 0 0).toUInt8 (ipBytes.getD 1 0).toUInt8
    (ipBytes.getD 2 0).toUInt8 (ipBytes.getD 3 0).toUInt8

/-- `SockAddr(std::string_view)`: `init()` leaves a new object as it is, then `fromString` with
a port allowed. -/
def ofString (str : List UInt8) : Except Exception SockAddr := create.fromString inet str true

/-- `inet_ntop(AF_INET, ...)`: the four bytes in decimal between dots. -/
def inetNtop4 (ip : AlignedBuffer 4) : List UInt8 :=
  (ascii ".").intercalate (ip.bytes.map fun x => Decimal.decimal x.toNat)

/-- `hostString()`: an IPv4 address is printed from the mirror, an IPv6 one in brackets. -/
def hostString (a : SockAddr) : List UInt8 :=
  if a.isIPv4 then inetNtop4 a.addr4 else ascii "[" ++ inet.ntop a.addr6 ++ ascii "]"

/-- `toString()`: the host, `:` and `std::to_string(getPort())`; nothing for an empty address. -/
def toString (a : SockAddr) : List UInt8 :=
  if a.isEmpty then [] else hostString inet a ++ ascii ":" ++ Decimal.decimal a.getPort.toNat

/-- `operator==`: the address and the port of `m_addr`. -/
def eq (a b : SockAddr) : Bool := a.addr6 == b.addr6 && a.port6 == b.port6

/-- The calls a `SockAddr` takes after its constructor; each constructor is `SockAddr()`
followed by some of them. -/
inductive Op where
  | setIPv4Octets (w x y z : UInt8)
  | setIPv4 (ip : AlignedBuffer 4)
  | setIPv6 (ip : AlignedBuffer 16)
  | setPort (port : UInt16)
  | assignIn (addr : AlignedBuffer 4) (port : UInt16)
  | assignIn6 (addr : AlignedBuffer 16) (port : UInt16)
  | assignAddr6 (addr : AlignedBuffer 16)
  | fromString (str : List UInt8) (allowPort : Bool)

def step (a : SockAddr) : Op → Except Exception SockAddr
  | .setIPv4Octets w x y z => pure (a.setIPv4Octets w x y z)
  | .setIPv4 ip => pure (a.setIPv4 ip)
  | .setIPv6 ip => pure (a.setIPv6 ip)
  | .setPort port => pure (a.setPort port)
  | .assignIn addr port => pure (a.assignIn addr port)
  | .assignIn6 addr port => pure (a.assignIn6 addr port)
  | .assignAddr6 addr => pure (a.assignAddr6 addr)
  | .fromString str allowPort => a.fromString inet str allowPort

/-- A run of calls from `a`. A call that throws leaves the object as it was, and the caller that
catches the exception goes on. -/
def run (a : SockAddr) : List Op → SockAddr
  | [] => a
  | op :: ops =>
    match step inet a op with
    | .ok a' => run a' ops
    | .error _ => run a ops

end SockAddr

end Lokinet.Net
