import Lokinet.Lib.StreamCipher
import Lokinet.Router.Contact

set_option linter.dupNamespace false

/-!
The hops of a path and the onion encryption of its traffic (llarp/path/path.cpp,
transit_hop.cpp). A path is a list of hops from the client outwards; hop `i` shares a key and a
nonce mask with the client, kept in the client's `PathHopConfig` and in the `TransitHop` at the
router. A message carries a nonce; each layer is the stream cipher under the hop's key and the
nonce the message has at that hop, and the nonce is XORed with the hop's mask as the message
passes it.

`xchacha20` is a parameter (`Crypto`): an XOR with a keystream fixed by the key and the nonce.
-/

namespace Lokinet.Path

open Lokinet.Util Lokinet.Router

abbrev PathID := AlignedBuffer 16

abbrev RouterID := AlignedBuffer 32

abbrev SharedSecret := AlignedBuffer 32

abbrev ShortHash := AlignedBuffer 32

abbrev TunnelNonce := AlignedBuffer 32

abbrev SecretKey := AlignedBuffer 64

abbrev PubKey := AlignedBuffer 32

/-- `path::default_lifetime`, in milliseconds. -/
def defaultLifetime : Nat := 20 * 60 * 1000

/-- `CryptoManager::xchacha20`: the buffer XORed with the keystream of a key and a nonce. -/
structure Crypto where
  keystream : SharedSecret → TunnelNonce → Nat → UInt8

def Crypto.xchacha20 (c : Crypto) (buf : List UInt8) (k : SharedSecret) (n : TunnelNonce) :
    List UInt8 :=
  StreamCipher.xorStream (c.keystream k n) buf

structure PathHopConfig where
  txID : PathID
  rxID : PathID
  rc : RouterContact
  commkey : SecretKey
  shared : SharedSecret
  nonceXOR : ShortHash
  upstream : RouterID
  nonce : TunnelNonce
  lifetime : Nat

/-- A path we made, as far as its hops. -/
structure Path where
  hops : List PathHopConfig

namespace Path

/-- `Path::UpstreamWork` for one message: every hop's layer, the nonce stepped by the hop's mask
after it; the message goes out with the nonce it came with. -/
def upstreamWork (p : Path) (c : Crypto) (X : List UInt8) (Y : TunnelNonce) :
    List UInt8 × TunnelNonce :=
  let r := p.hops.foldl
    (fun (m : List UInt8 × TunnelNonce) hop => (c.xchacha20 m.1 hop.shared m.2, m.2 ^^^ hop.nonceXOR))
    (X, Y)
  (r.1, Y)

/-- `Path::DownstreamWork` for one message: at each hop the nonce is stepped by the hop's mask
first, and then the hop's layer is taken off with it. -/
def downstreamWork (p : Path) (c : Crypto) (X : List UInt8) (Y : TunnelNonce) :
    List UInt8 × TunnelNonce :=
  p.hops.foldl
    (fun (m : List UInt8 × TunnelNonce) hop =>
      (c.xchacha20 m.1 hop.shared (m.2 ^^^ hop.nonceXOR), m.2 ^^^ hop.nonceXOR))
    (X, Y)

end Path

/-- `TransitHopInfo`: the path ids on either side of a hop and its neighbours. -/
structure TransitHopInfo where
  txID : PathID
  rxID : PathID
  upstream : RouterID
  downstream : RouterID

structure TransitHop where
  info : TransitHopInfo
  pathKey : SharedSecret
  nonceXOR : ShortHash

namespace TransitHop

/-- A message through a hop, either way: the hop's layer with the nonce the message came with,
and the nonce stepped by the hop's mask to go on. -/
def relayWork (hop : TransitHop) (c : Crypto) (X : List UInt8) (Y : TunnelNonce) :
    List UInt8 × TunnelNonce :=
  (c.xchacha20 X hop.pathKey Y, Y ^^^ hop.nonceXOR)

/-- `TransitHop::UpstreamWork` for one message. -/
def upstreamWork (hop : TransitHop) (c : Crypto) (X : List UInt8) (Y : TunnelNonce) :
    List UInt8 × TunnelNonce :=
  hop.relayWork c X Y

/-- `TransitHop::DownstreamWork` for one message. -/
def downstreamWork (hop : TransitHop) (c : Crypto) (X : List UInt8) (Y : TunnelNonce) :
    List UInt8 × TunnelNonce :=
  hop.relayWork c X Y

end TransitHop

/-- A message passed up the hops in turn, each handing what it sends on to the next. -/
def relayUpstream (c : Crypto) (hops : List TransitHop) (X : List UInt8) (Y : TunnelNonce) :
    List UInt8 × TunnelNonce :=
  hops.foldl (fun m hop => hop.upstreamWork c m.1 m.2) (X, Y)

/-- A message passed down the hops from the last to the first. -/
def relayDownstream (c : Crypto) (hops : List TransitHop) (X : List UInt8) (N : TunnelNonce) :
    List UInt8 × TunnelNonce :=
  hops.foldr (fun hop m => hop.downstreamWork c m.1 m.2) (X, N)

end Lokinet.Path
