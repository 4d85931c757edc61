import Lokinet.Path.Path

/-!
The onion layers of a path are transparent: what the client puts on going up the hops take off
in turn, and what the hops put on coming down the client takes off. Going up, the client and hop
`i` both use the nonce the message started with, stepped by the masks of the hops before `i`;
coming down, hop `i` uses the endpoint's nonce stepped by the masks of the hops after it, and the
client, stepping the nonce it receives by the masks from the first hop on, reaches the same.
-/

namespace Lokinet.Path

open Lokinet.Util Lokinet.Router StreamCipher

/-- The key and the nonce mask of a hop, as the client keeps them. -/
def PathHopConfig.keys (hop : PathHopConfig) : SharedSecret × ShortHash := (hop.shared, hop.nonceXOR)

/-- The key and the nonce mask of a hop, as the router keeps them. -/
def TransitHop.keys (hop : TransitHop) : SharedSecret × ShortHash := (hop.pathKey, hop.nonceXOR)

/-- The keystreams a message meets going up, from the nonce it starts with. -/
def upstreamStreams (c : Crypto) : List (SharedSecret × ShortHash) → TunnelNonce → List (Nat → UInt8)
  | [], _ => []
  | (k, x) :: ks, n => c.keystream k n :: upstreamStreams c ks (n ^^^ x)

theorem foldl_upstream (c : Crypto) : ∀ (hops : List PathHopConfig) (X : List UInt8) (n : TunnelNonce),
    (hops.foldl
      (fun (m : List UInt8 × TunnelNonce) hop => (c.xchacha20 m.1 hop.shared m.2, m.2 ^^^ hop.nonceXOR))
      (X, n)).1 = layers (upstreamStreams c (hops.map PathHopConfig.keys) n) X
  | [], _, _ => rfl
  | _ :: hops, _, _ => foldl_upstream c hops _ _

/-- The client puts on the layers of the keystreams met going up. -/
theorem upstreamWork_fst (p : Path) (c : Crypto) (X : List UInt8) (Y : TunnelNonce) :
    (p.upstreamWork c X Y).1 = layers (upstreamStreams c (p.hops.map PathHopConfig.keys) Y) X :=
  foldl_upstream c p.hops X Y

theorem upstreamWork_snd (p : Path) (c : Crypto) (X : List UInt8) (Y : TunnelNonce) :
    (p.upstreamWork c X Y).2 = Y := rfl

/-- The hops going up take off the layers of the same keystreams. -/
theorem relayUpstream_fst (c : Crypto) : ∀ (hops : List TransitHop) (X : List UInt8) (Y : TunnelNonce),
    (relayUpstream c hops X Y).1 = layers (upstreamStreams c (hops.map TransitHop.keys) Y) X
  | [], _, _ => rfl
  | _ :: hops, _, _ => relayUpstream_fst c hops _ _

/-- The client takes off what the hops going down put on, hop by hop from the first. -/
theorem downstreamWork_relayDownstream (c : Crypto) :
    ∀ (cfgs : List PathHopConfig) (hops : List TransitHop),
      cfgs.map PathHopConfig.keys = hops.map TransitHop.keys → ∀ (X : List UInt8) (N : TunnelNonce),
      (Path.downstreamWork ⟨cfgs⟩ c (relayDownstream c hops X N).1 (relayDownstream c hops X N).2).1 = X
  | [], [], _, X, N => rfl
  | [], _ :: _, hk, _, _ => by simp at hk
  | _ :: _, [], hk, _, _ => by simp at hk
  | cfg :: cfgs, hop :: hops, hk, X, N => by
    simp only [List.map_cons, List.cons.injEq] at hk
    obtain ⟨hkey, hks⟩ := hk
    have hshared : cfg.shared = hop.pathKey := congrArg Prod.fst hkey
    have hmask : cfg.nonceXOR = hop.nonceXOR := congrArg Prod.snd hkey
    -- the first hop put its layer on last, with the nonce the rest of the hops handed it
    set m := relayDownstream c hops X N
    have hfirst : relayDownstream c (hop :: hops) X N = (c.xchacha20 m.1 hop.pathKey m.2, m.2 ^^^ hop.nonceXOR) :=
      rfl
    have hstep : Path.downstreamWork ⟨cfg :: cfgs⟩ c (c.xchacha20 m.1 hop.pathKey m.2) (m.2 ^^^ hop.nonceXOR) =
        Path.downstreamWork ⟨cfgs⟩ c m.1 m.2 := by
      simp only [Path.downstreamWork, List.foldl_cons, hshared, hmask, AlignedBuffer.xor_xor_cancel,
        Crypto.xchacha20, xorStream_xorStream_self]
    rw [hfirst, hstep]
    exact downstreamWork_relayDownstream c cfgs hops hks X N

/-- Onion routing is transparent end to end: with the client's hops and the routers' hops holding
the same keys and masks, a message sent up the path reaches the endpoint's parser as it was
written, and a message the endpoint sends down reaches the client's as it was written. -/
theorem onion_layers_transparent (c : Crypto) (p : Path) (hops : List TransitHop)
    (hk : p.hops.map PathHopConfig.keys = hops.map TransitHop.keys) (X : List UInt8)
    (Y N : TunnelNonce) :
    (relayUpstream c hops (p.upstreamWork c X Y).1 (p.upstreamWork c X Y).2).1 = X ∧
      (p.downstreamWork c (relayDownstream c hops X N).1 (relayDownstream c hops X N).2).1 = X := by
  constructor
  · rw [relayUpstream_fst, upstreamWork_snd, upstreamWork_fst, ← hk, layers_layers]
  · exact downstreamWork_relayDownstream c p.hops hops hk X N

/-- 32 bytes, the last one `b`. -/
def lastByte (b : UInt8) : AlignedBuffer 32 := ⟨List.replicate 31 0 ++ [b], rfl⟩

/-- A keystream that depends on the key's and the nonce's last bytes and on the position. -/
def sampleCrypto : Crypto := ⟨fun k n i => k.bytes.getLastD 0 ^^^ (n.bytes.getLastD 0 + i.toUInt8)⟩

/-- A two-hop path whose hops have keys `1`, `2` and masks `3`, `4`. -/
def twoHopPath : Path :=
  ⟨[1, 2].map fun b => ⟨AlignedBuffer.zero 16, AlignedBuffer.zero 16, RouterContact.fresh,
    AlignedBuffer.zero 64, lastByte b, lastByte (b + 2), AlignedBuffer.zero 32,
    AlignedBuffer.zero 32, 0⟩⟩

def twoTransitHops : List TransitHop :=
  [1, 2].map fun b => ⟨⟨AlignedBuffer.zero 16, AlignedBuffer.zero 16, AlignedBuffer.zero 32,
    AlignedBuffer.zero 32⟩, lastByte b, lastByte (b + 2)⟩

theorem onion_layers_transparent_two_hops :
    twoHopPath.hops.map PathHopConfig.keys = twoTransitHops.map TransitHop.keys ∧
      (relayUpstream sampleCrypto twoTransitHops (twoHopPath.upstreamWork sampleCrypto [5, 6, 7] (lastByte 9)).1
        (twoHopPath.upstreamWork sampleCrypto [5, 6, 7] (lastByte 9)).2).1 = [5, 6, 7] ∧
      (twoHopPath.downstreamWork sampleCrypto (relayDownstream sampleCrypto twoTransitHops [5, 6, 7] (lastByte 8)).1
        (relayDownstream sampleCrypto twoTransitHops [5, 6, 7] (lastByte 8)).2).1 = [5, 6, 7] :=
  ⟨by decide, onion_layers_transparent sampleCrypto twoHopPath twoTransitHops (by decide) [5, 6, 7]
    (lastByte 9) (lastByte 8)⟩

end Lokinet.Path
