import Lokinet.Iwp.Session

/-!
Two sessions, in whatever state, joined by a network that may drop, duplicate, delay and reorder
packets: a packet one session has sent can be handed to the other at any later time, any
number of times, or never. Each session has its own clock, which only moves forward. The
sender `a` sends link messages to the receiver `b`; a packet arrives as the decrypt worker
hands it to `HandlePlaintext`.
-/

namespace Lokinet.Iwp

structure Network where
  a : Session
  b : Session
  clockA : Nat
  clockB : Nat

/-- One step of the network, between the routers `pa` of the sender and `pb` of the receiver. -/
inductive Network.Step (pa pb : Parent) : Network → Network → Prop
  | send (n : Network) (msg : List UInt8) (now : Nat) (ok : Bool) (a' : Session)
      (hnow : n.clockA ≤ now) (h : n.a.sendMessageBuffer pa now msg .sender = some (ok, a')) :
      Step pa pb n { n with a := a', clockA := now }
  | deliverToB (n : Network) (pkt : Packet) (now : Nat) (b' : Session)
      (hnow : n.clockB ≤ now) (hpkt : pkt ∈ n.a.sent)
      (h : n.b.handlePlaintextPackets pb now [pkt] = some b') :
      Step pa pb n { n with b := b', clockB := now }
  | deliverToA (n : Network) (pkt : Packet) (now : Nat) (a' : Session)
      (hnow : n.clockA ≤ now) (hpkt : pkt ∈ n.b.sent)
      (h : n.a.handlePlaintextPackets pa now [pkt] = some a') :
      Step pa pb n { n with a := a', clockA := now }
  | tickA (n : Network) (now : Nat) (hnow : n.clockA ≤ now) :
      Step pa pb n { n with a := n.a.tick now, clockA := now }
  | tickB (n : Network) (now : Nat) (hnow : n.clockB ≤ now) :
      Step pa pb n { n with b := n.b.tick now, clockB := now }
  | pumpA (n : Network) (now : Nat) (a' : Session) (hnow : n.clockA ≤ now)
      (h : n.a.pump pa now = some a') : Step pa pb n { n with a := a', clockA := now }
  | pumpB (n : Network) (now : Nat) (b' : Session) (hnow : n.clockB ≤ now)
      (h : n.b.pump pb now = some b') : Step pa pb n { n with b := b', clockB := now }

/-- The runs of the network. -/
def Network.Steps (pa pb : Parent) : Network → Network → Prop := Relation.ReflTransGen (Step pa pb)

end Lokinet.Iwp
