import Mathlib

/-!
A stream cipher of the kind that XORs the data with a keystream. Applying one keystream twice
gives the data back, and two keystreams commute; so a stack of layers is taken off by the same
layers, in any order.
-/

namespace StreamCipher

/-- The data XORed with the keystream `ks`, byte `i` with `ks i`. -/
def xorStream (ks : Nat → UInt8) (buf : List UInt8) : List UInt8 := buf.mapIdx fun i b => b ^^^ ks i

@[simp] theorem length_xorStream (ks : Nat → UInt8) (buf : List UInt8) :
    (xorStream ks buf).length = buf.length :=
  List.length_mapIdx

@[simp] theorem xorStream_xorStream_self (ks : Nat → UInt8) (buf : List UInt8) :
    xorStream ks (xorStream ks buf) = buf := by
  apply List.ext_getElem (by simp)
  intro i h₁ h₂
  simp [xorStream, List.getElem_mapIdx]

theorem xorStream_comm (ks ks' : Nat → UInt8) (buf : List UInt8) :
    xorStream ks (xorStream ks' buf) = xorStream ks' (xorStream ks buf) := by
  apply List.ext_getElem (by simp)
  intro i h₁ h₂
  simp only [xorStream, List.getElem_mapIdx]
  rw [UInt8.xor_assoc, UInt8.xor_comm (ks' i), ← UInt8.xor_assoc]

/-- The layers of `kss` put on in turn. -/
def layers (kss : List (Nat → UInt8)) (buf : List UInt8) : List UInt8 :=
  kss.foldl (fun b ks => xorStream ks b) buf

@[simp] theorem layers_nil (buf : List UInt8) : layers [] buf = buf := rfl

@[simp] theorem layers_cons (ks : Nat → UInt8) (kss : List (Nat → UInt8)) (buf : List UInt8) :
    layers (ks :: kss) buf = layers kss (xorStream ks buf) := rfl

theorem layers_xorStream (kss : List (Nat → UInt8)) (ks : Nat → UInt8) (buf : List UInt8) :
    layers kss (xorStream ks buf) = xorStream ks (layers kss buf) := by
  induction kss generalizing buf with
  | nil => rfl
  | cons ks' kss ih => rw [layers_cons, layers_cons, xorStream_comm, ih]

/-- The same layers, put on twice, cancel. -/
theorem layers_layers (kss : List (Nat → UInt8)) (buf : List UInt8) :
    layers kss (layers kss buf) = buf := by
  induction kss generalizing buf with
  | nil => rfl
  | cons ks kss ih => rw [layers_cons, layers_cons, layers_xorStream, ih, xorStream_xorStream_self]

end StreamCipher
