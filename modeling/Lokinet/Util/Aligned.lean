import Lokinet.Util.Bencode

/-!
`AlignedBuffer<sz>` (llarp/util/aligned.hpp): exactly `sz` bytes, bencoded as a byte string of
that length. Some of them hold a C string padded with NULs: `NetID`, the nickname of a
`RouterContact`.
-/

namespace Lokinet.Util

/-- `AlignedBuffer<sz>`. -/
@[ext]
structure AlignedBuffer (sz : Nat) where
  bytes : List UInt8
  length_eq : bytes.length = sz
  deriving DecidableEq

namespace AlignedBuffer

variable {sz : Nat}

/-- `Zero()`, and the value of a default-constructed buffer. -/
def zero (sz : Nat) : AlignedBuffer sz := ⟨List.replicate sz 0, by simp⟩

/-- `FromBytestring`: only a string of exactly `sz` bytes is taken. -/
def fromBytestring (s : List UInt8) : Option (AlignedBuffer sz) :=
  if h : s.length = sz then some ⟨s, h⟩ else none

theorem length_zipWith_xor (a b : AlignedBuffer sz) :
    (List.zipWith (· ^^^ ·) a.bytes b.bytes).length = sz := by
  simp [a.length_eq, b.length_eq]

/-- `operator^`: bytewise XOR. -/
def xor (a b : AlignedBuffer sz) : AlignedBuffer sz :=
  ⟨List.zipWith (· ^^^ ·) a.bytes b.bytes, length_zipWith_xor a b⟩

instance : XorOp (AlignedBuffer sz) := ⟨xor⟩

theorem bytes_xor (a b : AlignedBuffer sz) : (a ^^^ b).bytes = List.zipWith (· ^^^ ·) a.bytes b.bytes :=
  rfl

theorem xor_assoc (a b c : AlignedBuffer sz) : (a ^^^ b) ^^^ c = a ^^^ (b ^^^ c) := by
  ext1
  apply List.ext_getElem (by simp [bytes_xor, a.length_eq, b.length_eq, c.length_eq])
  intro i h₁ h₂
  simp [bytes_xor, UInt8.xor_assoc]

/-- XOR with the same mask twice gives the buffer back. -/
@[simp] theorem xor_xor_cancel (a b : AlignedBuffer sz) : (a ^^^ b) ^^^ b = a := by
  ext1
  apply List.ext_getElem (by simp [bytes_xor, a.length_eq, b.length_eq])
  intro i h₁ h₂
  simp [bytes_xor]

def bEncode (a : AlignedBuffer sz) : BufferM Bool := bencodeWriteBytestring a.bytes

/-- `BDecode`: the new value when the string read has the right length. -/
def bDecode : BufferM (Option (AlignedBuffer sz)) := do
  match ← bencodeReadString with
  | none => return none
  | some s => return fromBytestring s

/-- The C string held: the bytes before the first NUL, `std::find(begin(), end(), '\0')`. -/
def cstr (a : AlignedBuffer sz) : List UInt8 := a.bytes.takeWhile (· ≠ 0)

/-- `Zero()` followed by `std::copy` of a string of at most `sz` bytes. -/
def ofPrefix (s : List UInt8) (h : s.length ≤ sz) : AlignedBuffer sz :=
  ⟨s ++ List.replicate (sz - s.length) 0, by simp; omega⟩

/-- The decoder of `NetID::BDecode` and of the nickname in `RouterContact::DecodeKey`: a
string of at most `sz` bytes copied over zeros. -/
def bDecodePrefix : BufferM (Option (AlignedBuffer sz)) := do
  match ← bencodeReadString with
  | none => return none
  | some s => return if h : s.length ≤ sz then some (ofPrefix s h) else none

end AlignedBuffer

end Lokinet.Util
