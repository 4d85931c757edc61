import Lokinet.Proofs.RouterCodec

/-!
What `AddressInfo::DecodeKey` does with values `BEncode` never writes. The rank and port checks
`i > 65536 || i <= 0` let 65536 through, and the narrowing to `uint16_t` stores it as 0. The
dialect check `strbuf.sz > sizeof(tmp)` lets a 128-byte string through, and `tmp[strbuf.sz] = 0`
then writes one past `char tmp[128]`. Both happen wherever the entry stands in the dict.
-/

namespace Lokinet.Proofs.Router

open Lokinet.Util Lokinet.Net Lokinet.Router FaultState LlarpBuffer Lokinet.Proofs.Bencode

namespace AddressInfo

variable (inet : Inet6) {b : LlarpBuffer} {rest : List UInt8}

/-- A rank or a port of 65536 passes the bounds check and narrows to zero. -/
theorem decodeUint16_wide (h : b.mem.drop b.cur = integerEnc 65536 ++ rest) :
    AddressInfo.decodeUint16 b =
      some (some 0, { b with cur := b.cur + (integerEnc 65536).length }) := by
  have hpass : ¬((65536 : UInt64) > 65536 ∨ (65536 : UInt64) ≤ 0) := by decide
  simp only [AddressInfo.decodeUint16, bind_of_some (bencodeReadInteger_of_drop h), hpass,
    ↓reduceIte, pure_apply]
  rfl

/-- A dialect of 128 bytes fits the check but not `tmp` with its NUL. -/
theorem decodeKey_dialect_fault {d : List UInt8} (hd : d.length = 128) (acc : AddressInfo)
    (h : b.mem.drop b.cur = bytestringEnc d ++ rest) :
    AddressInfo.decodeKey inet acc (ascii "d") b = none := by
  have hs : d.length < 10 ^ 9 := by omega
  simp +decide only [AddressInfo.decodeKey, ↓reduceIte]
  simp [bind_of_some (bencodeReadString_of_drop hs h), hd]

/-- The entries of a dict as `DecodeKey` meets them: those `BEncode` writes, and a rank or a
port of 65536. -/
inductive Wire where
  | entry (x : Entry)
  | wideRank
  | widePort

namespace Wire

def key : Wire → List UInt8
  | entry x => x.key
  | wideRank => ascii "c"
  | widePort => ascii "p"

def enc : Wire → List UInt8
  | entry x => x.enc inet
  | wideRank => integerEnc 65536
  | widePort => integerEnc 65536

/-- What `DecodeKey` stores: a wide rank or port as its low 16 bits. -/
def step (ai : AddressInfo) : Wire → AddressInfo
  | entry x => Entry.step ai x
  | wideRank => { ai with rank := 0 }
  | widePort => { ai with port := 0 }

def Valid : Wire → Prop
  | entry x => x.Valid
  | _ => True

theorem readsEntry {w : Wire} (hw : w.Valid) :
    ReadsEntry (AddressInfo.decodeKey inet) key (enc inet) step w := by
  match w, hw with
  | entry x, hw => exact AddressInfo.readsEntry inet hw
  | wideRank, _ | widePort, _ =>
    -- a wide rank or port goes through `decodeUint16` and narrows to zero
    refine ⟨by decide, fun acc b rest h => ?_⟩
    simp +decide only [AddressInfo.decodeKey, ↓reduceIte]
    simp [bind_of_some (decodeUint16_wide h), step, enc]

theorem foldl_step_entry (xs : List Entry) (acc : AddressInfo) :
    (xs.map entry).foldl step acc = xs.foldl Entry.step acc := by
  rw [List.foldl_map]
  rfl

theorem body_entry (xs : List Entry) :
    ((xs.map entry).map (entryEnc key (enc inet))).flatten =
      (xs.map (entryEnc Entry.key (Entry.enc inet))).flatten := by
  rw [List.map_map]
  rfl

end Wire

/-- The bytes of the entries, in the order given. -/
def body (xs : List Entry) : List UInt8 := (xs.map (entryEnc Entry.key (Entry.enc inet))).flatten

/-- `BDecode` reads the entries `BEncode` writes in any order and with any repeats: each key
stores the value read, the last one for a repeated key, and the dialect up to its first NUL. -/
theorem bDecode_of_entries (acc : AddressInfo) {xs : List Entry} (hxs : ∀ x ∈ xs, x.Valid)
    (h : b.mem.drop b.cur = 100 :: (body inet xs ++ 101 :: rest)) :
    AddressInfo.bDecode inet acc b =
      some (some (xs.foldl Entry.step acc), { b with cur := b.cur + (body inet xs).length + 2 }) := by
  rw [AddressInfo.bDecode, bencodeDecodeDict]
  exact bencodeReadDict_of_drop (fun x hx => readsEntry inet (hxs x hx)) h

theorem bDecode_of_entries_ports :
    (∀ x ∈ [Entry.port 80, Entry.rank 1, Entry.port 443], x.Valid) ∧
      AddressInfo.bDecode RouterContact.letterInet AddressInfo.empty
        ⟨100 :: (body RouterContact.letterInet [Entry.port 80, Entry.rank 1, Entry.port 443] ++ [101]), 0⟩ =
        some (some { AddressInfo.empty with rank := 1, port := 443 },
          ⟨100 :: (body RouterContact.letterInet [Entry.port 80, Entry.rank 1, Entry.port 443] ++ [101]),
            (body RouterContact.letterInet [Entry.port 80, Entry.rank 1, Entry.port 443]).length + 2⟩) := by
  have hxs : ∀ x ∈ [Entry.port 80, Entry.rank 1, Entry.port 443], x.Valid := by
    intro x hx
    simp only [List.mem_cons, List.mem_nil_iff, or_false] at hx
    rcases hx with rfl | rfl | rfl <;> simp [Entry.Valid]
  refine ⟨hxs, ?_⟩
  rw [bDecode_of_entries RouterContact.letterInet AddressInfo.empty hxs rfl]
  simp [Entry.step]

/-- An entry `BEncode` never writes, between any entries it does: `BDecode` reads the entries
before it, the entry, and the entries after it. -/
theorem bDecode_around (acc : AddressInfo) {xs ys : List Entry} (hxs : ∀ x ∈ xs, x.Valid)
    (hys : ∀ y ∈ ys, y.Valid) {w : Wire} (hw : w.Valid)
    (h : b.mem.drop b.cur =
      100 :: (body inet xs ++ (bytestringEnc w.key ++ (w.enc inet ++ (body inet ys ++ 101 :: rest))))) :
    ∃ b', AddressInfo.bDecode inet acc b =
      some (some (ys.foldl Entry.step (w.step (xs.foldl Entry.step acc))), b') := by
  set ws := xs.map Wire.entry ++ w :: ys.map Wire.entry
  have hws : ∀ v ∈ ws, ReadsEntry (AddressInfo.decodeKey inet) Wire.key (Wire.enc inet) Wire.step v := by
    intro v hv
    simp only [ws, List.mem_append, List.mem_map, List.mem_cons] at hv
    rcases hv with ⟨x, hx, rfl⟩ | rfl | ⟨y, hy, rfl⟩
    · exact Wire.readsEntry inet (hxs x hx)
    · exact Wire.readsEntry inet hw
    · exact Wire.readsEntry inet (hys y hy)
  have hd : b.mem.drop b.cur =
      100 :: ((ws.map (entryEnc Wire.key (Wire.enc inet))).flatten ++ 101 :: rest) := by
    rw [h]
    simp only [ws, List.map_append, List.map_cons, List.flatten_append, List.flatten_cons,
      Wire.body_entry, body, entryEnc, List.append_assoc]
  have hfold : ws.foldl Wire.step acc = ys.foldl Entry.step (w.step (xs.foldl Entry.step acc)) := by
    simp only [ws, List.foldl_append, List.foldl_cons, Wire.foldl_step_entry]
  rw [AddressInfo.bDecode, bencodeDecodeDict, bencodeReadDict_of_drop hws hd, hfold]
  exact ⟨_, rfl⟩

theorem bDecode_narrows_or_overruns (acc : AddressInfo) {xs ys : List Entry}
    (hxs : ∀ x ∈ xs, x.Valid) (hys : ∀ y ∈ ys, y.Valid) :
    (∀ rest, b.mem.drop b.cur =
        100 :: (body inet xs ++ bytestringEnc (ascii "c") ++ integerEnc 65536 ++ body inet ys ++ 101 :: rest) →
      ∃ b', AddressInfo.bDecode inet acc b =
        some (some (ys.foldl Entry.step { xs.foldl Entry.step acc with rank := 0 }), b')) ∧
    (∀ rest, b.mem.drop b.cur =
        100 :: (body inet xs ++ bytestringEnc (ascii "p") ++ integerEnc 65536 ++ body inet ys ++ 101 :: rest) →
      ∃ b', AddressInfo.bDecode inet acc b =
        some (some (ys.foldl Entry.step { xs.foldl Entry.step acc with port := 0 }), b')) ∧
    (∀ d tail, d.length = 128 →
      b.mem.drop b.cur = 100 :: (body inet xs ++ bytestringEnc (ascii "d") ++ bytestringEnc d ++ tail) →
      AddressInfo.bDecode inet acc b = none) := by
  refine ⟨fun rest h => ?_, fun rest h => ?_, fun d tail hd h => ?_⟩
  · exact bDecode_around inet acc hxs hys (w := .wideRank) trivial (by rw [h]; simp [Wire.key, Wire.enc]; rfl)
  · exact bDecode_around inet acc hxs hys (w := .widePort) trivial (by rw [h]; simp [Wire.key, Wire.enc]; rfl)
  · have hfault : ∀ acc (b : LlarpBuffer), b.mem.drop b.cur = bytestringEnc d ++ tail →
        AddressInfo.decodeKey inet acc (ascii "d") b = none :=
      fun acc _ hb => decodeKey_dialect_fault inet hd acc hb
    rw [AddressInfo.bDecode, bencodeDecodeDict]
    exact bencodeReadDict_fault (fun x hx => readsEntry inet (hxs x hx)) (by decide) hfault
      (by rw [h]; simp [body])

theorem bDecode_narrows_or_overruns_rank :
    (∀ x ∈ ([] : List Entry), x.Valid) ∧
      ∃ b', AddressInfo.bDecode RouterContact.letterInet AddressInfo.empty
        ⟨100 :: (bytestringEnc (ascii "c") ++ integerEnc 65536 ++ [101]), 0⟩ =
          some (some { AddressInfo.empty with rank := 0 }, b') :=
  ⟨fun _ hx => absurd hx List.not_mem_nil,
    (bDecode_narrows_or_overruns RouterContact.letterInet AddressInfo.empty (fun _ hx => absurd hx List.not_mem_nil)
      (fun _ hx => absurd hx List.not_mem_nil)).1 [] rfl⟩

end AddressInfo

end Lokinet.Proofs.Router
