import Lokinet.Net.SockAddr
import Lokinet.Proofs.RouterCodec

/-!
The IPv4 mirror of `SockAddr`. Every setter and assignment keeps `m_addr4`'s address equal to
bytes 12 to 15 of a mapped `m_addr`, and the IPv4 branch of `fromString` reads dotted text
exactly; an address kept so prints and parses back to itself. The branch of `fromString` for
text with more than two `:`-separated parts writes `m_addr` alone, and takes text `inet_pton`
refuses: there the mirror, the text and the round trip all break.
-/

namespace Lokinet.Net

open Lokinet.Util

@[simp] theorem ipv6IsMappedIpv4_mapIpv4 (ip : AlignedBuffer 4) :
    ipv6IsMappedIpv4 (mapIpv4 ip).bytes = true := by
  simp [ipv6IsMappedIpv4, mapIpv4, ipv4MapPrefix]

@[simp] theorem lowBytes_mapIpv4 (ip : AlignedBuffer 4) : lowBytes (mapIpv4 ip) = ip := by
  ext1
  simp [lowBytes, mapIpv4, ipv4MapPrefix]

theorem mapIpv4_lowBytes {v : AlignedBuffer 16} (h : ipv6IsMappedIpv4 v.bytes = true) :
    mapIpv4 (lowBytes v) = v := by
  have htake : v.bytes.take 12 = ipv4MapPrefix := by simpa [ipv6IsMappedIpv4] using h
  ext1
  simp only [mapIpv4, lowBytes]
  rw [← htake, List.take_append_drop]

theorem ipv6IsMappedIpv4_zero : ipv6IsMappedIpv4 (AlignedBuffer.zero 16).bytes = false := by
  decide

namespace SockAddr

variable (inet : Inet6)

/-- The mirror holds the address `m_addr` holds: for an IPv4-mapped address, `m_addr4` has
bytes 12 to 15. -/
def Mirrored (a : SockAddr) : Prop := a.isIPv4 = true → a.addr4 = lowBytes a.addr6

@[simp] theorem isIPv4_setIPv4 (a : SockAddr) (ip : AlignedBuffer 4) : (a.setIPv4 ip).isIPv4 = true := by
  simp [setIPv4, isIPv4]

theorem mirrored_create : Mirrored create := by
  intro h
  simp [isIPv4, create, ipv6IsMappedIpv4_zero] at h

theorem mirrored_init (a : SockAddr) : Mirrored a.init := by
  intro h
  simp [isIPv4, init, ipv6IsMappedIpv4_zero] at h

theorem mirrored_setIPv4 (a : SockAddr) (ip : AlignedBuffer 4) : Mirrored (a.setIPv4 ip) :=
  fun _ => by simp [setIPv4]

theorem Mirrored.setPort {a : SockAddr} (h : Mirrored a) (port : UInt16) :
    Mirrored (a.setPort port) := h

theorem mirrored_syncMapped_of {a : SockAddr} (h : a.isIPv4 = false) : Mirrored a := by
  intro h'
  rw [h] at h'
  contradiction

/-- `setIPv6` and the assignments from an IPv6 address leave the mirror right, whatever it held:
a mapped address reaches it through `setIPv4`. -/
theorem mirrored_syncMapped (a : SockAddr) : Mirrored (syncMapped a) := by
  unfold syncMapped
  split
  · intro _
    simp [setIPv4]
  · rename_i hn
    exact mirrored_syncMapped_of (by simpa using hn)

/-- The port of the mirror is lost when an IPv6 address that is not mapped is assigned with a
port, as copying a `SockAddr` does: `init()` zeroes it and only a mapped address copies the port
back. An IPv4 address set after that has a mirror on port zero. -/
theorem assignIn6_loses_port (a : SockAddr) (addr : AlignedBuffer 16) (port : UInt16)
    (hmap : ipv6IsMappedIpv4 addr.bytes = false) (hport : port ≠ 0) (ip : AlignedBuffer 4) :
    ((a.assignIn6 addr port).setIPv4 ip).isIPv4 = true ∧
      ((a.assignIn6 addr port).setIPv4 ip).port4 ≠ ((a.assignIn6 addr port).setIPv4 ip).port6 := by
  have hsync : syncMapped { a.init with addr6 := addr, port6 := port } =
      { a.init with addr6 := addr, port6 := port } := by
    simp [syncMapped, isIPv4, hmap]
  refine ⟨isIPv4_setIPv4 _ ip, ?_⟩
  simp only [assignIn6]
  rw [hsync]
  simp only [setIPv4, init]
  exact Ne.symm hport

/-! ### Parsing text -/

theorem split_nil_length (delim : List UInt8) (hd : delim ≠ []) :
    (split [] delim false).length = 1 := by
  obtain ⟨c, cs, rfl⟩ := List.exists_cons_of_ne_nil hd
  simp [split, splitLoop, find]

/-- Text with more than two `:`-separated parts is taken whatever `inet_pton` makes of it, and
only the address of `m_addr` is written. -/
theorem fromString_colons (a : SockAddr) {str : List UInt8} (allowPort : Bool)
    (hparts : 2 < (split str (ascii ":") false).length) :
    a.fromString inet str allowPort =
      .ok ((inet.pton (str.takeWhile (· ≠ 0))).elim a fun addr => { a with addr6 := addr }) := by
  have hne : str.isEmpty = false := by
    cases str with
    | nil => rw [split_nil_length _ (by decide)] at hparts; omega
    | cons c cs => rfl
  simp only [fromString, hne, hparts, Bool.false_eq_true, ↓reduceIte]
  cases inet.pton (str.takeWhile (· ≠ 0)) <;> rfl

/-- Without a `:` beyond one, the text that `fromString` takes ends in `setIPv4`. -/
theorem fromString_ipv4_shape (a : SockAddr) {str : List UInt8} {allowPort : Bool} {a' : SockAddr}
    (hne : str ≠ []) (hparts : (split str (ascii ":") false).length ≤ 2)
    (h : a.fromString inet str allowPort = .ok a') :
    ∃ (a₀ : SockAddr) (ip : AlignedBuffer 4), a' = a₀.setIPv4 ip := by
  have hnp : ¬(split str (ascii ":") false).length > 2 := by omega
  have he : str.isEmpty = false := by simpa using hne
  simp only [fromString, hnp, he, Bool.false_eq_true, ↓reduceIte] at h
  -- every branch that returns sets the four bytes last
  repeat' split at h
  all_goals simp only [pure, Except.pure, bind, Except.bind, throw, throwThe, MonadExceptOf.throw,
    Except.ok.injEq, reduceCtorEq] at h
  all_goals exact ⟨_, _, h.symm⟩


theorem parseInt_eq_some {bound : Nat} {str : List UInt8} {n : Nat} :
    parseInt bound str = some n ↔
      str ≠ [] ∧ (∀ c ∈ str, Decimal.isDigit c = true) ∧ Decimal.value str < bound ∧ Decimal.value str = n := by
  unfold parseInt
  split
  · rename_i h
    simp only [List.all_eq_true] at h
    obtain ⟨hne, hd, hlt⟩ := h
    constructor
    · intro he
      exact ⟨hne, hd, hlt, Option.some.inj he⟩
    · rintro ⟨-, -, -, rfl⟩
      rfl
  · rename_i h
    simp only [List.all_eq_true, not_and] at h
    simp only [reduceCtorEq, false_iff, not_and]
    intro hne hd hlt
    exact absurd hlt (h hne hd)

theorem parseInt_decimal {bound n : Nat} (h : n < bound) :
    parseInt bound (Decimal.decimal n) = some n :=
  parseInt_eq_some.mpr ⟨Decimal.decimal_ne_nil n, Decimal.isDigit_decimal n,
    by rw [Decimal.value_decimal]; exact h, Decimal.value_decimal n⟩

/-- Text split at a byte it holds once, between parts that do not hold it. -/
theorem split_intercalate {c : UInt8} {parts : List (List UInt8)} (hc : ∀ p ∈ parts, c ∉ p)
    (hne : parts ≠ []) : split ([c].intercalate parts) [c] false = parts := by
  rw [split_single, List.splitOn_intercalate c hc hne]

theorem ne_of_parseInt {bound n : Nat} {str : List UInt8} (h : parseInt bound str = some n) :
    ∀ c ∈ str, c ≠ 46 ∧ c ≠ 58 := by
  intro c hc
  have hd := (parseInt_eq_some.mp h).2.1 c hc
  simp only [Decimal.isDigit, Bool.and_eq_true, decide_eq_true_eq] at hd
  constructor <;> rintro rfl <;> simp at hd

/-- Four parts that each parse as a byte: split at the dots they are joined by, and with no `:`
among them. -/
theorem dotted_parts {d₀ d₁ d₂ d₃ : List UInt8} {n₀ n₁ n₂ n₃ : Nat}
    (h₀ : parseInt 256 d₀ = some n₀) (h₁ : parseInt 256 d₁ = some n₁)
    (h₂ : parseInt 256 d₂ = some n₂) (h₃ : parseInt 256 d₃ = some n₃) :
    split ([46].intercalate [d₀, d₁, d₂, d₃]) (ascii ".") false = [d₀, d₁, d₂, d₃] ∧
      (58 : UInt8) ∉ [46].intercalate [d₀, d₁, d₂, d₃] := by
  have hdots : ∀ d ∈ [d₀, d₁, d₂, d₃], (46 : UInt8) ∉ d := by
    intro d hd h46
    simp only [List.mem_cons, List.not_mem_nil, or_false] at hd
    rcases hd with rfl | rfl | rfl | rfl
    · exact (ne_of_parseInt h₀ 46 h46).1 rfl
    · exact (ne_of_parseInt h₁ 46 h46).1 rfl
    · exact (ne_of_parseInt h₂ 46 h46).1 rfl
    · exact (ne_of_parseInt h₃ 46 h46).1 rfl
  have hn₀ : (58 : UInt8) ∉ d₀ := fun h => (ne_of_parseInt h₀ 58 h).2 rfl
  have hn₁ : (58 : UInt8) ∉ d₁ := fun h => (ne_of_parseInt h₁ 58 h).2 rfl
  have hn₂ : (58 : UInt8) ∉ d₂ := fun h => (ne_of_parseInt h₂ 58 h).2 rfl
  have hn₃ : (58 : UInt8) ∉ d₃ := fun h => (ne_of_parseInt h₃ 58 h).2 rfl
  exact ⟨split_intercalate hdots (by simp), by simp [hn₀, hn₁, hn₂, hn₃]⟩

theorem fromString_dotted (a : SockAddr) {d₀ d₁ d₂ d₃ p : List UInt8} {n₀ n₁ n₂ n₃ port : Nat}
    (h₀ : parseInt 256 d₀ = some n₀) (h₁ : parseInt 256 d₁ = some n₁)
    (h₂ : parseInt 256 d₂ = some n₂) (h₃ : parseInt 256 d₃ = some n₃)
    (hp : parseInt 65536 p = some port) :
    a.fromString inet ([46].intercalate [d₀, d₁, d₂, d₃] ++ 58 :: p) true =
      .ok ((a.setPort port.toUInt16).setIPv4Octets n₀.toUInt8 n₁.toUInt8 n₂.toUInt8 n₃.toUInt8) := by
  obtain ⟨hsplit4, hq⟩ := dotted_parts h₀ h₁ h₂ h₃
  generalize [46].intercalate [d₀, d₁, d₂, d₃] = q at hq hsplit4 ⊢
  -- the address, then the port
  have hsplit : split (q ++ 58 :: p) (ascii ":") false = [q, p] := by
    have hcolons : ∀ d ∈ [q, p], (58 : UInt8) ∉ d := by
      intro d hd h58
      simp only [List.mem_cons, List.not_mem_nil, or_false] at hd
      rcases hd with rfl | rfl
      · exact hq h58
      · exact (ne_of_parseInt hp 58 h58).2 rfl
    have hjoin : [58].intercalate [q, p] = q ++ 58 :: p := by simp
    rw [← hjoin]
    exact split_intercalate hcolons (by simp)
  have hne : (q ++ 58 :: p).isEmpty = false := by simp
  simp only [fromString, hne, hsplit]
  simp [hsplit4, h₀, h₁, h₂, h₃, hp, pure, Except.pure, bind, Except.bind]

theorem fromString_dotted_bare (a : SockAddr) {d₀ d₁ d₂ d₃ : List UInt8} {n₀ n₁ n₂ n₃ : Nat}
    (h₀ : parseInt 256 d₀ = some n₀) (h₁ : parseInt 256 d₁ = some n₁)
    (h₂ : parseInt 256 d₂ = some n₂) (h₃ : parseInt 256 d₃ = some n₃) (allowPort : Bool) :
    a.fromString inet ([46].intercalate [d₀, d₁, d₂, d₃]) allowPort =
      .ok (a.setIPv4Octets n₀.toUInt8 n₁.toUInt8 n₂.toUInt8 n₃.toUInt8) := by
  obtain ⟨hsplit4, hq⟩ := dotted_parts h₀ h₁ h₂ h₃
  have hne : ([46].intercalate [d₀, d₁, d₂, d₃]).isEmpty = false := by
    cases hd : d₀ with
    | nil => simp [hd] at h₀; simp [parseInt] at h₀
    | cons c cs => simp
  generalize [46].intercalate [d₀, d₁, d₂, d₃] = q at hq hsplit4 hne ⊢
  -- the address alone
  have hsplit : split q (ascii ":") false = [q] := by
    have hjoin : [58].intercalate [q] = q := List.intercalate_singleton
    have hcolons : ∀ d ∈ [q], (58 : UInt8) ∉ d := by simpa using hq
    conv_lhs => rw [← hjoin]
    exact split_intercalate hcolons (by simp)
  simp only [fromString, hne, hsplit]
  simp [hsplit4, h₀, h₁, h₂, h₃, pure, Except.pure, bind, Except.bind]

theorem bytes_four (ip : AlignedBuffer 4) : ∃ w x y z, ip.bytes = [w, x, y, z] := by
  match ip.bytes, ip.length_eq with
  | [w, x, y, z], _ => exact ⟨w, x, y, z, rfl⟩

/-- The text of a non-empty IPv4 address reads back as the mirror's address and the port. -/
theorem ofString_toString_ipv4 {a : SockAddr} (h4 : a.isIPv4 = true) (hne : a.isEmpty = false) :
    ofString inet (toString inet a) = .ok ((create.setPort a.port6).setIPv4 a.addr4) := by
  obtain ⟨w, x, y, z, hb⟩ := bytes_four a.addr4
  have htext : toString inet a = [46].intercalate [Decimal.decimal w.toNat, Decimal.decimal x.toNat,
      Decimal.decimal y.toNat, Decimal.decimal z.toNat] ++ 58 :: Decimal.decimal a.port6.toNat := by
    simp [toString, hne, hostString, h4, inetNtop4, getPort, hb, ascii]
  have hip : a.addr4 = ⟨[w, x, y, z], rfl⟩ := AlignedBuffer.ext hb
  rw [htext, ofString, fromString_dotted inet create (parseInt_decimal w.toNat_lt)
    (parseInt_decimal x.toNat_lt) (parseInt_decimal y.toNat_lt) (parseInt_decimal z.toNat_lt)
    (parseInt_decimal a.port6.toNat_lt), hip]
  simp [setIPv4Octets]

/-- A lawful `inet_pton`/`inet_ntop` pair for concrete runs: the letters of `letterInet`, and
the text `::ffff:5.6.7.8` read as that mapped address. -/
def mappedInet : Inet6 where
  ntop := Proofs.Router.RouterContact.letterInet.ntop
  pton s := if s = ascii "::ffff:5.6.7.8" then some (mapIpv4 ⟨[5, 6, 7, 8], rfl⟩)
    else Proofs.Router.RouterContact.letterInet.pton s
  ntop_ne_nul := Proofs.Router.RouterContact.letterInet.ntop_ne_nul
  length_ntop := Proofs.Router.RouterContact.letterInet.length_ntop
  pton_ntop a := by
    -- the letters start at `A`, past the `:` the special text starts with
    have hne : Proofs.Router.RouterContact.letterInet.ntop a ≠ ascii "::ffff:5.6.7.8" := by
      have hcolon : (58 : UInt8) ∈ ascii "::ffff:5.6.7.8" := by decide
      intro h
      rw [← h] at hcolon
      exact absurd (Proofs.Router.RouterContact.letters_ge a.bytes 58 hcolon) (by decide)
    simp only [hne, ↓reduceIte]
    exact Proofs.Router.RouterContact.letterInet.pton_ntop a

/-! ### Runs of calls -/

/-- The calls that keep the mirror: all but `fromString` on text with more than two
`:`-separated parts. -/
def Op.KeepsMirror : Op → Prop
  | .fromString str _ => (split str (ascii ":") false).length ≤ 2
  | _ => True

/-- What `fromString` takes with at most two `:`-separated parts has its mirror right, whatever
the object held before. -/
theorem mirrored_fromString {a a' : SockAddr} {str : List UInt8}
    {allowPort : Bool} (hparts : (split str (ascii ":") false).length ≤ 2)
    (hr : a.fromString inet str allowPort = .ok a') : Mirrored a' := by
  by_cases hne : str = []
  · -- the empty text is `init()`
    subst hne
    simp only [SockAddr.fromString, List.isEmpty_nil, ↓reduceIte, pure, Except.pure,
      Except.ok.injEq] at hr
    subst hr
    exact mirrored_init a
  · obtain ⟨a₀, ip, rfl⟩ := fromString_ipv4_shape inet a hne hparts hr
    exact mirrored_setIPv4 a₀ ip

theorem Mirrored.step {a a' : SockAddr} (h : Mirrored a) {op : Op} (hop : op.KeepsMirror)
    (hs : step inet a op = .ok a') : Mirrored a' := by
  cases op with
  | setIPv4Octets w x y z =>
    obtain rfl := Except.ok.inj hs
    exact mirrored_setIPv4 a _
  | setIPv4 ip =>
    obtain rfl := Except.ok.inj hs
    exact mirrored_setIPv4 a ip
  | setIPv6 ip =>
    obtain rfl := Except.ok.inj hs
    exact mirrored_syncMapped _
  | setPort port =>
    obtain rfl := Except.ok.inj hs
    exact h.setPort port
  | assignIn addr port =>
    obtain rfl := Except.ok.inj hs
    intro _
    simp [assignIn]
  | assignIn6 addr port =>
    obtain rfl := Except.ok.inj hs
    exact mirrored_syncMapped _
  | assignAddr6 addr =>
    obtain rfl := Except.ok.inj hs
    exact mirrored_syncMapped _
  | fromString str allowPort => exact mirrored_fromString inet hop hs

theorem Mirrored.run {a : SockAddr} (h : Mirrored a) {ops : List Op}
    (hops : ∀ op ∈ ops, op.KeepsMirror) : Mirrored (run inet a ops) := by
  -- induction on the calls; a call that throws leaves the object as it was
  induction ops generalizing a with
  | nil => exact h
  | cons op ops ih =>
    have hrest : ∀ o ∈ ops, o.KeepsMirror := fun o ho => hops o (List.mem_cons_of_mem op ho)
    simp only [SockAddr.run]
    split
    · rename_i a' hs
      exact ih (h.step inet (hops op List.mem_cons_self) hs) hrest
    · exact ih h hrest

/-- Every `SockAddr` made by the default constructor and calls that keep the mirror has its
mirror right, and a non-empty IPv4 one reads back from its text as itself under `operator==`. -/
theorem run_keeps_mirror (ops : List Op) (hops : ∀ op ∈ ops, op.KeepsMirror) :
    Mirrored (run inet create ops) ∧
      ((run inet create ops).isIPv4 = true → (run inet create ops).isEmpty = false →
        ∃ b, ofString inet (toString inet (run inet create ops)) = .ok b ∧
          b.eq (run inet create ops) = true) := by
  have hm := mirrored_create.run inet hops
  refine ⟨hm, fun h4 hne => ⟨_, ofString_toString_ipv4 inet h4 hne, ?_⟩⟩
  -- the address read back is the mirror's, which is the mapped address itself
  have haddr : mapIpv4 (run inet create ops).addr4 = (run inet create ops).addr6 := by
    rw [hm h4, mapIpv4_lowBytes h4]
  simp [eq, setIPv4, setPort, haddr]

/-- `SockAddr(1, 2, 3, 4, 80)`, then `fromString("10.0.0.1:1090")`. -/
def sampleCalls : List Op :=
  [.setIPv4Octets 1 2 3 4, .setPort 80, .fromString (ascii "10.0.0.1:1090") true]

theorem run_keeps_mirror_sampleCalls :
    (∀ op ∈ sampleCalls, op.KeepsMirror) ∧ Mirrored (run mappedInet create sampleCalls) ∧
      ((run mappedInet create sampleCalls).isIPv4 = true →
        (run mappedInet create sampleCalls).isEmpty = false →
        ∃ b, ofString mappedInet (toString mappedInet (run mappedInet create sampleCalls)) = .ok b ∧
          b.eq (run mappedInet create sampleCalls) = true) := by
  have hops : ∀ op ∈ sampleCalls, op.KeepsMirror := by
    intro op hop
    simp only [sampleCalls, List.mem_cons, List.not_mem_nil, or_false] at hop
    rcases hop with rfl | rfl | rfl
    · trivial
    · trivial
    · show (split (ascii "10.0.0.1:1090") (ascii ":") false).length ≤ 2
      decide
  exact ⟨hops, run_keeps_mirror mappedInet sampleCalls hops⟩

/-- Text `a.b.c.d`, each part digits for a byte, is read as that address, the port left as it
was; followed by `:p`, digits for a port, it is read as that address and port. -/
theorem fromString_ipv4_text (a : SockAddr) {d₀ d₁ d₂ d₃ : List UInt8} {n₀ n₁ n₂ n₃ : Nat}
    (h₀ : parseInt 256 d₀ = some n₀) (h₁ : parseInt 256 d₁ = some n₁)
    (h₂ : parseInt 256 d₂ = some n₂) (h₃ : parseInt 256 d₃ = some n₃) :
    (∀ allowPort, a.fromString inet ([46].intercalate [d₀, d₁, d₂, d₃]) allowPort =
      .ok (a.setIPv4Octets n₀.toUInt8 n₁.toUInt8 n₂.toUInt8 n₃.toUInt8)) ∧
    ∀ p port, parseInt 65536 p = some port →
      a.fromString inet ([46].intercalate [d₀, d₁, d₂, d₃] ++ 58 :: p) true =
        .ok ((a.setPort port.toUInt16).setIPv4Octets n₀.toUInt8 n₁.toUInt8 n₂.toUInt8 n₃.toUInt8) :=
  ⟨fromString_dotted_bare inet a h₀ h₁ h₂ h₃, fun _ _ hp => fromString_dotted inet a h₀ h₁ h₂ h₃ hp⟩

theorem fromString_ipv4_text_loopback :
    parseInt 256 (ascii "127") = some 127 ∧ parseInt 256 (ascii "0") = some 0 ∧
      parseInt 256 (ascii "1") = some 1 ∧ parseInt 65536 (ascii "1090") = some 1090 ∧
      create.fromString mappedInet (ascii "127.0.0.1:1090") true =
        .ok ((create.setPort 1090).setIPv4Octets 127 0 0 1) := by
  have h127 : parseInt 256 (ascii "127") = some 127 := by decide
  have h0 : parseInt 256 (ascii "0") = some 0 := by decide
  have h1 : parseInt 256 (ascii "1") = some 1 := by decide
  have hp : parseInt 65536 (ascii "1090") = some 1090 := by decide
  have htext : ascii "127.0.0.1:1090" =
      [46].intercalate [ascii "127", ascii "0", ascii "0", ascii "1"] ++ 58 :: ascii "1090" := by
    decide
  refine ⟨h127, h0, h1, hp, ?_⟩
  rw [htext, (fromString_ipv4_text mappedInet create h127 h0 h0 h1).2 _ _ hp]
  rfl

/-! ### The branch for IPv6 text -/

/-- Text with more than two `:`-separated parts is taken whether or not `inet_pton` parses it: a
`SockAddr` is left as it was by text `inet_pton` refuses. A mapped IPv4 address it parses reaches
`m_addr` but not the mirror: the result is an IPv4 address whose `m_addr4` holds the old one, and
which, if it was not empty, prints as the old address and does not parse back to itself. -/
theorem fromString_colons_break_mirror (a : SockAddr) (str : List UInt8) (allowPort : Bool)
    (hparts : 2 < (split str (ascii ":") false).length) :
    (inet.pton (str.takeWhile (· ≠ 0)) = none → a.fromString inet str allowPort = .ok a) ∧
    ∀ v, inet.pton (str.takeWhile (· ≠ 0)) = some v → ipv6IsMappedIpv4 v.bytes = true →
      lowBytes v ≠ a.addr4 →
      ∃ a', a.fromString inet str allowPort = .ok a' ∧ a'.isIPv4 = true ∧
        a'.addr4 ≠ lowBytes a'.addr6 ∧
        (a.isEmpty = false → ∀ b, ofString inet (toString inet a') = .ok b → b.eq a' = false) := by
  refine ⟨fun hnone => ?_, fun v hv hmap hlow => ?_⟩
  · rw [fromString_colons inet a allowPort hparts, hnone]
    rfl
  · refine ⟨{ a with addr6 := v }, ?_, hmap, Ne.symm hlow, fun hne b hb => ?_⟩
    · rw [fromString_colons inet a allowPort hparts, hv]
      rfl
    have h4 : ({ a with addr6 := v } : SockAddr).isIPv4 = true := hmap
    rw [ofString_toString_ipv4 inet h4 hne] at hb
    -- what is read back is the address the mirror kept, not `v`
    obtain rfl := Except.ok.inj hb
    have hdiff : mapIpv4 a.addr4 ≠ v := fun h => hlow (by rw [← h, lowBytes_mapIpv4])
    simp [eq, setIPv4, setPort, hdiff]

/-- `1.2.3.4:80`. -/
def sampleV4 : SockAddr := (create.setIPv4Octets 1 2 3 4).setPort 80

theorem fromString_colons_break_mirror_mapped :
    sampleV4.fromString mappedInet (ascii "x:y:z") true = .ok sampleV4 ∧
      ∃ a', sampleV4.fromString mappedInet (ascii "::ffff:5.6.7.8") true = .ok a' ∧
        a'.isIPv4 = true ∧ a'.addr4 ≠ lowBytes a'.addr6 ∧
        ∀ b, ofString mappedInet (toString mappedInet a') = .ok b → b.eq a' = false := by
  obtain ⟨hrefused, -⟩ := fromString_colons_break_mirror mappedInet sampleV4 (ascii "x:y:z") true
    (by decide)
  obtain ⟨-, hmapped⟩ := fromString_colons_break_mirror mappedInet sampleV4
    (ascii "::ffff:5.6.7.8") true (by decide)
  obtain ⟨a', hrun, h4, hmirror, hback⟩ := hmapped (mapIpv4 ⟨[5, 6, 7, 8], rfl⟩)
    (by decide) (by decide) (by decide)
  exact ⟨hrefused (by decide), a', hrun, h4, hmirror, hback rfl⟩

end SockAddr

end Lokinet.Net
