import Mathlib.Algebra.Order.Ring.Int
import Mathlib.Data.List.Basic
import Marginalis.AddressBlocks
import Marginalis.Result

/-!
# Where a webhook may be sent

A webhook goes to a host that a user names, so the server must not reach its own network for the
user. The check of a destination keeps addresses that are not of the public network out, by the
ranges that the code knows. `Ipv4Addr.SpecialPurpose` and `Ipv6Addr.SpecialPurpose` say which
addresses are not of it, by tables of blocks, and `is_public_webhook_address_iff` says which of
these pass the check.
-/

namespace Marginalis

open AddressBlocks

/-! ## Addresses -/

/-- `Ipv4Addr`, by its octets. -/
@[ext] structure Ipv4Addr where
  a : UInt8
  b : UInt8
  c : UInt8
  d : UInt8
  deriving DecidableEq

/-- `Ipv6Addr`, by its segments. -/
@[ext] structure Ipv6Addr where
  a : UInt16
  b : UInt16
  c : UInt16
  d : UInt16
  e : UInt16
  f : UInt16
  g : UInt16
  h : UInt16
  deriving DecidableEq

inductive IpAddr
  | v4 (address : Ipv4Addr)
  | v6 (address : Ipv6Addr)
  deriving DecidableEq

namespace Ipv4Addr

def isUnspecified (address : Ipv4Addr) : Bool := address = ⟨0, 0, 0, 0⟩

def isLoopback (address : Ipv4Addr) : Bool := address.a = 127

def isPrivate (address : Ipv4Addr) : Bool :=
  address.a = 10 || (address.a = 172 && (16 ≤ address.b && address.b ≤ 31)) ||
    (address.a = 192 && address.b = 168)

def isLinkLocal (address : Ipv4Addr) : Bool := address.a = 169 && address.b = 254

def isBroadcast (address : Ipv4Addr) : Bool := address = ⟨255, 255, 255, 255⟩

def isDocumentation (address : Ipv4Addr) : Bool :=
  (address.a = 192 && address.b = 0 && address.c = 2) ||
    (address.a = 198 && address.b = 51 && address.c = 100) ||
    (address.a = 203 && address.b = 0 && address.c = 113)

def isMulticast (address : Ipv4Addr) : Bool := 224 ≤ address.a && address.a ≤ 239

/-- The address in two segments. -/
def ofSegments (high low : UInt16) : Ipv4Addr where
  a := UInt8.ofNat (high.toNat / 256)
  b := UInt8.ofNat (high.toNat % 256)
  c := UInt8.ofNat (low.toNat / 256)
  d := UInt8.ofNat (low.toNat % 256)

def toNat (address : Ipv4Addr) : ℕ :=
  address.a.toNat * 2 ^ 24 + address.b.toNat * 2 ^ 16 + address.c.toNat * 2 ^ 8 + address.d.toNat

end Ipv4Addr

namespace Ipv6Addr

def isUnspecified (address : Ipv6Addr) : Bool := address = ⟨0, 0, 0, 0, 0, 0, 0, 0⟩

def isLoopback (address : Ipv6Addr) : Bool := address = ⟨0, 0, 0, 0, 0, 0, 0, 1⟩

def isMulticast (address : Ipv6Addr) : Bool := address.a &&& 0xff00 = 0xff00

def toIpv4Mapped (address : Ipv6Addr) : Option Ipv4Addr :=
  if address.a = 0 ∧ address.b = 0 ∧ address.c = 0 ∧ address.d = 0 ∧ address.e = 0 ∧
      address.f = 0xffff then
    some (Ipv4Addr.ofSegments address.g address.h)
  else
    none

def toNat (address : Ipv6Addr) : ℕ :=
  address.a.toNat * 2 ^ 112 + address.b.toNat * 2 ^ 96 + address.c.toNat * 2 ^ 80 +
    address.d.toNat * 2 ^ 64 + address.e.toNat * 2 ^ 48 + address.f.toNat * 2 ^ 32 +
    address.g.toNat * 2 ^ 16 + address.h.toNat

end Ipv6Addr

/-! ## The check -/

def isPublicIpv4 (v4 : Ipv4Addr) : Bool :=
  !(v4.isUnspecified || v4.isLoopback || v4.isPrivate || v4.isLinkLocal || v4.isBroadcast ||
    v4.isDocumentation || v4.isMulticast ||
    -- 100.64.0.0/10
    (v4.a = 100 && v4.b &&& 0b11000000 = 64) ||
    -- 192.0.0.0/24
    (v4.a = 192 && v4.b = 0 && v4.c = 0) ||
    -- 198.18.0.0/15
    (v4.a = 198 && v4.b &&& 0b11111110 = 18) ||
    -- 240.0.0.0/4
    240 ≤ v4.a)

def isPublicWebhookAddress : IpAddr → Bool
  | .v4 v4 => isPublicIpv4 v4
  | .v6 v6 =>
    match v6.toIpv4Mapped with
    | some mapped => isPublicIpv4 mapped
    | none =>
      !(v6.isUnspecified || v6.isLoopback || v6.isMulticast ||
        -- fc00::/7
        v6.a &&& 0xfe00 = 0xfc00 ||
        -- fe80::/10
        v6.a &&& 0xffc0 = 0xfe80 ||
        -- 2001:db8::/32
        (v6.a = 0x2001 && v6.b = 0x0db8))

/-! ## Special-purpose addresses -/

def block4 (base : Ipv4Addr) (prefixLength : ℕ) : Block 32 := ⟨base.toNat, prefixLength⟩

def block6 (base : Ipv6Addr) (prefixLength : ℕ) : Block 128 := ⟨base.toNat, prefixLength⟩

/-- The ranges of RFC 6890 that are not global, and multicast : this network, private, shared,
loopback, link-local, protocol assignments, documentation, benchmarking and reserved addresses. -/
def ipv4SpecialPurpose : List (Block 32) :=
  [block4 ⟨0, 0, 0, 0⟩ 8,
    block4 ⟨10, 0, 0, 0⟩ 8, block4 ⟨172, 16, 0, 0⟩ 12, block4 ⟨192, 168, 0, 0⟩ 16,
    block4 ⟨100, 64, 0, 0⟩ 10,
    block4 ⟨127, 0, 0, 0⟩ 8,
    block4 ⟨169, 254, 0, 0⟩ 16,
    -- with 192.0.0.0/29
    block4 ⟨192, 0, 0, 0⟩ 24,
    block4 ⟨192, 0, 2, 0⟩ 24, block4 ⟨198, 51, 100, 0⟩ 24, block4 ⟨203, 0, 113, 0⟩ 24,
    block4 ⟨198, 18, 0, 0⟩ 15,
    block4 ⟨224, 0, 0, 0⟩ 4,
    -- with 255.255.255.255/32
    block4 ⟨240, 0, 0, 0⟩ 4]

/-- The ranges of RFC 6890 that are not global, with site-local and multicast addresses : the
unspecified, loopback, discard-only, protocol assignment, documentation, unique-local and
link-local ones. An IPv4-mapped address is what the address in it is. -/
def ipv6SpecialPurpose : List (Block 128) :=
  [block6 ⟨0, 0, 0, 0, 0, 0, 0, 0⟩ 128,
    block6 ⟨0, 0, 0, 0, 0, 0, 0, 1⟩ 128,
    block6 ⟨0x100, 0, 0, 0, 0, 0, 0, 0⟩ 64,
    -- 2001::/23, with 2001::/32 (Teredo), 2001:2::/48 (benchmarking) and 2001:10::/28 (ORCHID)
    block6 ⟨0x2001, 0, 0, 0, 0, 0, 0, 0⟩ 23,
    block6 ⟨0x2001, 0xdb8, 0, 0, 0, 0, 0, 0⟩ 32,
    block6 ⟨0xfc00, 0, 0, 0, 0, 0, 0, 0⟩ 7,
    block6 ⟨0xfe80, 0, 0, 0, 0, 0, 0, 0⟩ 10,
    block6 ⟨0xfec0, 0, 0, 0, 0, 0, 0, 0⟩ 10,
    block6 ⟨0xff00, 0, 0, 0, 0, 0, 0, 0⟩ 8]

/-- IPv4-mapped, IPv4-compatible and NAT64 addresses, which end in an IPv4 address. -/
def ipv4Suffixed : List (Block 128) :=
  [block6 ⟨0, 0, 0, 0, 0, 0xffff, 0, 0⟩ 96, block6 ⟨0, 0, 0, 0, 0, 0, 0, 0⟩ 96,
    block6 ⟨0x64, 0xff9b, 0, 0, 0, 0, 0, 0⟩ 96]

/-- 6to4 addresses, which have an IPv4 address behind their first segment. -/
def sixToFour : Block 128 := block6 ⟨0x2002, 0, 0, 0, 0, 0, 0, 0⟩ 16

def Ipv4Addr.SpecialPurpose (address : Ipv4Addr) : Prop :=
  InTable ipv4SpecialPurpose address.toNat

instance (address : Ipv4Addr) : Decidable address.SpecialPurpose :=
  inferInstanceAs (Decidable (InTable _ _))

/-- The IPv4 address that an IPv6 address leads to. -/
def Ipv6Addr.Embeds (address : Ipv6Addr) (embedded : Ipv4Addr) : Prop :=
  InTable ipv4Suffixed address.toNat ∧ embedded.toNat = address.toNat % 2 ^ 32 ∨
    sixToFour.Contains address.toNat ∧ embedded.toNat = address.toNat / 2 ^ 80 % 2 ^ 32

def Ipv6Addr.SpecialPurpose (address : Ipv6Addr) : Prop :=
  InTable ipv6SpecialPurpose address.toNat ∨
    ∃ embedded, address.Embeds embedded ∧ embedded.SpecialPurpose

def IpAddr.GloballyRoutable : IpAddr → Prop
  | .v4 address => ¬ address.SpecialPurpose
  | .v6 address => ¬ address.SpecialPurpose

/-! ## What the check leaves out -/

/-- An address of this network, apart from the unspecified one. -/
def Ipv4Addr.Unchecked (address : Ipv4Addr) : Prop := address.a = 0 ∧ address ≠ ⟨0, 0, 0, 0⟩

/-- The check does not know discard-only, protocol assignment and site-local addresses, nor the
IPv4 address in an IPv4-compatible, a NAT64 or a 6to4 one. -/
def Ipv6Addr.Unchecked (address : Ipv6Addr) : Prop :=
  (∃ mapped, address.toIpv4Mapped = some mapped ∧ mapped.Unchecked) ∨
  (address.a = 0x100 ∧ address.b = 0 ∧ address.c = 0 ∧ address.d = 0) ∨
  (address.a = 0x2001 ∧ address.b < 0x200) ∨
  (0xfec0 ≤ address.a ∧ address.a ≤ 0xfeff) ∨
  (address.a = 0 ∧ address.b = 0 ∧ address.c = 0 ∧ address.d = 0 ∧ address.e = 0 ∧
    address.f = 0 ∧ (Ipv4Addr.ofSegments address.g address.h).SpecialPurpose ∧
    address.isUnspecified = false ∧ address.isLoopback = false) ∨
  (address.a = 0x64 ∧ address.b = 0xff9b ∧ address.c = 0 ∧ address.d = 0 ∧ address.e = 0 ∧
    address.f = 0 ∧ (Ipv4Addr.ofSegments address.g address.h).SpecialPurpose) ∨
  (address.a = 0x2002 ∧ (Ipv4Addr.ofSegments address.b address.c).SpecialPurpose)

def IpAddr.Unchecked : IpAddr → Prop
  | .v4 address => address.Unchecked
  | .v6 address => address.Unchecked

/-! ## IPv4 -/

/-- The ranges that both the check and the tables name. -/
def KnownIpv4 (a b c : ℕ) : Prop :=
  a = 10 ∨ a = 172 ∧ 16 ≤ b ∧ b ≤ 31 ∨ a = 192 ∧ b = 168 ∨ a = 100 ∧ 64 ≤ b ∧ b ≤ 127 ∨
    a = 127 ∨ a = 169 ∧ b = 254 ∨ a = 192 ∧ b = 0 ∧ c = 0 ∨ a = 192 ∧ b = 0 ∧ c = 2 ∨
    a = 198 ∧ b = 51 ∧ c = 100 ∨ a = 203 ∧ b = 0 ∧ c = 113 ∨ a = 198 ∧ 18 ≤ b ∧ b ≤ 19 ∨
    224 ≤ a ∧ a ≤ 239 ∨ 240 ≤ a

section Ipv4

variable (v4 : Ipv4Addr)

theorem specialPurpose_iff_known :
    v4.SpecialPurpose ↔ v4.a.toNat = 0 ∨ KnownIpv4 v4.a.toNat v4.b.toNat v4.c.toNat := by
  have ha := v4.a.toNat_lt
  have hb := v4.b.toNat_lt
  have hc := v4.c.toNat_lt
  have hd := v4.d.toNat_lt
  unfold Ipv4Addr.SpecialPurpose ipv4SpecialPurpose KnownIpv4
  simp only [inTable_cons, inTable_nil, or_false, Block.Contains, block4, Ipv4Addr.toNat,
    UInt8.reduceToNat, Nat.reducePow, Nat.reduceMul, Nat.reduceAdd, Nat.reduceSub, Nat.reduceDiv]
  refine or_congr (by omega) (or_congr (by omega) (or_congr (by omega) (or_congr (by omega)
    (or_congr (by omega) (or_congr (by omega) (or_congr (by omega) (or_congr (by omega)
      (or_congr (by omega) (or_congr (by omega) (or_congr (by omega) (or_congr (by omega)
        (or_congr (by omega) (by omega)))))))))))))

theorem octet_eq_iff {x y : UInt8} : x = y ↔ x.toNat = y.toNat := UInt8.toNat_inj.symm

theorem octet_and_eq_iff {x mask y : UInt8} {k m d : ℕ} (hk : k + m = 8)
    (hmask : mask.toNat = (2 ^ k - 1) * 2 ^ m) (hy : y.toNat = d * 2 ^ m) :
    x &&& mask = y ↔ x.toNat / 2 ^ m = d := by
  have hx : x.toNat < 2 ^ (k + m) := by
    rw [hk]
    exact x.toNat_lt
  rw [octet_eq_iff, UInt8.toNat_and, hmask, hy, land_eq_iff hx]

theorem isPublicIpv4_eq_false : isPublicIpv4 v4 = false ↔
    v4.isUnspecified = true ∨ KnownIpv4 v4.a.toNat v4.b.toNat v4.c.toNat := by
  have ha := v4.a.toNat_lt
  have hb := v4.b.toNat_lt
  have hc := v4.c.toNat_lt
  have hshared : v4.b &&& 0b11000000 = 64 ↔ 64 ≤ v4.b.toNat ∧ v4.b.toNat ≤ 127 := by
    rw [octet_and_eq_iff (k := 2) (m := 6) (d := 1) rfl rfl rfl]
    omega
  have hbenchmarking : v4.b &&& 0b11111110 = 18 ↔ 18 ≤ v4.b.toNat ∧ v4.b.toNat ≤ 19 := by
    rw [octet_and_eq_iff (k := 7) (m := 1) (d := 9) rfl rfl rfl]
    omega
  unfold isPublicIpv4 KnownIpv4
  simp only [Bool.not_eq_false', Bool.or_eq_true, Bool.and_eq_true, decide_eq_true_iff, hshared,
    hbenchmarking, Ipv4Addr.isLoopback, Ipv4Addr.isPrivate, Ipv4Addr.isLinkLocal,
    Ipv4Addr.isBroadcast, Ipv4Addr.isDocumentation, Ipv4Addr.isMulticast, octet_eq_iff,
    UInt8.le_iff_toNat_le, UInt8.reduceToNat]
  have hbroadcast : v4 = ⟨255, 255, 255, 255⟩ → 240 ≤ v4.a.toNat := by
    rintro rfl
    decide
  have hreserved : v4 = ⟨255, 255, 255, 255⟩ ∨ 240 ≤ v4.a.toNat ↔ 240 ≤ v4.a.toNat :=
    or_iff_right_of_imp hbroadcast
  rw [← hreserved]
  simp only [and_assoc, or_assoc]
  exact iff_of_eq (by ac_rfl)

/-- The check keeps out what the table names, apart from addresses of this network. -/
theorem ipv4_unchecked_iff :
    isPublicIpv4 v4 = true ∧ v4.SpecialPurpose ↔ v4.Unchecked := by
  have hthis : v4.a.toNat = 0 → ¬ KnownIpv4 v4.a.toNat v4.b.toNat v4.c.toNat := by
    intro hzero hknown
    simp [KnownIpv4, hzero] at hknown
  have hunchecked : v4.Unchecked ↔ v4.a.toNat = 0 ∧ ¬ v4.isUnspecified = true := by
    rw [Ipv4Addr.Unchecked, octet_eq_iff, Ipv4Addr.isUnspecified, decide_eq_true_iff]
    rfl
  have hpublic := (isPublicIpv4_eq_false v4).not
  rw [Bool.not_eq_false] at hpublic
  rw [hpublic, specialPurpose_iff_known, hunchecked, not_or]
  refine ⟨fun h => ?_, fun h => ?_⟩
  · obtain ⟨⟨hne, hunknown⟩, hzero | hknown⟩ := h
    · exact ⟨hzero, hne⟩
    · exact absurd hknown hunknown
  · exact ⟨⟨h.2, hthis h.1⟩, Or.inl h.1⟩

end Ipv4

/-! ## IPv6 -/

section Ipv6

variable (v6 : Ipv6Addr)

theorem segment_eq_iff {x y : UInt16} : x = y ↔ x.toNat = y.toNat := UInt16.toNat_inj.symm

theorem segment_and_eq_iff {x mask y : UInt16} {k m d : ℕ} (hk : k + m = 16)
    (hmask : mask.toNat = (2 ^ k - 1) * 2 ^ m) (hy : y.toNat = d * 2 ^ m) :
    x &&& mask = y ↔ x.toNat / 2 ^ m = d := by
  have hx : x.toNat < 2 ^ (k + m) := by
    rw [hk]
    exact x.toNat_lt
  rw [segment_eq_iff, UInt16.toNat_and, hmask, hy, land_eq_iff hx]

theorem toNat_ofSegments (high low : UInt16) :
    (Ipv4Addr.ofSegments high low).toNat = high.toNat * 2 ^ 16 + low.toNat := by
  have hhigh := high.toNat_lt
  have hlow := low.toNat_lt
  have hoctet : ∀ n, n < 256 → (UInt8.ofNat n).toNat = n := fun n hn => UInt8.toNat_ofNat_of_lt' hn
  rw [Ipv4Addr.toNat, Ipv4Addr.ofSegments, hoctet _ (by omega), hoctet _ (by omega),
    hoctet _ (by omega), hoctet _ (by omega)]
  omega

/-- Segments that are all zero or the last of which is one, and the blocks that the check names. -/
def KnownIpv6 (v6 : Ipv6Addr) : Prop :=
  v6.isUnspecified = true ∨ v6.isLoopback = true ∨ v6.a.toNat / 256 = 255 ∨
    v6.a.toNat / 512 = 126 ∨ v6.a.toNat / 64 = 1018 ∨
    v6.a.toNat = 0x2001 ∧ v6.b.toNat = 0xdb8

/-- The blocks that the check does not name. -/
def UnknownIpv6 (v6 : Ipv6Addr) : Prop :=
  v6.a.toNat = 0x100 ∧ v6.b.toNat = 0 ∧ v6.c.toNat = 0 ∧ v6.d.toNat = 0 ∨
    v6.a.toNat = 0x2001 ∧ v6.b.toNat < 0x200 ∨ v6.a.toNat / 64 = 1019

theorem inTable_ipv6SpecialPurpose :
    InTable ipv6SpecialPurpose v6.toNat ↔ KnownIpv6 v6 ∨ UnknownIpv6 v6 := by
  have ha := v6.a.toNat_lt
  have hb := v6.b.toNat_lt
  have hc := v6.c.toNat_lt
  have hd := v6.d.toNat_lt
  have he := v6.e.toNat_lt
  have hf := v6.f.toNat_lt
  have hg := v6.g.toNat_lt
  have hh := v6.h.toNat_lt
  have hblocks : InTable ipv6SpecialPurpose v6.toNat ↔
      v6.isUnspecified = true ∨ v6.isLoopback = true ∨
        (v6.a.toNat = 0x100 ∧ v6.b.toNat = 0 ∧ v6.c.toNat = 0 ∧ v6.d.toNat = 0) ∨
        (v6.a.toNat = 0x2001 ∧ v6.b.toNat < 0x200) ∨
        (v6.a.toNat = 0x2001 ∧ v6.b.toNat = 0xdb8) ∨ v6.a.toNat / 512 = 126 ∨
        v6.a.toNat / 64 = 1018 ∨ v6.a.toNat / 64 = 1019 ∨ v6.a.toNat / 256 = 255 := by
    unfold ipv6SpecialPurpose Ipv6Addr.isUnspecified Ipv6Addr.isLoopback
    simp only [inTable_cons, inTable_nil, or_false, Block.Contains, block6, Ipv6Addr.toNat,
      UInt16.reduceToNat, Nat.reducePow, Nat.reduceMul, Nat.reduceAdd, Nat.reduceSub,
      Nat.reduceDiv, decide_eq_true_iff, Ipv6Addr.ext_iff, segment_eq_iff]
    refine or_congr (by omega) (or_congr (by omega) (or_congr (by omega) (or_congr (by omega)
      (or_congr (by omega) (or_congr (by omega) (or_congr (by omega) (or_congr (by omega)
        (by omega))))))))
  rw [hblocks, KnownIpv6, UnknownIpv6]
  simp only [or_assoc]
  exact iff_of_eq (by ac_rfl)

theorem ipv4_toNat_inj {x y : Ipv4Addr} : x.toNat = y.toNat ↔ x = y := by
  refine ⟨fun h => ?_, fun h => by rw [h]⟩
  have ha := x.a.toNat_lt
  have hb := x.b.toNat_lt
  have hc := x.c.toNat_lt
  have hd := x.d.toNat_lt
  have ha' := y.a.toNat_lt
  have hb' := y.b.toNat_lt
  have hc' := y.c.toNat_lt
  have hd' := y.d.toNat_lt
  unfold Ipv4Addr.toNat at h
  rw [Ipv4Addr.ext_iff, octet_eq_iff, octet_eq_iff, octet_eq_iff, octet_eq_iff]
  refine ⟨by omega, by omega, by omega, by omega⟩

/-- The embedded address is written in the last two segments, or behind the first. -/
theorem embeds_iff {embedded : Ipv4Addr} :
    v6.Embeds embedded ↔
      ((v6.toIpv4Mapped.isSome = true ∨
        (v6.a.toNat = 0 ∧ v6.b.toNat = 0 ∧ v6.c.toNat = 0 ∧ v6.d.toNat = 0 ∧ v6.e.toNat = 0 ∧
          v6.f.toNat = 0) ∨
        (v6.a.toNat = 0x64 ∧ v6.b.toNat = 0xff9b ∧ v6.c.toNat = 0 ∧ v6.d.toNat = 0 ∧
          v6.e.toNat = 0 ∧ v6.f.toNat = 0)) ∧
        embedded = Ipv4Addr.ofSegments v6.g v6.h) ∨
      v6.a.toNat = 0x2002 ∧ embedded = Ipv4Addr.ofSegments v6.b v6.c := by
  have ha := v6.a.toNat_lt
  have hb := v6.b.toNat_lt
  have hc := v6.c.toNat_lt
  have hd := v6.d.toNat_lt
  have he := v6.e.toNat_lt
  have hf := v6.f.toNat_lt
  have hg := v6.g.toNat_lt
  have hh := v6.h.toNat_lt
  have hsuffix : v6.toNat % 2 ^ 32 = (Ipv4Addr.ofSegments v6.g v6.h).toNat := by
    rw [toNat_ofSegments, Ipv6Addr.toNat]
    omega
  have hbehind : v6.toNat / 2 ^ 80 % 2 ^ 32 = (Ipv4Addr.ofSegments v6.b v6.c).toNat := by
    rw [toNat_ofSegments, Ipv6Addr.toNat]
    omega
  have hsix : sixToFour.Contains v6.toNat ↔ v6.a.toNat = 0x2002 := by
    simp only [sixToFour, Block.Contains, block6, Ipv6Addr.toNat, UInt16.reduceToNat,
      Nat.reducePow, Nat.reduceMul, Nat.reduceAdd, Nat.reduceSub, Nat.reduceDiv]
    omega
  have hmapped : v6.toIpv4Mapped.isSome = true ↔ v6.a.toNat = 0 ∧ v6.b.toNat = 0 ∧
      v6.c.toNat = 0 ∧ v6.d.toNat = 0 ∧ v6.e.toNat = 0 ∧ v6.f.toNat = 0xffff := by
    unfold Ipv6Addr.toIpv4Mapped
    simp only [segment_eq_iff, UInt16.reduceToNat]
    split_ifs with h
    · simpa using h
    · simpa using h
  have htable : InTable ipv4Suffixed v6.toNat ↔ v6.toIpv4Mapped.isSome = true ∨
      (v6.a.toNat = 0 ∧ v6.b.toNat = 0 ∧ v6.c.toNat = 0 ∧ v6.d.toNat = 0 ∧ v6.e.toNat = 0 ∧
        v6.f.toNat = 0) ∨
      (v6.a.toNat = 0x64 ∧ v6.b.toNat = 0xff9b ∧ v6.c.toNat = 0 ∧ v6.d.toNat = 0 ∧
        v6.e.toNat = 0 ∧ v6.f.toNat = 0) := by
    rw [hmapped]
    simp only [ipv4Suffixed, inTable_cons, inTable_nil, or_false, Block.Contains, block6,
      Ipv6Addr.toNat, UInt16.reduceToNat, Nat.reducePow, Nat.reduceMul, Nat.reduceAdd,
      Nat.reduceSub, Nat.reduceDiv]
    exact or_congr (by omega) (or_congr (by omega) (by omega))
  rw [Ipv6Addr.Embeds, hsuffix, hbehind, hsix, htable, ipv4_toNat_inj, ipv4_toNat_inj]

theorem toIpv4Mapped_eq {mapped : Ipv4Addr} (h : v6.toIpv4Mapped = some mapped) :
    mapped = Ipv4Addr.ofSegments v6.g v6.h ∧ v6.a.toNat = 0 ∧ v6.f.toNat = 0xffff := by
  unfold Ipv6Addr.toIpv4Mapped at h
  split_ifs at h with hsegments
  refine ⟨(Option.some.inj h).symm, ?_, ?_⟩
  · rw [hsegments.1]
    rfl
  · rw [hsegments.2.2.2.2.2]
    rfl

theorem ipv6_specialPurpose_iff :
    v6.SpecialPurpose ↔ (KnownIpv6 v6 ∨ UnknownIpv6 v6) ∨
      ((v6.toIpv4Mapped.isSome = true ∨
        (v6.a.toNat = 0 ∧ v6.b.toNat = 0 ∧ v6.c.toNat = 0 ∧ v6.d.toNat = 0 ∧ v6.e.toNat = 0 ∧
          v6.f.toNat = 0) ∨
        (v6.a.toNat = 0x64 ∧ v6.b.toNat = 0xff9b ∧ v6.c.toNat = 0 ∧ v6.d.toNat = 0 ∧
          v6.e.toNat = 0 ∧ v6.f.toNat = 0)) ∧
        (Ipv4Addr.ofSegments v6.g v6.h).SpecialPurpose) ∨
      v6.a.toNat = 0x2002 ∧ (Ipv4Addr.ofSegments v6.b v6.c).SpecialPurpose := by
  rw [Ipv6Addr.SpecialPurpose, inTable_ipv6SpecialPurpose]
  refine or_congr Iff.rfl ⟨fun h => ?_, fun h => ?_⟩
  · obtain ⟨embedded, hembeds, hspecial⟩ := h
    rcases (embeds_iff v6).mp hembeds with ⟨hsuffixed, rfl⟩ | ⟨hsix, rfl⟩
    · exact Or.inl ⟨hsuffixed, hspecial⟩
    · exact Or.inr ⟨hsix, hspecial⟩
  · rcases h with ⟨hsuffixed, hspecial⟩ | ⟨hsix, hspecial⟩
    · exact ⟨_, (embeds_iff v6).mpr (Or.inl ⟨hsuffixed, rfl⟩), hspecial⟩
    · exact ⟨_, (embeds_iff v6).mpr (Or.inr ⟨hsix, rfl⟩), hspecial⟩

theorem isPublicWebhookAddress_of_not_mapped (h : v6.toIpv4Mapped = none) :
    isPublicWebhookAddress (.v6 v6) = true ↔ ¬ KnownIpv6 v6 := by
  have hlocal : v6.a &&& 0xfe00 = 0xfc00 ↔ v6.a.toNat / 512 = 126 :=
    segment_and_eq_iff (k := 7) (m := 9) rfl rfl rfl
  have hlink : v6.a &&& 0xffc0 = 0xfe80 ↔ v6.a.toNat / 64 = 1018 :=
    segment_and_eq_iff (k := 10) (m := 6) rfl rfl rfl
  have hmulticast : v6.a &&& 0xff00 = 0xff00 ↔ v6.a.toNat / 256 = 255 :=
    segment_and_eq_iff (k := 8) (m := 8) rfl rfl rfl
  have hdocumentation : v6.a = 0x2001 ∧ v6.b = 0x0db8 ↔
      v6.a.toNat = 0x2001 ∧ v6.b.toNat = 0xdb8 := by
    rw [segment_eq_iff, segment_eq_iff]
    rfl
  rw [isPublicWebhookAddress, h]
  simp only [Bool.not_eq_true', ← Bool.not_eq_true, Bool.or_eq_true, Bool.and_eq_true,
    decide_eq_true_iff, Ipv6Addr.isMulticast, hlocal, hlink, hmulticast, hdocumentation, or_assoc]
  rfl

/-- The kinds the check leaves out, by the numbers of the segments. -/
theorem unchecked_iff_toNat : v6.Unchecked ↔
    (∃ mapped, v6.toIpv4Mapped = some mapped ∧ mapped.Unchecked) ∨ UnknownIpv6 v6 ∨
      ((v6.a.toNat = 0 ∧ v6.b.toNat = 0 ∧ v6.c.toNat = 0 ∧ v6.d.toNat = 0 ∧ v6.e.toNat = 0 ∧
        v6.f.toNat = 0) ∧ (Ipv4Addr.ofSegments v6.g v6.h).SpecialPurpose ∧
        v6.isUnspecified = false ∧ v6.isLoopback = false) ∨
      ((v6.a.toNat = 0x64 ∧ v6.b.toNat = 0xff9b ∧ v6.c.toNat = 0 ∧ v6.d.toNat = 0 ∧
        v6.e.toNat = 0 ∧ v6.f.toNat = 0) ∧ (Ipv4Addr.ofSegments v6.g v6.h).SpecialPurpose) ∨
      v6.a.toNat = 0x2002 ∧ (Ipv4Addr.ofSegments v6.b v6.c).SpecialPurpose := by
  have hsite : 0xfec0 ≤ v6.a ∧ v6.a ≤ 0xfeff ↔ v6.a.toNat / 64 = 1019 := by
    rw [UInt16.le_iff_toNat_le, UInt16.le_iff_toNat_le]
    simp only [UInt16.reduceToNat]
    omega
  rw [Ipv6Addr.Unchecked, UnknownIpv6, hsite]
  simp only [segment_eq_iff, UInt16.lt_iff_toNat_lt, UInt16.reduceToNat, and_assoc, or_assoc]

theorem ipv6_unchecked_of_mapped {mapped : Ipv4Addr} (h : v6.toIpv4Mapped = some mapped) :
    isPublicWebhookAddress (.v6 v6) = true ∧ v6.SpecialPurpose ↔ v6.Unchecked := by
  obtain ⟨htail, ha, hf⟩ := toIpv4Mapped_eq v6 h
  have hknown : ¬ KnownIpv6 v6 := by
    unfold KnownIpv6 Ipv6Addr.isUnspecified Ipv6Addr.isLoopback
    simp only [decide_eq_true_iff, Ipv6Addr.ext_iff, segment_eq_iff, UInt16.reduceToNat]
    omega
  have hunknown : ¬ UnknownIpv6 v6 := by
    unfold UnknownIpv6
    omega
  have hspecial : v6.SpecialPurpose ↔ mapped.SpecialPurpose := by
    rw [ipv6_specialPurpose_iff, h, htail]
    simp [hknown, hunknown, ha]
  have hunchecked : v6.Unchecked ↔ mapped.Unchecked := by
    rw [unchecked_iff_toNat, h]
    simp [hunknown, ha, hf]
  have hpublic : isPublicWebhookAddress (.v6 v6) = isPublicIpv4 mapped := by
    rw [isPublicWebhookAddress, h]
  rw [hspecial, hunchecked, hpublic, ipv4_unchecked_iff]

/-- No address of another kind is one that the check names, apart from the two it names among the
IPv4-compatible ones. -/
theorem not_knownIpv6 (hkind : v6.a.toNat = 0 ∨ v6.a.toNat = 0x64 ∨ v6.a.toNat = 0x2002 ∨
    UnknownIpv6 v6) (hunspecified : v6.isUnspecified = false) (hloopback : v6.isLoopback = false) :
    ¬ KnownIpv6 v6 := by
  unfold KnownIpv6
  rw [hunspecified, hloopback]
  unfold UnknownIpv6 at hkind
  simp only [Bool.false_eq_true, false_or]
  omega

theorem ipv6_unchecked_of_not_mapped (h : v6.toIpv4Mapped = none) :
    isPublicWebhookAddress (.v6 v6) = true ∧ v6.SpecialPurpose ↔ v6.Unchecked := by
  have hzero : v6.a.toNat ≠ 0 → v6.isUnspecified = false ∧ v6.isLoopback = false := by
    intro hne
    refine ⟨decide_eq_false fun heq => hne ?_, decide_eq_false fun heq => hne ?_⟩
    · rw [heq]
      rfl
    · rw [heq]
      rfl
  have hunknown : UnknownIpv6 v6 → v6.a.toNat ≠ 0 := by
    unfold UnknownIpv6
    omega
  rw [isPublicWebhookAddress_of_not_mapped v6 h, ipv6_specialPurpose_iff, unchecked_iff_toNat, h]
  simp only [Option.isSome_none, Bool.false_eq_true, false_or, reduceCtorEq, false_and,
    exists_false]
  refine ⟨fun hspecial => ?_, fun hunchecked => ?_⟩
  · obtain ⟨hknown, (hblock | hblock) | ⟨hcompatible | hnat64, hspecial⟩ | hsix⟩ := hspecial
    · exact absurd hblock hknown
    · exact Or.inl hblock
    · refine Or.inr (Or.inl ⟨hcompatible, hspecial, ?_, ?_⟩)
      · exact Bool.eq_false_iff.mpr fun hunspecified => hknown (Or.inl hunspecified)
      · exact Bool.eq_false_iff.mpr fun hloopback => hknown (Or.inr (Or.inl hloopback))
    · exact Or.inr (Or.inr (Or.inl ⟨hnat64, hspecial⟩))
    · exact Or.inr (Or.inr (Or.inr hsix))
  · rcases hunchecked with hblock | ⟨hcompatible, hspecial, hne⟩ | ⟨hnat64, hspecial⟩ | hsix
    · have hne := hzero (hunknown hblock)
      exact ⟨not_knownIpv6 v6 (by simp [hblock]) hne.1 hne.2, Or.inl (Or.inr hblock)⟩
    · exact ⟨not_knownIpv6 v6 (Or.inl hcompatible.1) hne.1 hne.2,
        Or.inr (Or.inl ⟨Or.inl hcompatible, hspecial⟩)⟩
    · have hne := hzero (by omega)
      exact ⟨not_knownIpv6 v6 (by omega) hne.1 hne.2,
        Or.inr (Or.inl ⟨Or.inr hnat64, hspecial⟩)⟩
    · have hne := hzero (by omega)
      exact ⟨not_knownIpv6 v6 (by omega) hne.1 hne.2, Or.inr (Or.inr hsix)⟩

/-- The check keeps out what the tables name, apart from the kinds it leaves out. -/
theorem ipv6_unchecked_iff :
    isPublicWebhookAddress (.v6 v6) = true ∧ v6.SpecialPurpose ↔ v6.Unchecked := by
  cases hmapped : v6.toIpv4Mapped with
  | some mapped => exact ipv6_unchecked_of_mapped v6 hmapped
  | none => exact ipv6_unchecked_of_not_mapped v6 hmapped

end Ipv6

/-- What passes the check and is not of the public network is of a kind it leaves out. -/
theorem unchecked_iff (address : IpAddr) :
    isPublicWebhookAddress address = true ∧ ¬ address.GloballyRoutable ↔ address.Unchecked := by
  rcases address with v4 | v6
  · rw [IpAddr.Unchecked, ← ipv4_unchecked_iff, IpAddr.GloballyRoutable, not_not]
    rfl
  · rw [IpAddr.Unchecked, ← ipv6_unchecked_iff, IpAddr.GloballyRoutable, not_not]

/-- The check of an address keeps it out when it is not of the public network, unless it is of one
of the kinds the check leaves out. -/
theorem is_public_webhook_address_iff (address : IpAddr) :
    (isPublicWebhookAddress address = true → address.GloballyRoutable) ↔ ¬ address.Unchecked := by
  rw [← unchecked_iff, not_and, not_not]

/-- NAT64 leads to the metadata service of a cloud host. -/
theorem is_public_webhook_address_nat64 :
    ¬ ∀ address, isPublicWebhookAddress address = true → address.GloballyRoutable := by
  intro h
  have hpublic :
      isPublicWebhookAddress (.v6 ⟨0x64, 0xff9b, 0, 0, 0, 0, 0xa9fe, 0xa9fe⟩) = true := by
    decide
  refine h _ hpublic (Or.inr ⟨⟨169, 254, 169, 254⟩, ?_, ?_⟩)
  · exact Or.inl ⟨by decide, by decide⟩
  · show InTable _ _
    decide

/-! ## Destinations -/

inductive UrlHost
  | domain (name : String)
  | ipv4 (address : Ipv4Addr)
  | ipv6 (address : Ipv6Addr)

/-- What the check of a destination reads of a parsed URL. -/
structure DestinationUrl where
  scheme : String
  username : String
  password : Option String
  hostStr : Option String
  host : Option UrlHost
  port : Option ℕ
  portOrKnownDefault : Option ℕ

structure WebhookDestination where
  host : String
  port : ℕ
  exempt : Bool
  literal : Option IpAddr

inductive InvalidWebhookDestination
  | notAllowed

def DestinationUrl.literal (parsed : DestinationUrl) : Option IpAddr :=
  match parsed.host with
  | some (.ipv4 v4) => some (.v4 v4)
  | some (.ipv6 v6) => some (.v6 v6)
  | _ => none

/-- `validate_webhook_destination`, over `Url::parse`. -/
def validateWebhookDestination (parse : String → Option DestinationUrl) (url : String)
    (allowedHosts : List String) : Except InvalidWebhookDestination WebhookDestination :=
  match parse url with
  | none => .error .notAllowed
  | some parsed =>
    if parsed.username ≠ "" ∨ parsed.password.isSome then .error .notAllowed
    else
      match parsed.hostStr with
      | none => .error .notAllowed
      | some host =>
        let exempt := allowedHosts.any fun allowed => allowed.toLower = host.toLower
        if exempt = false ∧ (parsed.scheme ≠ "https" ∨ parsed.port.any (· ≠ 443) = true) then
          .error .notAllowed
        else
          match parsed.portOrKnownDefault with
          | none => .error .notAllowed
          | some port =>
            if exempt = false ∧ parsed.literal.any (fun address =>
                !isPublicWebhookAddress address) = true then
              .error .notAllowed
            else
              .ok { host := host, port := port, exempt := exempt, literal := parsed.literal }

inductive WebhookSendFailure
  | destinationRejected
  | connectFailed

/-- The address of a literal, or those the name is resolved to. -/
def destinationAddresses (lookupHost : String → ℕ → Option (List IpAddr))
    (destination : WebhookDestination) : Except WebhookSendFailure (List IpAddr) :=
  match destination.literal with
  | some address => .ok [address]
  | none =>
    match lookupHost destination.host destination.port with
    | none => .error .connectFailed
    | some resolved => if resolved = [] then .error .connectFailed else .ok resolved

/-- `checked_destination`, the addresses a webhook is sent to, over the resolution of names. -/
def checkedDestination (parse : String → Option DestinationUrl)
    (lookupHost : String → ℕ → Option (List IpAddr)) (url : String) (allowedHosts : List String) :
    Except WebhookSendFailure (List IpAddr) := do
  let destination ← (validateWebhookDestination parse url allowedHosts).mapError fun _ =>
    .destinationRejected
  let addresses ← destinationAddresses lookupHost destination
  if destination.exempt = false ∧ addresses.any (fun address =>
      !isPublicWebhookAddress address) = true then
    .error .destinationRejected
  else
    .ok addresses

/-- Unless the host is one an operator allowed, a webhook is sent to addresses of the public
network, or of the kinds the check leaves out. -/
theorem checkedDestination_addresses {parse : String → Option DestinationUrl}
    {lookupHost : String → ℕ → Option (List IpAddr)} {url : String} {allowedHosts : List String}
    {addresses : List IpAddr}
    (h : checkedDestination parse lookupHost url allowedHosts = .ok addresses) :
    (∃ destination, validateWebhookDestination parse url allowedHosts = .ok destination ∧
      destination.exempt = true) ∨
    ∀ address ∈ addresses, address.GloballyRoutable ∨ address.Unchecked := by
  unfold checkedDestination at h
  obtain ⟨destination, hdestination, h⟩ := Except.bind_eq_ok.mp h
  rw [Except.mapError_eq_ok] at hdestination
  obtain ⟨found, -, h⟩ := Except.bind_eq_ok.mp h
  cases hexempt : destination.exempt with
  | true => exact Or.inl ⟨destination, hdestination, hexempt⟩
  | false =>
    refine Or.inr fun address haddress => ?_
    by_cases hany : (found.any fun address => !isPublicWebhookAddress address) = true
    · rw [if_pos ⟨hexempt, hany⟩] at h
      cases h
    · rw [if_neg fun hboth => hany hboth.2, Except.ok.injEq] at h
      have hpublic : isPublicWebhookAddress address = true := by
        by_contra hprivate
        rw [← h] at haddress
        exact hany (List.any_eq_true.mpr ⟨address, haddress, by simpa using hprivate⟩)
      by_contra hneither
      rw [not_or] at hneither
      exact hneither.2 ((unchecked_iff address).mp ⟨hpublic, hneither.1⟩)

end Marginalis
