/-
Module: RiftRoute.Library.Netip
Purpose: Go's `net/netip` addresses and prefixes and their texts (which error a
  text gives is not modelled), and prefixes as sets of addresses: two are nested
  or disjoint, and one is the union of its halves.
Trusted boundary: human-reviewed spec
-/
import Mathlib.Data.BitVec
import RiftRoute.Library.Texts
import Mathlib.Data.Nat.Bitwise

namespace Netip

open Texts (splitOn)

/-- A valid `netip.Addr`.  An IPv6 address may carry a zone (`""` for none). -/
inductive Addr where
  | v4 (bits : BitVec 32)
  | v6 (bits : BitVec 128) (zone : String)
deriving DecidableEq, Repr

namespace Addr

def is6 : Addr → Bool
  | .v4 _ => false
  | .v6 .. => true

/-- `Addr.BitLen`. -/
def bitLen : Addr → Nat
  | .v4 _ => 32
  | .v6 .. => 128

/-- `Addr.Zone`. -/
def zone : Addr → String
  | .v4 _ => ""
  | .v6 _ zone => zone

/-- The `i`-th of the eight 16-bit groups, most significant first. -/
def group (bits : BitVec 128) (i : Nat) : Nat := (bits >>> (16 * (7 - i))).toNat % 65536

/-- The IPv6 address of eight 16-bit groups. -/
def ofGroups (groups : List Nat) : BitVec 128 :=
  groups.foldl (fun bits group => bits <<< 16 ||| BitVec.ofNat 128 group) 0

/-- `Addr.Unmap`: the IPv4 address a mapped one stands for. -/
def unmap : Addr → Addr
  | .v4 bits => .v4 bits
  | .v6 bits zone =>
    if bits >>> 32 = 0xffff then .v4 (bits.setWidth 32) else .v6 bits zone

/-- `Addr.WithZone ""`. -/
def withoutZone : Addr → Addr
  | .v4 bits => .v4 bits
  | .v6 bits _ => .v6 bits ""

/-- `Addr.IsLinkLocalUnicast`. -/
def isLinkLocalUnicast (a : Addr) : Bool :=
  match a.unmap with
  | .v4 bits => bits >>> 16 = 0xa9fe
  | .v6 bits _ => bits >>> 118 = 0x3fa

/-- `Addr.IsLoopback`. -/
def isLoopback (a : Addr) : Bool :=
  match a.unmap with
  | .v4 bits => bits >>> 24 = 127
  | .v6 bits _ => bits = 1

/-- `Addr.IsMulticast`. -/
def isMulticast (a : Addr) : Bool :=
  match a.unmap with
  | .v4 bits => bits >>> 28 = 0xe
  | .v6 bits _ => bits >>> 120 = 0xff

/-- `Addr.IsUnspecified`. -/
def isUnspecified : Addr → Bool
  | .v4 bits => bits = 0
  | .v6 bits zone => bits = 0 && zone = ""

end Addr

/-! ### Writing addresses -/

/-- Dotted decimal. -/
def text4 (bits : BitVec 32) : String :=
  toString (bits >>> 24).toNat ++ "." ++ toString ((bits >>> 16).toNat % 256) ++ "." ++
    toString ((bits >>> 8).toNat % 256) ++ "." ++
    toString (bits.toNat % 256)

/-- A 16-bit group in lower-case hexadecimal, without leading zeros. -/
def textHex (n : Nat) : String := String.ofList (Nat.toDigits 16 n)

/-- How many of `groups` from the front are zero. -/
def zeroRun (groups : List Nat) : Nat := (groups.takeWhile (· = 0)).length

/-- The run of zero groups `::` stands for: the first longest one of at least
two groups, as its start and length. -/
def longestZeros (groups : List Nat) : Option (Nat × Nat) :=
  (List.range groups.length).foldl (fun best i =>
      let length := zeroRun (groups.drop i)
      if 2 ≤ length ∧ (best.elim 0 Prod.snd) < length then some (i, length)
      else best)
    none

/-- RFC 5952 text of an IPv6 address that is not IPv4-mapped. -/
def text6 (bits : BitVec 128) : String :=
  let groups := (List.range 8).map (Addr.group bits)
  let join := fun (part : List Nat) =>
    String.ofList (List.intercalate [':'] (part.map fun n => (textHex n).toList))
  match longestZeros groups with
  | none => join groups
  | some (start, length) =>
    join (groups.take start) ++ "::" ++ join (groups.drop (start + length))

/-- `Addr.String`. -/
def Addr.text : Addr → String
  | .v4 bits => text4 bits
  | .v6 bits zone =>
    (if bits >>> 32 = 0xffff then "::ffff:" ++ text4 (bits.setWidth 32)
      else text6 bits) ++
      (if zone = "" then "" else "%" ++ zone)

/-! ### Reading addresses -/

variable (digits : List Char) (s : List Char)

/-- The number a non-empty run of decimal digits writes. -/
def decimal : Option Nat :=
  if digits ≠ [] ∧ digits.all Char.isDigit then
    some (digits.foldl (fun n c => 10 * n + (c.toNat - '0'.toNat)) 0)
  else none

/-- One IPv4 field: up to 255, no leading zero. -/
def octet : Option Nat :=
  if 1 < digits.length ∧ digits.head? = some '0' then none
  else (decimal digits).filter (· ≤ 255)

/-- `parseIPv4Fields`: exactly four fields. -/
def parseOctets : Option (List Nat) :=
  match (splitOn '.' s).map octet with
  | [some a, some b, some c, some d] => some [a, b, c, d]
  | _ => none

def parseV4 : Option Addr :=
  (parseOctets s).map fun octets =>
    .v4 (octets.foldl (fun bits o => bits <<< 8 ||| BitVec.ofNat 32 o) 0)

/-- The value of a hexadecimal digit. -/
def hexDigit (c : Char) : Option Nat :=
  if '0' ≤ c ∧ c ≤ '9' then some (c.toNat - '0'.toNat)
  else if 'a' ≤ c ∧ c ≤ 'f' then some (c.toNat - 'a'.toNat + 10)
  else if 'A' ≤ c ∧ c ≤ 'F' then some (c.toNat - 'A'.toNat + 10)
  else none

/-- A group's leading hexadecimal digits and what follows them. -/
def spanHex : List Char × List Char := s.span fun c => (hexDigit c).isSome

def hexValue : Nat := digits.foldl (fun n c => 16 * n + (hexDigit c).getD 0) 0

/-- What the IPv6 group loop has read: the groups, and where `::` stood. -/
structure Groups where
  read : List Nat
  ellipsis : Option Nat

/-- The loop of `parseIPv6`, one group a round; `fuel` bounds the eight groups
an address has.  A trailing dotted quad fills two groups. -/
def parseGroups : Nat → List Char → Groups → Option Groups
  -- eight groups read: the text has to end here
  | 0, s, g => if s = [] then some g else none
  | fuel + 1, s, g =>
    let (digits, rest) := spanHex s
    if digits = [] ∨ 4 < digits.length then none
    else if rest.head? = some '.' then
      if (g.ellipsis = none ∧ g.read.length ≠ 6) ∨ 6 < g.read.length then none
      else
        match parseOctets s with
        | some [a, b, c, d] =>
          some { g with read := g.read ++ [256 * a + b, 256 * c + d] }
        | _ => none
    else
      let g := { g with read := g.read ++ [hexValue digits] }
      match rest with
      | [] => some g
      | ':' :: ':' :: more =>
        if g.ellipsis.isSome then none
        else
          let g := { g with ellipsis := some g.read.length }
          if more = [] then some g else parseGroups fuel more g
      | ':' :: c :: more => parseGroups fuel (c :: more) g
      | _ => none

/-- Fill in the zero groups `::` stands for; without one, all eight groups
have to be there. -/
def expandGroups (g : Groups) : Option (List Nat) :=
  match g.ellipsis with
  | none => if g.read.length = 8 then some g.read else none
  | some position =>
    if g.read.length < 8 then
      some (g.read.take position ++ List.replicate (8 - g.read.length) 0 ++ g.read.drop position)
    else none

/-- `parseIPv6` after the zone is split off. -/
def parseV6 (zone : String) : Option Addr :=
  let groups : Option Groups :=
    match s with
    | [':', ':'] => some { read := [], ellipsis := some 0 }
    | ':' :: ':' :: rest => parseGroups 8 rest { read := [], ellipsis := some 0 }
    | _ => parseGroups 8 s { read := [], ellipsis := none }
  (groups.bind expandGroups).map fun all => .v6 (Addr.ofGroups all) zone

/-- `netip.ParseAddr`: the first dot, colon or percent sign decides the
form. -/
def parseAddr (s : String) : Option Addr :=
  let chars := s.toList
  match chars.find? (fun c => c = '.' ∨ c = ':' ∨ c = '%') with
  | some '.' => parseV4 chars
  | some ':' =>
    let (address, zone) := chars.span (· ≠ '%')
    match zone with
    | [] => parseV6 address ""
    | ['%'] => none
    | _ :: zone => parseV6 address (String.ofList zone)
  | _ => none

/-! ### Prefixes -/

/-- A valid `netip.Prefix`: an address without a zone and a length within
it. -/
structure Prefix where
  addr : Addr
  bits : Nat
  zoneFree : addr.zone = ""
  bitsLe : bits ≤ addr.bitLen
deriving DecidableEq

namespace Prefix

/-- The address with every bit after the first `bits` cleared. -/
def maskedAddr (addr : Addr) (bits : Nat) : Addr :=
  match addr with
  | .v4 a => .v4 (a >>> (32 - bits) <<< (32 - bits))
  | .v6 a zone => .v6 (a >>> (128 - bits) <<< (128 - bits)) zone

/-- `Prefix.Masked`. -/
def masked (p : Prefix) : Prefix where
  addr := maskedAddr p.addr p.bits
  bits := p.bits
  zoneFree := by
    have free := p.zoneFree
    cases addrEq : p.addr with
    | v4 a => rfl
    | v6 a zone => simpa [addrEq, Addr.zone, maskedAddr] using free
  bitsLe := by
    have bound := p.bitsLe
    cases addrEq : p.addr with
    | v4 | v6 => simpa [addrEq, Addr.bitLen, maskedAddr] using bound

/-- `Prefix.String`. -/
def text (p : Prefix) : String := p.addr.text ++ "/" ++ toString p.bits

end Prefix

/-- The number after the slash: no sign, no leading zero. -/
def parseBits : Option Nat :=
  if 1 < digits.length ∧ digits.head? = some '0' then none else decimal digits

/-- `netip.ParsePrefix`: split at the last slash; zones are refused. -/
def parsePrefix (s : String) : Option Prefix :=
  let (reversedBits, rest) := s.toList.reverse.span (· ≠ '/')
  match rest with
  | [] => none
  | _ :: reversedAddr =>
    match parseAddr (String.ofList reversedAddr.reverse), parseBits reversedBits.reverse with
    | some addr, some bits =>
      if h : addr.zone = "" ∧ bits ≤ addr.bitLen then
        some { addr := addr, bits := bits, zoneFree := h.1, bitsLe := h.2 }
      else none
    | _, _ => none

open Addr

/-! ### Leading bits -/

namespace Addr

variable (a : Addr) (i : Nat)

/-- `Addr.Is4`. -/
def is4 : Bool := !a.is6

/-- The address as a number. -/
def toNat : Addr → Nat
  | .v4 bits => bits.toNat
  | .v6 bits _ => bits.toNat

/-- The first `n` bits of the address, as a number. -/
def lead (n : Nat) (a : Addr) : Nat := a.toNat / 2 ^ (a.bitLen - n)

theorem bitLen_eq {a b : Addr} (family : a.is6 = b.is6) : a.bitLen = b.bitLen := by
  cases a <;> cases b <;> simp_all [is6, bitLen]

theorem lead_div {m n : Nat} (le : m ≤ n) (bound : n ≤ a.bitLen) :
    a.lead m = a.lead n / 2 ^ (n - m) := by
  unfold lead
  rw [Nat.div_div_eq_div_mul, ← pow_add]
  congr 2
  omega

theorem lead_eq_of_le {a b : Addr} (family : a.is6 = b.is6) {m n : Nat}
    (le : m ≤ n) (bound : n ≤ a.bitLen) (same : a.lead n = b.lead n) :
    a.lead m = b.lead m := by
  rw [a.lead_div le bound, b.lead_div le (bitLen_eq family ▸ bound), same]

@[simp] theorem lead_bitLen : a.lead a.bitLen = a.toNat := by
  simp [lead]

@[simp] theorem is6_withoutZone : a.withoutZone.is6 = a.is6 := by
  cases a <;> rfl

@[simp] theorem bitLen_withoutZone : a.withoutZone.bitLen = a.bitLen := by
  cases a <;> rfl

@[simp] theorem toNat_withoutZone : a.withoutZone.toNat = a.toNat := by
  cases a <;> rfl

@[simp] theorem lead_withoutZone (n : Nat) (a : Addr) : a.withoutZone.lead n = a.lead n := by
  simp [lead]

@[simp] theorem zone_withoutZone : a.withoutZone.zone = "" := by
  cases a <;> rfl

theorem withoutZone_eq_self {a : Addr} (free : a.zone = "") : a.withoutZone = a := by
  cases a with
  | v4 bits => rfl
  | v6 bits zone =>
    have empty : zone = "" := free
    rw [empty]
    rfl

/-- Zone-free addresses of one family are told apart by their number. -/
theorem eq_of_toNat_eq {a b : Addr} (family : a.is6 = b.is6)
    (firstFree : a.zone = "") (secondFree : b.zone = "")
    (same : a.toNat = b.toNat) : a = b := by
  cases a with
  | v4 first =>
    cases b with
    | v4 second => rw [BitVec.eq_of_toNat_eq same]
    | v6 second zone => simp [is6] at family
  | v6 first zone =>
    cases b with
    | v4 second => simp [is6] at family
    | v6 second zone' =>
      have firstEmpty : zone = "" := firstFree
      have secondEmpty : zone' = "" := secondFree
      rw [BitVec.eq_of_toNat_eq same, firstEmpty, secondEmpty]

/-- The address with its `i`-th bit from the front set. -/
def setBit : Addr :=
  match a with
  | .v4 bits => .v4 (bits ||| 1#32 <<< (31 - i))
  | .v6 bits zone => .v6 (bits ||| 1#128 <<< (127 - i)) zone

@[simp] theorem is6_setBit : (a.setBit i).is6 = a.is6 := by
  cases a <;> rfl

@[simp] theorem bitLen_setBit : (a.setBit i).bitLen = a.bitLen := by
  cases a <;> rfl

@[simp] theorem zone_setBit : (a.setBit i).zone = a.zone := by
  cases a <;> rfl

end Addr

/-! ### Masking -/

theorem toNat_mask {w : Nat} (a : BitVec w) (k : Nat) :
    (a >>> k <<< k).toNat = a.toNat / 2 ^ k * 2 ^ k := by
  have below : a.toNat / 2 ^ k * 2 ^ k ≤ a.toNat := Nat.div_mul_le_self ..
  rw [BitVec.toNat_shiftLeft, BitVec.toNat_ushiftRight, Nat.shiftLeft_eq, Nat.shiftRight_eq_div_pow]
  exact Nat.mod_eq_of_lt (below.trans_lt a.isLt)

theorem toNat_or_bit {w : Nat} (a : BitVec w) (i : Nat) (bound : i < w)
    (aligned : 2 ^ (i + 1) ∣ a.toNat) :
    (a ||| 1#w <<< i).toNat = a.toNat + 2 ^ i := by
  obtain ⟨q, multiple⟩ := aligned
  have weight : (1#w <<< i).toNat = 2 ^ i := by
    rw [BitVec.toNat_shiftLeft, Nat.shiftLeft_eq, BitVec.toNat_ofNat]
    have one : 1 % 2 ^ w = 1 := Nat.mod_eq_of_lt (Nat.one_lt_two_pow (by omega))
    rw [one, one_mul]
    exact Nat.mod_eq_of_lt (Nat.pow_lt_pow_right (by decide) bound)
  have shifted : a.toNat = q <<< (i + 1) := by
    rw [multiple, Nat.shiftLeft_eq, mul_comm]
  rw [BitVec.toNat_or, weight, shifted]
  exact (Nat.shiftLeft_add_eq_or_of_lt
    (Nat.pow_lt_pow_right (by decide) (Nat.lt_succ_self i)) q).symm

namespace Prefix

variable (a : Addr)

@[simp] theorem is6_maskedAddr (n : Nat) : (maskedAddr a n).is6 = a.is6 := by
  cases a <;> rfl

@[simp] theorem bitLen_maskedAddr (n : Nat) : (maskedAddr a n).bitLen = a.bitLen := by
  cases a <;> rfl

theorem toNat_maskedAddr (n : Nat) :
    (maskedAddr a n).toNat = a.lead n * 2 ^ (a.bitLen - n) := by
  cases a with
  | v4 bits | v6 bits zone => exact toNat_mask bits _

theorem lead_maskedAddr {m n : Nat} (le : m ≤ n)
    (bound : n ≤ a.bitLen) : (maskedAddr a n).lead m = a.lead m := by
  have same : (maskedAddr a n).lead n = a.lead n := by
    rw [lead, toNat_maskedAddr, bitLen_maskedAddr]
    exact Nat.mul_div_cancel _ (Nat.two_pow_pos _)
  exact lead_eq_of_le (is6_maskedAddr a n) le (by rwa [bitLen_maskedAddr]) same

@[simp] theorem bits_masked (p : Prefix) : p.masked.bits = p.bits := rfl

@[simp] theorem addr_masked (p : Prefix) : p.masked.addr = maskedAddr p.addr p.bits := rfl

theorem toNat_masked (p : Prefix) : p.masked.addr.toNat =
      p.addr.lead p.bits * 2 ^ (p.addr.bitLen - p.bits) :=
  toNat_maskedAddr p.addr p.bits

/-- A prefix is determined by its address and its length. -/
theorem eq_of_addr_eq {p q : Prefix} (addr : p.addr = q.addr) (bits : p.bits = q.bits) : p = q := by
  cases p
  simp_all

/-! ### Membership and containment -/

/-- `Prefix.Contains`: a zoned address is in no prefix. -/
def contains (p : Prefix) (x : Addr) : Bool :=
  x.zone = "" ∧ x.is6 = p.addr.is6 ∧ x.lead p.bits = p.addr.lead p.bits

/-- `q` lies inside `p`, as the source tests it. -/
def covers (p q : Prefix) : Bool := p.bits ≤ q.bits ∧ p.contains q.addr

/-- No bit after the prefix is set. -/
def IsMasked (p : Prefix) : Prop := p.masked = p

instance (p : Prefix) : Decidable p.IsMasked := inferInstanceAs (Decidable (_ = _))

variable {p q r : Prefix} {x : Addr}

theorem contains_iff : p.contains x ↔ x.zone = "" ∧ x.is6 = p.addr.is6 ∧
        x.lead p.bits = p.addr.lead p.bits := by
  simp [contains]

theorem covers_iff : p.covers q ↔ p.bits ≤ q.bits ∧ p.contains q.addr := by
  simp [covers]

@[simp] theorem contains_addr (p : Prefix) : p.contains p.addr :=
  contains_iff.mpr ⟨p.zoneFree, rfl, rfl⟩

@[simp] theorem covers_refl (p : Prefix) : p.covers p := covers_iff.mpr ⟨le_rfl, p.contains_addr⟩

/-- What lies inside a prefix holds only its addresses. -/
theorem contains_of_covers (inside : p.covers q) (held : q.contains x) : p.contains x := by
  obtain ⟨le, _, family, lead⟩ := by
    simpa only [covers_iff, contains_iff] using inside
  obtain ⟨free, family', lead'⟩ := contains_iff.mp held
  have same := lead_eq_of_le family' le (bitLen_eq family' ▸ q.bitsLe) lead'
  exact contains_iff.mpr ⟨free, family'.trans family, same.trans lead⟩

theorem covers_trans (outer : p.covers q) (inner : q.covers r) : p.covers r :=
  covers_iff.mpr ⟨(covers_iff.mp outer).1.trans (covers_iff.mp inner).1,
    contains_of_covers outer (covers_iff.mp inner).2⟩

theorem family_of_contains (held : p.contains x) : x.is6 = p.addr.is6 := (contains_iff.mp held).2.1

theorem family_of_covers (inside : p.covers q) : q.addr.is6 = p.addr.is6 :=
  family_of_contains (covers_iff.mp inside).2

/-- Of two prefixes that share an address, the longer lies inside the
shorter. -/
theorem covers_of_shared (le : p.bits ≤ q.bits) (first : p.contains x)
    (second : q.contains x) : p.covers q := by
  obtain ⟨_, family, lead⟩ := contains_iff.mp first
  obtain ⟨_, family', lead'⟩ := contains_iff.mp second
  have same := lead_eq_of_le family' le (bitLen_eq family' ▸ q.bitsLe) lead'
  exact covers_iff.mpr ⟨le, contains_iff.mpr
    ⟨q.zoneFree, family'.symm.trans family, same.symm.trans lead⟩⟩

theorem covers_total (first : p.contains x) (second : q.contains x) : p.covers q ∨ q.covers p := by
  rcases Nat.le_total p.bits q.bits with le | le
  · exact .inl (covers_of_shared le first second)
  · exact .inr (covers_of_shared le second first)

@[simp] theorem contains_masked (p : Prefix) (x : Addr) : p.masked.contains x = p.contains x := by
  rw [Bool.eq_iff_iff, contains_iff, contains_iff, addr_masked, bits_masked,
    is6_maskedAddr, lead_maskedAddr p.addr le_rfl p.bitsLe]

@[simp] theorem masked_covers (p q : Prefix) : p.masked.covers q = p.covers q := by
  rw [Bool.eq_iff_iff, covers_iff, covers_iff, contains_masked, bits_masked]

@[simp] theorem covers_masked (p q : Prefix) : p.covers q.masked = p.covers q := by
  rw [Bool.eq_iff_iff]
  constructor
  · intro inside
    have held := contains_of_covers inside (by rw [contains_masked]; exact q.contains_addr)
    exact covers_iff.mpr ⟨(covers_iff.mp inside).1, held⟩
  · intro inside
    have own : q.contains q.masked.addr := by
      rw [← contains_masked]
      exact q.masked.contains_addr
    exact covers_iff.mpr ⟨(covers_iff.mp inside).1, contains_of_covers inside own⟩

theorem masked_eq_masked (bits : p.bits = q.bits) (inside : p.covers q) : p.masked = q.masked := by
  obtain ⟨_, family, lead⟩ := contains_iff.mp (covers_iff.mp inside).2
  refine eq_of_addr_eq (eq_of_toNat_eq ?_ ?_ ?_ ?_) bits
  · simp [family]
  · exact p.masked.zoneFree
  · exact q.masked.zoneFree
  · rw [toNat_masked, toNat_masked, ← bits, lead, bitLen_eq family]

theorem eq_of_covers_of_bits (first : p.IsMasked) (second : q.IsMasked)
    (bits : p.bits = q.bits) (inside : p.covers q) : p = q := by
  rw [← first, ← second, masked_eq_masked bits inside]

@[simp] theorem isMasked_masked (p : Prefix) : p.masked.IsMasked :=
  masked_eq_masked (q := p) rfl (by rw [masked_covers]; exact p.covers_refl)

/-! ### Hosts -/

/-- `PrefixFrom(a, a.BitLen())`: the address alone. -/
def host : Prefix where
  addr := a.withoutZone
  bits := a.bitLen
  zoneFree := a.zone_withoutZone
  bitsLe := by simp

/-- `Prefix.IsSingleIP`. -/
def isSingleIP (p : Prefix) : Bool := p.bits = p.addr.bitLen

theorem contains_host (free : x.zone = "") : (host x).contains x :=
  contains_iff.mpr ⟨free, by simp [host], by simp [host]⟩

/-- A host prefix holds its address alone. -/
theorem eq_of_host_contains {a : Addr} (held : (host a).contains x) : x = a.withoutZone := by
  obtain ⟨free, family, lead⟩ := contains_iff.mp held
  have family' : x.is6 = a.is6 := by simpa [host] using family
  have width : x.bitLen = a.bitLen := bitLen_eq family'
  refine eq_of_toNat_eq (by simpa using family') free (by simp) ?_
  have full : x.lead x.bitLen = a.lead a.bitLen := by
    simpa [host, width] using lead
  simpa using full

theorem isMasked_host : (host a).IsMasked := by
  refine eq_of_addr_eq (eq_of_toNat_eq ?_ ?_ ?_ ?_) rfl
  · simp
  · exact (host a).masked.zoneFree
  · exact (host a).zoneFree
  · rw [toNat_masked]
    simp [host]

/-! ### Halves -/

/-- The first half of a prefix that is longer than one address. -/
def lowHalf (p : Prefix) (splits : p.bits < p.addr.bitLen) : Prefix where
  addr := p.masked.addr
  bits := p.bits + 1
  zoneFree := p.masked.zoneFree
  bitsLe := by rw [addr_masked, bitLen_maskedAddr]; exact splits

/-- The second half of a prefix that is longer than one address. -/
def highHalf (p : Prefix) (splits : p.bits < p.addr.bitLen) : Prefix where
  addr := p.masked.addr.setBit p.bits
  bits := p.bits + 1
  zoneFree := by rw [Addr.zone_setBit]; exact p.masked.zoneFree
  bitsLe := by
    rw [Addr.bitLen_setBit, addr_masked, bitLen_maskedAddr]
    exact splits

theorem toNat_setBit_masked (p : Prefix) (splits : p.bits < p.addr.bitLen) :
    (p.masked.addr.setBit p.bits).toNat =
      p.masked.addr.toNat + 2 ^ (p.addr.bitLen - 1 - p.bits) := by
  have multiple := p.toNat_masked
  have exponent : p.addr.bitLen - p.bits = (p.addr.bitLen - 1 - p.bits) + 1 := by omega
  rw [exponent] at multiple
  cases addr : p.addr with
  | v4 | v6 =>
    simp only [addr_masked, addr, maskedAddr, bitLen, setBit,
      Addr.toNat] at multiple splits ⊢
    exact toNat_or_bit _ _ (by omega) (Dvd.intro_left _ multiple.symm)

variable (splits : p.bits < p.addr.bitLen)

theorem lead_lowHalf : (p.lowHalf splits).addr.lead (p.bits + 1) = 2 * p.addr.lead p.bits := by
  have exponent : p.addr.bitLen - p.bits = (p.addr.bitLen - (p.bits + 1)) + 1 := by omega
  change p.masked.addr.toNat / 2 ^ (p.masked.addr.bitLen - (p.bits + 1)) = _
  rw [toNat_masked, exponent, addr_masked, bitLen_maskedAddr, pow_succ,
    mul_comm (2 ^ _) 2, ← mul_assoc, Nat.mul_div_cancel _ (Nat.two_pow_pos _),
    mul_comm]

theorem lead_highHalf : (p.highHalf splits).addr.lead (p.bits + 1) =
      2 * p.addr.lead p.bits + 1 := by
  have low := lead_lowHalf splits
  change p.masked.addr.toNat / 2 ^ (p.masked.addr.bitLen - (p.bits + 1)) = _ at low
  change (p.masked.addr.setBit p.bits).toNat /
    2 ^ ((p.masked.addr.setBit p.bits).bitLen - (p.bits + 1)) = _
  have weight : p.addr.bitLen - 1 - p.bits = p.addr.bitLen - (p.bits + 1) := by
    omega
  rw [toNat_setBit_masked p splits, bitLen_setBit, weight]
  simp only [addr_masked, bitLen_maskedAddr] at low ⊢
  rw [Nat.add_div_right _ (Nat.two_pow_pos _), low]

/-- A prefix is made of its two halves. -/
theorem contains_iff_halves : p.contains x ↔
      (p.lowHalf splits).contains x ∨ (p.highHalf splits).contains x := by
  have lowBits : (p.lowHalf splits).bits = p.bits + 1 := rfl
  have highBits : (p.highHalf splits).bits = p.bits + 1 := rfl
  have lowFamily : (p.lowHalf splits).addr.is6 = p.addr.is6 := by
    simp [lowHalf]
  have highFamily : (p.highHalf splits).addr.is6 = p.addr.is6 := by
    simp [highHalf]
  simp only [contains_iff, lowBits, highBits, lowFamily, highFamily, lead_lowHalf, lead_highHalf]
  constructor
  · rintro ⟨free, family, lead⟩
    have width := bitLen_eq family
    have half : x.lead p.bits = x.lead (p.bits + 1) / 2 := by
      simpa using x.lead_div (Nat.le_succ p.bits) (by omega)
    have parity := Nat.mod_two_eq_zero_or_one (x.lead (p.bits + 1))
    rcases parity with even | odd
    · exact .inl ⟨free, family, by omega⟩
    · exact .inr ⟨free, family, by omega⟩
  · intro member
    obtain ⟨free, family, lead⟩ : x.zone = "" ∧ x.is6 = p.addr.is6 ∧
        x.lead (p.bits + 1) / 2 = p.addr.lead p.bits := by
      rcases member with ⟨free, family, lead⟩ | ⟨free, family, lead⟩
      · exact ⟨free, family, by omega⟩
      · exact ⟨free, family, by omega⟩
    have width := bitLen_eq family
    have half : x.lead p.bits = x.lead (p.bits + 1) / 2 := by
      simpa using x.lead_div (Nat.le_succ p.bits) (by omega)
    exact ⟨free, family, half.trans lead⟩

theorem not_both_halves (low : (p.lowHalf splits).contains x)
    (high : (p.highHalf splits).contains x) : False := by
  have lowLead := (contains_iff.mp low).2.2
  have highLead := (contains_iff.mp high).2.2
  have lowBits : (p.lowHalf splits).bits = p.bits + 1 := rfl
  have highBits : (p.highHalf splits).bits = p.bits + 1 := rfl
  rw [lowBits, lead_lowHalf] at lowLead
  rw [highBits, lead_highHalf] at highLead
  omega

theorem covers_lowHalf : p.covers (p.lowHalf splits) :=
  covers_iff.mpr ⟨Nat.le_succ _, (contains_iff_halves splits).mpr
    (.inl (p.lowHalf splits).contains_addr)⟩

theorem covers_highHalf : p.covers (p.highHalf splits) :=
  covers_iff.mpr ⟨Nat.le_succ _, (contains_iff_halves splits).mpr
    (.inr (p.highHalf splits).contains_addr)⟩

theorem halves_cover (inside : p.covers q) (longer : p.bits < q.bits) :
    (p.lowHalf splits).covers q ∨ (p.highHalf splits).covers q := by
  rcases (contains_iff_halves splits).mp (covers_iff.mp inside).2 with low | high
  · exact .inl (covers_iff.mpr ⟨longer, low⟩)
  · exact .inr (covers_iff.mpr ⟨longer, high⟩)

theorem isMasked_of_toNat (aligned : 2 ^ (p.addr.bitLen - p.bits) ∣ p.addr.toNat) : p.IsMasked := by
  refine eq_of_addr_eq (eq_of_toNat_eq ?_ ?_ ?_ ?_) rfl
  · simp
  · exact p.masked.zoneFree
  · exact p.zoneFree
  · rw [toNat_masked]
    exact Nat.div_mul_cancel aligned

theorem isMasked_lowHalf : (p.lowHalf splits).IsMasked := by
  apply isMasked_of_toNat
  have bits : (p.lowHalf splits).bits = p.bits + 1 := rfl
  have width : (p.lowHalf splits).addr.bitLen = p.addr.bitLen := by
    simp [lowHalf]
  have number : (p.lowHalf splits).addr.toNat = p.masked.addr.toNat := rfl
  rw [bits, width, number, toNat_masked]
  exact Dvd.dvd.mul_left (Nat.pow_dvd_pow 2 (by omega)) _

theorem isMasked_highHalf : (p.highHalf splits).IsMasked := by
  apply isMasked_of_toNat
  have bits : (p.highHalf splits).bits = p.bits + 1 := rfl
  have width : (p.highHalf splits).addr.bitLen = p.addr.bitLen := by
    simp [highHalf]
  have number : (p.highHalf splits).addr.toNat =
      p.masked.addr.toNat + 2 ^ (p.addr.bitLen - 1 - p.bits) :=
    toNat_setBit_masked p splits
  have weight : p.addr.bitLen - 1 - p.bits = p.addr.bitLen - (p.bits + 1) := by
    omega
  rw [bits, width, number, toNat_masked, weight]
  exact Nat.dvd_add (Dvd.dvd.mul_left (Nat.pow_dvd_pow 2 (by omega)) _) (dvd_refl _)

theorem toNat_highHalf : (p.highHalf splits).addr.toNat =
      (p.lowHalf splits).addr.toNat + 2 ^ (p.addr.bitLen - 1 - p.bits) :=
  toNat_setBit_masked p splits

/-- The first half holds the addresses from its own to the second half's. -/
theorem lowHalf_contains (free : x.zone = "") (family : x.is6 = p.addr.is6)
    (start : (p.lowHalf splits).addr.toNat ≤ x.toNat)
    (stop : x.toNat < (p.highHalf splits).addr.toNat) :
    (p.lowHalf splits).contains x := by
  have width : x.bitLen = p.addr.bitLen := bitLen_eq family
  have weight : p.addr.bitLen - 1 - p.bits = p.addr.bitLen - (p.bits + 1) := by
    omega
  have aligned : (p.lowHalf splits).addr.toNat =
      2 * p.addr.lead p.bits * 2 ^ (p.addr.bitLen - (p.bits + 1)) := by
    have masked := (p.lowHalf splits).toNat_masked
    rw [isMasked_lowHalf splits] at masked
    rw [masked, show (p.lowHalf splits).bits = p.bits + 1 from rfl,
      lead_lowHalf, show (p.lowHalf splits).addr.bitLen = p.addr.bitLen by
        simp [lowHalf]]
  rw [toNat_highHalf, aligned, weight] at stop
  rw [aligned] at start
  refine contains_iff.mpr ⟨free, by simpa [lowHalf] using family, ?_⟩
  rw [show (p.lowHalf splits).bits = p.bits + 1 from rfl, lead_lowHalf, lead, width]
  exact Nat.div_eq_of_lt_le start (by rw [Nat.add_mul, one_mul]; exact stop)

/-! ### Siblings -/

/-- The prefix of one bit less around `p`. -/
def parent (p : Prefix) : Prefix :=
  masked
    { addr := p.addr, bits := p.bits - 1, zoneFree := p.zoneFree
      bitsLe := (Nat.sub_le ..).trans p.bitsLe }

@[simp] theorem bits_parent (p : Prefix) : p.parent.bits = p.bits - 1 := rfl

theorem isMasked_parent (p : Prefix) : p.parent.IsMasked := isMasked_masked _

theorem parent_covers (p : Prefix) : p.parent.covers p := by
  unfold parent
  rw [masked_covers, covers_iff]
  exact ⟨Nat.sub_le .., contains_iff.mpr ⟨p.zoneFree, rfl, rfl⟩⟩

theorem eq_half_of_covers (masked : q.IsMasked) (inside : p.covers q) (bits : q.bits = p.bits + 1) :
    q = p.lowHalf splits ∨ q = p.highHalf splits := by
  rcases halves_cover splits inside (by omega) with low | high
  · exact .inl (eq_of_covers_of_bits (isMasked_lowHalf splits) masked bits.symm low).symm
  · exact .inr (eq_of_covers_of_bits (isMasked_highHalf splits) masked bits.symm high).symm

/-- Two different prefixes of one length inside the parent of one make up the
parent. -/
theorem contains_parent_iff (first : p.IsMasked) (second : q.IsMasked)
    (positive : 0 < p.bits) (bits : p.bits = q.bits) (differ : p ≠ q)
    (inside : p.parent.covers q) :
    p.parent.contains x ↔ p.contains x ∨ q.contains x := by
  have width : p.parent.addr.bitLen = p.addr.bitLen := by simp [parent]
  have bound := p.bitsLe
  have splits : p.parent.bits < p.parent.addr.bitLen := by
    rw [bits_parent, width]
    omega
  have ownBits : p.bits = p.parent.bits + 1 := by
    rw [bits_parent]
    omega
  have own := eq_half_of_covers splits first p.parent_covers ownBits
  have other := eq_half_of_covers splits second inside (bits ▸ ownBits)
  rw [contains_iff_halves splits]
  rcases own with low | high
  · rcases other with low' | high'
    · exact absurd (low.trans low'.symm) differ
    · rw [← low, ← high']
  · rcases other with low' | high'
    · rw [← high, ← low']
      exact or_comm
    · exact absurd (high.trans high'.symm) differ

end Prefix

/-! ### Unions -/

def Covered (ps : List Prefix) (x : Addr) : Prop := ∃ p ∈ ps, p.contains x

instance (ps : List Prefix) (x : Addr) : Decidable (Covered ps x) :=
  inferInstanceAs (Decidable (∃ p ∈ ps, _))

@[simp] theorem covered_nil (x : Addr) : ¬ Covered [] x := by
  rintro ⟨p, member, _⟩
  simp at member

@[simp] theorem covered_cons (p : Prefix) (ps : List Prefix) (x : Addr) :
    Covered (p :: ps) x ↔ p.contains x ∨ Covered ps x := by
  simp [Covered]

@[simp] theorem covered_append (ps qs : List Prefix) (x : Addr) :
    Covered (ps ++ qs) x ↔ Covered ps x ∨ Covered qs x := by
  simp [Covered, or_and_right, exists_or]

/-- Whether an address is covered depends on the prefixes that hold it. -/
theorem covered_congr_at {ps qs : List Prefix} {x : Addr}
    (same : ∀ p : Prefix, p.contains x → (p ∈ ps ↔ p ∈ qs)) :
    Covered ps x ↔ Covered qs x := by
  constructor
  · rintro ⟨p, member, holds⟩
    exact ⟨p, (same p holds).mp member, holds⟩
  · rintro ⟨p, member, holds⟩
    exact ⟨p, (same p holds).mpr member, holds⟩

theorem covered_iff_of_mem_iff {ps qs : List Prefix} (same : ∀ p, p ∈ ps ↔ p ∈ qs) (x : Addr) :
    Covered ps x ↔ Covered qs x := by
  simp [Covered, same]

/-- The two prefixes share no address. -/
def Prefix.Disjoint (p q : Prefix) : Prop := ∀ x, p.contains x → ¬ q.contains x

theorem Prefix.Disjoint.symm {p q : Prefix} (apart : p.Disjoint q) : q.Disjoint p :=
  fun x second first => apart x first second

/-- Prefixes neither of which lies inside the other are disjoint. -/
theorem Prefix.disjoint_of_not_covers {p q : Prefix}
    (first : ¬ p.covers q) (second : ¬ q.covers p) : p.Disjoint q :=
  fun _ held other => (covers_total held other).elim first second

end Netip
