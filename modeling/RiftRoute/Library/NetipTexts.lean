/-
Module: RiftRoute.Library.NetipTexts
Purpose: Addresses and prefixes survive being written and read again: parsing
  the text of an address or of a prefix gives it back.  So two
  prefixes with one text are the same.
Trusted boundary: none
-/
import Mathlib.Data.List.TakeWhile
import Mathlib.Tactic.IntervalCases
import RiftRoute.Library.Netip

namespace Netip

open Texts (splitOn joinOn splitOn_joinOn isSpace)
open List hiding splitOn
open Addr
open Groups

/-! ### Decimal numerals -/

theorem repr_toList (n : Nat) : n.repr.toList = Nat.toDigits 10 n := by
  rw [Nat.repr, String.toList_ofList]

theorem decimal_toDigits (n : Nat) : decimal (Nat.toDigits 10 n) = some n := by
  have digits : (Nat.toDigits 10 n).all Char.isDigit := by
    rw [all_eq_true]
    intro c member
    exact Nat.isDigit_of_mem_toDigits (by decide) (by decide) member
  have value : (Nat.toDigits 10 n).foldl (fun n c => 10 * n + (c.toNat - '0'.toNat)) 0 = n :=
    Nat.ofDigitChars_toDigits (b := 10) (by decide) (by decide)
  rw [decimal, if_pos ⟨Nat.toDigits_ne_nil, digits⟩, value]

theorem no_leading_zero (n : Nat) : ¬ (1 < (Nat.toDigits 10 n).length ∧
      (Nat.toDigits 10 n).head? = some '0') := by
  have positive : ∀ n, 0 < n → (Nat.toDigits 10 n).head? ≠ some '0' := by
    intro n
    induction n using Nat.strongRecOn with
    | ind n ih =>
      intro positive
      rcases Nat.lt_or_ge n 10 with small | large
      · rw [Nat.toDigits_of_lt_base small]
        interval_cases n <;> decide
      · rw [Nat.toDigits_of_base_le (by decide) large,
          head?_append_of_ne_nil _ Nat.toDigits_ne_nil]
        exact ih (n / 10) (Nat.div_lt_self positive (by decide)) (by omega)
  rintro ⟨long, zero⟩
  rcases Nat.eq_zero_or_pos n with rfl | more
  · exact absurd long (by decide)
  · exact positive n more zero

variable {n : Nat}

theorem octet_toDigits (small : n ≤ 255) : octet (Nat.toDigits 10 n) = some n := by
  rw [octet, if_neg (no_leading_zero n), decimal_toDigits]
  simp [small]

theorem parseBits_toDigits (n : Nat) : parseBits (Nat.toDigits 10 n) = some n := by
  rw [parseBits, if_neg (no_leading_zero n), decimal_toDigits]

variable {c : Char}

theorem not_mem_toDigits (other : ¬ c.isDigit) (n : Nat) : c ∉ Nat.toDigits 10 n :=
  fun member => other (Nat.isDigit_of_mem_toDigits (by decide) (by decide) member)

/-! ### Dotted decimal -/

/-- The four octets of an IPv4 address. -/
def octets (bits : BitVec 32) : List Nat :=
  [(bits >>> 24).toNat, (bits >>> 16).toNat % 256, (bits >>> 8).toNat % 256, bits.toNat % 256]

theorem text4_toList (bits : BitVec 32) :
    (text4 bits).toList = joinOn '.' ((octets bits).map (Nat.toDigits 10)) := by
  have dot : ".".toList = ['.'] := rfl
  have shown : ∀ n : Nat, (toString n).toList = Nat.toDigits 10 n := repr_toList
  simp only [text4, octets, map_cons, map_nil, joinOn,
    String.toList_append, dot, shown, append_assoc, cons_append,
    nil_append]

theorem octet_le {bits : BitVec 32} (member : n ∈ octets bits) : n ≤ 255 := by
  have top : (bits >>> 24).toNat ≤ 255 := by
    rw [BitVec.toNat_ushiftRight, Nat.shiftRight_eq_div_pow]
    omega
  simp only [octets, mem_cons, not_mem_nil, or_false] at member
  rcases member with rfl | rfl | rfl | rfl
  · exact top
  all_goals omega

theorem parseOctets_text4 (bits : BitVec 32) :
    parseOctets (text4 bits).toList = some (octets bits) := by
  have split : splitOn '.' (text4 bits).toList = (octets bits).map (Nat.toDigits 10) := by
    rw [text4_toList]
    refine splitOn_joinOn (by simp [octets]) ?_
    intro field member
    obtain ⟨n, _, rfl⟩ := mem_map.mp member
    exact not_mem_toDigits (by decide) n
  have read : ∀ n ∈ octets bits, octet (Nat.toDigits 10 n) = some n :=
    fun n member => octet_toDigits (octet_le member)
  rw [parseOctets, split, map_map]
  simp only [octets, forall_mem_cons] at read ⊢
  obtain ⟨first, second, third, fourth, _⟩ := read
  simp only [map_cons, map_nil, Function.comp_apply, first, second, third, fourth]

theorem octets_value (bits : BitVec 32) :
    (octets bits).foldl (fun n o => 256 * n + o) 0 = bits.toNat := by
  simp only [octets, foldl_cons, foldl_nil,
    BitVec.toNat_ushiftRight, Nat.shiftRight_eq_div_pow]
  omega

/-! ### Numbers from digits of a fixed width -/

theorem toNat_shiftIn {w k m d : Nat} (x : BitVec w) (digit : d < 2 ^ k)
    (small : x.toNat < 2 ^ m) (fits : m + k ≤ w) :
    (x <<< k ||| BitVec.ofNat w d).toNat = 2 ^ k * x.toNat + d ∧
      2 ^ k * x.toNat + d < 2 ^ (m + k) := by
  have bound : 2 ^ k * x.toNat + d < 2 ^ (m + k) := by
    calc 2 ^ k * x.toNat + d < 2 ^ k * x.toNat + 2 ^ k :=
          Nat.add_lt_add_left digit _
      _ ≤ 2 ^ k * 2 ^ m := Nat.mul_le_mul_left _ small
      _ = 2 ^ (m + k) := by rw [← Nat.pow_add, Nat.add_comm]
  have wide : 2 ^ (m + k) ≤ 2 ^ w := Nat.pow_le_pow_right (by decide) fits
  have high : (x <<< k).toNat = x.toNat <<< k := by
    rw [BitVec.toNat_shiftLeft, Nat.shiftLeft_eq, Nat.mod_eq_of_lt]
    rw [Nat.mul_comm]
    omega
  have low : (BitVec.ofNat w d).toNat = d := by
    rw [BitVec.toNat_ofNat, Nat.mod_eq_of_lt]
    omega
  refine ⟨?_, bound⟩
  rw [BitVec.toNat_or, high, low,
    ← Nat.shiftLeft_add_eq_or_of_lt digit, Nat.shiftLeft_eq, Nat.mul_comm]

theorem toNat_foldl_shiftIn {w k : Nat} (ds : List Nat)
    (digits : ∀ d ∈ ds, d < 2 ^ k) (x : BitVec w) (m : Nat)
    (small : x.toNat < 2 ^ m) (fits : m + k * ds.length ≤ w) :
    (ds.foldl (fun (x : BitVec w) d => x <<< k ||| BitVec.ofNat w d) x).toNat =
      ds.foldl (fun n d => 2 ^ k * n + d) x.toNat := by
  induction ds generalizing x m with
  | nil => rfl
  | cons d ds ih =>
    rw [length_cons, Nat.mul_add, Nat.mul_one] at fits
    obtain ⟨value, bound⟩ := toNat_shiftIn x (digits d mem_cons_self) small (by omega)
    rw [foldl_cons, foldl_cons, ← value]
    exact ih (fun d member => digits d (mem_cons_of_mem _ member)) _ (m + k)
      (value ▸ bound) (by omega)

theorem parseV4_text4 (bits : BitVec 32) : parseV4 (text4 bits).toList = some (.v4 bits) := by
  rw [parseV4, parseOctets_text4, Option.map_some]
  congr 2
  apply BitVec.eq_of_toNat_eq
  rw [toNat_foldl_shiftIn (octets bits)
    (fun d member => by have := octet_le member; omega) 0 0 (by decide)
    (by simp [octets])]
  exact octets_value bits

/-! ### Hexadecimal groups -/

theorem textHex_toList (n : Nat) : (textHex n).toList = Nat.toDigits 16 n := by
  rw [textHex, String.toList_ofList]

theorem hexDigit_digitChar {d : Nat} (small : d < 16) : hexDigit d.digitChar = some d := by
  interval_cases d <;> decide

theorem hexDigit_of_mem_toDigits (member : c ∈ Nat.toDigits 16 n) : (hexDigit c).isSome := by
  induction n using Nat.strongRecOn with
  | ind n ih =>
    rcases Nat.lt_or_ge n 16 with small | large
    · rw [Nat.toDigits_of_lt_base small, mem_singleton] at member
      rw [member, hexDigit_digitChar small]
      rfl
    · rw [Nat.toDigits_of_base_le (by decide) large, mem_append, mem_singleton] at member
      rcases member with front | last
      · exact ih (n / 16) (Nat.div_lt_self (by omega) (by decide)) front
      · rw [last, hexDigit_digitChar (Nat.mod_lt _ (by decide))]
        rfl

theorem hexValue_toDigits (n : Nat) : hexValue (Nat.toDigits 16 n) = n := by
  induction n using Nat.strongRecOn with
  | ind n ih =>
    rcases Nat.lt_or_ge n 16 with small | large
    · rw [Nat.toDigits_of_lt_base small]
      simp [hexValue, hexDigit_digitChar small]
    · have front := ih (n / 16) (Nat.div_lt_self (by omega) (by decide))
      rw [hexValue] at front
      rw [Nat.toDigits_of_base_le (by decide) large, hexValue, foldl_append, front]
      simp only [foldl_cons, foldl_nil,
        hexDigit_digitChar (Nat.mod_lt n (by decide)), Option.getD_some]
      omega

theorem not_hex_colon : ¬ (hexDigit ':').isSome := by decide

theorem spanHex_append (digits rest : List Char) (hex : ∀ c ∈ digits, (hexDigit c).isSome)
    (ends : ∀ c, rest.head? = some c → ¬ (hexDigit c).isSome) :
    spanHex (digits ++ rest) = (digits, rest) := by
  have stop : rest.takeWhile (fun c => (hexDigit c).isSome) = [] ∧
      rest.dropWhile (fun c => (hexDigit c).isSome) = rest := by
    cases rest with
    | nil => exact ⟨rfl, rfl⟩
    | cons c rest =>
      have other := ends c rfl
      simp [other]
  rw [spanHex, span_eq_takeWhile_dropWhile,
    takeWhile_append_of_pos hex, dropWhile_append_of_pos hex,
    stop.1, stop.2, append_nil]

theorem length_toDigits_group (small : n < 65536) : (Nat.toDigits 16 n).length ≤ 4 :=
  (Nat.length_toDigits_le_iff (by decide) (by decide)).mpr small

/-- What has been read after one more group. -/
def Groups.push (g : Groups) (n : Nat) : Groups := { g with read := g.read ++ [n] }

section OneGroup

variable (small : n < 65536) (fuel : Nat) (g : Groups)

include small

theorem parseGroups_last : parseGroups (fuel + 1) (Nat.toDigits 16 n) g = some (g.push n) := by
  have span : spanHex (Nat.toDigits 16 n) = (Nat.toDigits 16 n, []) := by
    simpa using spanHex_append (Nat.toDigits 16 n) []
      (fun c => hexDigit_of_mem_toDigits (n := n)) (by simp)
  have length := length_toDigits_group small
  rw [parseGroups, span]
  simp [Nat.toDigits_ne_nil, Nat.not_lt.mpr length, hexValue_toDigits, push]

theorem parseGroups_colon {c : Char} (single : c ≠ ':') (more : List Char) :
    parseGroups (fuel + 1) (Nat.toDigits 16 n ++ ':' :: c :: more) g =
      parseGroups fuel (c :: more) (g.push n) := by
  have span := spanHex_append (Nat.toDigits 16 n) (':' :: c :: more)
    (fun c => hexDigit_of_mem_toDigits (n := n))
    (by simpa using not_hex_colon)
  have length := length_toDigits_group small
  rw [parseGroups, span]
  simp [Nat.toDigits_ne_nil, Nat.not_lt.mpr length, hexValue_toDigits, push]

theorem parseGroups_ellipsis (more : List Char) (first : g.ellipsis = none) :
    parseGroups (fuel + 1) (Nat.toDigits 16 n ++ ':' :: ':' :: more) g = let next : Groups :=
        { read := g.read ++ [n], ellipsis := some (g.read ++ [n]).length }
      if more = [] then some next else parseGroups fuel more next := by
  have span := spanHex_append (Nat.toDigits 16 n) (':' :: ':' :: more)
    (fun c => hexDigit_of_mem_toDigits (n := n))
    (by simpa using not_hex_colon)
  have length := length_toDigits_group small
  rw [parseGroups, span]
  simp [Nat.toDigits_ne_nil, Nat.not_lt.mpr length, hexValue_toDigits, first]

end OneGroup

/-- Groups with a colon between each two of them. -/
def hexText (groups : List Nat) : List Char := joinOn ':' (groups.map (Nat.toDigits 16))

theorem hexText_cons (n : Nat) {rest : List Nat} (some : rest ≠ []) :
    hexText (n :: rest) = Nat.toDigits 16 n ++ ':' :: hexText rest := by
  cases rest with
  | nil => exact absurd rfl some
  | cons => rfl

theorem hexText_head {groups : List Nat} (some : groups ≠ []) :
    ∃ c more, hexText groups = c :: more ∧ c ≠ ':' := by
  obtain ⟨n, rest, rfl⟩ := exists_cons_of_ne_nil some
  obtain ⟨c, digits, numeral⟩ := exists_cons_of_ne_nil (Nat.toDigits_ne_nil (n := n) (b := 16))
  have other : c ≠ ':' := by
    rintro rfl
    exact not_hex_colon (hexDigit_of_mem_toDigits (n := n) (numeral ▸ mem_cons_self))
  cases rest with
  | nil => exact ⟨c, digits, by simp [hexText, joinOn, numeral], other⟩
  | cons next rest =>
    exact ⟨c, _, by rw [hexText_cons n (by simp), numeral, cons_append], other⟩

/-- All groups but the last are read one by one. -/
theorem parseGroups_front (front : List Nat) (n : Nat) (small : ∀ m ∈ front, m < 65536)
    (fuel : Nat) (g : Groups) (tail : List Char) :
    parseGroups (fuel + front.length) (hexText (front ++ [n]) ++ tail) g =
      parseGroups fuel (Nat.toDigits 16 n ++ tail) { g with read := g.read ++ front } := by
  induction front generalizing g with
  | nil => simp [hexText, joinOn]
  | cons m front ih =>
    obtain ⟨smallHead, small⟩ := forall_mem_cons.mp small
    have rest : front ++ [n] ≠ [] := by simp
    obtain ⟨c, more, spelled, other⟩ := hexText_head rest
    rw [cons_append, hexText_cons m rest, append_assoc, cons_append, spelled, cons_append,
      length_cons, ← Nat.add_assoc, parseGroups_colon smallHead _ g other, ← cons_append,
      ← spelled, ih small]
    simp [push]

section

variable (groups : List Nat) (some : groups ≠ []) (small : ∀ n ∈ groups, n < 65536) (fuel : Nat)
  (enough : groups.length ≤ fuel) (g : Groups)

include some small enough

theorem parseGroups_hexText :
    parseGroups fuel (hexText groups) g = Option.some { g with read := g.read ++ groups } := by
  obtain ⟨front, n, rfl⟩ := (eq_nil_or_concat' groups).resolve_left some
  obtain ⟨smallFront, smallLast⟩ := forall_mem_append.mp small
  obtain ⟨k, rfl⟩ : ∃ k, fuel = k + 1 + front.length :=
    ⟨fuel - front.length - 1, by simp at enough; omega⟩
  have read := parseGroups_front front n smallFront (k + 1) g []
  rw [append_nil, append_nil, parseGroups_last (smallLast n (by simp))] at read
  simpa [push] using read

theorem parseGroups_hexText_ellipsis (first : g.ellipsis = none)
    (more : List Char) :
    parseGroups fuel (hexText groups ++ ':' :: ':' :: more) g = let next : Groups :=
        { read := g.read ++ groups
          ellipsis := Option.some (g.read ++ groups).length }
      if more = [] then Option.some next
      else parseGroups (fuel - groups.length) more next := by
  obtain ⟨front, n, rfl⟩ := (eq_nil_or_concat' groups).resolve_left some
  obtain ⟨smallFront, smallLast⟩ := forall_mem_append.mp small
  obtain ⟨k, rfl⟩ : ∃ k, fuel = k + 1 + front.length :=
    ⟨fuel - front.length - 1, by simp at enough; omega⟩
  have left : k + 1 + front.length - (front ++ [n]).length = k := by
    rw [length_append, length_singleton]
    omega
  have last := parseGroups_ellipsis (smallLast n (by simp)) k
    { g with read := g.read ++ front } more first
  rw [parseGroups_front front n smallFront, left, last]
  simp only [append_assoc]

end

/-! ### The groups of an address -/

/-- The eight groups of an IPv6 address. -/
def groupsOf (bits : BitVec 128) : List Nat := (range 8).map (Addr.group bits)

theorem length_groupsOf (bits : BitVec 128) : (groupsOf bits).length = 8 := by
  simp [groupsOf]

variable {bits : BitVec 128}

theorem group_lt (member : n ∈ groupsOf bits) : n < 65536 := by
  obtain ⟨i, _, rfl⟩ := mem_map.mp member
  exact Nat.mod_lt _ (by decide)

theorem groupsOf_value (bits : BitVec 128) :
    (groupsOf bits).foldl (fun n g => 2 ^ 16 * n + g) 0 = bits.toNat := by
  simp only [groupsOf, range_succ, range_zero, nil_append,
    map_append, map_cons, map_nil, foldl_append,
    foldl_cons, foldl_nil, group, BitVec.toNat_ushiftRight,
    Nat.shiftRight_eq_div_pow]
  omega

theorem ofGroups_groupsOf (bits : BitVec 128) : ofGroups (groupsOf bits) = bits := by
  apply BitVec.eq_of_toNat_eq
  rw [ofGroups, toNat_foldl_shiftIn (groupsOf bits)
    (fun n member => group_lt member) 0 0 (by decide)
    (by simp [length_groupsOf])]
  exact groupsOf_value bits

theorem take_zeroRun (groups : List Nat) :
    groups.take (zeroRun groups) = replicate (zeroRun groups) 0 := by
  have front : groups.take (zeroRun groups) = groups.takeWhile (· = 0) := by
    exact (prefix_iff_eq_take.mp (List.takeWhile_prefix _)).symm
  rw [front, eq_replicate_iff]
  refine ⟨rfl, ?_⟩
  intro n member
  simpa using mem_takeWhile_imp member

variable {length : Nat} {groups : List Nat}

theorem longestZeros_spec {start : Nat} (found : longestZeros groups = some (start, length)) :
    2 ≤ length ∧ length = zeroRun (groups.drop start) := by
  have kept : ∀ (positions : List Nat) (best : Option (Nat × Nat)),
      (∀ i n, best = some (i, n) → 2 ≤ n ∧ n = zeroRun (groups.drop i)) →
      ∀ i n, positions.foldl (fun best i =>
          let length := zeroRun (groups.drop i)
          if 2 ≤ length ∧ (best.elim 0 Prod.snd) < length then some (i, length)
          else best) best = some (i, n) →
        2 ≤ n ∧ n = zeroRun (groups.drop i) := by
    intro positions
    induction positions with
    | nil => exact fun best holds => holds
    | cons position positions ih =>
      intro best holds
      apply ih
      intro i n next
      dsimp only at next
      split at next
      case isTrue long =>
        obtain ⟨rfl, rfl⟩ := Prod.mk.inj (Option.some.inj next)
        exact ⟨long.1, rfl⟩
      case isFalse => exact holds i n next
  exact kept _ none (by simp) start length found

theorem groups_split {start : Nat} (run : length = zeroRun (groups.drop start)) :
    groups = groups.take start ++ replicate length 0 ++ groups.drop (start + length) := by
  have zeros := take_zeroRun (groups.drop start)
  rw [← run] at zeros
  conv_lhs => rw [← take_append_drop start groups,
    ← take_append_drop length (groups.drop start), zeros,
    drop_drop]
  rw [append_assoc]

theorem run_le_length {start : Nat}
    (long : 2 ≤ length) (run : length = zeroRun (groups.drop start)) :
    start + length ≤ groups.length := by
  have bound : zeroRun (groups.drop start) ≤ (groups.drop start).length :=
    (List.takeWhile_prefix _).length_le
  rw [length_drop] at bound
  omega

theorem intercalate_eq_joinOn (c : Char) (fields : List (List Char)) :
    intercalate [c] fields = joinOn c fields := by
  induction fields with
  | nil => rfl
  | cons field rest ih =>
    cases rest with
    | nil => simp [joinOn]
    | cons next rest =>
      rw [joinOn, ← ih]
      simp [intercalate]

theorem text6_toList (bits : BitVec 128) : (text6 bits).toList =
      match longestZeros (groupsOf bits) with
      | none => hexText (groupsOf bits)
      | some (start, length) =>
        hexText ((groupsOf bits).take start) ++ ':' :: ':' ::
          hexText ((groupsOf bits).drop (start + length)) := by
  have joined : ∀ part : List Nat, intercalate [':'] (part.map fun n => (textHex n).toList) =
        hexText part := by
    intro part
    rw [intercalate_eq_joinOn, hexText]
    congr 2
    funext n
    exact textHex_toList n
  have colons : "::".toList = [':', ':'] := rfl
  change (match longestZeros (groupsOf bits) with
    | none => _ | some (start, length) => _ : String).toList = _
  cases longestZeros (groupsOf bits) with
  | none => simp only [String.toList_ofList, joined]; rfl
  | some run =>
    simp only [String.toList_append, String.toList_ofList, joined, colons,
      append_assoc, cons_append, nil_append]
    rfl

/-! ### Reading an address back -/

theorem expandGroups_full (eight : groups.length = 8) :
    expandGroups { read := groups, ellipsis := none } = some groups := by
  simp [expandGroups, eight]

theorem expandGroups_run {start : Nat} (eight : groups.length = 8) (long : 2 ≤ length)
    (run : length = zeroRun (groups.drop start)) :
    expandGroups
      { read := groups.take start ++ groups.drop (start + length)
        ellipsis := some start } = some groups := by
  have bound := run_le_length long run
  have front : (groups.take start).length = start := by
    rw [length_take]
    omega
  have total : (groups.take start ++ groups.drop (start + length)).length = 8 - length := by
    rw [length_append, front, length_drop]
    omega
  have zeros : 8 - (8 - length) = length := by omega
  rw [expandGroups]
  simp only [total, zeros]
  rw [if_pos (by omega), take_left' front, drop_left' front, ← groups_split run]

def Groups.address (g : Option Groups) (zone : String) : Option Addr :=
  (g.bind expandGroups).map fun all => .v6 (Addr.ofGroups all) zone

theorem parseV6_colons (c : Char) (more : List Char) (zone : String) :
    parseV6 (':' :: ':' :: c :: more) zone =
      address (parseGroups 8 (c :: more) ⟨[], some 0⟩) zone := rfl

theorem parseV6_digit (other : c ≠ ':') (more : List Char) (zone : String) :
    parseV6 (c :: more) zone = address (parseGroups 8 (c :: more) ⟨[], none⟩) zone := by
  unfold parseV6 address
  split
  · simp_all
  · simp_all
  · rfl

theorem address_of_expand {g : Groups}
    (expanded : expandGroups g = some (groupsOf bits)) (zone : String) :
    address (some g) zone = some (.v6 bits zone) := by
  rw [address, Option.bind_some, expanded, Option.map_some, ofGroups_groupsOf]

theorem parseV6_hexText (eight : groups.length = 8)
    (small : ∀ n ∈ groups, n < 65536) (zone : String) :
    parseV6 (hexText groups) zone = address (some ⟨groups, none⟩) zone := by
  have some : groups ≠ [] := by
    rintro rfl
    cases eight
  obtain ⟨c, more, spelled, other⟩ := hexText_head some
  have read := parseGroups_hexText groups some small 8 eight.le ⟨[], none⟩
  rw [spelled, parseV6_digit other, ← spelled, read]
  rfl

theorem parseGroups_back {front back : List Nat} {fuel : Nat}
    (more : back ≠ []) (small : ∀ n ∈ back, n < 65536)
    (enough : back.length ≤ fuel) :
    parseGroups fuel (hexText back) ⟨front, some front.length⟩ =
      some ⟨front ++ back, some front.length⟩ :=
  parseGroups_hexText _ more small _ enough _

theorem hexText_ne_nil (some : groups ≠ []) : hexText groups ≠ [] := by
  obtain ⟨c, more, spelled, _⟩ := hexText_head some
  rw [spelled]
  exact cons_ne_nil c more

theorem parseV6_ellipsis {front back : List Nat} (smallFront : ∀ n ∈ front, n < 65536)
    (smallBack : ∀ n ∈ back, n < 65536)
    (room : front.length + back.length ≤ 6) (zone : String) :
    parseV6 (hexText front ++ ':' :: ':' :: hexText back) zone =
      address (some ⟨front ++ back, some front.length⟩) zone := by
  cases front with
  | nil =>
    by_cases noBack : back = []
    · subst noBack
      rfl
    · have read : parseGroups 8 (hexText back) ⟨[], some 0⟩ = some ⟨back, some 0⟩ :=
        parseGroups_back noBack smallBack (by omega)
      obtain ⟨c, more, spelled, _⟩ := hexText_head noBack
      rw [spelled] at read ⊢
      exact congrArg (address · zone) read
  | cons m others =>
    obtain ⟨c, more, spelled, other⟩ := hexText_head (cons_ne_nil m others)
    have read := parseGroups_hexText_ellipsis (m :: others) (by simp)
      smallFront 8 (by omega) ⟨[], none⟩ rfl (hexText back)
    rw [spelled, cons_append, parseV6_digit other, ← cons_append, ← spelled, read]
    by_cases noBack : back = []
    · subst noBack
      rw [append_nil]
      rfl
    · have rest : back.length ≤ 8 - (m :: others).length := by omega
      rw [if_neg (hexText_ne_nil noBack)]
      exact congrArg (address · zone) (parseGroups_back noBack smallBack rest)

theorem parseV6_text6 (bits : BitVec 128) (zone : String) :
    parseV6 (text6 bits).toList zone = some (.v6 bits zone) := by
  have eight := length_groupsOf bits
  have small : ∀ n ∈ groupsOf bits, n < 65536 := fun n => group_lt
  rw [text6_toList]
  cases found : longestZeros (groupsOf bits) with
  | none =>
    rw [parseV6_hexText eight small]
    exact address_of_expand (expandGroups_full eight) zone
  | some run =>
    obtain ⟨start, length⟩ := run
    obtain ⟨long, run⟩ := longestZeros_spec found
    have bound := run_le_length long run
    have frontLength : ((groupsOf bits).take start).length = start := by
      rw [length_take]
      omega
    have backLength : ((groupsOf bits).drop (start + length)).length = 8 - (start + length) := by
      rw [length_drop, eight]
    have read := parseV6_ellipsis (fun n member => small n (mem_of_mem_take member))
      (fun n member => small n (mem_of_mem_drop member))
      (show ((groupsOf bits).take start).length +
        ((groupsOf bits).drop (start + length)).length ≤ 6 by omega) zone
    rw [frontLength] at read
    rw [read]
    exact address_of_expand (expandGroups_run eight long run) zone

/-- The characters `ParseAddr` decides the form by. -/
def isMark (c : Char) : Bool := c = '.' ∨ c = ':' ∨ c = '%'

theorem parseAddr_colon {s : String}
    (first : s.toList.find? isMark = some ':') (free : '%' ∉ s.toList) :
    parseAddr s = parseV6 s.toList "" := by
  have span : s.toList.span (· ≠ '%') = (s.toList, []) := by
    have all : ∀ c ∈ s.toList, decide (c ≠ '%') = true := by
      intro c member
      exact decide_eq_true fun same => free (same ▸ member)
    rw [span_eq_takeWhile_dropWhile, takeWhile_eq_self_iff.mpr all,
      dropWhile_eq_nil_iff.mpr all]
  have form : s.toList.find? (fun c => c = '.' ∨ c = ':' ∨ c = '%') = some ':' := first
  simp only [parseAddr, form, span]

theorem parseAddr_dot {s : String} (first : s.toList.find? isMark = some '.') :
    parseAddr s = parseV4 s.toList := by
  have form : s.toList.find? (fun c => c = '.' ∨ c = ':' ∨ c = '%') = some '.' := first
  simp only [parseAddr, form]

theorem find_mark {s : List Char} {m : Char} (mark : isMark m) (inside : m ∈ s)
    (others : ∀ c ∈ s, c = m ∨ (hexDigit c).isSome) : s.find? isMark = some m := by
  obtain ⟨c, found⟩ := Option.isSome_iff_exists.mp (find?_isSome.mpr ⟨m, inside, mark⟩)
  rcases others c (List.mem_of_find?_eq_some found) with rfl | hex
  · exact found
  · have marked := find?_some found
    simp only [isMark, decide_eq_true_eq] at marked
    rcases marked with rfl | rfl | rfl <;> exact absurd hex (by decide)

theorem hexDigit_of_isDigit (digit : c.isDigit) : (hexDigit c).isSome := by
  have range : '0' ≤ c ∧ c ≤ '9' := by
    simpa [Char.isDigit, Char.le_def, UInt32.le_iff_toNat_le] using digit
  simp [hexDigit, range]

theorem mem_joinOn {separator : Char} {fields : List (List Char)}
    (member : c ∈ joinOn separator fields) :
    c = separator ∨ ∃ field ∈ fields, c ∈ field := by
  induction fields with
  | nil => simp [joinOn] at member
  | cons field rest ih =>
    cases rest with
    | nil => exact .inr ⟨field, by simp, member⟩
    | cons next rest =>
      rw [joinOn, mem_append, mem_cons] at member
      rcases member with own | rfl | later
      · exact .inr ⟨field, by simp, own⟩
      · exact .inl rfl
      · refine (ih later).imp_right ?_
        rintro ⟨other, held, within⟩
        exact ⟨other, mem_cons_of_mem _ held, within⟩

theorem mem_text4 {bits : BitVec 32} (member : c ∈ (text4 bits).toList) :
    c = '.' ∨ (hexDigit c).isSome := by
  rw [text4_toList] at member
  refine (mem_joinOn member).imp_right ?_
  rintro ⟨field, held, within⟩
  obtain ⟨n, _, rfl⟩ := mem_map.mp held
  exact hexDigit_of_isDigit (Nat.isDigit_of_mem_toDigits (by decide) (by decide) within)

theorem parseAddr_text4 (bits : BitVec 32) : parseAddr (text4 bits) = some (.v4 bits) := by
  have dot : '.' ∈ (text4 bits).toList := by
    rw [text4_toList]
    simp [octets, joinOn]
  rw [parseAddr_dot (find_mark (by decide) dot fun _ => mem_text4), parseV4_text4]

theorem hex_or_colon_of_mem (member : c ∈ hexText groups) : c = ':' ∨ (hexDigit c).isSome := by
  refine (mem_joinOn member).imp_right ?_
  rintro ⟨field, held, within⟩
  obtain ⟨n, _, rfl⟩ := mem_map.mp held
  exact hexDigit_of_mem_toDigits within

theorem mem_text6 (member : c ∈ (text6 bits).toList) : c = ':' ∨ (hexDigit c).isSome := by
  rw [text6_toList] at member
  cases found : longestZeros (groupsOf bits) with
  | none =>
    rw [found] at member
    exact hex_or_colon_of_mem member
  | some run =>
    rw [found] at member
    simp only [mem_append, mem_cons] at member
    rcases member with front | rfl | rfl | back
    · exact hex_or_colon_of_mem front
    · exact .inl rfl
    · exact .inl rfl
    · exact hex_or_colon_of_mem back

theorem colon_mem_text6 (bits : BitVec 128) : ':' ∈ (text6 bits).toList := by
  rw [text6_toList]
  cases found : longestZeros (groupsOf bits) with
  | none =>
    simp only [hexText, groupsOf, range_succ, range_zero,
      nil_append, cons_append, map_cons, joinOn]
    simp
  | some run => simp

theorem parseAddr_text6 (bits : BitVec 128) : parseAddr (text6 bits) = some (.v6 bits "") := by
  have free : '%' ∉ (text6 bits).toList := by
    intro member
    exact absurd (mem_text6 member) (by decide)
  rw [parseAddr_colon (find_mark (by decide) (colon_mem_text6 bits) fun _ => mem_text6) free,
    parseV6_text6]

/-! ### IPv4-mapped addresses -/

/-- The IPv4 address a mapped one ends in. -/
def mappedLow (bits : BitVec 128) : BitVec 32 := bits.setWidth 32

theorem parseGroups_quad (fuel : Nat) (low : BitVec 32) (g : Groups)
    (ellipsis : g.ellipsis ≠ none) (room : g.read.length ≤ 6) :
    parseGroups (fuel + 1) (text4 low).toList g =
      some { g with
        read := g.read ++
          [256 * (low >>> 24).toNat + (low >>> 16).toNat % 256,
            256 * ((low >>> 8).toNat % 256) + low.toNat % 256] } := by
  have quad := parseOctets_text4 low
  have first : (low >>> 24).toNat ∈ octets low := by simp [octets]
  have top := octet_le first
  have length : (Nat.toDigits 10 (low >>> 24).toNat).length ≤ 4 :=
    (Nat.length_toDigits_le_iff (by decide) (by decide)).mpr (by omega)
  obtain ⟨rest, spelled⟩ : ∃ rest, (text4 low).toList =
      Nat.toDigits 10 (low >>> 24).toNat ++ '.' :: rest := by
    rw [text4_toList]
    exact ⟨_, rfl⟩
  have span := spanHex_append (Nat.toDigits 10 (low >>> 24).toNat) ('.' :: rest)
    (fun c member => hexDigit_of_isDigit
      (Nat.isDigit_of_mem_toDigits (by decide) (by decide) member))
    (by simp; decide)
  rw [← spelled] at span
  rw [parseGroups, span, quad]
  simp [-BitVec.toNat_ushiftRight, Nat.toDigits_ne_nil,
    Nat.not_lt.mpr length, ellipsis, Nat.not_lt.mpr room, octets]

theorem groupsOf_mapped (mapped : bits >>> 32 = 0xffff) :
    groupsOf bits = replicate 5 0 ++ [65535, 256 * ((mappedLow bits) >>> 24).toNat +
          ((mappedLow bits) >>> 16).toNat % 256,
        256 * (((mappedLow bits) >>> 8).toNat % 256) + (mappedLow bits).toNat % 256] := by
  have high : bits.toNat / 2 ^ 32 = 65535 := by
    have number := congrArg BitVec.toNat mapped
    rwa [BitVec.toNat_ushiftRight, Nat.shiftRight_eq_div_pow] at number
  simp only [groupsOf, mappedLow, range_succ, range_zero,
    nil_append, map_cons, map_nil, group,
    BitVec.toNat_ushiftRight, BitVec.toNat_setWidth,
    Nat.shiftRight_eq_div_pow, replicate, cons_append,
    List.cons.injEq, and_true]
  omega

theorem parseAddr_mapped (mapped : bits >>> 32 = 0xffff) :
    parseAddr ("::ffff:" ++ text4 (bits.setWidth 32)) = some (.v6 bits "") := by
  have chars : ("::ffff:" ++ text4 (bits.setWidth 32)).toList =
      ':' :: ':' :: 'f' :: ('f' :: 'f' :: 'f' :: ':' :: (text4 (mappedLow bits)).toList) := by
    rw [String.toList_append]
    rfl
  have free : '%' ∉ ("::ffff:" ++ text4 (bits.setWidth 32)).toList := by
    rw [String.toList_append, mem_append, not_or]
    exact ⟨by decide, fun quad => absurd (mem_text4 quad) (by decide)⟩
  have digits : Nat.toDigits 16 65535 = ['f', 'f', 'f', 'f'] := by decide
  obtain ⟨c, more, spelled, other⟩ : ∃ c more,
      (text4 (mappedLow bits)).toList = c :: more ∧ c ≠ ':' := by
    obtain ⟨c, rest, numeral⟩ := exists_cons_of_ne_nil
      (Nat.toDigits_ne_nil (n := ((mappedLow bits) >>> 24).toNat) (b := 10))
    refine ⟨c, _, by rw [text4_toList]; simp only [octets, map_cons,
      joinOn, numeral, cons_append]; rfl, ?_⟩
    rintro rfl
    exact not_mem_toDigits (by decide) _ (numeral ▸ mem_cons_self)
  have first := parseGroups_colon (n := 65535) (by decide) 7 ⟨[], some 0⟩ other more
  have quad := parseGroups_quad 6 (mappedLow bits) ⟨[65535], some 0⟩ (by simp) (by simp)
  rw [digits, ← spelled] at first
  rw [parseAddr_colon (by rw [chars]; rfl) free, chars, parseV6_colons]
  change address (parseGroups 8 (['f', 'f', 'f', 'f'] ++ ':' ::
    (text4 (mappedLow bits)).toList) ⟨[], some 0⟩) "" = _
  rw [first]
  change address (parseGroups 7 (text4 (mappedLow bits)).toList ⟨[65535], some 0⟩) "" = _
  rw [quad]
  refine address_of_expand ?_ ""
  rw [groupsOf_mapped mapped]
  rfl

variable {a : Addr}

/-- The characters a zone-free address is written with. -/
theorem mem_text (free : a.zone = "")
    (member : c ∈ a.text.toList) : c = '.' ∨ c = ':' ∨ (hexDigit c).isSome := by
  cases a with
  | v4 bits => exact (mem_text4 member).imp_right .inr
  | v6 bits zone =>
    have empty : zone = "" := free
    subst empty
    by_cases mapped : bits >>> 32 = 0xffff
    · rw [text, if_pos mapped, if_pos rfl, String.append_empty,
        String.toList_append, mem_append] at member
      rcases member with start | rest
      · have spelled : "::ffff:".toList = [':', ':', 'f', 'f', 'f', 'f', ':'] := rfl
        rw [spelled] at start
        simp only [mem_cons, not_mem_nil, or_false] at start
        rcases start with rfl | rfl | rfl | rfl | rfl | rfl | rfl <;> decide
      · exact (mem_text4 rest).imp_right .inr
    · rw [text, if_neg mapped, if_pos rfl, String.append_empty] at member
      exact .inr (mem_text6 member)

theorem parseAddr_text_free (free : a.zone = "") : parseAddr a.text = some a := by
  cases a with
  | v4 bits => exact parseAddr_text4 bits
  | v6 bits zone =>
    have empty : zone = "" := free
    subst empty
    by_cases mapped : bits >>> 32 = 0xffff
    · rw [text, if_pos mapped, if_pos rfl, String.append_empty]
      exact parseAddr_mapped mapped
    · rw [text, if_neg mapped, if_pos rfl, String.append_empty]
      exact parseAddr_text6 bits

/-- **Parsing the text of an address gives the address back**, its zone included. -/
theorem parseAddr_text (a : Addr) : parseAddr a.text = some a := by
  by_cases free : a.zone = ""
  · exact parseAddr_text_free free
  cases a with
  | v4 => exact absurd rfl free
  | v6 bits zone =>
    have read : parseAddr (v6 bits "").text = some (.v6 bits "") := parseAddr_text_free rfl
    have plain : '%' ∉ (v6 bits "").text.toList := fun member =>
      absurd (mem_text rfl member) (by decide)
    have spelled : (v6 bits zone).text.toList =
        (v6 bits "").text.toList ++ '%' :: zone.toList := by
      have some : zone ≠ "" := free
      simp [text, some]
    have form : (v6 bits "").text.toList.find? isMark = some ':' := by
      rw [parseAddr] at read
      split at read
      · obtain ⟨_, _, same⟩ := Option.map_eq_some_iff.mp read
        cases same
      · next colon => exact colon
      · cases read
    obtain ⟨all, expanded, same⟩ := Option.map_eq_some_iff.mp
      ((parseAddr_colon form plain).symm.trans read)
    have front : ∀ c ∈ (v6 bits "").text.toList, decide (c ≠ '%') = true :=
      fun c member => decide_eq_true fun same => plain (same ▸ member)
    have formed : (v6 bits zone).text.toList.find? (fun c => c = '.' ∨ c = ':' ∨ c = '%') =
        some ':' := by
      rw [spelled, find?_append]
      exact (congrArg (Option.or · _) form).trans (Option.some_or ..)
    simp only [parseAddr, formed]
    rw [spelled, span_eq_takeWhile_dropWhile, takeWhile_append_of_pos front,
      dropWhile_append_of_pos front]
    cases named : zone.toList with
    | nil => exact absurd (String.toList_eq_nil_iff.mp named) free
    | cons c rest =>
      refine Option.map_eq_some_iff.mpr ⟨all, by simpa using expanded, ?_⟩
      rw [(v6.inj same).1, ← named, String.ofList_toList]

/-- **Parsing the text of a prefix gives the prefix back.** -/
theorem parsePrefix_text (p : Prefix) : parsePrefix p.text = some p := by
  have slash : "/".toList = ['/'] := rfl
  have shown : (toString p.bits).toList = Nat.toDigits 10 p.bits := repr_toList p.bits
  have reversed : p.text.toList.reverse =
      (Nat.toDigits 10 p.bits).reverse ++ '/' :: p.addr.text.toList.reverse := by
    rw [Prefix.text, String.toList_append, String.toList_append, slash, shown]
    simp
  have digits : ∀ c ∈ (Nat.toDigits 10 p.bits).reverse, decide (c ≠ '/') = true := by
    intro c member
    refine decide_eq_true ?_
    rintro rfl
    exact not_mem_toDigits (by decide) _ (mem_reverse.mp member)
  have span : p.text.toList.reverse.span (· ≠ '/') =
      ((Nat.toDigits 10 p.bits).reverse, '/' :: p.addr.text.toList.reverse) := by
    rw [reversed, span_eq_takeWhile_dropWhile,
      takeWhile_append_of_pos digits, dropWhile_append_of_pos digits]
    simp
  rw [parsePrefix, span]
  simp only [reverse_reverse, String.ofList_toList,
    parseAddr_text, parseBits_toDigits]
  rw [dif_pos ⟨p.zoneFree, p.bitsLe⟩]

theorem slash_not_mem_text (free : a.zone = "") : '/' ∉ a.text.toList :=
  fun member => absurd (mem_text free member) (by decide)

theorem space_not_mem_text (free : a.zone = "") : ' ' ∉ a.text.toList :=
  fun member => absurd (mem_text free member) (by decide)

theorem isAlphanum_of_hexDigit (hex : (hexDigit c).isSome) : c.isAlphanum := by
  unfold hexDigit at hex
  rw [Texts.isAlphanum_iff]
  split at hex
  case isTrue digit => exact .inr digit
  case isFalse =>
    split at hex
    case isTrue lower =>
      have letter : (102 : UInt32) ≤ 122 := by decide
      exact .inl (.inr ⟨lower.1, UInt32.le_trans lower.2 letter⟩)
    case isFalse =>
      split at hex
      case isTrue upper =>
        have letter : (70 : UInt32) ≤ 90 := by decide
        exact .inl (.inl ⟨upper.1, UInt32.le_trans upper.2 letter⟩)
      case isFalse => cases hex

theorem not_isSpace_of_hexDigit (hex : (hexDigit c).isSome) : isSpace c = false :=
  Texts.not_isSpace_of_isAlphanum (isAlphanum_of_hexDigit hex)

theorem Prefix.not_isSpace_of_mem_text (p : Prefix) : ∀ c ∈ p.text.toList, isSpace c = false := by
  intro c member
  have slash : "/".toList = ['/'] := rfl
  have shown : (toString p.bits).toList = Nat.toDigits 10 p.bits := repr_toList p.bits
  rw [Prefix.text, String.toList_append, String.toList_append, slash, shown,
    mem_append, mem_append, mem_singleton] at member
  rcases member with (address | rfl) | digit
  · rcases mem_text p.zoneFree address with rfl | rfl | hex
    · decide
    · decide
    · exact not_isSpace_of_hexDigit hex
  · decide
  · exact not_isSpace_of_hexDigit (hexDigit_of_isDigit
      (Nat.isDigit_of_mem_toDigits (by decide) (by decide) digit))

theorem Addr.text_ne_empty (a : Addr) : a.text ≠ "" := by
  intro empty
  have read := parseAddr_text a
  rw [empty] at read
  exact absurd read (by simp [show parseAddr "" = none from by decide])

theorem parsePrefix_addr (free : a.zone = "") : parsePrefix a.text = none := by
  have whole : ∀ c ∈ a.text.toList.reverse, decide (c ≠ '/') = true := by
    intro c member
    refine decide_eq_true ?_
    rintro rfl
    exact slash_not_mem_text free (mem_reverse.mp member)
  have span : a.text.toList.reverse.span (· ≠ '/') = (a.text.toList.reverse, []) := by
    rw [span_eq_takeWhile_dropWhile, takeWhile_eq_self_iff.mpr whole,
      dropWhile_eq_nil_iff.mpr whole]
  rw [parsePrefix, span]

theorem Prefix.text_inj {p q : Prefix} (same : p.text = q.text) : p = q := by
  have read := parsePrefix_text p
  rw [same, parsePrefix_text q] at read
  exact (Option.some.inj read).symm

end Netip
