/-
Module: RiftRoute.Library.GoTime
Purpose: Go's `time.Time` as an instant with a zone, and its RFC3339Nano
  rendering.  The calendar is the proleptic Gregorian one, the fraction loses
  its trailing zeros and the zone prints as `Z` or as a signed offset.
Trusted boundary: human-reviewed spec
-/
import Mathlib.Data.Nat.Notation
import Mathlib.Data.Int.Notation

namespace GoTime

/-- An instant: seconds since 1970-01-01T00:00:00Z and nanoseconds within the
second, read in a zone `offset` seconds east of UTC. -/
structure Time where
  sec : Int
  nsec : Fin 1000000000
  offset : Int
deriving DecidableEq, Repr, Inhabited

/-- The zero `time.Time`: 0001-01-01T00:00:00Z. -/
def Time.zero : Time := { sec := -62135596800, nsec := 0, offset := 0 }

/-- A decimal number padded with zeros on the left. -/
def padded (width n : Nat) : String :=
  let digits := toString n
  String.ofList (List.replicate (width - digits.length) '0') ++ digits

/-- A calendar day. -/
structure Civil where
  year : Int
  month : Nat
  day : Nat
deriving DecidableEq, Repr

/-- The calendar day of a day count since 1970-01-01: 400-year eras of 146097
days, years that start in March. -/
def civilOfDays (days : Int) : Civil :=
  let shifted := days + 719468
  let era := shifted.fdiv 146097
  let dayOfEra := (shifted - era * 146097).toNat
  let yearOfEra := (dayOfEra - dayOfEra / 1460 + dayOfEra / 36524 - dayOfEra / 146096) / 365
  let dayOfYear := dayOfEra - (365 * yearOfEra + yearOfEra / 4 - yearOfEra / 100)
  let marchMonth := (5 * dayOfYear + 2) / 153
  let month := if marchMonth < 10 then marchMonth + 3 else marchMonth - 9
  { year := yearOfEra + era * 400 + (if month ≤ 2 then 1 else 0)
    month := month
    day := dayOfYear - (153 * marchMonth + 2) / 5 + 1 }

/-- `.999999999`: the fraction without its trailing zeros, nothing for none. -/
def fraction (nsec : Nat) : String :=
  if nsec = 0 then ""
  else
    let digits := (padded 9 nsec).toList.reverse.dropWhile (· = '0')
    "." ++ String.ofList digits.reverse

/-- `Z07:00`: `Z` in UTC, else the signed offset in hours and minutes. -/
def zone (offset : Int) : String :=
  if offset = 0 then "Z"
  else
    let minutes := offset.natAbs / 60
    (if offset < 0 then "-" else "+") ++ padded 2 (minutes / 60) ++ ":" ++ padded 2 (minutes % 60)

/-- `t.Format(time.RFC3339Nano)`. -/
def Time.rfc3339Nano (t : Time) : String :=
  let seconds := t.sec + t.offset
  let date := civilOfDays (seconds.fdiv 86400)
  let clock := (seconds.fmod 86400).toNat
  let year := (if date.year < 0 then "-" else "") ++ padded 4 date.year.natAbs
  year ++ "-" ++ padded 2 date.month ++ "-" ++ padded 2 date.day ++ "T" ++
    padded 2 (clock / 3600) ++ ":" ++ padded 2 (clock / 60 % 60) ++ ":" ++
    padded 2 (clock % 60) ++ fraction t.nsec ++ zone t.offset

end GoTime
