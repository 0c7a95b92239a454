/-!
A point of time without a zone: a date of the proleptic Gregorian calendar and a time of day. The
nanosecond part reaches two seconds, the second of which is a leap second.
-/

set_option autoImplicit false
set_option relaxedAutoImplicit false

namespace SchemaSql

structure Timestamp where
  year : Int
  month : Nat
  day : Nat
  hour : Nat := 0
  minute : Nat := 0
  second : Nat := 0
  nanosecond : Nat := 0
deriving DecidableEq, Inhabited

namespace Timestamp

def padded (width n : Nat) : String :=
  let ds := toString n
  String.ofList (List.replicate (width - ds.length) '0') ++ ds

/-- Four digits of the year; a year outside them is written with its sign. -/
def yearText (y : Int) : String :=
  if 0 ≤ y ∧ y ≤ 9999 then padded 4 y.toNat
  else (if y < 0 then "-" else "+") ++ padded 4 y.natAbs

/-- The part of a second in three, six or nine digits, whichever is enough; nothing for none. -/
def fractionText (nanosecond : Nat) : String :=
  let n := nanosecond % 1000000000
  if n = 0 then ""
  else if n % 1000000 = 0 then "." ++ padded 3 (n / 1000000)
  else if n % 1000 = 0 then "." ++ padded 6 (n / 1000)
  else "." ++ padded 9 n

def text (t : Timestamp) : String :=
  yearText t.year ++ "-" ++ padded 2 t.month ++ "-" ++ padded 2 t.day ++ " " ++
    padded 2 t.hour ++ ":" ++ padded 2 t.minute ++ ":" ++
    padded 2 (t.second + t.nanosecond / 1000000000) ++ fractionText t.nanosecond

/-- The date that lies `days` days after the first of January 1970. Years are counted from March
in cycles of 400, in which a day's number fixes its date. -/
def ofDays (days : Int) : Timestamp :=
  let z := days + 719468
  let era := Int.fdiv z 146097
  let dayOfEra := (z - era * 146097).toNat
  let yearOfEra := (dayOfEra - dayOfEra / 1460 + dayOfEra / 36524 - dayOfEra / 146096) / 365
  let dayOfYear := dayOfEra - (365 * yearOfEra + yearOfEra / 4 - yearOfEra / 100)
  let m := (5 * dayOfYear + 2) / 153
  let month := if m < 10 then m + 3 else m - 9
  let year := (yearOfEra : Int) + era * 400 + (if month ≤ 2 then 1 else 0)
  { year, month, day := dayOfYear - (153 * m + 2) / 5 + 1 }

/-- The time that lies `seconds` seconds after the start of 1970. -/
def ofUnix (seconds : Int) : Timestamp :=
  let date := ofDays (Int.fdiv seconds 86400)
  let s := (Int.fmod seconds 86400).toNat
  { date with hour := s / 3600, minute := s / 60 % 60, second := s % 60 }

end Timestamp

end SchemaSql
