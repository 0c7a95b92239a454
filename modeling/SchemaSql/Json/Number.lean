import SchemaSql.Json.Document
import SchemaSql.Number.Decimal

/-!
The values of number literals. A whole number that 64 bits hold, signed or not, is kept exactly.
Any other number is floating: its leading digits, as many as 64 bits hold, are scaled by powers of
ten, each step rounded to the nearest number.
-/

set_option autoImplicit false
set_option relaxedAutoImplicit false

namespace SchemaSql.Json

inductive Number
  | integer (value : Int)
  | float (value : Binary64)
deriving DecidableEq

/-- Appends digits to a significand while 64 bits hold it; returns it with the number of digits
taken and of digits left over. -/
def gather : Nat → Nat → List Char → Nat × Nat × Nat
  | significand, taken, [] => (significand, taken, 0)
  | significand, taken, c :: cs =>
    let next := significand * 10 + Decimal.ofDigit c
    if next < power2 64 then gather next (taken + 1) cs else (significand, taken, cs.length + 1)

def powerOfTen (n : Nat) : Binary64 := Binary64.ofNat (power10 n)

/-- Divides by 10 ^ 308 until the remaining exponent is at least -308. The largest significand is
gone after two divisions, so three rounds are enough. -/
def sink : Nat → Binary64 → Int → Binary64
  | 0, x, _ => x
  | rounds + 1, x, e =>
    if -308 ≤ e then x.div (powerOfTen (-e).toNat) else sink rounds (x.div (powerOfTen 308)) (e + 308)

/-- A significand scaled by a power of ten, or nothing when the result is too large. -/
def scaleByTen (significand : Nat) (e : Int) : Option Binary64 :=
  let x := Binary64.ofNat significand
  if 308 < e then if significand = 0 then some x else none
  else if 0 ≤ e then
    let y := x.mul (powerOfTen e.toNat)
    if y.isInfinite then none else some y
  else some (sink 3 x e)

/-- The written exponent, or whether it is too long for 31 bits. -/
def writtenPower : Option (Bool × List Char) → Option Int
  | none => some 0
  | some (positive, ds) =>
    let n := Decimal.readNat ds
    if power2 31 ≤ n then none else some (if positive then n else -(n : Int))

def clampPower (e : Int) : Int :=
  if e < -2147483648 then -2147483648 else if 2147483647 < e then 2147483647 else e

def NumberLiteral.float? (l : NumberLiteral) : Option Binary64 :=
  let (whole, _, excess) := gather 0 0 l.whole
  let (significand, taken, _) := gather whole 0 l.places
  let signed (x : Binary64) : Binary64 := if l.negative then x.neg else x
  match writtenPower l.power with
  | some e => (scaleByTen significand (clampPower ((excess : Int) - taken + e))).map signed
  | none =>
    match l.power with
    | some (true, _) => if significand = 0 then some (signed (Binary64.zero false)) else none
    | _ => some (signed (Binary64.zero false))

def NumberLiteral.number? (l : NumberLiteral) : Option Number :=
  if l.places.isEmpty ∧ l.power = none then
    let n := Decimal.readNat l.whole
    if l.negative then
      if n = 0 then some (.float (Binary64.zero true))
      else if n ≤ power2 63 then some (.integer (-(n : Int)))
      else l.float?.map .float
    else if n < power2 64 then some (.integer n)
    else l.float?.map .float
  else l.float?.map .float

end SchemaSql.Json
