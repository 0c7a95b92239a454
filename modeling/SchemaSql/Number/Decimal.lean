import SchemaSql.Number.Binary64

/-!
Decimal text of integers and of binary floating-point numbers. `Decimal.shortest` finds the
decimal with the fewest digits that reads back as a given number, the nearest one if there are
several, and of two that are equally near the one that a `HalfRule` chooses; `Decimal.positional`
and `Decimal.scientific` write it.
-/

set_option autoImplicit false
set_option relaxedAutoImplicit false

namespace SchemaSql

/-- The number `digits * 10 ^ exponent`. -/
structure Decimal where
  digits : Nat
  exponent : Int
deriving DecidableEq, Inhabited

namespace Decimal

def ofDigit (c : Char) : Nat := c.toNat - 48

/-- The value of a text of decimal digits. -/
def readNat (cs : List Char) : Nat :=
  cs.foldl (fun n c ↦ n * 10 + ofDigit c) 0

/-- Reads an optional sign and at least one digit. -/
def readInt? (cs : List Char) : Option Int :=
  let magnitude? (ds : List Char) : Option Nat :=
    if ds.isEmpty then none else if ds.all Char.isDigit then some (readNat ds) else none
  match cs with
  | '-' :: ds => (magnitude? ds).map fun n ↦ -(n : Int)
  | '+' :: ds => (magnitude? ds).map fun n ↦ (n : Int)
  | ds => (magnitude? ds).map fun n ↦ (n : Int)

/-- Reads an integer that 64 bits hold. -/
def readInt64? (cs : List Char) : Option Int64 :=
  (readInt? cs).bind fun n ↦
    if isInt64 n then some (Int64.ofInt n) else none

/-- The digits of a number without its trailing zeros. -/
def stripZeros : Nat → Decimal → Decimal
  | 0, d => d
  | fuel + 1, d =>
    if d.digits ≠ 0 ∧ d.digits % 10 = 0 then stripZeros fuel ⟨d.digits / 10, d.exponent + 1⟩
    else d

def normal (d : Decimal) : Decimal := stripZeros d.digits.log2 d

def pow10 (num den : Nat) : Int → Nat × Nat
  | .ofNat e => (num, den * power10 e)
  | .negSucc e => (num * power10 (e + 1), den)

/-- The exponent of the first digit of a positive ratio, from an estimate by binary logarithms. -/
def leadingExponent (num den : Nat) : Int :=
  let guess := (((num.log2 : Int) - den.log2) * 30103) / 100000
  let up (k : Int) : Int :=
    let r := pow10 num den (k + 1)
    if r.2 ≤ r.1 then k + 1 else k
  let down (k : Int) : Int :=
    let r := pow10 num den k
    if r.1 < r.2 then k - 1 else k
  down (down (up (up guess)))

/-- Which of two decimals is taken that a number lies halfway between. -/
inductive HalfRule
  | away
  | toEven
deriving DecidableEq

/-- Whether the greater neighbour is taken, given the digits of the smaller one. -/
def HalfRule.takesGreater (rule : HalfRule) (digits : Nat) : Bool :=
  match rule with
  | .away => true
  | .toEven => digits % 2 == 1

/-- The shortest decimal that reads back as a finite number other than zero. The reals that round
to the number `m * 2 ^ q` lie within half a unit of it, a quarter below a power of two, ends
included when `m` is even. -/
def shortest (rule : HalfRule) (x : Binary64) : Decimal :=
  let m := x.significand
  let quarter : Nat × Nat :=
    match x.exponent - 2 with
    | .ofNat e => (power2 e, 1)
    | .negSucc e => (1, power2 (e + 1))
  let gapBelow := if m = power2 52 ∧ 1 < x.exponentField then 1 else 2
  let num := 4 * m * quarter.1
  let low := (4 * m - gapBelow) * quarter.1
  let high := (4 * m + 2) * quarter.1
  let den := quarter.2
  let closed := m % 2 = 0
  let lead := leadingExponent num den
  let hit (k : Int) (a : Nat) : Option (Nat × Decimal) :=
    let p : Nat × Nat := match k with
      | .ofNat e => (a * power10 e * den, 1)
      | .negSucc e => (a * den, power10 (e + 1))
    let v := num * p.2
    let inside :=
      if closed then low * p.2 ≤ p.1 ∧ p.1 ≤ high * p.2 else low * p.2 < p.1 ∧ p.1 < high * p.2
    if inside then some (if v ≤ p.1 then p.1 - v else v - p.1, ⟨a, k⟩) else none
  let at? (count : Nat) : Option Decimal :=
    let k := lead - (count : Int)
    let r := pow10 num den k
    let a := r.1 / r.2
    match hit k a, hit k (a + 1) with
    | some l, some u =>
      some (if u.1 < l.1 || (u.1 == l.1 && rule.takesGreater a) then u.2 else l.2)
    | some l, none => some l.2
    | none, some u => some u.2
    | none, none => none
  match (List.range 17).findSome? at? with
  | some d => normal d
  | none => ⟨num, 0⟩

/-- The digits with the decimal point set by the exponent. -/
def positional (d : Decimal) : String :=
  let ds := toString d.digits
  match d.exponent with
  | .ofNat e => ds ++ String.ofList (List.replicate e '0')
  | .negSucc e =>
    let places := e + 1
    let cs := ds.toList
    let cs := List.replicate (places + 1 - cs.length) '0' ++ cs
    String.ofList (cs.take (cs.length - places)) ++ "." ++
      String.ofList (cs.drop (cs.length - places))

/-- The exponent of the first digit. -/
def magnitude (d : Decimal) : Int := d.exponent + ((toString d.digits).length - 1 : Nat)

/-- One digit, the others after a point, and the signed exponent of the first. -/
def scientific (d : Decimal) : String :=
  let cs := (toString d.digits).toList
  let mantissa := String.ofList (cs.take 1) ++
    (if cs.length ≤ 1 then "" else "." ++ String.ofList (cs.drop 1))
  let e := d.magnitude
  mantissa ++ "e" ++ (if e < 0 then toString e else "+" ++ toString e)

end Decimal

/-- The text of a number in full: no exponent, and no point in a whole number. Halves go away from
zero. -/
def Binary64.plainText (x : Binary64) : String :=
  if x.isNaN then "NaN"
  else
    (if x.negative then "-" else "") ++
      (if x.isInfinite then "inf"
       else if x.significand = 0 then "0"
       else (Decimal.shortest .away x).positional)

/-- The text of a number in a document: always with a point or an exponent, and with an exponent
from 10 ^ 16 on and below 10 ^ -5. Halves go to the even neighbour. -/
def Binary64.documentText (x : Binary64) : String :=
  (if x.negative then "-" else "") ++
    (if x.significand = 0 then "0.0"
     else
       let d := Decimal.shortest .toEven x
       if -5 ≤ d.magnitude ∧ d.magnitude ≤ 15 then
         d.positional ++ (if 0 ≤ d.exponent then ".0" else "")
       else d.scientific)

end SchemaSql
