import SchemaSql.Number.Power

/-!
Binary floating-point numbers of 64 bits, kept as their bits and read in exact integer arithmetic.
A finite number is `significand * 2 ^ exponent` up to sign. `ofRatio` rounds a ratio to the nearest
number, halves to the even neighbour; products and quotients are rounded ratios.
-/

set_option autoImplicit false
set_option relaxedAutoImplicit false

namespace SchemaSql

structure Binary64 where
  bits : UInt64
deriving DecidableEq, Inhabited

namespace Binary64

def negative (x : Binary64) : Bool := power2 63 ≤ x.bits.toNat

def exponentField (x : Binary64) : Nat := x.bits.toNat / power2 52 % power2 11

def fraction (x : Binary64) : Nat := x.bits.toNat % power2 52

def isFinite (x : Binary64) : Bool := x.exponentField != 2047

def isNaN (x : Binary64) : Bool := x.exponentField == 2047 && x.fraction != 0

def isInfinite (x : Binary64) : Bool := x.exponentField == 2047 && x.fraction == 0

def significand (x : Binary64) : Nat :=
  if x.exponentField = 0 then x.fraction else x.fraction + power2 52

def exponent (x : Binary64) : Int :=
  (if x.exponentField = 0 then 1 else (x.exponentField : Int)) - 1075

/-- The magnitude of a finite number as a ratio whose denominator is a power of two. -/
def magnitude (x : Binary64) : Nat × Nat :=
  match x.exponent with
  | .ofNat e => (x.significand * power2 e, 1)
  | .negSucc e => (x.significand, power2 (e + 1))

/-- The integer that a finite number equals, if it equals one. -/
def integer? (x : Binary64) : Option Int :=
  if x.isFinite then
    let m := x.magnitude
    if m.1 % m.2 = 0 then
      some (if x.negative then -(m.1 / m.2 : Nat) else (m.1 / m.2 : Nat))
    else none
  else none

def ofParts (negative : Bool) (field fraction : Nat) : Binary64 :=
  ⟨UInt64.ofNat ((if negative then power2 63 else 0) + field * power2 52 + fraction)⟩

def infinity (negative : Bool) : Binary64 := ofParts negative 2047 0

def zero (negative : Bool) : Binary64 := ofParts negative 0 0

/-- The quotient rounded to the nearest integer, a half to the even one. -/
def nearestQuotient (num den : Nat) : Nat :=
  let q := num / den
  let twice := 2 * (num % den)
  if twice < den then q
  else if den < twice then q + 1
  else if q % 2 = 0 then q else q + 1

/-- A ratio divided by a power of two, as numerator and denominator. -/
def scaled (num den : Nat) : Int → Nat × Nat
  | .ofNat e => (num, den * power2 e)
  | .negSucc e => (num * power2 (e + 1), den)

/-- The exponent at which the ratio has 53 binary digits, or the least exponent of all. -/
def ratioExponent (num den : Nat) : Int :=
  let guess : Int := (num.log2 : Int) - den.log2 - 52
  let r := scaled num den guess
  let settled := if r.1 < power2 52 * r.2 then guess - 1 else guess
  if settled < -1074 then -1074 else settled

/-- The number nearest to a ratio, infinite when the ratio is too large. -/
def ofRatio (negative : Bool) (num den : Nat) : Binary64 :=
  if num = 0 then zero negative
  else
    let e := ratioExponent num den
    let r := scaled num den e
    let q := nearestQuotient r.1 r.2
    let (q, e) := if q = power2 53 then (power2 52, e + 1) else (q, e)
    if q < power2 52 then ofParts negative 0 q
    else
      let field := (e + 1075).toNat
      if 2047 ≤ field then infinity negative else ofParts negative field (q - power2 52)

def ofNat (n : Nat) : Binary64 := ofRatio false n 1

def mul (x y : Binary64) : Binary64 :=
  let a := x.magnitude
  let b := y.magnitude
  ofRatio (x.negative != y.negative) (a.1 * b.1) (a.2 * b.2)

def div (x y : Binary64) : Binary64 :=
  let a := x.magnitude
  let b := y.magnitude
  ofRatio (x.negative != y.negative) (a.1 * b.2) (a.2 * b.1)

def neg (x : Binary64) : Binary64 := ⟨x.bits ^^^ 0x8000000000000000⟩

/-- The number with the value of one of 32 bits; a NaN keeps its leading fraction bits. -/
def ofBinary32 (bits : UInt32) : Binary64 :=
  let n := bits.toNat
  let negative := decide (power2 31 ≤ n)
  let field := n / power2 23 % power2 8
  let fraction := n % power2 23
  if field = 255 then
    if fraction = 0 then infinity negative
    else ofParts negative 2047 (fraction % power2 22 * power2 29 + power2 51)
  else if field = 0 then ofRatio negative fraction (power2 149)
  else ofParts negative (field + 896) (fraction * power2 29)

/-- A finite number as a signed ratio. -/
def signedRatio (x : Binary64) : Int × Nat :=
  let m := x.magnitude
  (if x.negative then -(m.1 : Int) else m.1, m.2)

end Binary64

end SchemaSql
