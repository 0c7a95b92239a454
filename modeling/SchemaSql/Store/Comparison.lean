import SchemaSql.Store.Truth
import SchemaSql.Value

/-!
How stored values compare. Numbers compare by what they denote, texts by their characters and binary
data by its bytes; nulls come before numbers, numbers before texts and texts before binary data.
-/

set_option autoImplicit false
set_option relaxedAutoImplicit false

namespace SchemaSql

namespace Value

/-- The form in which a value is stored: a flag as a number, a time as a text, and a float that is
no number as null. -/
def stored : Value → Value
  | .bool b => .int (if b then 1 else 0)
  | .timestamp t => .text t.text
  | .float x => if x.isNaN then .null else .float x
  | v => v

/-- A number as a ratio. An infinite float exceeds every finite one in this form too. -/
def ratio? : Value → Option (Int × Nat)
  | .int n => some (n.toInt, 1)
  | .float x => some x.signedRatio
  | _ => none

/-- Whether two stored values are the same. -/
def same (v w : Value) : Bool :=
  match v.ratio?, w.ratio? with
  | some a, some b => a.1 * b.2 == b.1 * a.2
  | _, _ => v == w

/-- Whether two values are equal once they are stored. -/
def equal (v w : Value) : Truth :=
  if v.stored.isNull || w.stored.isNull then .unknown else .ofBool (v.stored.same w.stored)

/-- The place of a value's kind in the order of all values. -/
def rank : Value → Nat
  | .null => 0
  | .bool _ | .int _ | .float _ => 1
  | .text _ | .timestamp _ => 2
  | .blob _ => 3

def bytesPrecede : List UInt8 → List UInt8 → Bool
  | [], [] => false
  | [], _ :: _ => true
  | _ :: _, [] => false
  | a :: as, b :: bs => a.toNat < b.toNat || (a == b && bytesPrecede as bs)

/-- Whether a stored value comes before another. -/
def precedes (v w : Value) : Bool :=
  match v.ratio?, w.ratio?, v, w with
  | some a, some b, _, _ => a.1 * b.2 < b.1 * a.2
  | _, _, .text s, .text t => Text.precedes s.toList t.toList
  | _, _, .blob a, .blob b => bytesPrecede a b
  | _, _, _, _ => v.rank < w.rank

end Value

end SchemaSql
