import SchemaSql.Json.Basic
import SchemaSql.Text.Blank
import SchemaSql.Timestamp

/-!
The values that a statement's parameters carry and that rows hold, with the readings other parts
need: as an integer, a flag or a text, from a JSON value, and as a literal for display. Literals
are only shown; a statement's own text never contains a value.
-/

set_option autoImplicit false
set_option relaxedAutoImplicit false

namespace SchemaSql

inductive Value
  | null
  | bool (b : Bool)
  | int (n : Int64)
  | float (x : Binary64)
  | text (s : String)
  | blob (bytes : List UInt8)
  | timestamp (t : Timestamp)
deriving DecidableEq, Inhabited

namespace Value

def isNull : Value → Bool
  | .null => true
  | _ => false

/-- The nearest integer that 64 bits hold. -/
def saturate (n : Int) : Int64 :=
  if n < leastInt64 then Int64.ofInt leastInt64
  else if greatestInt64 < n then Int64.ofInt greatestInt64
  else Int64.ofInt n

/-- The integer that a value stands for: a flag counts as one or zero, a float only when it has no
fraction, and a text when it spells an integer between blanks. -/
def toInt? : Value → Option Int64
  | .int n => some n
  | .bool b => some (if b then 1 else 0)
  | .float x => x.integer?.map saturate
  | .text s => Decimal.readInt64? (Text.trimChars s.toList)
  | _ => none

def toBool? : Value → Option Bool
  | .bool b => some b
  | .int n => some (n != 0)
  | .text s =>
    let word := (Text.trimChars s.toList).map Char.toLower
    if word ∈ ["1".toList, "true".toList, "yes".toList] then some true
    else if word ∈ ["0".toList, "false".toList, "no".toList] then some false
    else none
  | _ => none

def toText? : Value → Option String
  | .text s => some s
  | _ => none

/-- A whole number that 64 signed bits do not hold keeps its digits as a text; an array or object
becomes its text. -/
def ofJson : Json → Value
  | .null => .null
  | .bool b => .bool b
  | .number (.integer n) =>
    if isInt64 n then .int (Int64.ofInt n) else .text (toString n)
  | .number (.float x) => .float x
  | .text s => .text s
  | j => .text j.render

def hexDigit (n : Nat) : Char := Char.ofNat (if n < 10 then 48 + n else 55 + n)

def hexByte (b : UInt8) : List Char := [hexDigit (b.toNat / 16), hexDigit (b.toNat % 16)]

def doubleQuotes : List Char → List Char
  | [] => []
  | c :: cs => if c.toNat = 39 then c :: c :: doubleQuotes cs else c :: doubleQuotes cs

def literal : Value → String
  | .null => "NULL"
  | .bool b => if b then "TRUE" else "FALSE"
  | .int n => toString n.toInt
  | .float x => x.plainText
  | .text s => "'" ++ String.ofList (doubleQuotes s.toList) ++ "'"
  | .blob bytes => "X'" ++ String.ofList (bytes.flatMap hexByte) ++ "'"
  | .timestamp t => "'" ++ t.text ++ "'"

end Value

end SchemaSql
