import SchemaSql.Dialect.Types
import SchemaSql.Value

/-!
Parameters of statements and routines. A parameter's name always starts with one of the marker
characters of the dialects; its origin says which part of a request supplied it.
-/

set_option autoImplicit false
set_option relaxedAutoImplicit false

namespace SchemaSql

inductive Direction
  | input
  | output
  | both
deriving DecidableEq, Inhabited

/-- Reads the mode that a database reports; anything unknown is an input. -/
def Direction.parse (mode : String) : Direction :=
  let word := (Text.trimChars mode.toList).map Char.toUpper
  if word = "OUT".toList then .output
  else if word = "INOUT".toList ∨ word = "IN OUT".toList then .both
  else .input

inductive Origin
  | argument
  | filter
  | key
  | paging
  | audit
  | raw
deriving DecidableEq, Inhabited

def Origin.describe : Origin → String
  | .argument => "argument value"
  | .filter => "filter value"
  | .key => "key list"
  | .paging => "paging clause"
  | .audit => "audit rule"
  | .raw => "command text"

def isMarker (c : Char) : Bool := c == '@' || c == ':' || c == '$'

/-- The name without the markers in front of it. -/
def bareName (name : String) : String := String.ofList (name.toList.dropWhile isMarker)

structure Parameter where
  name : String
  value : Value
  origin : Origin
  dbType : Option DbType := none
  direction : Direction := .input
deriving DecidableEq, Inhabited

namespace Parameter

/-- A parameter whose name is given a marker if it has none. -/
def make (name : String) (value : Value) (origin : Origin) : Parameter :=
  let marked := match name.toList with
    | c :: _ => isMarker c
    | [] => false
  { name := if marked then name else "@" ++ name, value, origin }

def bare (p : Parameter) : String := bareName p.name

end Parameter

end SchemaSql
