/-!
The grammar of JSON documents. A `Document` keeps number literals and text escapes as they are
written, so that a part nobody reads may hold a number out of range or half of a surrogate pair.
`Document.read?` accepts a text that is exactly one document with blanks around it.
-/

set_option autoImplicit false
set_option relaxedAutoImplicit false

namespace SchemaSql.Json

/-- A character of a text literal, or the code unit of a numeric escape. -/
inductive TextUnit
  | char (c : Char)
  | code (n : Nat)
deriving DecidableEq

/-- A number as written: sign, digits before and after the point, and a signed exponent. -/
structure NumberLiteral where
  negative : Bool
  whole : List Char
  places : List Char
  power : Option (Bool × List Char)
deriving DecidableEq

inductive Document
  | null
  | bool (value : Bool)
  | number (literal : NumberLiteral)
  | text (units : List TextUnit)
  | array (items : List Document)
  | object (members : List (List TextUnit × Document))

def isGap (c : Char) : Bool := c == ' ' || c == '\n' || c == '\t' || c == '\r'

def skipGap (cs : List Char) : List Char := cs.dropWhile isGap

def hexDigit? (c : Char) : Option Nat :=
  if '0' ≤ c ∧ c ≤ '9' then some (c.toNat - 48)
  else if 'a' ≤ c ∧ c ≤ 'f' then some (c.toNat - 87)
  else if 'A' ≤ c ∧ c ≤ 'F' then some (c.toNat - 55)
  else none

/-- The character that a one-letter escape stands for. -/
def escaped? (c : Char) : Option Char :=
  match c with
  | '"' => some '"'
  | '\\' => some '\\'
  | '/' => some '/'
  | 'b' => some (Char.ofNat 8)
  | 'f' => some (Char.ofNat 12)
  | 'n' => some '\n'
  | 'r' => some '\r'
  | 't' => some '\t'
  | _ => none

/-- Reads a text literal after its opening quote. -/
def readText : List Char → Option (List TextUnit × List Char)
  | [] => none
  | '"' :: rest => some ([], rest)
  | '\\' :: 'u' :: a :: b :: c :: d :: rest => do
    let a ← hexDigit? a
    let b ← hexDigit? b
    let c ← hexDigit? c
    let d ← hexDigit? d
    let (units, rest) ← readText rest
    some (.code (((a * 16 + b) * 16 + c) * 16 + d) :: units, rest)
  | '\\' :: c :: rest => do
    let c ← escaped? c
    let (units, rest) ← readText rest
    some (.char c :: units, rest)
  | c :: rest =>
    if c.toNat < 32 ∨ c = '\\' then none
    else do
      let (units, rest) ← readText rest
      some (.char c :: units, rest)

def readDigits (cs : List Char) : List Char × List Char :=
  (cs.takeWhile Char.isDigit, cs.dropWhile Char.isDigit)

/-- Reads the point and the digits after it, if there is a point. -/
def readPlaces : List Char → Option (List Char × List Char)
  | '.' :: rest =>
    let (ds, rest) := readDigits rest
    if ds.isEmpty then none else some (ds, rest)
  | rest => some ([], rest)

/-- Reads the exponent, if there is one. -/
def readPower (cs : List Char) : Option (Option (Bool × List Char) × List Char) :=
  let after (positive : Bool) (cs : List Char) : Option (Option (Bool × List Char) × List Char) :=
    let (ds, rest) := readDigits cs
    if ds.isEmpty then none else some (some (positive, ds), rest)
  match cs with
  | c :: rest =>
    if c = 'e' ∨ c = 'E' then
      match rest with
      | '+' :: rest => after true rest
      | '-' :: rest => after false rest
      | rest => after true rest
    else some (none, cs)
  | [] => some (none, [])

def readNumber (negative : Bool) (cs : List Char) : Option (Document × List Char) := do
  let (whole, rest) := readDigits cs
  match whole with
  | [] => none
  | '0' :: _ :: _ => none
  | _ =>
    let (places, rest) ← readPlaces rest
    let (power, rest) ← readPower rest
    some (.number ⟨negative, whole, places, power⟩, rest)

/-- Reads a keyword whose first letter has been seen. -/
def readKeyword (word : List Char) (value : Document) (cs : List Char) :
    Option (Document × List Char) :=
  if word.isPrefixOf cs then some (value, cs.drop word.length) else none

mutual

/-- Reads one value; every value within takes one unit of fuel less. -/
def readValue : Nat → List Char → Option (Document × List Char)
  | 0, _ => none
  | fuel + 1, cs =>
    match skipGap cs with
    | '"' :: rest => (readText rest).map fun r ↦ (.text r.1, r.2)
    | '[' :: rest =>
      match skipGap rest with
      | ']' :: rest => some (.array [], rest)
      | rest => (readItems fuel rest).map fun r ↦ (.array r.1, r.2)
    | '\x7b' :: rest =>
      match skipGap rest with
      | '\x7d' :: rest => some (.object [], rest)
      | rest => (readMembers fuel rest).map fun r ↦ (.object r.1, r.2)
    | '-' :: rest => readNumber true rest
    | 'n' :: rest => readKeyword ['u', 'l', 'l'] .null rest
    | 't' :: rest => readKeyword ['r', 'u', 'e'] (.bool true) rest
    | 'f' :: rest => readKeyword ['a', 'l', 's', 'e'] (.bool false) rest
    | rest => readNumber false rest

/-- Reads the items of an array up to its closing bracket. -/
def readItems : Nat → List Char → Option (List Document × List Char)
  | 0, _ => none
  | fuel + 1, cs => do
    let (item, rest) ← readValue fuel cs
    match skipGap rest with
    | ',' :: rest =>
      let (items, rest) ← readItems fuel rest
      some (item :: items, rest)
    | ']' :: rest => some ([item], rest)
    | _ => none

/-- Reads the members of an object up to its closing brace. -/
def readMembers : Nat → List Char → Option (List (List TextUnit × Document) × List Char)
  | 0, _ => none
  | fuel + 1, cs =>
    match skipGap cs with
    | '"' :: rest => do
      let (key, rest) ← readText rest
      match skipGap rest with
      | ':' :: rest =>
        let (value, rest) ← readValue fuel rest
        match skipGap rest with
        | ',' :: rest =>
          let (members, rest) ← readMembers fuel rest
          some ((key, value) :: members, rest)
        | '\x7d' :: rest => some ([(key, value)], rest)
        | _ => none
      | _ => none
    | _ => none

end

/-- Each value, item and member starts at a character of its own, so two units of fuel a character
are enough. -/
def Document.read? (s : String) : Option Document :=
  let cs := s.toList
  match readValue (2 * cs.length + 2) cs with
  | some (document, rest) => if (skipGap rest).isEmpty then some document else none
  | none => none

end SchemaSql.Json
