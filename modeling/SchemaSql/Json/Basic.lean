import SchemaSql.Json.Number
import SchemaSql.Text.AsciiCase

/-!
JSON values: what a document means once its numbers and texts are read, and the compact text of a
value. The members of an object are kept in the order of their names, the last member of a name
standing for all of them.
-/

set_option autoImplicit false
set_option relaxedAutoImplicit false

namespace SchemaSql

inductive Json
  | null
  | bool (value : Bool)
  | number (value : Json.Number)
  | text (value : String)
  | array (items : List Json)
  | object (members : List (String × Json))

namespace Json

/-- Joins the two halves of a surrogate pair; half a pair alone has no meaning. -/
def readUnits : List TextUnit → Option (List Char)
  | [] => some []
  | .char c :: rest => (readUnits rest).map (c :: ·)
  | .code n :: rest =>
    if n < 0xD800 ∨ 0xDFFF < n then (readUnits rest).map (Char.ofNat n :: ·)
    else if 0xDBFF < n then none
    else
      match rest with
      | .code m :: rest =>
        if m < 0xDC00 ∨ 0xDFFF < m then none
        else
          (readUnits rest).map (Char.ofNat ((n - 0xD800) * 1024 + (m - 0xDC00) + 0x10000) :: ·)
      | _ => none

def textOf? (units : List TextUnit) : Option String := (readUnits units).map String.ofList

/-- Puts a member in its place, replacing the value of a member with the same name. -/
def insertMember (name : String) (value : Json) : List (String × Json) → List (String × Json)
  | [] => [(name, value)]
  | (n, v) :: rest =>
    if n == name then (n, value) :: rest
    else if Text.precedes name.toList n.toList then (name, value) :: (n, v) :: rest
    else (n, v) :: insertMember name value rest

mutual

/-- The value of a document whose arrays and objects nest less deep than `depth`. -/
def ofDocument? (depth : Nat) : Document → Option Json
  | .null => some .null
  | .bool b => some (.bool b)
  | .number l => l.number?.map .number
  | .text units => (textOf? units).map .text
  | .array items => if depth ≤ 1 then none else (itemsOf? (depth - 1) items).map .array
  | .object members => if depth ≤ 1 then none else (membersOf? (depth - 1) members []).map .object

def itemsOf? (depth : Nat) : List Document → Option (List Json)
  | [] => some []
  | d :: ds => do
    let item ← ofDocument? depth d
    let items ← itemsOf? depth ds
    some (item :: items)

def membersOf? (depth : Nat) :
    List (List TextUnit × Document) → List (String × Json) → Option (List (String × Json))
  | [], read => some read
  | (key, d) :: rest, read => do
    let name ← textOf? key
    let value ← ofDocument? depth d
    membersOf? depth rest (insertMember name value read)

end

def depthLimit : Nat := 128

def read? (s : String) : Option Json :=
  (Document.read? s).bind (ofDocument? depthLimit)

def hexText (digits n : Nat) : String :=
  let ds := Nat.toDigits 16 n
  String.ofList (List.replicate (digits - ds.length) '0' ++ ds)

def escapeChar (c : Char) : String :=
  if c = '"' then "\\\""
  else if c = '\\' then "\\\\"
  else if c = '\n' then "\\n"
  else if c = '\r' then "\\r"
  else if c = '\t' then "\\t"
  else if c.toNat = 8 then "\\b"
  else if c.toNat = 12 then "\\f"
  else if c.toNat < 32 then "\\u" ++ hexText 4 c.toNat
  else c.toString

def quoteText (s : String) : String :=
  "\"" ++ s.toList.foldl (fun out c ↦ out ++ escapeChar c) "" ++ "\""

def Number.render : Number → String
  | .integer n => toString n
  | .float x => x.documentText

mutual

/-- The text of a value without any blanks. -/
def render : Json → String
  | .null => "null"
  | .bool b => if b then "true" else "false"
  | .number n => n.render
  | .text s => quoteText s
  | .array items => "[" ++ String.intercalate "," (renderItems items) ++ "]"
  | .object members => "\x7b" ++ String.intercalate "," (renderMembers members) ++ "\x7d"

def renderItems : List Json → List String
  | [] => []
  | j :: js => render j :: renderItems js

def renderMembers : List (String × Json) → List String
  | [] => []
  | (name, j) :: rest => (quoteText name ++ ":" ++ render j) :: renderMembers rest

end

def field? (name : String) : Json → Option Json
  | .object members => members.lookup name
  | _ => none

def ofInt (n : Int) : Json := .number (.integer n)

def ofNat (n : Nat) : Json := .number (.integer n)

end Json

end SchemaSql
