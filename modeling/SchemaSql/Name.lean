import SchemaSql.Text.Blank
import SchemaSql.Text.Lowercase

/-!
Names of database objects: an optional schema and a name, both as plain text. A part may be written
in brackets, backquotes or double quotes, where a doubled closing character stands for one. Two
names are the same when their lowercase forms are.
-/

set_option autoImplicit false
set_option relaxedAutoImplicit false

namespace SchemaSql

structure ObjectName where
  schema : Option String
  name : String
deriving DecidableEq, Inhabited

namespace ObjectName

def backquote : Char := Char.ofNat 96

/-- The character that ends a quoted part, for a character that starts one. -/
def closer? (c : Char) : Option Char :=
  if c = '[' then some ']'
  else if c = backquote ∨ c = '"' then some c
  else none

/-- Reads every doubled `q` as one, from the left. -/
def undouble (q : Char) : List Char → List Char
  | [] => []
  | [c] => [c]
  | c :: d :: cs =>
    if c = q ∧ d = q then q :: undouble q cs else c :: undouble q (d :: cs)

/-- Removes one pair of quoting characters around a part. -/
def stripQuotes (part : List Char) : List Char :=
  match part with
  | c :: rest =>
    match closer? c, rest.getLast? with
    | some q, some last => if last = q then undouble q rest.dropLast else part
    | _, _ => part
  | [] => []

def cleaned (s : String) : String :=
  String.ofList (stripQuotes (Text.trimChars s.toList))

/-- The name with the given parts, each without blanks and quoting around it. A schema with nothing
left is no schema. -/
def ofParts (schema : Option String) (name : String) : ObjectName where
  schema := (schema.map cleaned).filter fun s ↦ !s.isEmpty
  name := cleaned name

/-- Puts a character in front of the first part. -/
def consPart (c : Char) : List (List Char) → List (List Char)
  | [] => [[c]]
  | p :: ps => (c :: p) :: ps

/-- The parts between the dots outside quotes, each without its quoting characters; `closing` is
the character that ends the quotes the text starts in. Nothing if a quote stays open. -/
def splitParts : Option Char → List Char → Option (List (List Char))
  | none, [] => some [[]]
  | some _, [] => none
  | none, c :: cs =>
    match closer? c with
    | some q => splitParts (some q) cs
    | none => if c = '.' then (splitParts none cs).map ([] :: ·) else (splitParts none cs).map (consPart c)
  | some q, [c] => if c = q then some [[]] else none
  | some q, c :: d :: cs =>
    if c = q then
      if d = q then (splitParts (some q) cs).map (consPart q) else splitParts none (d :: cs)
    else (splitParts (some q) (d :: cs)).map (consPart c)

/-- Reads a written name. Of more than two parts the last two count. -/
def parse? (input : String) : Option ObjectName := do
  let parts ← splitParts none (Text.trimChars input.toList)
  match (parts.map Text.trimChars).reverse with
  | [] => none
  | name :: rest =>
    if name.isEmpty then none
    else
      let schema := rest.head?.filter fun s ↦ !s.isEmpty
      some ⟨schema.map String.ofList, String.ofList name⟩

/-- The name in the given schema, unless it has one of its own. -/
def orSchema (n : ObjectName) (schema : Option String) : ObjectName :=
  match n.schema, schema with
  | none, some s => { n with schema := some s }
  | _, _ => n

/-- The lowercase form, which decides sameness. -/
def folded (n : ObjectName) : Option String × String :=
  (n.schema.map Text.lowercase, Text.lowercase n.name)

def same (a b : ObjectName) : Bool := a.folded == b.folded

def display (n : ObjectName) : String :=
  match n.schema with
  | some s => s ++ "." ++ n.name
  | none => n.name

theorem same_iff (a b : ObjectName) : a.same b = true ↔ a.folded = b.folded := by
  simp [same]

theorem same_self (a : ObjectName) : a.same a = true := by
  simp [same]

end ObjectName

end SchemaSql
