import SchemaSql.Dialect.Basic
import SchemaSql.Json.Basic

/-!
Settings of a data source and their reading from a document: an object whose members may come in
any order, each at most once, or an array that lists them. A member nobody knows is skipped.
-/

set_option autoImplicit false
set_option relaxedAutoImplicit false

namespace SchemaSql

structure Settings where
  strict : Bool := false
  defaultSchema : Option String := none
  timeoutSeconds : Option Nat := none
  sequentialAccess : Bool := false
deriving DecidableEq, Inhabited

namespace Settings

def readFlag? : Json.Document → Option Bool
  | .bool b => some b
  | _ => none

def readText? : Json.Document → Option (Option String)
  | .null => some none
  | .text units => (Json.textOf? units).map some
  | _ => none

/-- A timeout is a whole number of seconds, written as one, that 64 bits hold. -/
def readSeconds? : Json.Document → Option (Option Nat)
  | .null => some none
  | .number l =>
    match l.number? with
    | some (.integer (.ofNat n)) => some (some n)
    | _ => none
  | _ => none

inductive Member
  | strict
  | defaultSchema
  | timeoutSeconds
  | sequentialAccess
deriving DecidableEq

def Member.all : List Member := [.strict, .defaultSchema, .timeoutSeconds, .sequentialAccess]

def Member.name : Member → String
  | .strict => "strict_mode"
  | .defaultSchema => "default_schema"
  | .timeoutSeconds => "command_timeout_secs"
  | .sequentialAccess => "sequential_access"

def Member.read? (m : Member) (value : Json.Document) (s : Settings) : Option Settings :=
  match m with
  | .strict => (readFlag? value).map fun b ↦ { s with strict := b }
  | .defaultSchema => (readText? value).map fun t ↦ { s with defaultSchema := t }
  | .timeoutSeconds => (readSeconds? value).map fun n ↦ { s with timeoutSeconds := n }
  | .sequentialAccess => (readFlag? value).map fun b ↦ { s with sequentialAccess := b }

/-- Reads the members of an object; `seen` are those read before. -/
def readMembers : List Member → List (List Json.TextUnit × Json.Document) → Settings →
    Option Settings
  | _, [], s => some s
  | seen, (key, value) :: rest, s => do
    let name ← Json.textOf? key
    match Member.all.find? fun m ↦ m.name == name with
    | none => readMembers seen rest s
    | some m =>
      if m ∈ seen then none
      else
        let s ← m.read? value s
        readMembers (m :: seen) rest s

/-- Reads the items of an array as the members in their order. -/
def readItems : List Member → List Json.Document → Settings → Option Settings
  | _, [], s => some s
  | [], _ :: _, _ => none
  | m :: ms, value :: rest, s => (m.read? value s).bind (readItems ms rest)

def read? (text : String) : Option Settings :=
  match Json.Document.read? text with
  | some (.object members) => readMembers [] members {}
  | some (.array items) => readItems Member.all items {}
  | _ => none

def withStrict (s : Settings) (strict : Bool) : Settings := { s with strict }

def withDefaultSchema (s : Settings) (schema : String) : Settings :=
  { s with defaultSchema := some schema }

def withTimeout (s : Settings) (seconds : Nat) : Settings :=
  { s with timeoutSeconds := some seconds }

end Settings

/-- Reads a dialect from a document: its keyword, alone or as the name of the only member of an
object that holds nothing. -/
def Dialect.read? (text : String) : Option Dialect :=
  match Json.Document.read? text with
  | some (.text units) => (Json.textOf? units).bind Dialect.ofKeyword?
  | some (.object [(key, .null)]) => (Json.textOf? key).bind Dialect.ofKeyword?
  | _ => none

end SchemaSql
