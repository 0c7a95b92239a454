import SchemaSql.CommandLine.Words
import SchemaSql.Number.Decimal

/-!
What a command line asks for: the database and settings to use, and one request. A command line that
asks for nothing the program knows has no meaning.
-/

set_option autoImplicit false
set_option relaxedAutoImplicit false

namespace SchemaSql

inductive Operation
  | select
  | insert
  | update
  | delete
  | upsert
deriving DecidableEq

def Operation.named : List (String × Operation) :=
  [("select", .select), ("insert", .insert), ("update", .update), ("delete", .delete),
    ("upsert", .upsert)]

inductive Request
  | tables
  | describe (table : String)
  | preview (operation : Operation) (table json : String) (returning : List String)
  | query (table : String) (filter : Option String) (sorting : List String)
    (take skip : Option Int64)
deriving DecidableEq

structure Invocation where
  database : String
  settingsFile : Option String
  strict : Bool
  request : Request
deriving DecidableEq

namespace Request

def previewForms : List OptionForm :=
  [⟨"json", some 'j', .once⟩, ⟨"returning", some 'r', .repeated⟩]

def queryForms : List OptionForm :=
  [⟨"filter", some 'f', .once⟩, ⟨"sort", some 's', .repeated⟩, ⟨"take", some 't', .once⟩,
    ⟨"skip", none, .once⟩]

/-- A number of rows, if one is given. -/
def number? (w : Words) (name : String) : Option (Option Int64) :=
  match w.value? name with
  | none => some none
  | some text => (Decimal.readInt64? text.toList).map some

def read? : List String → Option Request
  | "tables" :: rest =>
    match Words.read? [] false rest with
    | some ⟨_, []⟩ => some .tables
    | _ => none
  | "describe" :: rest =>
    match Words.read? [] false rest with
    | some ⟨_, [table]⟩ => some (.describe table)
    | _ => none
  | "preview" :: rest => do
    let w ← Words.read? previewForms false rest
    match w.operands with
    | [operation, table] =>
      some (.preview (← Operation.named.lookup operation) table ((w.value? "json").getD "\x7b\x7d")
        (w.values "returning"))
    | _ => none
  | "query" :: rest => do
    let w ← Words.read? queryForms false rest
    match w.operands with
    | [table] =>
      some (.query table (w.value? "filter") (w.values "sort") (← number? w "take")
        (← number? w "skip"))
    | _ => none
  | _ => none

end Request

namespace Invocation

def forms : List OptionForm :=
  [⟨"database", some 'd', .once⟩, ⟨"settings", none, .once⟩, ⟨"strict", none, .flag⟩,
    ⟨"verbose", some 'v', .flag⟩]

/-- Reads a command line. Without the option, the database is that of the environment. -/
def read? (environment : Option String) (args : List String) : Option Invocation := do
  let w ← Words.read? forms true args
  let request ← Request.read? w.operands
  return {
    database := ((w.value? "database") <|> environment).getD "sqlite:db.sqlite3"
    settingsFile := w.value? "settings"
    strict := w.has "strict"
    request }

end Invocation

end SchemaSql
