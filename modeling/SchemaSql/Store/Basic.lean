import SchemaSql.DataSource
import SchemaSql.Store.Database

/-!
A store is a database in use: it remembers what the last write did and the content to which an open
transaction goes back. It is a connection to itself, over which commands run like over any other.
-/

set_option autoImplicit false
set_option relaxedAutoImplicit false

namespace SchemaSql

structure Store where
  database : Database := {}
  /-- How many rows the last write changed. -/
  changed : Nat := 0
  lastIdentity : Value := .null
  /-- The content when the open transaction began. -/
  kept : Option Database := none
deriving DecidableEq, Inhabited

namespace Store

/-- The parameters of a call by their names. Conditions that a caller wrote are not understood. -/
def scope (s : Store) (parameters : List Parameter) : Scope where
  value p := ((parameters.find? fun q ↦ Text.sameAscii q.name p.name).getD p).value
  written _ _ _ := .unknown
  lastIdentity := s.lastIdentity

def afterEffect (s : Store) (e : Database.Effect) : Store :=
  { s with
    database := e.database
    changed := (e.changes.map List.length).getD s.changed
    lastIdentity := e.identity.getD s.lastIdentity }

/-- A refused statement leaves the database as it is. A write that is stopped by the values of its
rows is from then on the last one, and has changed no row. -/
def afterRefusal (s : Store) (r : Refusal) : Store :=
  if r.byValues then { s with changed := 0 } else s

/-- Runs the statement of a call. -/
def run (call : Call) : Action Store RowSet := fun s ↦
  if call.kind = .storedProcedure then .error (.unsupported .sqlite .storedProcedures) s
  else
    match s.database.run (s.scope call.parameters) call.statement with
    | .ok e => .ok e.rows (s.afterEffect e)
    | .error r => .error r.error (s.afterRefusal r)

/-- A row set without rows has no columns either. -/
def connection : Connection Store where
  count call := do
    discard (run call)
    return (← get).changed
  scalar call := RowSet.firstValue <$> run call
  rows call := do
    let rs ← run call
    return if rs.isEmpty then .empty else rs

def transactions : Transactions Store where
  start := modify fun s ↦ { s with kept := some s.database }
  commit := modify fun s ↦ { s with kept := none }
  undo s := { s with database := s.kept.getD s.database, kept := none }

/-- What is known of a store when it has been opened: a snapshot of its tables and views. -/
def openCatalog (settings : Settings) (s : Store) : Except Error (Catalog Store × Store) :=
  match Catalog.refresh connection
      (Catalog.make .sqlite settings.defaultSchema (Schema.source {}), s) with
  | .ok _ state => .ok state
  | .error e _ => .error e

end Store

end SchemaSql
