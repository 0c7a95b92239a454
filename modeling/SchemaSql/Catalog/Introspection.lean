import SchemaSql.Catalog.Source

/-!
Reading schema information out of a database: what the rows of a discovery query mean, and the two
ways of asking. A driver is asked for one object at a time; a snapshot asks an open connection for
all tables and views at once.
-/

set_option autoImplicit false
set_option relaxedAutoImplicit false

namespace SchemaSql

namespace Row

/-- A value as text; null is none. -/
def textAt? (r : Row) (i : Nat) : Option String :=
  match r.at? i with
  | none | some .null => none
  | some (.text s) => some s
  | some v => some v.literal

def flagAt (r : Row) (i : Nat) : Bool := ((r.at? i).bind Value.toBool?).getD false

/-- A value as a number that 32 bits hold. -/
def numberAt? (r : Row) (i : Nat) : Option Int :=
  match (r.at? i).bind Value.toInt? with
  | some n => if -2147483648 ≤ n.toInt ∧ n.toInt ≤ 2147483647 then some n.toInt else none
  | none => none

/-- The schema and name that a row starts with. -/
def objectName? (r : Row) : Option ObjectName :=
  (r.textAt? 1).map fun name ↦ ObjectName.ofParts (r.textAt? 0) name

end Row

def ObjectKind.read? (word : String) : Option ObjectKind :=
  let word := String.ofList ((Text.trimChars word.toList).map Char.toUpper)
  if word = "TABLE" ∨ word = "BASE TABLE" then some .table
  else if word = "VIEW" then some .view
  else if word = "PROCEDURE" then some .procedure
  else if word = "FUNCTION" then some .tableFunction
  else none

namespace RowSet

def toObjects (rs : RowSet) : List SchemaObject :=
  rs.toRows.filterMap fun r ↦ do
    let kind ← (r.textAt? 2).bind ObjectKind.read?
    let name ← r.objectName?
    return { name, kind }

/-- The name that the first row gives a table or view, and whether it is a table. -/
def toTable? (rs : RowSet) : Option (ObjectName × Bool) := do
  let r ← rs.first?
  let name ← r.objectName?
  return (name, r.flagAt 2)

def toColumns (d : Dialect) (rs : RowSet) : List Column :=
  rs.toRows.filterMap fun r ↦
    (r.textAt? 0).map fun name ↦
      { Column.make d name ((r.textAt? 1).getD "") with
        nullable := r.flagAt 2
        isIdentity := r.flagAt 3
        isComputed := r.flagAt 4
        isKey := r.flagAt 5
        maxLength := r.numberAt? 6
        precision := r.numberAt? 7
        scale := r.numberAt? 8 }

/-- Adds a column to the index with a name, or the index if it is new. -/
def addIndexColumn (new : Index) (c : IndexColumn) : List Index → List Index
  | [] => [{ new with columns := [c] }]
  | i :: rest =>
    if i.name = new.name then { i with columns := i.columns ++ [c] } :: rest
    else i :: addIndexColumn new c rest

/-- The indexes of a table. Every row is a column of the index that it names; rows without an index
or column name are passed over. -/
def toIndexes (table : ObjectName) (rs : RowSet) : List Index :=
  rs.toRows.foldl (fun indexes r ↦
    match r.textAt? 0, r.textAt? 3 with
    | some name, some column =>
      addIndexColumn
        { table, name, isUnique := r.flagAt 1, isKey := r.flagAt 2, columns := [] }
        ⟨column, r.flagAt 4⟩ indexes
    | _, _ => indexes) []

def toRoutineParameters (d : Dialect) (rs : RowSet) : List RoutineParameter :=
  rs.toRows.filterMap fun r ↦
    (r.textAt? 0).map fun name ↦
      { RoutineParameter.make d name ((r.textAt? 1).getD "") with
        direction := ((r.textAt? 2).map Direction.parse).getD .input }

end RowSet

/-- The parameters that name an object in a discovery query. -/
def ObjectName.parameters (n : ObjectName) : List Parameter :=
  [Parameter.make "@Schema" ((n.schema.map Value.text).getD .null) .filter,
    Parameter.make "@Name" (.text n.name) .filter]

namespace Connection

/-- Asks a question about a database that the dialect has a query for. -/
def ask {σ : Type} (c : Connection σ) (d : Dialect) (q : Discovery) (unknown : Feature)
    (ps : List Parameter) : Action σ RowSet :=
  match d.discoveryQuery? q with
  | some text => c.rows (Call.ofDiscovery d q text ps)
  | none => throw (.unsupported d unknown)

/-- The tables and views of an open database with their columns and indexes. -/
def loadTables {σ : Type} (c : Connection σ) (d : Dialect) :
    List SchemaObject → Schema → Action σ Schema
  | [], s => pure s
  | o :: rest, s =>
    if o.kind = .table ∨ o.kind = .view then do
      let columns ← c.ask d .columns .introspection o.name.parameters
      let indexes ← c.ask d .indexes .introspection o.name.parameters
      let table := Table.make d o.name (o.kind = .table) (columns.toColumns d)
      loadTables c d rest
        { s with
          tables := s.tables ++ [table]
          indexes := s.indexes ++ indexes.toIndexes o.name }
    else loadTables c d rest s

def loadSchema {σ : Type} (c : Connection σ) (d : Dialect) : Action σ Schema := do
  let objects ← c.ask d .objects .introspection []
  c.loadTables d objects.toObjects {}

end Connection

namespace Driver

/-- Opens a connection for one question. -/
def ask {σ : Type} (driver : Driver σ) (d : Dialect) (q : Discovery) (unknown : Feature)
    (ps : List Parameter) : Action σ RowSet :=
  match d.discoveryQuery? q with
  | some _ => do
    driver.openConnection
    driver.connection.ask d q unknown ps
  | none => throw (.unsupported d unknown)

def loadTable {σ : Type} (driver : Driver σ) (d : Dialect) (name : ObjectName) :
    Action σ (Option Table) := do
  let found ← driver.ask d .table .introspection name.parameters
  match found.toTable? with
  | none => return none
  | some (name, isTable) =>
    let columns ← driver.ask d .columns .introspection name.parameters
    return some (Table.make d name isTable (columns.toColumns d))

def loadIndexes {σ : Type} (driver : Driver σ) (d : Dialect) (table : ObjectName) :
    Action σ (List Index) := do
  let rows ← driver.ask d .indexes .introspection table.parameters
  return rows.toIndexes table

/-- What a dialect lacks that has no query for a kind of routine. -/
def lackOf (d : Dialect) (kind : ObjectKind) : Feature :=
  if d.supportsDiscovery then .routine kind else .introspection

/-- The name that the database gives a routine of a kind. -/
def findRoutine {σ : Type} (driver : Driver σ) (d : Dialect) (kind : ObjectKind)
    (name : ObjectName) : Action σ (Option ObjectName) := do
  let rows ← driver.ask d .routine (lackOf d kind) name.parameters
  return (rows.toObjects.find? fun o ↦ o.kind = kind).map (·.name)

def loadParameters {σ : Type} (driver : Driver σ) (d : Dialect) (name : ObjectName) :
    Action σ (List RoutineParameter) := do
  let rows ← driver.ask d .parameters .introspection name.parameters
  return rows.toRoutineParameters d

def loadProcedure {σ : Type} (driver : Driver σ) (d : Dialect) (name : ObjectName) :
    Action σ (Option Procedure) := do
  match ← driver.findRoutine d .procedure name with
  | none => return none
  | some name => return some (Procedure.make d name (← driver.loadParameters d name))

/-- A function's output parameters are its columns. -/
def loadFunction {σ : Type} (driver : Driver σ) (d : Dialect) (name : ObjectName) :
    Action σ (Option TableFunction) := do
  if (d.discoveryQuery? .functionColumns).isNone then
    throw (.unsupported d (if d.supportsDiscovery then .tableFunctions else .introspection))
  match ← driver.findRoutine d .tableFunction name with
  | none => return none
  | some name =>
    let parameters ← driver.loadParameters d name
    let columns ← driver.ask d .functionColumns .tableFunctions name.parameters
    return some (TableFunction.make d name (parameters.filter fun p ↦ p.direction != .output)
      (columns.toColumns d))

def loadObjects {σ : Type} (driver : Driver σ) (d : Dialect) : Action σ (List SchemaObject) := do
  let rows ← driver.ask d .objects .introspection []
  return rows.toObjects

/-- The source that asks the database about each object when it is needed. -/
def source {σ : Type} (driver : Driver σ) (d : Dialect) : SchemaSource σ where
  objects := driver.loadObjects d
  table := driver.loadTable d
  indexes := driver.loadIndexes d
  procedure := driver.loadProcedure d
  function := driver.loadFunction d

end Driver

end SchemaSql
