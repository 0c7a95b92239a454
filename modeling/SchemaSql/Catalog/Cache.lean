import SchemaSql.Catalog.Source
import SchemaSql.Record

/-!
A catalog answers questions about the objects of a database and remembers the answers. What a source
reports is kept under the name that was asked for and under the name it was reported with; the first
report that is kept under a name stays until the catalog is reset.
-/

set_option autoImplicit false
set_option relaxedAutoImplicit false

namespace SchemaSql

/-- Reports by name. -/
abbrev Shelf (α : Type) := List (ObjectName × α)

namespace Shelf

def get? {α : Type} (s : Shelf α) (key : ObjectName) : Option α :=
  (s.find? fun e ↦ e.1.same key).map (·.2)

/-- Keeps a report under a name, unless there is one already. -/
def keep {α : Type} (s : Shelf α) (key : ObjectName) (a : α) : Shelf α :=
  if (s.get? key).isSome then s else s ++ [(key, a)]

/-- Keeps a report under several names. If there is one under any of them, that one is kept
instead. The second part is the report that was kept. -/
def store {α : Type} (s : Shelf α) (keys : List ObjectName) (a : α) : Shelf α × α :=
  let kept := (keys.findSome? s.get?).getD a
  (keys.foldl (fun s key ↦ s.keep key kept) s, kept)

end Shelf

structure Cache where
  tables : Shelf Table := []
  indexes : Shelf (List Index) := []
  procedures : Shelf Procedure := []
  functions : Shelf TableFunction := []
  /-- The tables of record types, by the name of the type. -/
  recordTables : List (String × Table) := []
deriving DecidableEq, Inhabited

structure Catalog (σ : Type) where
  dialect : Dialect
  defaultSchema : Option String
  source : SchemaSource σ
  cache : Cache := {}

/-- Operations on a catalog and the database behind its source. -/
abbrev Lookup (σ : Type) := EStateM Error (Catalog σ × σ)

namespace Catalog

variable {σ : Type}

/-- A schema of the settings takes the place of the dialect's own default. -/
def make (d : Dialect) (defaultSchema : Option String) (source : SchemaSource σ) : Catalog σ where
  dialect := d
  defaultSchema := defaultSchema <|> d.defaultSchema?
  source

/-- Asks the source. -/
def ask {α : Type} (question : SchemaSource σ → Action σ α) : Lookup σ α := fun (c, s) ↦
  match question c.source s with
  | .ok a s => .ok a (c, s)
  | .error e s => .error e (c, s)

def cache? {α : Type} (look : Cache → Option α) : Lookup σ (Option α) := do
  return look (← get).1.cache

/-- Changes the cache. -/
def remember {α : Type} (f : Cache → Cache × α) : Lookup σ α :=
  modifyGet fun (c, s) ↦ let (cache, a) := f c.cache; (a, ({ c with cache }, s))

/-- The name that a text stands for, in the default schema if it names none. -/
def resolve (name : String) : Lookup σ ObjectName := do
  match ObjectName.parse name with
  | .ok n => return n.orSchema (← get).1.defaultSchema
  | .error e => throw e

/-- The report under a name, from the cache or else from the source. -/
def find {α : Type} (shelf : Cache → Shelf α) (withShelf : Cache → Shelf α → Cache)
    (nameOf : α → ObjectName) (question : SchemaSource σ → ObjectName → Action σ (Option α))
    (key : ObjectName) : Lookup σ (Option α) := do
  match ← cache? fun c ↦ (shelf c).get? key with
  | some a => return some a
  | none =>
    match ← ask fun s ↦ question s key with
    | none => return none
    | some a =>
      remember fun c ↦
        let (kept, a) := (shelf c).store [key, nameOf a] a
        (withShelf c kept, some a)

def findTable : ObjectName → Lookup σ (Option Table) :=
  find (·.tables) (fun c tables ↦ { c with tables }) (·.name) (·.table)

def findProcedure : ObjectName → Lookup σ (Option Procedure) :=
  find (·.procedures) (fun c procedures ↦ { c with procedures }) (·.name) (·.procedure)

def findFunction : ObjectName → Lookup σ (Option TableFunction) :=
  find (·.functions) (fun c functions ↦ { c with functions }) (·.name) (·.function)

def required {α : Type} (kind : ObjectKind) (name : String) (found : Option α) : Lookup σ α :=
  match found with
  | some a => return a
  | none => throw (.missingObject kind name)

def table (name : String) : Lookup σ Table := do
  let key ← resolve name
  required .tableOrView name (← findTable key)

/-- The table that records of a type are kept in. -/
def recordTable (typeName tableName : String) : Lookup σ Table := do
  match ← cache? fun c ↦ c.recordTables.lookup typeName with
  | some t => return t
  | none =>
    let t ← table tableName
    remember fun c ↦ ({ c with recordTables := c.recordTables ++ [(typeName, t)] }, t)

def indexes (name : String) : Lookup σ (List Index) := do
  let key := (← table name).name
  match ← cache? fun c ↦ c.indexes.get? key with
  | some found => return found
  | none =>
    let found ← ask fun s ↦ s.indexes key
    remember fun c ↦
      let (indexes, found) := c.indexes.store [key] found
      ({ c with indexes }, found)

def procedure (name : String) : Lookup σ Procedure := do
  let d := (← get).1.dialect
  if d.supportsProcedures then
    let key ← resolve name
    required .procedure name (← findProcedure key)
  else
    throw (.unsupported d .storedProcedures)

def function (name : String) : Lookup σ TableFunction := do
  let d := (← get).1.dialect
  if d.supportsTableFunctions then
    let key ← resolve name
    required .tableFunction name (← findFunction key)
  else
    throw (.unsupported d .tableFunctions)

def objects : Lookup σ (List SchemaObject) := ask (·.objects)

/-- Looks up every object of a list that the dialect can use. -/
def preloadAll : List SchemaObject → Lookup σ Unit
  | [] => return ()
  | o :: rest => do
    let d := (← get).1.dialect
    match o.kind with
    | .table | .view | .tableOrView => discard (findTable o.name)
    | .procedure => if d.supportsProcedures then discard (findProcedure o.name)
    | .tableFunction => if d.supportsTableFunctions then discard (findFunction o.name)
    preloadAll rest

def preload : Lookup σ Unit := do
  preloadAll (← objects)

def reset : Lookup σ Unit := remember fun _ ↦ ({}, ())

/-- Forgets everything and asks another source from now on. -/
def resetWith (source : SchemaSource σ) : Lookup σ Unit :=
  modify fun (c, s) ↦ ({ c with source, cache := {} }, s)

/-- Puts a name behind those that do not follow it. -/
def insertSorted (n : ObjectName) : List ObjectName → List ObjectName
  | [] => [n]
  | m :: rest =>
    if Text.precedes (Text.asciiLower n.display).toList (Text.asciiLower m.display).toList then
      n :: m :: rest
    else m :: insertSorted n rest

/-- Drops every name that is the same as the one kept before it. -/
def dropRepeats : List ObjectName → List ObjectName
  | [] => []
  | n :: rest => n :: go n rest
where
  go (kept : ObjectName) : List ObjectName → List ObjectName
    | [] => []
    | n :: rest => if n.same kept then go kept rest else n :: go n rest

end Catalog

/-- The names of the tables in the cache, sorted by their display text in lower case. -/
def Cache.tableNames (c : Cache) : List ObjectName :=
  Catalog.dropRepeats
    ((c.tables.map fun e ↦ e.2.name).foldl (fun names n ↦ Catalog.insertSorted n names) [])

end SchemaSql
