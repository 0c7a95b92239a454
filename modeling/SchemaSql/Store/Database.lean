import SchemaSql.Catalog.Discovery
import SchemaSql.Store.Read

/-!
Databases of stored tables and views: how objects are created and dropped, what discovery queries
say about them, and what statements do. A view shows columns of a table and cannot be written. Every
unique column, and then the key unless it is an identity, has an automatic index, which is older
than any index created afterwards.
-/

set_option autoImplicit false
set_option relaxedAutoImplicit false

namespace SchemaSql

structure StoredView where
  name : ObjectName
  table : ObjectName
  columns : List String
deriving DecidableEq

structure Database where
  tables : List StoredTable := []
  views : List StoredView := []
deriving DecidableEq, Inhabited

/-- A column as the definition of a table gives it. -/
structure ColumnDefinition where
  name : String
  typeName : String := ""
  isKey : Bool := false
  notNull : Bool := false
  isUnique : Bool := false
  computed : Option Int64 := none

/-- Standard types are kept in upper case, all others as they are declared. -/
def keptType (declared : String) : String :=
  (["ANY", "BLOB", "INT", "INTEGER", "REAL", "TEXT"].find? (Text.sameAscii declared)).getD declared

/-- Whether a name asked for is that of an object; the schema of an object without one is `main`. -/
def ObjectName.designates (asked name : ObjectName) : Bool :=
  Text.sameAscii asked.name name.name &&
    (asked.schema == name.schema || (name.schema.isNone && asked.schema == some "main"))

namespace StoredTable

/-- The automatic indexes on lists of columns, of which the last is the key's if there is one. -/
def automaticIndexes (table : ObjectName) (unique : List String) (key : Option (List String)) :
    List Index :=
  let index (n : Nat) (isKey : Bool) (columns : List String) : Index :=
    { table, name := "sqlite_autoindex_" ++ table.name ++ "_" ++ toString n, isUnique := true, isKey,
      columns := columns.map fun c ↦ ⟨c, false⟩ }
  let ofColumns := unique.mapIdx fun i c ↦ index (i + 1) (key == some [c]) [c]
  match key with
  | none => ofColumns
  | some key =>
    if unique.any fun c ↦ key == [c] then ofColumns
    else ofColumns ++ [index (unique.length + 1) true key]

def define (name : ObjectName) (columns : List ColumnDefinition) : StoredTable :=
  let key := (columns.filter (·.isKey)).map (·.name)
  let t : StoredTable :=
    { name, key, columns := columns.map fun c ↦ ⟨c.name, keptType c.typeName, c.notNull, c.computed⟩ }
  let unique := (columns.filter (·.isUnique)).map (·.name)
  let indexed := if key.isEmpty || t.identity?.isSome then none else some key
  { t with indexes := (automaticIndexes name unique indexed).reverse }

def addIndex (t : StoredTable) (name : String) (isUnique : Bool) (columns : List IndexColumn) :
    StoredTable :=
  { t with indexes := { table := t.name, name, isUnique, isKey := false, columns } :: t.indexes }

end StoredTable

namespace Database

def table? (db : Database) (name : ObjectName) : Option StoredTable :=
  db.tables.find? fun t ↦ name.designates t.name

def view? (db : Database) (name : ObjectName) : Option StoredView :=
  db.views.find? fun v ↦ name.designates v.name

def requireTable (db : Database) (name : ObjectName) : Refusable StoredTable :=
  match db.table? name, db.view? name with
  | some t, _ => .ok t
  | none, some v => .error (.view v.name)
  | none, none => .error (.noTable name)

/-- Keeps a table in the place of the one with its name. -/
def withTable (db : Database) (t : StoredTable) : Database :=
  { db with tables := db.tables.map fun u ↦ if u.name = t.name then t else u }

def create (db : Database) (t : StoredTable) : Database := { db with tables := db.tables ++ [t] }

def createView (db : Database) (v : StoredView) : Database := { db with views := db.views ++ [v] }

/-- Drops a table with its indexes. -/
def drop (db : Database) (name : ObjectName) : Database :=
  { db with tables := db.tables.filter fun t ↦ !name.designates t.name }

/-- The columns of a table or view, with whether each is in the key. -/
def columns? (db : Database) (name : ObjectName) :
    Refusable (Option (List (StoredColumn × Bool × Bool))) :=
  match db.table? name, db.view? name with
  | some t, _ =>
    .ok (some (t.columns.map fun c ↦ (c, t.key.contains c.name, t.identity? = some c.name)))
  | none, some v =>
    match db.table? v.table with
    | none => .error (.noTable v.table)
    | some t => do
      let columns ← v.columns.mapM fun n ↦
        match t.column? n with
        | some c => .ok ({ c with notNull := false, computed := none }, false, false)
        | none => .error (.noColumn n)
      return some columns
  | none, none => .ok none

/-- The rows of a table or view as a query visits them. -/
def visit (db : Database) (name : ObjectName) (criteria : List Predicate)
    (order : List IndexColumn) : Refusable RowSet :=
  match db.table? name, db.view? name with
  | some t, _ => .ok ⟨t.columnNames, t.visit criteria order⟩
  | none, some v => do
    match db.table? v.table with
    | none => .error (.noTable v.table)
    | some t =>
      let columns ← v.columns.mapM fun n ↦
        match t.column? n with
        | some c => .ok c.name
        | none => .error (.noColumn n)
      return ⟨columns, (t.visit criteria order).map fun v ↦ columns.map (t.row v).cell⟩
  | none, none => .error (.noTable name)

/-- Names that start like those of the database's own objects are not listed. -/
def isListed (name : ObjectName) : Bool :=
  !(7 ≤ name.name.length &&
    Text.sameAscii (String.ofList (name.name.toList.take 6)) "sqlite")

def insertListed (e : String × ObjectKind) : List (String × ObjectKind) → List (String × ObjectKind)
  | [] => [e]
  | f :: rest =>
    if Text.precedes e.1.toList f.1.toList then e :: f :: rest else f :: insertListed e rest

/-- The tables and views, by name. -/
def listed (db : Database) : List (String × ObjectKind) :=
  let objects := (db.tables.map fun t ↦ (t.name, ObjectKind.table)) ++
    db.views.map fun v ↦ (v.name, ObjectKind.view)
  (objects.filter fun o ↦ isListed o.1).foldl
    (fun found o ↦ insertListed (o.1.name, o.2) found) []

def flag (b : Bool) : Value := .int (if b then 1 else 0)

/-- The answer to a discovery query about the object with a name. -/
def discover (db : Database) (q : Discovery) (name : ObjectName) : Refusable RowSet :=
  match q with
  | .objects =>
    .ok ⟨["schema_name", "object_name", "object_type"], db.listed.map fun o ↦
      [.null, .text o.1, .text (Text.asciiUpper o.2.describe)]⟩
  | .table =>
    let found (n : ObjectName) (isTable : Bool) : RowSet :=
      ⟨["schema_name", "object_name", "is_table"], [[.null, .text n.name, flag isTable]]⟩
    match db.table? name, db.view? name with
    | some t, _ => .ok (found t.name true)
    | none, some v => .ok (found v.name false)
    | none, none => .ok .empty
  | .columns => do
    let columns ← db.columns? name
    return ⟨["column_name", "type_name", "is_nullable", "is_identity", "is_computed", "is_primary_key",
      "max_length", "precision", "scale"],
      (columns.getD []).map fun (c, isKey, isIdentity) ↦
        [.text c.name, .text c.typeName, flag (!c.notNull && !isKey), flag isIdentity,
          flag c.computed.isSome, flag isKey, .null, .null, .null]⟩
  | .indexes =>
    let indexes := ((db.table? name).map (·.indexes)).getD []
    .ok ⟨["index_name", "is_unique", "is_primary_key", "column_name", "is_descending"],
      indexes.flatMap fun i ↦ i.columns.map fun c ↦
        [.text i.name, flag i.isUnique, flag i.isKey, .text c.name, flag c.descending]⟩
  | .routine | .parameters | .functionColumns => .error .notUnderstood

/-- What a statement leaves behind and answers: the database, the rows it returns, and for a write
the changes it made and the identity it produced. -/
structure Effect where
  database : Database
  rows : RowSet
  changes : Option (List Change) := none
  identity : Option Value := none

/-- The identity of the row that a write inserted. -/
def insertedIdentity? (t : StoredTable) (changes : List Change) : Option Value := do
  let k ← t.identity?
  let c ← changes.getLast?
  if c.before.isSome then none else c.after.map fun v ↦ (t.row v).cell k

/-- Carries a write out on the table with a name. -/
def write (db : Database) (target : Target) (output : Output) (f : StoredTable → Written) :
    Refusable Effect := do
  let t ← db.requireTable target.name
  t.checkColumns output.columns
  let (t, changes) ← f t
  return {
    database := db.withTable t
    rows := output.read t changes
    changes := some changes
    identity := insertedIdentity? t changes }

def read (db : Database) (sc : Scope) (s : Select) : Refusable RowSet :=
  match s.source, s.top, s.sample with
  | .table target, none, none => do
    let rs ← db.visit target.name s.criteria s.order.columns
    let t : StoredTable := { name := target.name, columns := rs.columns.map fun n ↦ { name := n } }
    t.checkColumns s.columns
    t.checkCriteria s.criteria
    return s.read sc rs
  | _, _, _ => .error .notUnderstood

/-- The object that the parameters of a discovery query name. -/
def askedName (sc : Scope) (ps : List Parameter) : ObjectName :=
  let text (name : String) : Option String :=
    (ps.find? fun p ↦ p.name == name).bind fun p ↦ (sc.value p).toText?
  ⟨text "@Schema", (text "@Name").getD ""⟩

def run (db : Database) (sc : Scope) : Statement → Refusable Effect
  | .select s => (db.read sc s).map fun rows ↦ { database := db, rows }
  | .insert s => db.write s.target s.output fun t ↦ t.insert sc s
  | .update s => db.write s.target s.output fun t ↦ t.update sc s
  | .delete s => db.write s.target s.output fun t ↦ t.delete sc s
  | .merge s => db.write s.target s.output fun t ↦ t.merge sc s
  | .lastIdentity => .ok { database := db, rows := ⟨["@@IDENTITY"], [[sc.lastIdentity]]⟩ }
  | .discover d q ps =>
    if d = .sqlite then (db.discover q (askedName sc ps)).map fun rows ↦ { database := db, rows }
    else .error .notUnderstood
  | .call _ _ | .procedure _ _ | .written _ _ => .error .notUnderstood

end Database

end SchemaSql
