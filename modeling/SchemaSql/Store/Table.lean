import SchemaSql.Catalog.Descriptor
import SchemaSql.Store.Condition

/-!
Stored tables: columns, a key, indexes and rows, and the changes that writes make to the rows. The
only key column is an identity if its type is `INTEGER`; its values are integers, are produced where
none is given, and order the rows. Otherwise rows keep the order in which they are inserted.
-/

set_option autoImplicit false
set_option relaxedAutoImplicit false

namespace SchemaSql

structure StoredColumn where
  name : String
  typeName : String := ""
  notNull : Bool := false
  /-- The value that a computed column always has. -/
  computed : Option Int64 := none
deriving DecidableEq

structure StoredTable where
  name : ObjectName
  columns : List StoredColumn
  key : List String := []
  /-- The latest first. -/
  indexes : List Index := []
  rows : List (List Value) := []
deriving DecidableEq

/-- What becomes of one row: without a row before it is inserted, without one after it deleted. -/
structure Change where
  before : Option (List Value)
  after : Option (List Value)
deriving DecidableEq

/-- Why a database refuses a statement. -/
inductive Refusal
  | noTable (name : ObjectName)
  | noColumn (column : String)
  | readOnly (column : String)
  | view (name : ObjectName)
  | notNull (column : String)
  | taken (columns : List String)
  | identity
  | conflictTarget
  | notUnderstood
deriving DecidableEq

namespace Refusal

def message : Refusal → String
  | .noTable n => "no such table: " ++ n.display
  | .noColumn c => "no such column: " ++ c
  | .readOnly c => "cannot write generated column \"" ++ c ++ "\""
  | .view n => "cannot modify " ++ n.display ++ " because it is a view"
  | .notNull c => "NOT NULL constraint failed: " ++ c
  | .taken cs => "UNIQUE constraint failed: " ++ String.intercalate ", " cs
  | .identity => "datatype mismatch"
  | .conflictTarget => "ON CONFLICT clause does not match any PRIMARY KEY or UNIQUE constraint"
  | .notUnderstood => "the statement is not understood"

def error (r : Refusal) : Error := .driver r.message

/-- Whether a refusal depends on the values of rows, so that it arises only while a write runs. -/
def byValues : Refusal → Bool
  | .notNull _ | .taken _ | .identity => true
  | _ => false

end Refusal

/-- A result that the database may refuse to give. -/
abbrev Refusable := Except Refusal

def refuseUnless (b : Bool) (r : Refusal) : Refusable Unit := if b then .ok () else .error r

namespace StoredTable

def columnNames (t : StoredTable) : List String := t.columns.map (·.name)

def row (t : StoredTable) (values : List Value) : Row := ⟨t.columnNames, values⟩

def column? (t : StoredTable) (name : String) : Option StoredColumn :=
  t.columns.find? fun c ↦ Text.sameAscii c.name name

def identity? (t : StoredTable) : Option String :=
  match t.key with
  | [k] => (t.column? k).bind fun c ↦ if Text.sameAscii c.typeName "INTEGER" then some k else none
  | _ => none

/-- The lists of columns on which no two rows may agree. -/
def uniqueKeys (t : StoredTable) : List (List String) :=
  (if t.key.isEmpty then [] else [t.key]) ++
    (t.indexes.filter (·.isUnique)).map fun i ↦ i.columns.map (·.name)

/-- Whether two rows have equal values, none of them null, in all columns of a list. -/
def agree (t : StoredTable) (names : List String) (v w : List Value) : Bool :=
  names.all fun n ↦ ((t.row v).cell n).equal ((t.row w).cell n) == .yes

/-- The columns on which two rows may not agree, but do. -/
def clash? (t : StoredTable) (v w : List Value) : Option (List String) :=
  t.uniqueKeys.find? fun names ↦ t.agree names v w

def checkPresent (t : StoredTable) (v : List Value) : Refusable Unit :=
  match t.columns.find? fun c ↦ c.notNull && ((t.row v).cell c.name).isNull with
  | some c => .error (.notNull c.name)
  | none => .ok ()

/-- A row that is new among the given ones may not clash with any of them. -/
def checkNew (t : StoredTable) (v : List Value) (among : List (List Value)) : Refusable Unit :=
  match among.findSome? (t.clash? v) with
  | some names => .error (.taken names)
  | none => .ok ()

def checkDistinct (t : StoredTable) : List (List Value) → Refusable Unit
  | [] => .ok ()
  | v :: rest =>
    match t.checkNew v rest with
    | .ok () => checkDistinct t rest
    | .error e => .error e

def identityOf (t : StoredTable) (identity : String) (v : List Value) : Int :=
  match (t.row v).cell identity with
  | .int n => n.toInt
  | _ => 0

/-- One more than the largest identity, which the last row has. -/
def nextIdentity (t : StoredTable) (identity : String) : Refusable Int64 :=
  match t.rows.getLast? with
  | none => .ok 1
  | some v =>
    let n := t.identityOf identity v + 1
    if n ≤ greatestInt64 then .ok (Int64.ofInt n) else .error .identity

/-- The value that an inserted row has for a column. -/
def fill (t : StoredTable) (given : String → Value) (c : StoredColumn) : Refusable Value :=
  let v := (given c.name).stored
  match c.computed with
  | some n => .ok (.int n)
  | none =>
    if t.identity? = some c.name then
      if v.isNull then (t.nextIdentity c.name).map .int
      else
        match v.toInt? with
        | some n => .ok (.int n)
        | none => .error .identity
    else .ok v

/-- The row to insert for given values. -/
def propose (t : StoredTable) (given : String → Value) : Refusable (List Value) := do
  let v ← t.columns.mapM (t.fill given)
  t.checkPresent v
  return v

/-- The rows with a new one in its place. -/
def place (t : StoredTable) (v : List Value) : List (List Value) :=
  match t.identity? with
  | none => t.rows ++ [v]
  | some k =>
    let before (w : List Value) : Bool := t.identityOf k w ≤ t.identityOf k v
    t.rows.takeWhile before ++ v :: t.rows.dropWhile before

def add (t : StoredTable) (v : List Value) : Refusable (StoredTable × List Change) := do
  t.checkNew v t.rows
  return ({ t with rows := t.place v }, [⟨none, some v⟩])

/-- Changes the chosen rows. They are reported in the order in which all rows are visited. -/
def change (t : StoredTable) (visited : List (List Value)) (chosen : List Value → Bool)
    (f : List Value → List Value) : Refusable (StoredTable × List Change) := do
  let touched := visited.filter chosen
  touched.forM fun v ↦ t.checkPresent (f v)
  let rows := t.rows.map fun v ↦ if chosen v then f v else v
  t.checkDistinct rows
  return ({ t with rows }, touched.map fun v ↦ ⟨some v, some (f v)⟩)

def remove (t : StoredTable) (visited : List (List Value)) (chosen : List Value → Bool) :
    StoredTable × List Change :=
  ({ t with rows := t.rows.filter fun v ↦ !chosen v },
    (visited.filter chosen).map fun v ↦ ⟨some v, none⟩)

end StoredTable

end SchemaSql
