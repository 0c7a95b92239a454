import SchemaSql.Binding.Basic
import SchemaSql.Statement.Basic

/-!
The parts of a statement that a binding supplies: the row to insert, the assignments of an update,
conditions on the key or by a filter, and the order of a query.
-/

set_option autoImplicit false
set_option relaxedAutoImplicit false

namespace SchemaSql.Binding

def keyColumns (b : Binding) : List Column := (b.entries.filter (·.isKey)).map (·.column)

def hasKeyValues (b : Binding) : Bool :=
  let keys := b.entries.filter (·.isKey)
  !keys.isEmpty && keys.all (·.isBound)

def hasInserts (b : Binding) : Bool := b.entries.any (·.insert)

def hasUpdates (b : Binding) : Bool := b.entries.any (·.update)

def hasReads (b : Binding) : Bool := b.entries.any (·.read)

def readColumns (b : Binding) : List Column := (b.entries.filter (·.read)).map (·.column)

def insertColumns (b : Binding) : List Column := (b.entries.filter (·.insert)).map (·.column)

def updateColumns (b : Binding) : List Column := (b.entries.filter (·.update)).map (·.column)

def boundCells (b : Binding) : List Cell := (b.entries.filter (·.isBound)).map Entry.cell

def parameters (b : Binding) : List Parameter := b.boundCells.map (·.parameter)

/-- Whether an identity column is among those inserted. -/
def insertsIdentity (b : Binding) : Bool :=
  b.entries.any fun e ↦ e.insert && e.column.isIdentity

/-- The identity column that the database fills, if there is one. -/
def generatedIdentity? (b : Binding) : Option Column :=
  (b.entries.find? fun e ↦ e.column.isIdentity && !e.insert).map (·.column)

def insertRow (b : Binding) : Except Error (List Cell) :=
  if b.hasInserts then .ok ((b.entries.filter (·.insert)).map Entry.cell)
  else .error (.mapping (.nothingToInsert b.object))

def assignments (b : Binding) : Except Error (List Assignment) :=
  if b.hasUpdates then
    .ok ((b.entries.filter (·.update)).map fun e ↦ ⟨e.column, .parameter e.parameter⟩)
  else .error (.mapping (.nothingToUpdate b.object))

/-- One equality for every entry. -/
def equalities (object : String) : List Entry → Except Error (List Predicate)
  | [] => .ok []
  | e :: es =>
    if e.isBound then (equalities object es).map (.equals e.column e.parameter :: ·)
    else .error (.mapping (.missingKeyValue e.column.name object))

/-- Every key column equals the value it is bound to. -/
def keyCriteria (b : Binding) : Except Error (List Predicate) :=
  match b.entries.filter (·.isKey) with
  | [] => .error (.mapping (.noKey b.object))
  | keys => equalities b.object keys

def keyParameter (c : Column) (i : Nat) (value : Value) : Parameter :=
  { Parameter.make ("@Param" ++ toString i) value .key with dbType := c.dbType }

/-- The only key column has one of the given values. -/
def keyListCriterion (b : Binding) (keys : List Value) : Except Error Predicate :=
  match b.keyColumns with
  | [] => .error (.mapping (.noListKey b.object))
  | [c] =>
    match keys with
    | [] => .error (.invalidOperation .noKeyValues)
    | [key] => .ok (.equals c (keyParameter c 0 key))
    | keys => .ok (.among c (keys.mapIdx (keyParameter c)))
  | _ => .error (.mapping (.compositeListKey b.object))

/-- The condition that a property of a filter stands for; a property that is to be passed over has
none. -/
def filterCriterion (b : Binding) (ignoreNulls : Bool) (p : Property) :
    Except Error (Option Predicate) :=
  match b.entry? p.name with
  | none =>
    if b.strict then .error (.mapping (.unknownFilterProperty p.name b.object)) else .ok none
  | some e =>
    if p.value.isNull then .ok (if ignoreNulls then none else some (.isNull e.column))
    else .ok (some (.equals e.column (e.column.parameter p.value .filter)))

def filterEach (b : Binding) (ignoreNulls : Bool) :
    List Property → Except Error (List Predicate)
  | [] => .ok []
  | p :: ps => do
    let first ← b.filterCriterion ignoreNulls p
    let rest ← b.filterEach ignoreNulls ps
    .ok (first.toList ++ rest)

/-- The conditions that a filter stands for, at least one. -/
def filterCriteria (b : Binding) (filter : Argument) (ignoreNulls : Bool) :
    Except Error (List Predicate) := do
  match ← b.filterEach ignoreNulls filter.toProperties with
  | [] => .error (.mapping (.emptyFilter b.object))
  | criteria => .ok criteria

def orderTerms (b : Binding) : List SortTerm → Except Error (List OrderTerm)
  | [] => .ok []
  | s :: rest =>
    match b.entry? s.column with
    | none => .error (.mapping (.unknownSort s.column b.object))
    | some e => (b.orderTerms rest).map (⟨e.column, s.descending⟩ :: ·)

/-- The terms that sort by the key, if there is one. -/
def keyOrder? (b : Binding) : Option (List OrderTerm) :=
  match b.keyColumns with
  | [] => none
  | keys => some (keys.map fun c ↦ ⟨c, false⟩)

end SchemaSql.Binding
