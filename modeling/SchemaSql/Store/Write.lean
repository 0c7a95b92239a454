import SchemaSql.Store.Access

/-!
What the statements that write do to a stored table. Each gives the table afterwards and the changes
of its rows, from which the rows that the statement returns are taken.
-/

set_option autoImplicit false
set_option relaxedAutoImplicit false

namespace SchemaSql

namespace StoredTable

def checkColumns (t : StoredTable) (columns : List Column) : Refusable Unit :=
  columns.forM fun c ↦ refuseUnless (t.column? c.name).isSome (.noColumn c.name)

/-- Computed columns cannot be written. -/
def checkWritable (t : StoredTable) (columns : List Column) : Refusable Unit :=
  columns.forM fun c ↦
    match t.column? c.name with
    | none => .error (.noColumn c.name)
    | some s => refuseUnless s.computed.isNone (.readOnly c.name)

/-- The conditions that a caller wrote are not understood. -/
def checkCriteria (t : StoredTable) (criteria : List Predicate) : Refusable Unit :=
  criteria.forM fun p ↦
    match p.column? with
    | some c => t.checkColumns [c]
    | none => .error .notUnderstood

/-- Whether the columns of a list are, in any order, those of a unique key. -/
def isUniqueKey (t : StoredTable) (columns : List Column) : Bool :=
  t.uniqueKeys.any fun names ↦
    names.length == columns.length &&
      names.all fun n ↦ columns.any fun c ↦ Text.sameAscii c.name n

end StoredTable

/-- The values that the cells of a row give to columns; every other column is null. -/
def rowValues (sc : Scope) (row : List Cell) (column : String) : Value :=
  match row.find? fun c ↦ Text.sameAscii c.column.name column with
  | some c => sc.value c.parameter
  | none => .null

/-- The row with new values in the assigned columns. -/
def StoredTable.assign (t : StoredTable) (sc : Scope) (supplied : String → Value)
    (assignments : List Assignment) (v : List Value) : List Value :=
  List.zipWith (fun (c : StoredColumn) (old : Value) ↦
    match assignments.find? fun a ↦ Text.sameAscii a.column.name c.name with
    | none => old
    | some a =>
      match a.value with
      | .parameter p => (sc.value p).stored
      | .supplied => (supplied c.name).stored
      | .unchanged => old) t.columns v

/-- What a write makes of a table. -/
abbrev Written := Refusable (StoredTable × List Change)

namespace StoredTable

/-- Inserts a row; if it clashes with rows on a unique key, these are changed or nothing is done. -/
def insertOr (t : StoredTable) (v : List Value) (clashes : List Value → Bool)
    (f : Option (List Value → List Value)) : Written :=
  if t.rows.any clashes then
    match f with
    | some f => t.change t.rows clashes f
    | none => .ok (t, [])
  else t.add v

def insert (t : StoredTable) (sc : Scope) (s : Insert) : Written := do
  t.checkWritable (s.row.map (·.column))
  let supplied := rowValues sc s.row
  let onAny (v : List Value) (w : List Value) : Bool := (t.clash? v w).isSome
  match s.conflict with
  | .fail => t.add (← t.propose supplied)
  | .ignore =>
    let v ← t.propose supplied
    t.insertOr v (onAny v) none
  | .onKeys keys assignments =>
    refuseUnless (t.isUniqueKey keys) .conflictTarget
    t.checkWritable (assignments.map (·.column))
    let v ← t.propose supplied
    t.insertOr v (t.agree (keys.map (·.name)) v)
      (if assignments.isEmpty then none else some (t.assign sc supplied assignments))
  | .onDuplicate assignments =>
    t.checkWritable (assignments.map (·.column))
    let v ← t.propose supplied
    t.insertOr v (onAny v) (some (t.assign sc supplied assignments))

def update (t : StoredTable) (sc : Scope) (s : Update) : Written := do
  t.checkWritable (s.assignments.map (·.column))
  t.checkCriteria s.criteria
  t.change (t.visit s.criteria []) (fun v ↦ (t.row v).meets sc s.criteria)
    (t.assign sc (fun _ ↦ .null) s.assignments)

def delete (t : StoredTable) (sc : Scope) (s : Delete) : Written := do
  t.checkCriteria s.criteria
  return t.remove (t.visit s.criteria []) fun v ↦ (t.row v).meets sc s.criteria

def merge (t : StoredTable) (sc : Scope) (s : Merge) : Written := do
  t.checkColumns s.keys
  t.checkWritable (s.updates ++ s.inserts)
  let supplied := rowValues sc s.source
  let matching (v : List Value) : Bool :=
    s.keys.all fun c ↦ ((t.row v).cell c.name).equal (supplied c.name) == .yes
  if t.rows.any matching then
    if s.updates.isEmpty then return (t, [])
    else t.change t.rows matching (t.assign sc supplied (s.updates.map fun c ↦ ⟨c, .supplied⟩))
  else
    let inserted (n : String) : Value :=
      if s.inserts.any fun c ↦ Text.sameAscii c.name n then supplied n else .null
    t.add (← t.propose inserted)

end StoredTable

/-- Rows with only the columns of a list. -/
def RowSet.ofRows (columns : List Column) (rows : List Row) : RowSet where
  columns := columns.map (·.name)
  rows := rows.map fun r ↦ columns.map fun c ↦ r.cell c.name

/-- The rows that a write returns. -/
def Output.read (t : StoredTable) (changes : List Change) : Output → RowSet
  | .none => .empty
  | .output .inserted columns => .ofRows columns ((changes.filterMap (·.after)).map t.row)
  | .output .deleted columns => .ofRows columns ((changes.filterMap (·.before)).map t.row)
  | .returning columns =>
    .ofRows columns ((changes.filterMap fun c ↦ c.after <|> c.before).map t.row)

def Output.columns : Output → List Column
  | .none => []
  | .output _ columns | .returning columns => columns

end SchemaSql
