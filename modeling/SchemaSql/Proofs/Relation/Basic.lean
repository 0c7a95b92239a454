import SchemaSql.Execution.Run
import SchemaSql.Proofs.Statement.Rendering
import SchemaSql.Store.Write

/-!
Relations: what statements do to the rows of one table, alike in every dialect. The key is the only
unique constraint. A column that an insert leaves out is filled by the database with a value that
may depend on the rows there are, and an update touches the rows that it meets even if it leaves
them as they were. A relation is a connection to its rows.
-/

set_option autoImplicit false
set_option relaxedAutoImplicit false

namespace SchemaSql

/-- Whether two values are equal and neither is null. -/
def Value.agrees (v w : Value) : Bool := !v.isNull && v == w

theorem Value.agrees_iff (v w : Value) : v.agrees w = true ↔ v.isNull = false ∧ v = w := by
  simp [agrees]

theorem Value.agrees_comm (v w : Value) : v.agrees w = w.agrees v := by
  rw [Bool.eq_iff_iff, agrees_iff, agrees_iff]
  constructor <;> rintro ⟨hnull, rfl⟩ <;> exact ⟨hnull, rfl⟩

/-- A row as the values of its columns. -/
abbrev Tuple := Column → Value

namespace Tuple

/-- The row with the listed values in place of those it has. -/
def overwrite (xs : List (Column × Value)) (v : Tuple) : Tuple := fun c ↦ (xs.lookup c).getD (v c)

theorem overwrite_of_forall_ne {xs : List (Column × Value)} {c : Column}
    (h : ∀ x ∈ xs, x.1 ≠ c) (v : Tuple) : v.overwrite xs c = v c := by
  have hnone : xs.lookup c = none := List.lookup_eq_none_iff.mpr fun x hx ↦ by
    simpa using (h x hx).symm
  rw [overwrite, hnone]
  rfl

theorem overwrite_of_mem {xs : List (Column × Value)}
    (hdistinct : xs.Pairwise fun x y ↦ x.1 ≠ y.1) {x : Column × Value} (hx : x ∈ xs) (v : Tuple) :
    v.overwrite xs x.1 = x.2 := by
  induction xs with
  | nil => simp at hx
  | cons y ys ih =>
    obtain ⟨hfirst, hrest⟩ := List.pairwise_cons.mp hdistinct
    rcases List.mem_cons.mp hx with rfl | hmem
    · rw [overwrite, List.lookup_cons_self, Option.getD_some]
    · have hne : (x.1 == y.1) = false := beq_eq_false_iff_ne.mpr (hfirst x hmem).symm
      rw [← ih hrest hmem, overwrite, overwrite, List.lookup_cons, hne]

/-- Values that depend on the column alone are found even if the column is listed twice. -/
theorem overwrite_map_of_mem {columns : List Column} {c : Column} (hc : c ∈ columns)
    (f v : Tuple) : v.overwrite (columns.map fun c ↦ (c, f c)) c = f c := by
  induction columns with
  | nil => simp at hc
  | cons c' columns ih =>
    rw [overwrite, List.map_cons, List.lookup_cons]
    split
    · rename_i heq
      rw [beq_iff_eq.mp heq, Option.getD_some]
    · rename_i hne
      exact ih ((List.mem_cons.mp hc).resolve_left (beq_eq_false_iff_ne.mp hne))

/-- Whether the values of a row in the columns of a list agree with the listed ones. -/
def matching (xs : List (Column × Value)) (v : Tuple) : Bool := xs.all fun x ↦ (v x.1).agrees x.2

/-- A row with the values that it has anyway is the same row. -/
theorem overwrite_of_matching {xs : List (Column × Value)} {v : Tuple}
    (h : ∀ x ∈ xs, v x.1 = x.2) : v.overwrite xs = v := by
  funext c
  cases hlookup : xs.lookup c with
  | none => simp [overwrite, hlookup]
  | some value =>
    obtain ⟨before, after, rfl, -⟩ := List.lookup_eq_some_iff.mp hlookup
    simpa [overwrite, hlookup] using (h (c, value) (by simp)).symm

/-- Whether a row meets a condition, when parameters have the given values. -/
def satisfies (value : Parameter → Value) (v : Tuple) : Predicate → Bool
  | .isNull c => (v c).isNull
  | .equals c p => (v c).agrees (value p)
  | .among c ps => ps.any fun p ↦ (v c).agrees (value p)
  | .unmarked c p => (v c).isNull || (!(value p).isNull && v c != value p)
  | .lastInserted _ | .written _ _ => false

end Tuple

/-- The value that an assignment gives its column, next to a row that was to be inserted. -/
def Assignment.newValue (value : Parameter → Value) (supplied v : Tuple) (a : Assignment) : Value :=
  match a.value with
  | .parameter p => value p
  | .supplied => supplied a.column
  | .unchanged => v a.column

/-- The row after assignments. -/
def Tuple.assign (value : Parameter → Value) (supplied : Tuple) (as : List Assignment)
    (v : Tuple) : Tuple :=
  v.overwrite (as.map fun a ↦ (a.column, a.newValue value supplied v))

/-- What an insert assigns to the rows that it clashes with. -/
def Conflict.assignments : Conflict → List Assignment
  | .fail | .ignore => []
  | .onKeys _ as | .onDuplicate as => as

def cellValues (value : Parameter → Value) (cells : List Cell) : List (Column × Value) :=
  cells.map fun c ↦ (c.column, value c.parameter)

structure Relation where
  target : Target
  /-- No two rows have equal values, none of them null, in all of these columns. -/
  key : List Column
  /-- What the database gives a column that an insert leaves out. -/
  fill : List Tuple → Tuple

namespace Relation

/-- What a statement makes of the rows, and which rows, as it leaves them, it touches. -/
structure Effect where
  rows : List Tuple
  touched : List Tuple

/-- Whether two rows have the same key. -/
def agree (R : Relation) (v w : Tuple) : Bool := R.key.all fun c ↦ (v c).agrees (w c)

def Keyed (R : Relation) (rows : List Tuple) : Prop :=
  rows.Pairwise fun v w ↦ R.agree v w = false

instance (R : Relation) (rows : List Tuple) : Decidable (R.Keyed rows) :=
  inferInstanceAs (Decidable (List.Pairwise _ rows))

def taken (R : Relation) : Refusal := .taken (R.key.map (·.name))

/-- The row that an insert of the listed values proposes. -/
def propose (R : Relation) (xs : List (Column × Value)) (rows : List Tuple) : Tuple :=
  (R.fill rows).overwrite xs

def add (R : Relation) (v : Tuple) (rows : List Tuple) : Refusable Effect :=
  if rows.any (R.agree v) then .error R.taken else .ok ⟨rows ++ [v], [v]⟩

def change (R : Relation) (chosen : Tuple → Bool) (f : Tuple → Tuple) (rows : List Tuple) :
    Refusable Effect :=
  if R.Keyed (rows.map fun v ↦ if chosen v then f v else v) then
    .ok ⟨rows.map fun v ↦ if chosen v then f v else v, (rows.filter chosen).map f⟩
  else .error R.taken

/-- Changes the chosen rows, if there are assignments at all. -/
def changeBy (R : Relation) (chosen : Tuple → Bool) (as : List Assignment) (f : Tuple → Tuple)
    (rows : List Tuple) : Refusable Effect :=
  if as.isEmpty then .ok ⟨rows, []⟩ else R.change chosen f rows

/-! ### Statements -/

section Statements

variable (R : Relation) (value : Parameter → Value) (rows : List Tuple)

def insert (s : Insert) : Refusable Effect :=
  let v := R.propose (cellValues value s.row) rows
  let as := s.conflict.assignments
  let resolved :=
    if rows.any (R.agree v) then R.changeBy (R.agree v) as (Tuple.assign value v as) rows
    else R.add v rows
  match s.conflict with
  | .fail => R.add v rows
  | .onKeys keys _ => if keys.isPerm R.key then resolved else .error .conflictTarget
  | .ignore | .onDuplicate _ => resolved

def update (s : Update) : Refusable Effect :=
  R.change (fun v ↦ s.criteria.all (v.satisfies value))
    (fun v ↦ Tuple.assign value v s.assignments v) rows

/-- Updates the rows whose keys agree with those of the source row; if there are none, a row is
added. -/
def merge (s : Merge) : Refusable Effect :=
  let source := cellValues value s.source
  let supplied : Tuple := Tuple.overwrite source fun _ ↦ .null
  let updates : List Assignment := s.updates.map fun c ↦ ⟨c, .supplied⟩
  let chosen := Tuple.matching (s.keys.map fun c ↦ (c, supplied c))
  if (s.keys ++ s.updates ++ s.inserts).all fun c ↦ (source.lookup c).isSome then
    if rows.any chosen then R.changeBy chosen updates (Tuple.assign value supplied updates) rows
    else R.add (R.propose (s.inserts.map fun c ↦ (c, supplied c)) rows) rows
  else .error .notUnderstood

/-- Reads rows by conditions alone. -/
def select (s : Select) : Refusable Effect :=
  if s = { projection := s.projection, source := .table R.target, criteria := s.criteria } then
    .ok ⟨rows, rows.filter fun v ↦ s.criteria.all (v.satisfies value)⟩
  else .error .notUnderstood

/-- Runs a statement on the rows, when parameters have the given values. -/
def exec (s : Statement) : Refusable Effect :=
  match s with
  | .insert s => if s.target = R.target then R.insert value rows s else .error .notUnderstood
  | .update s => if s.target = R.target then R.update value rows s else .error .notUnderstood
  | .merge s => if s.target = R.target then R.merge value rows s else .error .notUnderstood
  | .select s => R.select value rows s
  | _ => .error .notUnderstood

end Statements

/-! ### Connections -/

/-- The columns that a statement hands back. -/
def columns : Statement → List Column
  | .insert s => s.output.columns
  | .update s => s.output.columns
  | .merge s => s.output.columns
  | .select { projection := .columns cs, .. } => cs
  | _ => []

/-- Runs the statement of a call; a refused one leaves the rows as they are. -/
def run (R : Relation) (call : Call) : Action (List Tuple) (List Tuple) := fun rows ↦
  match R.exec (valueAmong call.parameters) rows call.statement with
  | .ok e => .ok e.touched e.rows
  | .error r => .error r.error rows

/-- The wanted columns of touched rows. -/
def answer (call : Call) (touched : List Tuple) : RowSet where
  columns := (columns call.statement).map (·.name)
  rows := touched.map fun v ↦ (columns call.statement).map v

def connection (R : Relation) : Connection (List Tuple) where
  count call := List.length <$> R.run call
  scalar call := (fun touched ↦ (answer call touched).firstValue) <$> R.run call
  rows call := answer call <$> R.run call

end Relation

end SchemaSql
