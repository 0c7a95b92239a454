import SchemaSql.Options
import SchemaSql.Value

/-!
Row sets, the outcome of one statement, and what a caller makes of the outcome of a chain.
-/

set_option autoImplicit false
set_option relaxedAutoImplicit false

namespace SchemaSql

structure Row where
  columns : List String
  values : List Value
deriving DecidableEq

namespace Row

/-- The value of the first column with a name, in any letter case. -/
def get? (r : Row) (column : String) : Option Value :=
  match r.columns.findIdx? fun c ↦ Text.sameAscii c column with
  | some i => r.values[i]?
  | none => none

def at? (r : Row) (i : Nat) : Option Value := r.values[i]?

end Row

structure RowSet where
  columns : List String
  rows : List (List Value)
deriving DecidableEq, Inhabited

namespace RowSet

def empty : RowSet := ⟨[], []⟩

def size (rs : RowSet) : Nat := rs.rows.length

def isEmpty (rs : RowSet) : Bool := rs.rows.isEmpty

def toRows (rs : RowSet) : List Row := rs.rows.map fun values ↦ ⟨rs.columns, values⟩

def first? (rs : RowSet) : Option Row := rs.toRows.head?

/-- The first value of the first row; without one, null. -/
def firstValue (rs : RowSet) : Value := (rs.first?.bind fun r ↦ r.at? 0).getD .null

end RowSet

/-- What is read of a statement. -/
inductive ReadMode
  | rows
  | scalar
  | count
deriving DecidableEq

inductive Outcome
  | rows (rows : RowSet)
  | scalar (value : Value)
  | affected (count : Nat)
deriving DecidableEq

/-- How many rows an outcome stands for. -/
def Outcome.affectedRows : Outcome → Nat
  | .rows rs => rs.size
  | .scalar v => if v.isNull then 0 else 1
  | .affected n => n

/-- What a caller wants of a chain: the number of affected rows, one value, or rows with the desired
columns. -/
inductive Materializer
  | count
  | scalar
  | rows (desired : Desired)
deriving DecidableEq

inductive Answer
  | affected (count : Nat)
  | scalar (value : Value)
  | rows (rows : RowSet)
deriving DecidableEq

namespace Materializer

def desired : Materializer → Desired
  | .rows d => d
  | _ => .none

def readMode : Materializer → ReadMode
  | .count => .count
  | .scalar => .scalar
  | .rows _ => .rows

/-- The value of an outcome; a count that 64 bits do not hold is cut down to the largest they do. -/
def scalarOf : Outcome → Value
  | .scalar v => v
  | .rows rs => rs.firstValue
  | .affected n => .int (Value.saturate n)

/-- The rows of an outcome; a value is a row of its own under an empty column name. -/
def rowsOf : Outcome → RowSet
  | .rows rs => rs
  | .scalar v => ⟨[""], [[v]]⟩
  | .affected _ => .empty

def finish (m : Materializer) (o : Outcome) : Answer :=
  match m with
  | .count => .affected o.affectedRows
  | .scalar => .scalar (scalarOf o)
  | .rows _ => .rows (rowsOf o)

end Materializer

/-- How the links that answer a caller are read, and what is made of the outcome. -/
structure Reader (α : Type) where
  mode : ReadMode
  finish : Outcome → Except Error α

def Materializer.reader (m : Materializer) : Reader Answer where
  mode := m.readMode
  finish o := .ok (m.finish o)

end SchemaSql
