import SchemaSql.Execution.RowSet
import SchemaSql.Statement.Basic
import SchemaSql.Store.Comparison

/-!
What conditions say about rows. A `Scope` gives meaning to what a statement leaves open: the values
of its parameters, the conditions that a caller wrote, and the identity that the last insert
produced.
-/

set_option autoImplicit false
set_option relaxedAutoImplicit false

namespace SchemaSql

/-- The value of a column; a row without it holds null. -/
def Row.cell (r : Row) (column : String) : Value := (r.get? column).getD .null

structure Scope where
  value : Parameter → Value
  written : String → List Parameter → Row → Truth
  lastIdentity : Value

namespace Predicate

def truth (sc : Scope) (r : Row) : Predicate → Truth
  | .isNull c => .ofBool (r.cell c.name).isNull
  | .equals c p => (r.cell c.name).equal (sc.value p)
  | .among c ps => .any (ps.map fun p ↦ (r.cell c.name).equal (sc.value p))
  | .unmarked c p =>
    ((r.cell c.name).equal (sc.value p)).not.or (.ofBool (r.cell c.name).isNull)
  | .lastInserted c => (r.cell c.name).equal sc.lastIdentity
  | .written s ps => sc.written s ps r

/-- The column that a condition is about. -/
def column? : Predicate → Option Column
  | .isNull c | .equals c _ | .among c _ | .unmarked c _ | .lastInserted c => some c
  | .written _ _ => none

end Predicate

/-- Whether a row meets all conditions of a list. -/
def Row.meets (sc : Scope) (criteria : List Predicate) (r : Row) : Bool :=
  Truth.all (criteria.map (Predicate.truth sc r)) == .yes

theorem Row.meets_iff (sc : Scope) (criteria : List Predicate) (r : Row) :
    r.meets sc criteria = true ↔ ∀ p ∈ criteria, p.truth sc r = .yes := by
  simp [Row.meets, Truth.all_eq_yes]

end SchemaSql
