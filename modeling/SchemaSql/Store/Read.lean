import SchemaSql.Statement.Text
import SchemaSql.Store.Write

/-!
What queries make of rows: the rows that meet the conditions, in their order, without those that are
skipped and those past the last one taken, with the columns or the count asked for.
-/

set_option autoImplicit false
set_option relaxedAutoImplicit false

namespace SchemaSql

/-- Rows in an order; a random order may be any. -/
def Order.arrange (o : Order) (rows : List Row) : List Row := arrangeRows o.columns rows

/-- The number that a parameter limits rows by; a negative number limits nothing. -/
def Scope.amount? (sc : Scope) (p : Parameter) : Option Nat :=
  (sc.value p).toInt?.bind fun n ↦ if n.toInt < 0 then none else some n.toInt.toNat

def Scope.skip (sc : Scope) (p : Option Parameter) : Nat := (p.bind sc.amount?).getD 0

def takeRows (n : Option Nat) (rows : List Row) : List Row :=
  match n with
  | some n => rows.take n
  | none => rows

def Take.amount? (sc : Scope) : Take → Option Nat
  | .bound p => sc.amount? p
  | .none => Option.none
  | .unlimited _ => Option.none

def Window.cut (sc : Scope) : Window → List Row → List Row
  | .none, rows => rows
  | .limit take skip, rows => takeRows (take.amount? sc) (rows.drop (sc.skip skip))
  | .fetch skip take _, rows => takeRows (take.bind sc.amount?) (rows.drop (sc.skip skip))

/-- The values without nulls and repetitions. -/
def distinctValues : List Value → List Value
  | [] => []
  | v :: rest =>
    if v.isNull || rest.any v.same then distinctValues rest else v :: distinctValues rest

def Projection.read : Projection → List Row → RowSet
  | .columns cs, rows => .ofRows cs rows
  | .count, rows => ⟨[Projection.count.text], [[.int (Value.saturate rows.length)]]⟩
  | .countDistinct c, rows =>
    ⟨[(Projection.countDistinct c).text],
      [[.int (Value.saturate (distinctValues (rows.map (·.cell c.name))).length)]]⟩

/-- The result of a query over the rows of its source. -/
def Select.read (sc : Scope) (s : Select) (rs : RowSet) : RowSet :=
  s.projection.read (s.window.cut sc (s.order.arrange (rs.toRows.filter (Row.meets sc s.criteria))))

/-- All columns that a query names. -/
def Select.columns (s : Select) : List Column :=
  (match s.projection with
    | .columns columns => columns
    | .count => []
    | .countDistinct c => [c]) ++
  (match s.order with
    | .by terms => terms.map (·.column)
    | .none | .random _ _ => []) ++
  s.criteria.filterMap Predicate.column?

end SchemaSql
