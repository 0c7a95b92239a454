import SchemaSql.Store.Table

/-!
The order in which the rows of a table are visited. An index on columns that conditions tie to
values is read in its order; otherwise an index that begins like the wanted sort is, forwards or
backwards; otherwise rows come as they are kept. Rows that a sort does not tell apart stay in this
order.
-/

set_option autoImplicit false
set_option relaxedAutoImplicit false

namespace SchemaSql

/-- Whether a row may stand in front of another in an order by columns. -/
def Row.inFront : List IndexColumn → Row → Row → Bool
  | [], _, _ => true
  | c :: rest, a, b =>
    let v := a.cell c.name
    let w := b.cell c.name
    let (v, w) := if c.descending then (w, v) else (v, w)
    if v.precedes w then true
    else if w.precedes v then false
    else inFront rest a b

/-- Puts a row in front of the first row that it may stand in front of. -/
def insertRow (order : List IndexColumn) (r : Row) : List Row → List Row
  | [] => [r]
  | s :: rest => if r.inFront order s then r :: s :: rest else s :: insertRow order r rest

/-- Rows in an order by columns; rows that it does not tell apart stay as they are. -/
def arrangeRows (order : List IndexColumn) (rows : List Row) : List Row :=
  rows.foldr (insertRow order) []

def Order.columns : Order → List IndexColumn
  | .by terms => terms.map fun t ↦ ⟨t.column.name, t.descending⟩
  | .none | .random _ _ => []

namespace Predicate

/-- The column that has one value in all rows that meet a condition. -/
def fixed? : Predicate → Option String
  | .equals c _ | .isNull c | .among c [_] => some c.name
  | _ => none

/-- The column that has one of some values in all rows that meet a condition. -/
def bound? : Predicate → Option String
  | .equals c _ | .isNull c | .among c _ => some c.name
  | _ => none

end Predicate

def namesColumn (names : List String) (column : String) : Bool :=
  names.any fun n ↦ Text.sameAscii n column

/-- How an index serves a statement: by how many of its columns rows are found, and how many columns
of the sort it follows when it is read in the given direction. -/
structure Service where
  index : Index
  backwards : Bool
  found : Nat
  sorted : Nat

namespace Service

def make (criteria : List Predicate) (order : List IndexColumn) (i : Index) : Service :=
  let bound := criteria.filterMap Predicate.bound?
  let isFree (c : IndexColumn) : Bool := !namesColumn (criteria.filterMap Predicate.fixed?) c.name
  let pairs := (i.columns.filter isFree).zip (order.filter isFree)
  let differs (p : IndexColumn × IndexColumn) : Bool := p.1.descending != p.2.descending
  let backwards := (pairs.head?.map differs).getD false
  { index := i
    backwards
    found := (i.columns.takeWhile fun c ↦ namesColumn bound c.name).length
    sorted :=
      (pairs.takeWhile fun p ↦ Text.sameAscii p.1.name p.2.name && differs p == backwards).length }

def betterThan (s t : Service) : Bool :=
  t.found < s.found || (s.found == t.found && t.sorted < s.sorted)

def isUseful (s : Service) : Bool := 0 < s.found || 0 < s.sorted

end Service

namespace StoredTable

/-- The index by which rows are visited. Rows that are found or sorted by the identity need none. -/
def service? (t : StoredTable) (criteria : List Predicate) (order : List IndexColumn) :
    Option Service :=
  let sought := criteria.filterMap Predicate.bound? ++ (order.take 1).map (·.name)
  if (t.identity?.map (namesColumn sought)).getD false then none
  else
    let services := (t.indexes.map (Service.make criteria order)).filter Service.isUseful
    services.foldl (fun (best : Option Service) s ↦
      if (best.map s.betterThan).getD true then some s else best) none

/-- The rows in the order in which they are visited. -/
def visit (t : StoredTable) (criteria : List Predicate) (order : List IndexColumn) :
    List (List Value) :=
  match t.service? criteria order with
  | none => t.rows
  | some s =>
    let rows := (arrangeRows s.index.columns (t.rows.map t.row)).map (·.values)
    if s.backwards then rows.reverse else rows

end StoredTable

end SchemaSql
