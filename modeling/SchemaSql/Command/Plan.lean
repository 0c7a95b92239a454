import SchemaSql.Binding.Clauses
import SchemaSql.Chain

/-!
Plans of writes: what an insert, update or delete is to do, before a dialect decides by which
statements.
-/

set_option autoImplicit false
set_option relaxedAutoImplicit false

namespace SchemaSql

/-- Which rows a write hands back: none, those it left, or those it found. -/
inductive Returning
  | none
  | new
  | old
deriving DecidableEq

structure WritePlan where
  binding : Binding
  operation : String
  criteria : List Predicate
  /-- Whether the criteria compare every key column with a value. -/
  byKey : Bool
  returning : Returning
  check : RowCheck
  identityInsert : Bool
deriving DecidableEq

namespace WritePlan

def dialect (p : WritePlan) : Dialect := p.binding.dialect

def target (p : WritePlan) : Target := p.binding.target

/-- Whether the statement has to say that it writes an identity. -/
def writesIdentity (p : WritePlan) : Bool := p.identityInsert && p.binding.insertsIdentity

/-- The columns to hand back, in the words of dialects that return them in front. -/
def output (p : WritePlan) (image : RowImage) : Output :=
  match p.returning with
  | .none => .none
  | .new => .output image p.binding.readColumns
  | .old => .output .deleted p.binding.readColumns

/-- The columns to hand back, in the words of dialects that return them at the end. -/
def returned (p : WritePlan) : Output :=
  match p.returning with
  | .none => .none
  | _ => .returning p.binding.readColumns

/-- The query that reads the wanted columns of certain rows. -/
def readStatement (p : WritePlan) (criteria : List Predicate) : Statement :=
  .select { projection := .columns p.binding.readColumns, source := .table p.target, criteria }

/-- The link that writes. -/
def writeLink (p : WritePlan) (s : Statement) : Except Error Link :=
  (Link.ofStatement p.dialect p.operation s).map fun l ↦ l.checked p.check

def readLink (p : WritePlan) (operation : String) (criteria : List Predicate) :
    Except Error Link :=
  Link.ofStatement p.dialect operation (p.readStatement criteria)

/-- A chain that hands nothing back if nothing is wanted. -/
def finish (p : WritePlan) (c : Chain) : Chain :=
  if p.returning = .none then c.withoutResult else c

end WritePlan

end SchemaSql
