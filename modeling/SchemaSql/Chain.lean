import SchemaSql.Statement.Text

/-!
Chains: the statements that carry out one request, in the order in which they run. A link says how
its statement is run, under which condition, and how many rows it may affect.
-/

set_option autoImplicit false
set_option relaxedAutoImplicit false

namespace SchemaSql

inductive CallKind
  | text
  | storedProcedure
deriving DecidableEq

/-- What is read of a link's statement. -/
inductive LinkMode
  /-- What the caller asked for. -/
  | result
  /-- The number of affected rows. -/
  | count
  /-- One value, which the named parameter of the next link takes. -/
  | forward (parameter : Option String)
deriving DecidableEq

inductive Condition
  | always
  /-- The link before that ran has affected no row. -/
  | previousAffectedNone
deriving DecidableEq

structure Link where
  operation : String
  statement : Statement
  text : String
  parameters : List Parameter
  kind : CallKind := .text
  mode : LinkMode := .result
  condition : Condition := .always
  check : RowCheck := .ignore
deriving DecidableEq

abbrev Chain := List Link

namespace Link

/-- A link whose statement is written for a dialect. -/
def ofStatement (d : Dialect) (operation : String) (s : Statement) : Except Error Link :=
  (s.fragment.render d.placeholderStyle).map fun r ↦
    { operation, statement := s, text := r.1, parameters := r.2 }

/-- A link that runs a stored procedure by its name. -/
def ofProcedure (operation : String) (target : Target) (arguments : List Parameter) : Link where
  operation
  statement := .procedure target arguments
  text := target.quoted
  parameters := arguments
  kind := .storedProcedure

def counting (l : Link) : Link := { l with mode := .count }

def checked (l : Link) (check : RowCheck) : Link := { l with check }

/-- The link where no result is wanted: what it would read of one is counted. -/
def withoutResult (l : Link) : Link :=
  match l.mode with
  | .result => l.counting
  | _ => l

end Link

def Chain.withoutResult (c : Chain) : Chain := c.map Link.withoutResult

end SchemaSql
