import SchemaSql.Chain
import SchemaSql.Execution.RowSet
import SchemaSql.Settings

/-!
Connections to a database, as operations on a state of their own. A call tells a connection the
statement to run; the state is kept when a call fails.
-/

set_option autoImplicit false
set_option relaxedAutoImplicit false

namespace SchemaSql

/-- Operations that may fail, on the state of a database. -/
abbrev Action (σ : Type) := EStateM Error σ

structure Call where
  statement : Statement
  text : String
  kind : CallKind := .text
  parameters : List Parameter
  timeoutSeconds : Option Nat := none
  sequentialAccess : Bool := false
deriving DecidableEq

namespace Call

def ofLink (l : Link) (s : Settings) : Call where
  statement := l.statement
  text := l.text
  kind := l.kind
  parameters := l.parameters
  timeoutSeconds := s.timeoutSeconds
  sequentialAccess := s.sequentialAccess

def ofDiscovery (d : Dialect) (q : Discovery) (text : String) (ps : List Parameter) : Call :=
  { statement := .discover d q ps, text, parameters := ps }

end Call

structure Connection (σ : Type) where
  count : Call → Action σ Nat
  scalar : Call → Action σ Value
  rows : Call → Action σ RowSet

def Connection.run {σ : Type} (c : Connection σ) (mode : ReadMode) (call : Call) :
    Action σ Outcome :=
  match mode with
  | .rows => Outcome.rows <$> c.rows call
  | .scalar => Outcome.scalar <$> c.scalar call
  | .count => Outcome.affected <$> c.count call

/-- A database that has to be opened before it is used. -/
structure Driver (σ : Type) where
  openConnection : Action σ Unit
  connection : Connection σ

end SchemaSql
