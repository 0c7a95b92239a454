import SchemaSql.Catalog.Cache
import SchemaSql.Catalog.Introspection
import SchemaSql.Command.Basic
import SchemaSql.Execution.Async
import SchemaSql.Execution.Transaction

/-!
Data sources: a catalog of a database with the settings and rules that requests to it follow. A
request is a command whose objects are given by name; it is turned into a command by looking them
up.
-/

set_option autoImplicit false
set_option relaxedAutoImplicit false

namespace SchemaSql

structure DataSource (σ : Type) where
  catalog : Catalog σ
  settings : Settings := {}
  rules : Rules := {}

namespace DataSource

variable {σ : Type}

def make (d : Dialect) (settings : Settings) (source : SchemaSource σ) : DataSource σ where
  catalog := Catalog.make d settings.defaultSchema source
  settings

/-- The source that discovers objects through a driver when they are needed. -/
def ofDriver (d : Dialect) (settings : Settings) (driver : Driver σ) : DataSource σ :=
  make d settings (driver.source d)

def withRules (ds : DataSource σ) (rules : Rules) : DataSource σ := { ds with rules }

def environment (ds : DataSource σ) (now : Timestamp) : Environment where
  dialect := ds.catalog.dialect
  strict := ds.settings.strict
  rules := ds.rules
  now

def prepare (ds : DataSource σ) (now : Timestamp) (command : Command) (desired : Desired) :
    Except Error Chain :=
  command.prepare (ds.environment now) desired

/-- Carries a command out over an open connection. -/
def executeOver (ds : DataSource σ) (connection : Connection σ) (now : Timestamp)
    (command : Command) (m : Materializer) : Action σ Answer := do
  let chain ← liftExcept (ds.prepare now command m.desired)
  connection.runChain ds.settings chain m

/-- Carries a command out over a connection that is opened once the command is prepared. -/
def execute (ds : DataSource σ) (driver : Driver σ) (now : Timestamp) (command : Command)
    (m : Materializer) : Action σ Answer := do
  let chain ← liftExcept (ds.prepare now command m.desired)
  driver.openConnection
  driver.connection.runChain ds.settings chain m

/-- Carries a command out over an open connection whose calls may be suspended. -/
def executeAsync (ds : DataSource σ) (connection : AsyncConnection σ) (now : Timestamp)
    (command : Command) (m : Materializer) : Future σ Answer := do
  let chain ← Future.ready (ds.prepare now command m.desired)
  connection.runChain ds.settings chain m

/-- Carries a command out over an open connection, all or nothing. -/
def executeInTransaction (ds : DataSource σ) (connection : Connection σ) (t : Transactions σ)
    (now : Timestamp) (command : Command) (m : Materializer) : Action σ Answer :=
  t.execute connection.async Link.bindForwarded ds.settings (ds.prepare now command m.desired)
    m.reader

end DataSource

/-- Forgets what is known of the database and takes a snapshot of it over an open connection. -/
def Catalog.refresh {σ : Type} (connection : Connection σ) : Lookup σ Unit := do
  let d := (← get).1.dialect
  let schema ← Catalog.ask fun _ ↦ connection.loadSchema d
  Catalog.resetWith schema.source

end SchemaSql
