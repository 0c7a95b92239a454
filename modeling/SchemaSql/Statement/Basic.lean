import SchemaSql.Catalog.Descriptor
import SchemaSql.Catalog.Discovery

/-!
Statements as data. A statement names its target, columns and parameters; how it is written is
defined on it, and so is what it does to stored rows.
-/

set_option autoImplicit false
set_option relaxedAutoImplicit false

namespace SchemaSql

/-- A condition on a row. A list of conditions stands for their conjunction. -/
inductive Predicate
  | isNull (column : Column)
  | equals (column : Column) (parameter : Parameter)
  | among (column : Column) (parameters : List Parameter)
  /-- The column differs from the parameter or is null. -/
  | unmarked (column : Column) (parameter : Parameter)
  /-- The column holds the identity that the last insert produced. -/
  | lastInserted (column : Column)
  /-- A condition that the caller wrote. -/
  | written (text : String) (parameters : List Parameter)
deriving DecidableEq

structure OrderTerm where
  column : Column
  descending : Bool
deriving DecidableEq

inductive Order
  | none
  | by (terms : List OrderTerm)
  | random (function : String) (seed : Option Int64)
deriving DecidableEq

inductive Projection
  | columns (columns : List Column)
  | count
  | countDistinct (column : Column)
deriving DecidableEq

inductive Source
  | table (target : Target)
  | function (target : Target) (arguments : List Parameter)
deriving DecidableEq

/-- A number of rows, as a parameter or in the text itself. -/
inductive Amount
  | bound (parameter : Parameter)
  | literal (n : Int64)
deriving DecidableEq

/-- The part of the rows, or the percentage of them, that a query keeps from the front. -/
structure Top where
  amount : Amount
  percent : Bool
  ties : Bool
deriving DecidableEq

inductive SampleUnit
  | rows
  | percent
deriving DecidableEq

/-- A random part of the rows of a table. Where there is but one unit it is not written. -/
structure Sample where
  amount : Int64
  unit : Option SampleUnit
  seed : Option Int64
deriving DecidableEq

inductive Take
  | none
  | bound (parameter : Parameter)
  /-- A number that stands for all rows. -/
  | unlimited (n : Int)
deriving DecidableEq

/-- The rows that remain of an ordered result. -/
inductive Window
  | none
  | limit (take : Take) (skip : Option Parameter)
  | fetch (skip take : Option Parameter) (ties : Bool)
deriving DecidableEq

structure Select where
  projection : Projection
  source : Source
  top : Option Top := none
  sample : Option Sample := none
  criteria : List Predicate := []
  order : Order := .none
  window : Window := .none
deriving DecidableEq

/-- Where the value that a column is given comes from. -/
inductive NewValue
  | parameter (parameter : Parameter)
  /-- The value that the row to be inserted has for the column. -/
  | supplied
  /-- The value that the column has already. -/
  | unchanged
deriving DecidableEq

structure Assignment where
  column : Column
  value : NewValue
deriving DecidableEq

inductive RowImage
  | inserted
  | deleted
deriving DecidableEq

/-- The columns that a write returns of the rows it touches. -/
inductive Output
  | none
  | output (image : RowImage) (columns : List Column)
  | returning (columns : List Column)
deriving DecidableEq

/-- What an insert does with a row whose key is taken. -/
inductive Conflict
  | fail
  | ignore
  /-- Only a clash on these keys is absorbed; without assignments nothing happens to the row. -/
  | onKeys (keys : List Column) (assignments : List Assignment)
  | onDuplicate (assignments : List Assignment)
deriving DecidableEq

/-- A column of a row and the parameter that holds its value. -/
structure Cell where
  column : Column
  parameter : Parameter
deriving DecidableEq

structure Insert where
  target : Target
  row : List Cell
  conflict : Conflict := .fail
  /-- Whether the statement is enclosed in the switch that lets identities be written. -/
  announced : Bool := false
  /-- Whether identities are written in place of the generated ones. -/
  overriding : Bool := false
  output : Output := .none
deriving DecidableEq

structure Update where
  target : Target
  assignments : List Assignment
  criteria : List Predicate
  output : Output := .none
deriving DecidableEq

structure Delete where
  target : Target
  criteria : List Predicate
  output : Output := .none
deriving DecidableEq

/-- Updates the row whose keys equal those of the source row, or inserts one. -/
structure Merge where
  target : Target
  source : List Cell
  keys : List Column
  updates : List Column
  inserts : List Column
  announced : Bool := false
  output : Output := .none
deriving DecidableEq

inductive Statement
  | select (s : Select)
  | insert (s : Insert)
  | update (s : Update)
  | delete (s : Delete)
  | merge (s : Merge)
  /-- Reads the identity that the last insert produced. -/
  | lastIdentity
  /-- Runs a stored procedure by a statement of its own. -/
  | call (procedure : Target) (arguments : List Parameter)
  /-- A stored procedure, to be run by its name. -/
  | procedure (procedure : Target) (arguments : List Parameter)
  /-- A text that the caller wrote. -/
  | written (text : String) (parameters : List Parameter)
  | discover (dialect : Dialect) (question : Discovery) (parameters : List Parameter)
deriving DecidableEq

end SchemaSql
