/-!
The five database dialects and what each of them can express: how placeholders are written, how an
upsert is done, which limits a query may have, and whether routines are known.
-/

set_option autoImplicit false
set_option relaxedAutoImplicit false

namespace SchemaSql

inductive Dialect
  | sqlServer
  | postgreSql
  | mySql
  | sqlite
  | access
deriving DecidableEq, Inhabited

/-- How a parameter is named in the text of a statement. -/
inductive PlaceholderStyle
  | named
  | numbered
  | positional
deriving DecidableEq

/-- How a row is inserted or, if its key is taken, updated. -/
inductive UpsertStrategy
  | merge
  | onConflict
  | onDuplicateKey
  | updateThenInsert
deriving DecidableEq

/-- How a query is cut down to some of its rows. -/
inductive LimitOption
  | none
  | rows
  | percentage
  | rowsWithTies
  | percentageWithTies
  | randomSampleRows
  | randomSamplePercentage
deriving DecidableEq, Inhabited

namespace LimitOption

def hasTies : LimitOption → Bool
  | .rowsWithTies | .percentageWithTies => true
  | _ => false

def isRandomSample : LimitOption → Bool
  | .randomSampleRows | .randomSamplePercentage => true
  | _ => false

def isPercentage : LimitOption → Bool
  | .percentage | .percentageWithTies | .randomSamplePercentage => true
  | _ => false

def describe : LimitOption → String
  | .none => "no limit"
  | .rows => "row limit"
  | .percentage => "percentage limit"
  | .rowsWithTies => "row limit with ties"
  | .percentageWithTies => "percentage limit with ties"
  | .randomSampleRows => "random sample of rows"
  | .randomSamplePercentage => "random sample percentage"

def all : List LimitOption :=
  [.none, .rows, .percentage, .rowsWithTies, .percentageWithTies, .randomSampleRows,
    .randomSamplePercentage]

end LimitOption

namespace Dialect

def all : List Dialect := [.sqlServer, .postgreSql, .mySql, .sqlite, .access]

def name : Dialect → String
  | .sqlServer => "SQL Server"
  | .postgreSql => "PostgreSQL"
  | .mySql => "MySQL"
  | .sqlite => "SQLite"
  | .access => "Access"

/-- The word that names a dialect in documents. -/
def keyword : Dialect → String
  | .sqlServer => "sql_server"
  | .postgreSql => "postgresql"
  | .mySql => "mysql"
  | .sqlite => "sqlite"
  | .access => "access"

def ofKeyword? (word : String) : Option Dialect :=
  if word = "postgres" then some .postgreSql
  else if word = "mariadb" then some .mySql
  else all.find? fun d ↦ d.keyword == word

def defaultSchema? : Dialect → Option String
  | .sqlServer => some "dbo"
  | .postgreSql => some "public"
  | _ => none

def placeholderStyle : Dialect → PlaceholderStyle
  | .sqlServer => .named
  | .postgreSql => .numbered
  | _ => .positional

def upsertStrategy : Dialect → UpsertStrategy
  | .sqlServer => .merge
  | .postgreSql | .sqlite => .onConflict
  | .mySql => .onDuplicateKey
  | .access => .updateThenInsert

def supportsLimit : Dialect → LimitOption → Bool
  | .sqlServer, _ => true
  | .postgreSql, o => o ∈ [.none, .rows, .rowsWithTies, .randomSamplePercentage]
  | .mySql, o | .sqlite, o => o ∈ [.none, .rows, .randomSampleRows]
  | .access, o => o ∈ [.none, .rows, .percentage]

/-- Ties are rows that sort alike, so a limit with ties needs an order in every dialect. -/
def requiresSorting (_ : Dialect) (option : LimitOption) : Bool := option.hasTies

/-- Whether rows can be skipped only in a sorted query. -/
def orderedPagination : Dialect → Bool
  | .sqlServer | .postgreSql => true
  | _ => false

def supportsSkip : Dialect → Bool
  | .access => false
  | _ => true

def supportsSeed : Dialect → Bool
  | .sqlServer | .postgreSql | .mySql => true
  | _ => false

def supportsCountDistinct : Dialect → Bool
  | .access => false
  | _ => true

def supportsProcedures : Dialect → Bool
  | .sqlite => false
  | _ => true

def supportsTableFunctions : Dialect → Bool
  | .sqlServer | .postgreSql => true
  | _ => false

end Dialect

end SchemaSql
