import SchemaSql.Name
import SchemaSql.Parameter

/-!
Why a request fails. Every constructor is one cause; `Error.message` gives its wording and
`Error.category` the group it is reported in.
-/

set_option autoImplicit false
set_option relaxedAutoImplicit false

namespace SchemaSql

inductive ObjectKind
  | tableOrView
  | table
  | view
  | procedure
  | tableFunction
deriving DecidableEq, Inhabited

def ObjectKind.describe : ObjectKind → String
  | .tableOrView => "table or view"
  | .table => "table"
  | .view => "view"
  | .procedure => "stored procedure"
  | .tableFunction => "table function"

/-- How many rows a write may affect. -/
inductive RowCheck
  | ignore
  | exactlyOne
  | atMostOne
deriving DecidableEq, Inhabited

def RowCheck.accepts (check : RowCheck) (affected : Nat) : Bool :=
  match check with
  | .ignore => true
  | .exactlyOne => affected == 1
  | .atMostOne => affected ≤ 1

def RowCheck.describe : RowCheck → String
  | .ignore => "any number of rows"
  | .exactlyOne => "exactly one row"
  | .atMostOne => "at most one row"

/-- A name or value that does not fit the table, routine or argument it is meant for. Each cause
names the quoted object it concerns. -/
inductive Mismatch
  | argumentNotObject (json : String)
  | noKeyMarks (object : String)
  | unknownProperty (property object : String)
  | unknownRoutineProperty (property object : String)
  | unknownFilterProperty (property object : String)
  | unknownKey (key object : String)
  | unknownColumn (column object : String)
  | unknownDesired (column object : String)
  | noneDesired (columns : List String) (object : String)
  | unknownSort (column object : String)
  | emptyFilter (object : String)
  | nothingToUpdate (object : String)
  | nothingToInsert (object : String)
  | nothingToRead (object : String)
  | noKey (object : String)
  | noListKey (object : String)
  | compositeListKey (object : String)
  | missingKeyValue (column object : String)
  | missingUpsertKey (object : String)
  | missingReturnedKey (object : String)
deriving DecidableEq

def Mismatch.message : Mismatch → String
  | .argumentNotObject json => "argument must be a JSON object, got " ++ json
  | .noKeyMarks t =>
    "key attributes were requested for " ++ t ++ " but the argument marks no key properties"
  | .unknownProperty p t => "property '" ++ p ++ "' does not match any column of " ++ t
  | .unknownRoutineProperty p t => "property '" ++ p ++ "' does not match any parameter of " ++ t
  | .unknownFilterProperty p t => "filter property '" ++ p ++ "' does not match any column of " ++ t
  | .unknownKey k t => "key column '" ++ k ++ "' does not exist on " ++ t
  | .unknownColumn c t => "column '" ++ c ++ "' does not exist on " ++ t
  | .unknownDesired c t => "desired column '" ++ c ++ "' does not exist on " ++ t
  | .noneDesired cs t =>
    "none of the desired columns [" ++ String.intercalate ", " cs ++ "] exist on " ++ t
  | .unknownSort c t => "sort column '" ++ c ++ "' does not exist on " ++ t
  | .emptyFilter t => "the filter produced no predicate for " ++ t
  | .nothingToUpdate t => "the argument has no updatable columns for " ++ t
  | .nothingToInsert t => "the argument has no insertable columns for " ++ t
  | .nothingToRead t => t ++ " has no columns to read"
  | .noKey t => t ++ " has no primary key; override the keys or mark key properties"
  | .noListKey t => t ++ " has no primary key"
  | .compositeListKey t => t ++ " has a composite key; key lists need a single key column"
  | .missingKeyValue c t => "the argument has no value for key column " ++ c ++ " of " ++ t
  | .missingUpsertKey t => "upserting into " ++ t ++ " needs a value for every key column"
  | .missingReturnedKey t =>
    "returning upserted rows from " ++ t ++ " needs a value for every key column"

/-- A request that asks for something no statement may do. -/
inductive Misuse
  | noKeyColumns
  | noKeyValues
  | takeNotPositive
  | skipNegative
  | takeMissing (option : LimitOption)
  | skipUnsorted
  | seedWithoutSample
  | sortedSample
  | unsorted (option : LimitOption)
  | unsortedKeyless (option : LimitOption) (object : String)
  | limitedAggregate
  | emptySort
  | unknownSortDirection (word : String)
  | malformedSort (text : String)
  | updateAllRows (object : String)
  | deleteAllRows (object : String)
  | noForwardTarget (parameter : String)
deriving DecidableEq

def Misuse.message : Misuse → String
  | .noKeyColumns => "at least one key column is required"
  | .noKeyValues => "at least one key value is required"
  | .takeNotPositive => "take must be greater than zero"
  | .skipNegative => "skip cannot be negative"
  | .takeMissing o => "a " ++ o.describe ++ " needs a take value"
  | .skipUnsorted => "cannot skip without sort"
  | .seedWithoutSample => "a seed can only be used with a random sample"
  | .sortedSample => "random samples cannot be sorted"
  | .unsorted o => "a " ++ o.describe ++ " requires sorting"
  | .unsortedKeyless o t =>
    "a " ++ o.describe ++ " requires sorting and " ++ t ++ " has no primary key to sort by"
  | .limitedAggregate => "aggregates cannot be combined with limits"
  | .emptySort => "empty sort expression"
  | .unknownSortDirection w => "unknown sort direction '" ++ w ++ "'"
  | .malformedSort s => "invalid sort expression '" ++ s ++ "'"
  | .updateAllRows t => "updating " ++ t ++ " without a filter requires all_rows"
  | .deleteAllRows t => "deleting from " ++ t ++ " without a filter requires all_rows"
  | .noForwardTarget p => "forwarded parameter '" ++ p ++ "' does not exist on the next command"

/-- What a dialect may lack. -/
inductive Feature
  | storedProcedures
  | tableFunctions
  | introspection
  | routine (kind : ObjectKind)
  | limit (option : LimitOption)
  | skip
  | skipWith (option : LimitOption)
  | seed
  | countDistinct
  | filteredReturning (verb : String)
deriving DecidableEq

def Feature.describe : Feature → String
  | .storedProcedures => "stored procedures"
  | .tableFunctions => "table functions"
  | .introspection => "schema introspection"
  | .routine kind => kind.describe
  | .limit o => o.describe
  | .skip => "skipping rows"
  | .skipWith o => "skipping rows with a " ++ o.describe
  | .seed => "random sample seeds"
  | .countDistinct => "COUNT(DISTINCT)"
  | .filteredReturning verb => "returning rows from a filtered " ++ verb

inductive Error
  | missingObject (kind : ObjectKind) (name : String)
  | invalidName (text : String)
  | mapping (cause : Mismatch)
  | unsupported (dialect : Dialect) (feature : Feature)
  | invalidOperation (cause : Misuse)
  | duplicateParameter (name : String) (first second : Origin)
  | rowCount (operation : String) (expected : RowCheck) (actual : Nat)
  | missingForwarder (index : Nat) (operation : String)
  | settings
  | driver (reason : String)
  | cancelled
deriving DecidableEq

/-- The groups in which errors are reported. -/
inductive ErrorCategory
  | missingObject
  | invalidName
  | mapping
  | unsupported
  | invalidOperation
  | duplicateParameter
  | rowCountMismatch
  | missingForwarder
  | settings
  | driver
  | cancelled
deriving DecidableEq

def ErrorCategory.name : ErrorCategory → String
  | .missingObject => "MissingObject"
  | .invalidName => "InvalidName"
  | .mapping => "Mapping"
  | .unsupported => "Unsupported"
  | .invalidOperation => "InvalidOperation"
  | .duplicateParameter => "DuplicateParameter"
  | .rowCountMismatch => "RowCountMismatch"
  | .missingForwarder => "MissingForwarder"
  | .settings => "Settings"
  | .driver => "Driver"
  | .cancelled => "Cancelled"

namespace Error

def category : Error → ErrorCategory
  | .missingObject .. => .missingObject
  | .invalidName _ => .invalidName
  | .mapping _ => .mapping
  | .unsupported .. => .unsupported
  | .invalidOperation _ => .invalidOperation
  | .duplicateParameter .. => .duplicateParameter
  | .rowCount .. => .rowCountMismatch
  | .missingForwarder .. => .missingForwarder
  | .settings => .settings
  | .driver _ => .driver
  | .cancelled => .cancelled

def message : Error → String
  | .missingObject kind name => kind.describe ++ " '" ++ name ++ "' was not found"
  | .invalidName text => "invalid object name '" ++ text ++ "'"
  | .mapping cause => "mapping error: " ++ cause.message
  | .unsupported d feature => feature.describe ++ " is not supported by " ++ d.name
  | .invalidOperation cause => "invalid operation: " ++ cause.message
  | .duplicateParameter name first second =>
    "the same parameter name '" ++ name ++ "' appears in both the " ++ first.describe ++
      " and the " ++ second.describe
  | .rowCount operation expected actual =>
    "data integrity violation: " ++ operation ++ " expected " ++ expected.describe ++ " but " ++
      toString actual ++ " rows were affected"
  | .missingForwarder index operation =>
    "execution link " ++ toString index ++ " (" ++ operation ++
      ") forwards a scalar but has no forwarder"
  | .settings => "invalid settings"
  | .driver reason => "database error: " ++ reason
  | .cancelled => "the command was cancelled"

end Error

def RowCheck.verify (check : RowCheck) (operation : String) (affected : Nat) : Except Error Unit :=
  if check.accepts affected then .ok () else .error (.rowCount operation check affected)

/-- Reads a written name, with the error that tells why it is none. -/
def ObjectName.parse (input : String) : Except Error ObjectName :=
  match ObjectName.parse? input with
  | some n => .ok n
  | none => .error (.invalidName input)

end SchemaSql
