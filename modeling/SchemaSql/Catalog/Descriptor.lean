import SchemaSql.Catalog.Column
import SchemaSql.Error

/-!
Descriptions of the objects of a database: tables and views with their columns, indexes, stored
procedures and table functions with their parameters.
-/

set_option autoImplicit false
set_option relaxedAutoImplicit false

namespace SchemaSql

/-- An object that a statement names: its name and the name as the statement writes it. -/
structure Target where
  name : ObjectName
  quoted : String
deriving DecidableEq

structure Table where
  name : ObjectName
  quoted : String
  isTable : Bool
  columns : List Column
deriving DecidableEq

namespace Table

def make (d : Dialect) (name : ObjectName) (isTable : Bool) (columns : List Column) : Table :=
  { name, quoted := d.quoteName name, isTable, columns }

def target (t : Table) : Target := ⟨t.name, t.quoted⟩

def column? (t : Table) (name : String) : Option Column :=
  t.columns.find? fun c ↦ c.answersTo name

def keyColumns (t : Table) : List Column := t.columns.filter (·.isKey)

def identityColumn? (t : Table) : Option Column := t.columns.find? (·.isIdentity)

end Table

structure IndexColumn where
  name : String
  descending : Bool
deriving DecidableEq

structure Index where
  table : ObjectName
  name : String
  isUnique : Bool
  isKey : Bool
  columns : List IndexColumn
deriving DecidableEq

structure RoutineParameter where
  name : String
  property : String
  typeName : String
  dbType : Option DbType
  direction : Direction := .input
deriving DecidableEq

namespace RoutineParameter

/-- A name without the at signs in front of it. -/
def withoutAt (name : String) : String :=
  String.ofList (name.toList.dropWhile fun c ↦ c == '@')

def make (d : Dialect) (name typeName : String) : RoutineParameter where
  name
  property := propertyName (withoutAt name)
  typeName
  dbType := d.dbType? typeName

def answersTo (p : RoutineParameter) (name : String) : Bool :=
  Text.sameAscii (withoutAt p.name) (bareName name) || Text.sameAscii p.property (bareName name)

end RoutineParameter

structure Procedure where
  name : ObjectName
  quoted : String
  parameters : List RoutineParameter
deriving DecidableEq

namespace Procedure

def make (d : Dialect) (name : ObjectName) (parameters : List RoutineParameter) : Procedure :=
  { name, quoted := d.quoteName name, parameters }

def target (p : Procedure) : Target := ⟨p.name, p.quoted⟩

end Procedure

structure TableFunction where
  name : ObjectName
  quoted : String
  parameters : List RoutineParameter
  columns : List Column
deriving DecidableEq

namespace TableFunction

def make (d : Dialect) (name : ObjectName) (parameters : List RoutineParameter)
    (columns : List Column) : TableFunction :=
  { name, quoted := d.quoteName name, parameters, columns }

def target (f : TableFunction) : Target := ⟨f.name, f.quoted⟩

end TableFunction

/-- An object as a database lists it. -/
structure SchemaObject where
  name : ObjectName
  kind : ObjectKind
deriving DecidableEq

end SchemaSql
