import SchemaSql.Argument

/-!
Records: types of the calling program whose values can be written to a table. A record type lists
its fields, each with the column it stands for, and may name its table; otherwise the table has the
name of the type.
-/

set_option autoImplicit false
set_option relaxedAutoImplicit false

namespace SchemaSql

structure Field (α : Type) where
  name : String
  isKey : Bool
  get : α → Value

structure RecordType (α : Type) where
  typeName : String
  table : Option String
  fields : List (Field α)

namespace RecordType

def tableName {α : Type} (r : RecordType α) : String := r.table.getD r.typeName

def names {α : Type} (r : RecordType α) : List String := r.fields.map (·.name)

def properties {α : Type} (r : RecordType α) (a : α) : List Property :=
  r.fields.map fun f ↦ ⟨f.name, f.get a, f.isKey⟩

def argument {α : Type} (r : RecordType α) (a : α) : Argument := .properties (r.properties a)

end RecordType

end SchemaSql
