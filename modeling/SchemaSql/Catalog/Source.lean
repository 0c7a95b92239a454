import SchemaSql.Catalog.Descriptor
import SchemaSql.Execution.Connection

/-!
Sources of schema information. A static source holds its descriptions; a name without a schema, or a
description without one, is met by the name alone if nothing bears the whole name.
-/

set_option autoImplicit false
set_option relaxedAutoImplicit false

namespace SchemaSql

structure SchemaSource (σ : Type) where
  objects : Action σ (List SchemaObject)
  table : ObjectName → Action σ (Option Table)
  indexes : ObjectName → Action σ (List Index)
  procedure : ObjectName → Action σ (Option Procedure)
  function : ObjectName → Action σ (Option TableFunction)

structure Schema where
  tables : List Table := []
  indexes : List Index := []
  procedures : List Procedure := []
  functions : List TableFunction := []
deriving DecidableEq, Inhabited

namespace Schema

/-- Whether two names may mean the same object where one of them has no schema. -/
def loosely (a b : ObjectName) : Bool :=
  (a.schema.isNone || b.schema.isNone) && Text.sameAscii a.name b.name

/-- The first item with the name, or else the first that may be meant by it. -/
def lookup? {α : Type} (nameOf : α → ObjectName) (items : List α) (name : ObjectName) : Option α :=
  match items.find? fun a ↦ (nameOf a).same name with
  | some a => some a
  | none => items.find? fun a ↦ loosely (nameOf a) name

def objects (s : Schema) : List SchemaObject :=
  (s.tables.map fun t ↦ ⟨t.name, if t.isTable then .table else .view⟩) ++
    (s.procedures.map fun p ↦ ⟨p.name, .procedure⟩) ++
    s.functions.map fun f ↦ ⟨f.name, .tableFunction⟩

def table? (s : Schema) (name : ObjectName) : Option Table := lookup? (·.name) s.tables name

def tableIndexes (s : Schema) (name : ObjectName) : List Index :=
  match s.table? name with
  | some t => s.indexes.filter fun i ↦ i.table.same t.name
  | none => []

def procedure? (s : Schema) (name : ObjectName) : Option Procedure :=
  lookup? (·.name) s.procedures name

def function? (s : Schema) (name : ObjectName) : Option TableFunction :=
  lookup? (·.name) s.functions name

def source {σ : Type} (s : Schema) : SchemaSource σ where
  objects := pure s.objects
  table name := pure (s.table? name)
  indexes name := pure (s.tableIndexes name)
  procedure name := pure (s.procedure? name)
  function name := pure (s.function? name)

end Schema

end SchemaSql
