import SchemaSql.Binding.Basic

/-!
Rules of a data source: columns that mark a row as deleted in place of its removal, and columns that
every insert or update gives a value of the rule's own.
-/

set_option autoImplicit false
set_option relaxedAutoImplicit false

namespace SchemaSql

/-- A row is deleted by giving the column this value. -/
structure SoftDelete where
  column : String
  deleted : Value
deriving DecidableEq

inductive RuleValue
  | fixed (value : Value)
  /-- The time at which the request is prepared. -/
  | now
deriving DecidableEq

structure ValueRule where
  column : String
  onInsert : Bool := false
  onUpdate : Bool := false
  value : RuleValue
deriving DecidableEq

structure Rules where
  softDeletes : List SoftDelete := []
  values : List ValueRule := []
deriving DecidableEq, Inhabited

def RuleValue.resolve (now : Timestamp) : RuleValue → Value
  | .fixed v => v
  | .now => .timestamp now

namespace Rules

def isEmpty (r : Rules) : Bool := r.softDeletes.isEmpty && r.values.isEmpty

/-- The first soft delete whose column the table has, with that column. -/
def softDelete? (r : Rules) (t : Table) : Option (SoftDelete × Column) :=
  r.softDeletes.findSome? fun s ↦ (t.column? s.column).map (s, ·)

/-- Binds the columns of those rules that satisfy `p`, in order. -/
def bindWhere (r : Rules) (p : ValueRule → Bool) (now : Timestamp) (b : Binding) : Binding :=
  (r.values.filter p).foldl (fun b v ↦ b.bindRule v.column (v.value.resolve now)) b

def bindInsert (r : Rules) (now : Timestamp) (b : Binding) : Binding :=
  r.bindWhere (·.onInsert) now b

def bindUpdate (r : Rules) (now : Timestamp) (b : Binding) : Binding :=
  r.bindWhere (·.onUpdate) now b

/-- For an upsert, every rule takes its column out of the branch that the rule is not for. -/
def bindUpsert (r : Rules) (now : Timestamp) (b : Binding) : Binding :=
  r.values.foldl (fun b v ↦ b.restrict v.column v.onInsert v.onUpdate)
    (r.bindWhere (fun v ↦ v.onInsert || v.onUpdate) now b)

/-- The values that mark a row of the table as deleted, if one of the rules does so: the mark and
what the rules give an updated row. -/
def softDeleteValues? (r : Rules) (now : Timestamp) (t : Table) : Option (List (String × Value)) :=
  (r.softDelete? t).map fun s ↦
    (s.2.name, s.1.deleted) ::
      (r.values.filter (·.onUpdate)).filterMap fun v ↦
        (t.column? v.column).map fun c ↦ (c.name, v.value.resolve now)

/-- The condition that a row of the table is not marked as deleted. -/
def readCriterion? (r : Rules) (t : Table) : Option Predicate :=
  (r.softDelete? t).map fun s ↦
    .unmarked s.2
      { Parameter.make ("@audit_" ++ s.2.property) s.1.deleted .audit with dbType := s.2.dbType }

end Rules

end SchemaSql
