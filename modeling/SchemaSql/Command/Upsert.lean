import SchemaSql.Command.Plan

/-!
Upserts in the five dialects: a merge, an insert that resolves a clash of keys, or an update that an
insert follows if it has met no row.
-/

set_option autoImplicit false
set_option relaxedAutoImplicit false

namespace SchemaSql.WritePlan

def mergeUpsert (p : WritePlan) : Except Error Chain := do
  let b := p.binding
  let write ← p.writeLink (.merge
    { target := p.target
      source := b.boundCells
      keys := b.keyColumns
      updates := b.updateColumns
      inserts := b.insertColumns
      announced := p.writesIdentity
      output := p.output .inserted })
  return [write]

/-- The columns that an upsert updates. So that a row can be handed back it must be updated; if
nothing else is, its key is, to the value it has. -/
def upsertColumns (p : WritePlan) : List Column :=
  if p.binding.hasUpdates then p.binding.updateColumns
  else if p.returning = .none then []
  else p.binding.keyColumns

def onConflictUpsert (p : WritePlan) : Except Error Chain := do
  let row ← p.binding.insertRow
  let write ← p.writeLink (.insert
    { target := p.target, row
      conflict := .onKeys p.binding.keyColumns (p.upsertColumns.map fun c ↦ ⟨c, .supplied⟩)
      overriding := p.dialect = .postgreSql && p.writesIdentity
      output := p.returned })
  return [write]

def duplicateConflict (p : WritePlan) : Conflict :=
  match p.upsertColumns with
  | [] => .ignore
  | columns =>
    .onDuplicate (columns.map fun c ↦ ⟨c, if p.binding.hasUpdates then .supplied else .unchanged⟩)

def onDuplicateUpsert (p : WritePlan) : Except Error Chain := do
  let row ← p.binding.insertRow
  let insert := Statement.insert { target := p.target, row, conflict := p.duplicateConflict }
  if p.returning = .none then
    return [← p.writeLink insert]
  else if p.binding.hasKeyValues then
    let criteria ← p.binding.keyCriteria
    let write ← p.writeLink insert
    let read ← p.readLink "ReadBack" criteria
    return [write.counting, read]
  else
    throw (.mapping (.missingReturnedKey p.binding.object))

/-- The assignments of an upsert's update; it must have some to find out whether the row exists. -/
def presenceAssignments (p : WritePlan) : Except Error (List Assignment) :=
  if p.binding.hasUpdates then p.binding.assignments
  else .ok (p.binding.keyColumns.map fun c ↦ ⟨c, .unchanged⟩)

def updateThenInsertUpsert (p : WritePlan) : Except Error Chain := do
  let b := p.binding
  let criteria ← b.keyCriteria
  let assignments ← p.presenceAssignments
  let update ← Link.ofStatement p.dialect "UpsertUpdate"
    (.update { target := p.target, assignments, criteria })
  let row ← b.insertRow
  let insert ← Link.ofStatement p.dialect "UpsertInsert" (.insert { target := p.target, row })
  let insert := { insert with condition := .previousAffectedNone }
  if p.returning = .none then
    return [update.counting, insert]
  else if b.hasKeyValues then
    let read ← p.readLink "ReadBack" criteria
    return [update.counting, insert.counting, read]
  else
    throw (.mapping (.missingReturnedKey b.object))

def upsertChain (p : WritePlan) : Except Error Chain :=
  p.finish <$> match p.dialect.upsertStrategy with
    | .merge => p.mergeUpsert
    | .onConflict => p.onConflictUpsert
    | .onDuplicateKey => p.onDuplicateUpsert
    | .updateThenInsert => p.updateThenInsertUpsert

end SchemaSql.WritePlan
