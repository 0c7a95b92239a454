import SchemaSql.Command.Plan

/-!
Inserts, updates and deletes in the five dialects. SQL Server hands rows back in front of the values
or the condition, PostgreSQL and SQLite at the end of the statement, though never the values a row
had before an update. MySQL and Access read rows by a link of their own, before or after the one
that writes.
-/

set_option autoImplicit false
set_option relaxedAutoImplicit false

namespace SchemaSql.WritePlan

def outputInsert (p : WritePlan) : Except Error Chain := do
  let row ← p.binding.insertRow
  let write ← p.writeLink (.insert
    { target := p.target, row, output := p.output .inserted, announced := p.writesIdentity })
  return [write]

def returningInsert (p : WritePlan) : Except Error Chain := do
  let row ← p.binding.insertRow
  let write ← p.writeLink (.insert
    { target := p.target, row, output := p.returned
      overriding := p.dialect = .postgreSql && p.writesIdentity })
  return [write]

/-- The row just inserted is the one with the last generated identity, or with the inserted key. -/
def insertedCriteria (p : WritePlan) : Except Error (List Predicate) :=
  match p.binding.generatedIdentity? with
  | some identity => .ok [.lastInserted identity]
  | none => p.binding.keyCriteria

def readBackInsert (p : WritePlan) : Except Error Chain := do
  let row ← p.binding.insertRow
  let insert := Statement.insert { target := p.target, row }
  if p.returning = .none then
    return [← p.writeLink insert]
  else
    let criteria ← p.insertedCriteria
    let write ← p.writeLink insert
    let read ← p.readLink "ReadBack" criteria
    return [write.counting, read]

def identityParameter (c : Column) : Parameter :=
  { Parameter.make "@Identity" .null .key with dbType := c.dbType }

/-- Reads a generated identity by a link of its own and forwards it to the one that reads the
row. -/
def forwardingInsert (p : WritePlan) : Except Error Chain := do
  let row ← p.binding.insertRow
  let write ← p.writeLink (.insert { target := p.target, row })
  if p.returning = .none then
    return [write]
  else
    match p.binding.generatedIdentity? with
    | some identity =>
      let fetch ← Link.ofStatement p.dialect "FetchIdentity" .lastIdentity
      let read ← p.readLink "ReadBack" [.equals identity (identityParameter identity)]
      return [write.counting, { fetch with mode := .forward (some "@Identity") }, read]
    | none =>
      let criteria ← p.binding.keyCriteria
      let read ← p.readLink "ReadBack" criteria
      return [write.counting, read]

def insertChain (p : WritePlan) : Except Error Chain :=
  p.finish <$> match p.dialect with
    | .sqlServer => p.outputInsert
    | .postgreSql | .sqlite => p.returningInsert
    | .mySql => p.readBackInsert
    | .access => p.forwardingInsert

/-- The chain of a link that writes and, if rows are wanted, one that reads them by their key. -/
def readingChain (p : WritePlan) (write : Link) (verb : String) : Except Error Chain :=
  match p.returning with
  | .none => .ok [write]
  | .new =>
    if p.byKey then do
      let read ← p.readLink ("ReadAfter" ++ verb) p.criteria
      return [write.counting, read]
    else .error (.unsupported p.dialect (.filteredReturning verb))
  | .old =>
    if p.byKey then do
      let read ← p.readLink ("ReadBefore" ++ verb) p.criteria
      return [read, write.counting]
    else .error (.unsupported p.dialect (.filteredReturning verb))

def update (p : WritePlan) (output : Output) : Except Error Statement := do
  let assignments ← p.binding.assignments
  return .update { target := p.target, assignments, criteria := p.criteria, output }

def outputUpdate (p : WritePlan) : Except Error Chain := do
  let write ← p.writeLink (← p.update (p.output .inserted))
  return [write]

def returningUpdate (p : WritePlan) : Except Error Chain :=
  if p.returning = .old then do
    let s ← p.update .none
    let before ← p.readLink "ReadBeforeUpdate" p.criteria
    let write ← p.writeLink s
    return [before, write.counting]
  else do
    let write ← p.writeLink (← p.update p.returned)
    return [write]

def readingUpdate (p : WritePlan) : Except Error Chain := do
  let write ← p.writeLink (← p.update .none)
  p.readingChain write "Update"

def updateChain (p : WritePlan) : Except Error Chain :=
  p.finish <$> match p.dialect with
    | .sqlServer => p.outputUpdate
    | .postgreSql | .sqlite => p.returningUpdate
    | .mySql | .access => p.readingUpdate

def delete (p : WritePlan) (output : Output) : Statement :=
  .delete { target := p.target, criteria := p.criteria, output }

def outputDelete (p : WritePlan) : Except Error Chain := do
  let write ← p.writeLink (p.delete (p.output .deleted))
  return [write]

def returningDelete (p : WritePlan) : Except Error Chain := do
  let write ← p.writeLink (p.delete p.returned)
  return [write]

def readingDelete (p : WritePlan) : Except Error Chain := do
  let write ← p.writeLink (p.delete .none)
  p.readingChain write "Delete"

def deleteChain (p : WritePlan) : Except Error Chain :=
  p.finish <$> match p.dialect with
    | .sqlServer => p.outputDelete
    | .postgreSql | .sqlite => p.returningDelete
    | .mySql | .access => p.readingDelete

end SchemaSql.WritePlan
