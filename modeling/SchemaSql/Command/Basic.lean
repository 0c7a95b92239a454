import SchemaSql.Command.Query
import SchemaSql.Command.Upsert
import SchemaSql.Command.Write

/-!
Commands and their preparation: the chain of statements that carries a command out in a dialect, or
the reason why there is none.
-/

set_option autoImplicit false
set_option relaxedAutoImplicit false

namespace SchemaSql

inductive Command
  | query (query : Query)
  | insert (table : Table) (argument : Argument) (options : InsertOptions)
  | update (table : Table) (argument : Argument) (options : UpdateOptions)
  /-- Updates the rows that satisfy the criteria; without criteria `allRows` must be set. -/
  | updateWhere (table : Table) (argument : Argument) (criteria : Criteria)
      (allRows returnOldValues : Bool)
  | delete (table : Table) (argument : Argument) (options : DeleteOptions)
  | deleteKeys (table : Table) (keys : List Value)
  | deleteWhere (table : Table) (criteria : Criteria) (allRows : Bool)
  | upsert (table : Table) (argument : Argument) (options : UpsertOptions)
  | procedure (procedure : Procedure) (argument : Argument)
  | written (text : String) (argument : Argument)
deriving DecidableEq

namespace Command

def binding (env : Environment) (t : Table) : Binding :=
  Binding.ofColumns t.target t.columns env.dialect env.strict

/-- Marks the columns to hand back, and says of which rows. -/
def returningFor (b : Binding) (desired : Desired) (wanted : Returning) :
    Except Error (Binding × Returning) :=
  if desired.isNone then .ok (b, .none)
  else (b.apply (Binding.applyDesired desired)).map (·, wanted)

/-- A write by key must meet its row, unless the caller does not mind. -/
def keyCheck (ignoreRowsAffected : Bool) : RowCheck :=
  if ignoreRowsAffected then .ignore else .exactlyOne

def oldOrNew (returnOldValues : Bool) : Returning := if returnOldValues then .old else .new

def requireUpdates (b : Binding) : Except Error Unit :=
  if b.hasUpdates then .ok () else .error (.mapping (.nothingToUpdate b.object))

def prepareInsert (env : Environment) (desired : Desired) (t : Table) (a : Argument)
    (o : InsertOptions) : Except Error Chain := do
  let b ← (binding env t).apply (Binding.bindArgument a false)
  let b ← if o.identityInsert then b.apply Binding.enableIdentityInsert else .ok b
  let b := env.rules.bindInsert env.now b
  let (b, returning) ← returningFor b desired .new
  WritePlan.insertChain
    { binding := b, operation := "Insert", criteria := [], byKey := false, returning
      check := .exactlyOne, identityInsert := o.identityInsert }

def prepareUpdate (env : Environment) (desired : Desired) (t : Table) (a : Argument)
    (o : UpdateOptions) : Except Error Chain := do
  let b ← (binding env t).apply (Binding.bindArgument a o.useKeyMarks)
  requireUpdates b
  let criteria ← b.keyCriteria
  let b := env.rules.bindUpdate env.now b
  let (b, returning) ← returningFor b desired (oldOrNew o.returnOldValues)
  WritePlan.updateChain
    { binding := b, operation := "Update", criteria, byKey := true, returning
      check := keyCheck o.ignoreRowsAffected, identityInsert := false }

def prepareUpdateWhere (env : Environment) (desired : Desired) (t : Table) (a : Argument)
    (criteria : Criteria) (allRows returnOldValues : Bool) : Except Error Chain := do
  if criteria.isNone && !allRows then throw (.invalidOperation (.updateAllRows t.quoted))
  let b ← (binding env t).apply (Binding.bindArgument a false)
  requireUpdates b
  let b := env.rules.bindUpdate env.now b
  let criteria ← criteria.predicates b
  let (b, returning) ← returningFor b desired (oldOrNew returnOldValues)
  WritePlan.updateChain
    { binding := b, operation := "UpdateSet", criteria, byKey := false, returning
      check := .ignore, identityInsert := false }

/-- Deletes rows, or marks them as deleted if a rule says so. Marking a row twice may be seen as
changing nothing, so then no row at all is also a success. -/
def prepareDeletion (env : Environment) (desired : Desired) (t : Table) (b : Binding)
    (criteria : List Predicate) (byKey : Bool) (check : RowCheck) : Except Error Chain := do
  let marks := env.rules.softDeleteValues? env.now t
  let b ← match marks with
    | some values => b.apply (Binding.applyUpdateValues values .audit)
    | none => .ok b
  let (b, returning) ← returningFor b desired .old
  match marks with
  | some _ =>
    WritePlan.updateChain
      { binding := b, operation := "SoftDelete", criteria, byKey, returning
        check := if check = .exactlyOne then .atMostOne else check, identityInsert := false }
  | none =>
    WritePlan.deleteChain
      { binding := b, operation := "Delete", criteria, byKey, returning, check
        identityInsert := false }

def prepareDelete (env : Environment) (desired : Desired) (t : Table) (a : Argument)
    (o : DeleteOptions) : Except Error Chain := do
  let b ← (binding env t).apply (Binding.bindArgument a o.useKeyMarks)
  let criteria ← b.keyCriteria
  prepareDeletion env desired t b criteria true (keyCheck o.ignoreRowsAffected)

def prepareDeleteKeys (env : Environment) (desired : Desired) (t : Table) (keys : List Value) :
    Except Error Chain := do
  let b := binding env t
  let criterion ← b.keyListCriterion keys
  prepareDeletion env desired t b [criterion] true
    (if keys.length = 1 then .exactlyOne else .ignore)

def prepareDeleteWhere (env : Environment) (desired : Desired) (t : Table) (criteria : Criteria)
    (allRows : Bool) : Except Error Chain := do
  if criteria.isNone && !allRows then throw (.invalidOperation (.deleteAllRows t.quoted))
  let b := binding env t
  let criteria ← criteria.predicates b
  prepareDeletion env desired t b criteria false .ignore

/-- Whether the database itself finds the row to update, by a clash of keys in an insert. -/
def findsByClash (d : Dialect) : Bool :=
  match d.upsertStrategy with
  | .onConflict | .onDuplicateKey => true
  | _ => false

def prepareUpsert (env : Environment) (desired : Desired) (t : Table) (a : Argument)
    (o : UpsertOptions) : Except Error Chain := do
  let b ← (binding env t).apply (Binding.bindArgument a o.useKeyMarks)
  let b ← if o.identityInsert then b.apply Binding.enableIdentityInsert else .ok b
  let byClash := findsByClash env.dialect
  let b ← if byClash then b.apply Binding.insertKeyValues else .ok b
  if !b.hasKeyValues then throw (.mapping (.missingUpsertKey t.quoted))
  if !b.hasInserts then throw (.mapping (.nothingToInsert t.quoted))
  let b := env.rules.bindUpsert env.now b
  let (b, returning) ← returningFor b desired .new
  WritePlan.upsertChain
    { binding := b, operation := "Upsert", criteria := [], byKey := true, returning
      check := .ignore, identityInsert := o.identityInsert || byClash }

def prepareProcedure (env : Environment) (p : Procedure) (a : Argument) : Except Error Chain := do
  let arguments ← bindRoutine p.quoted p.parameters a env.strict
  let link ← procedureLink env.dialect p arguments
  return [link]

def prepareWritten (env : Environment) (text : String) (a : Argument) : Except Error Chain := do
  let link ← Link.ofStatement env.dialect "Sql" (.written text a.toParameters)
  return [link]

/-- The chain that carries a command out and reads the desired columns. -/
def prepare (env : Environment) (desired : Desired) : Command → Except Error Chain
  | .query q => q.prepare env desired
  | .insert t a o => prepareInsert env desired t a o
  | .update t a o => prepareUpdate env desired t a o
  | .updateWhere t a c allRows old => prepareUpdateWhere env desired t a c allRows old
  | .delete t a o => prepareDelete env desired t a o
  | .deleteKeys t keys => prepareDeleteKeys env desired t keys
  | .deleteWhere t c allRows => prepareDeleteWhere env desired t c allRows
  | .upsert t a o => prepareUpsert env desired t a o
  | .procedure p a => prepareProcedure env p a
  | .written text a => prepareWritten env text a

end Command

end SchemaSql
