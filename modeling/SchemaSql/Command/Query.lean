import SchemaSql.Command.Criteria
import SchemaSql.Command.Routine
import SchemaSql.Rules

/-!
Queries on a table or table function: which rows, in which order, how many of them, or only their
number. A limit that a dialect cannot express is an error, never a weaker limit.
-/

set_option autoImplicit false
set_option relaxedAutoImplicit false

namespace SchemaSql

/-- What a request is prepared with besides its own parts. -/
structure Environment where
  dialect : Dialect
  strict : Bool := false
  rules : Rules := {}
  now : Timestamp := default
deriving DecidableEq

inductive Aggregate
  | count
  | countDistinct (column : String)
deriving DecidableEq

inductive QuerySource
  | table (table : Table)
  | function (function : TableFunction) (argument : Argument)
deriving DecidableEq

namespace QuerySource

def columns : QuerySource → List Column
  | .table t => t.columns
  | .function f _ => f.columns

def target : QuerySource → Target
  | .table t => t.target
  | .function f _ => f.target

def resolve (env : Environment) : QuerySource → Except Error Source
  | .table t => .ok (.table t.target)
  | .function f argument => do
    let ps ← bindRoutine f.quoted f.parameters argument env.strict
    functionSource env.dialect f ps

/-- Rows marked as deleted are left out; a function has no such marks. -/
def readCriterion? (rules : Rules) : QuerySource → Option Predicate
  | .table t => rules.readCriterion? t
  | .function .. => none

end QuerySource

structure Query where
  source : QuerySource
  criteria : Criteria := .none
  keys : Option (List Value) := none
  sorting : List SortTerm := []
  limits : Limits := {}
  aggregate : Option Aggregate := none
  includeDeleted : Bool := false
deriving DecidableEq

namespace Limits

def takeParameter (l : Limits) : Option Parameter :=
  l.take.map fun n ↦ Parameter.make "@fetch_row_count" (.int n) .paging

def skipParameter (l : Limits) : Option Parameter :=
  if l.hasSkip then l.skip.map fun n ↦ Parameter.make "@offset_row_count" (.int n) .paging else none

/-- Whether the number of rows to take and to skip make sense at all. -/
def checkCounts (l : Limits) : Except Error Unit :=
  if l.take.any (· ≤ 0) then .error (.invalidOperation .takeNotPositive)
  else if l.skip.any (· < 0) then .error (.invalidOperation .skipNegative)
  else .ok ()

def checkOption (d : Dialect) (l : Limits) : Except Error Unit :=
  let o := l.effective
  if !d.supportsLimit o then .error (.unsupported d (.limit o))
  else if o != .none && o != .rows && l.take.isNone then
    .error (.invalidOperation (.takeMissing o))
  else .ok ()

/-- Whether rows can be skipped under a limit. -/
def pageable (d : Dialect) (o : LimitOption) : Bool :=
  o == .rows || (o == .rowsWithTies && d == .postgreSql)

def checkSkip (d : Dialect) (sorted : Bool) (l : Limits) : Except Error Unit :=
  if !l.hasSkip then .ok ()
  else if !d.supportsSkip then .error (.unsupported d .skip)
  else if !pageable d l.effective then .error (.unsupported d (.skipWith l.effective))
  else if d.orderedPagination && !sorted then .error (.invalidOperation .skipUnsorted)
  else .ok ()

def checkSeed (d : Dialect) (l : Limits) : Except Error Unit :=
  if l.seed.isNone then .ok ()
  else if !l.effective.isRandomSample then .error (.invalidOperation .seedWithoutSample)
  else if !d.supportsSeed then .error (.unsupported d .seed)
  else .ok ()

def checkSample (sorted : Bool) (l : Limits) : Except Error Unit :=
  if l.effective.isRandomSample && sorted then .error (.invalidOperation .sortedSample) else .ok ()

def check (d : Dialect) (sorted : Bool) (l : Limits) : Except Error Unit := do
  l.checkCounts
  l.checkOption d
  l.checkSkip d sorted
  l.checkSeed d
  l.checkSample sorted

/-- The front part of the rows that a query keeps, in dialects that say so at the head. Of the two
forms for a number of rows SQL Server uses the other one when rows are skipped. -/
def top (d : Dialect) (l : Limits) : Option Top :=
  match d with
  | .sqlServer =>
    let amount := l.takeParameter.map Amount.bound
    match l.effective with
    | .rows => if l.hasSkip then none else amount.map (⟨·, false, false⟩)
    | .percentage => amount.map (⟨·, true, false⟩)
    | .rowsWithTies => amount.map (⟨·, false, true⟩)
    | .percentageWithTies => amount.map (⟨·, true, true⟩)
    | _ => none
  | .access =>
    let amount := l.take.map Amount.literal
    match l.effective with
    | .rows => amount.map (⟨·, false, false⟩)
    | .percentage => amount.map (⟨·, true, false⟩)
    | _ => none
  | _ => none

/-- The random part of a table that a query reads. -/
def sample (d : Dialect) (l : Limits) : Option Sample :=
  let amount := l.take.getD 0
  match d, l.effective with
  | .sqlServer, .randomSampleRows => some ⟨amount, some .rows, l.seed⟩
  | .sqlServer, .randomSamplePercentage => some ⟨amount, some .percent, l.seed⟩
  | .postgreSql, .randomSamplePercentage => some ⟨amount, none, l.seed⟩
  | _, _ => none

/-- The order of a query: the caller's, or a random one where that makes a sample. -/
def order (d : Dialect) (terms : List OrderTerm) (l : Limits) : Order :=
  match d, l.effective with
  | .mySql, .randomSampleRows => .random "RAND" l.seed
  | .sqlite, .randomSampleRows => .random "RANDOM" none
  | _, _ => if terms.isEmpty then .none else .by terms

/-- The number of rows to take; where rows can be skipped only by also taking some, all are. -/
def takeOrAll (all : Int) (l : Limits) : Take :=
  match l.takeParameter with
  | some p => .bound p
  | none => if l.hasSkip then .unlimited all else .none

def window (d : Dialect) (l : Limits) : Window :=
  match d, l.effective with
  | .sqlServer, .rows =>
    if l.hasSkip then .fetch l.skipParameter l.takeParameter false else .none
  | .postgreSql, .rows =>
    .limit ((l.takeParameter.map Take.bound).getD .none) l.skipParameter
  | .postgreSql, .rowsWithTies => .fetch l.skipParameter l.takeParameter true
  | .mySql, .rows | .mySql, .randomSampleRows =>
    .limit (l.takeOrAll 18446744073709551615) l.skipParameter
  | .sqlite, .rows => .limit (l.takeOrAll (-1)) l.skipParameter
  | .sqlite, .randomSampleRows =>
    .limit ((l.takeParameter.map Take.bound).getD .none) none
  | _, _ => .none

end Limits

namespace Query

def ofTable (t : Table) : Query := { source := .table t }

def object (q : Query) : String := q.source.target.quoted

/-- The terms that a query is sorted by. A limit with ties falls back on the key. -/
def orderTerms (env : Environment) (b : Binding) (q : Query) : Except Error (List OrderTerm) := do
  let sorted := !q.sorting.isEmpty
  let o := q.limits.effective
  q.limits.check env.dialect sorted
  let terms ← b.orderTerms q.sorting
  if !sorted && env.dialect.requiresSorting o then
    if env.strict then throw (.invalidOperation (.unsorted o))
    else
      match b.keyOrder? with
      | some terms => return terms
      | none => throw (.invalidOperation (.unsortedKeyless o q.object))
  else
    return terms

def aggregateProjection (env : Environment) (b : Binding) (limits : Limits) (a : Aggregate) :
    Except Error Projection :=
  if limits ≠ {} then .error (.invalidOperation .limitedAggregate)
  else
    match a with
    | .count => .ok .count
    | .countDistinct name =>
      if !env.dialect.supportsCountDistinct then .error (.unsupported env.dialect .countDistinct)
      else
        match b.entry? name with
        | some e => .ok (.countDistinct e.column)
        | none => .error (.mapping (.unknownColumn name b.object))

/-- The columns that a query reads: the wanted ones, or all of them. -/
def readColumns (b : Binding) (desired : Desired) : Except Error Binding :=
  b.apply (Binding.applyDesired (if desired.isNone then .all else desired))

/-- Everything that restricts the rows. -/
def predicates (env : Environment) (b : Binding) (q : Query) : Except Error (List Predicate) := do
  let criteria ← q.criteria.predicates b
  let keys ← match q.keys with
    | some keys => (b.keyListCriterion keys).map ([·])
    | none => .ok []
  let unmarked := if q.includeDeleted then none else q.source.readCriterion? env.rules
  return criteria ++ keys ++ unmarked.toList

/-- The statement's head: what is read, in which order, under which limits. -/
def plan (env : Environment) (desired : Desired) (b : Binding) (q : Query) :
    Except Error (Projection × List OrderTerm × Limits × Binding) :=
  match q.aggregate with
  | some a => (aggregateProjection env b q.limits a).map fun p ↦ (p, [], {}, b)
  | none => do
    let b ← readColumns b desired
    if !b.hasReads then throw (.mapping (.nothingToRead q.object))
    let terms ← q.orderTerms env b
    return (.columns b.readColumns, terms, q.limits, b)

def operation (q : Query) : String := if q.aggregate.isSome then "Count" else "Select"

def statement (env : Environment) (desired : Desired) (q : Query) : Except Error Statement := do
  let d := env.dialect
  let b := Binding.ofColumns q.source.target q.source.columns d env.strict
  let (projection, terms, limits, b) ← q.plan env desired b
  let source ← q.source.resolve env
  let criteria ← q.predicates env b
  return .select
    { projection, source, criteria
      top := limits.top d
      sample := limits.sample d
      order := limits.order d terms
      window := limits.window d }

def prepare (env : Environment) (desired : Desired) (q : Query) : Except Error Chain := do
  let s ← q.statement env desired
  let link ← Link.ofStatement env.dialect q.operation s
  return [link]

end Query

end SchemaSql
