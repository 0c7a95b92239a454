import SchemaSql.Argument
import SchemaSql.Options
import SchemaSql.Statement.Basic

/-!
Bindings give the columns of a table their part in a request: the value a column is bound to, where
that value came from, and whether the column is inserted, updated, read or part of the key. A step
over bindings may fail midway; what it changed until then stays.
-/

set_option autoImplicit false
set_option relaxedAutoImplicit false

namespace SchemaSql

structure Entry where
  column : Column
  insert : Bool := false
  update : Bool := false
  read : Bool := false
  isKey : Bool
  value : Option Value := none
  origin : Origin := .argument
deriving DecidableEq

namespace Entry

def ofColumn (c : Column) : Entry := { column := c, isKey := c.isKey }

def isBound (e : Entry) : Bool := e.value.isSome

def parameter (e : Entry) : Parameter := e.column.parameter (e.value.getD .null) e.origin

def cell (e : Entry) : Cell := ⟨e.column, e.parameter⟩

def bind (value : Value) (origin : Origin) (e : Entry) : Entry :=
  { e with value := some value, origin }

end Entry

structure Binding where
  target : Target
  dialect : Dialect
  strict : Bool
  /-- Identity columns are inserted like others. -/
  identityInsert : Bool := false
  /-- Key columns are inserted even if the database would fill them. -/
  keyInserts : Bool := false
  /-- Key columns are updated like others. -/
  keyUpdates : Bool := false
  entries : List Entry
deriving DecidableEq

abbrev Step := EStateM Error Binding Unit

namespace Binding

def ofColumns (target : Target) (columns : List Column) (dialect : Dialect) (strict : Bool) :
    Binding :=
  { target, dialect, strict, entries := columns.map Entry.ofColumn }

def object (b : Binding) : String := b.target.quoted

/-- The binding after a step, or the error that stopped it. -/
def apply (b : Binding) (step : Step) : Except Error Binding :=
  match step b with
  | .ok _ b => .ok b
  | .error e _ => .error e

def entry? (b : Binding) (name : String) : Option Entry :=
  b.entries.find? fun e ↦ e.column.answersTo name

/-- Changes the first entry whose column answers to a name. -/
def changeFirst (name : String) (f : Entry → Entry) : List Entry → List Entry
  | [] => []
  | e :: es => if e.column.answersTo name then f e :: es else e :: changeFirst name f es

def mapEntries (f : Entry → Entry) (b : Binding) : Binding :=
  { b with entries := b.entries.map f }

/-- Changes the entry that a name means, or stops with an error if there is none. -/
def change (name : String) (f : Entry → Entry) (missing : Binding → Error) : Step := fun b ↦
  if (b.entry? name).isSome then .ok () { b with entries := changeFirst name f b.entries }
  else .error (missing b) b

/-- Like `change`, but only strict bindings mind a name that means no entry. -/
def changeIfKnown (name : String) (f : Entry → Entry) (missing : Binding → Error) : Step := fun b ↦
  if b.strict || (b.entry? name).isSome then change name f missing b else .ok () b

/-- Whether a bound column takes part in an insert. -/
def insertable (b : Binding) (e : Entry) : Bool :=
  e.column.isWritable || (b.identityInsert && e.column.isIdentity) ||
    (b.keyInserts && e.isKey && !e.column.isComputed)

/-- Whether a bound column takes part in an update. -/
def updatable (b : Binding) (e : Entry) : Bool :=
  e.column.isWritable && (!e.isKey || b.keyUpdates)

/-- The entry with the parts that its value, its key mark and the binding's choices give it. -/
def withParts (b : Binding) (e : Entry) : Entry :=
  { e with
    insert := e.isBound && b.insertable e
    update := e.isBound && b.updatable e }

def refreshed (b : Binding) : Binding := b.mapEntries b.withParts

def refresh : Step := modify refreshed

/-- Binds the column that a property names. -/
def bindProperty (useKeyMarks : Bool) (p : Property) : Step :=
  changeIfKnown p.name
    (fun e ↦
      let e := e.bind p.value .argument
      if useKeyMarks then { e with isKey := p.isKey } else e)
    fun b ↦ .mapping (.unknownProperty p.name b.object)

def bindProperties (useKeyMarks : Bool) : List Property → Step
  | [] => pure ()
  | p :: ps => do
    bindProperty useKeyMarks p
    bindProperties useKeyMarks ps

/-- Binds the columns that an argument names. With `useKeyMarks` its key marks replace the keys of
the table. -/
def bindArgument (a : Argument) (useKeyMarks : Bool) : Step := do
  let properties := a.toProperties
  if useKeyMarks then
    if properties.any (·.isKey) then modify (mapEntries fun e ↦ { e with isKey := false })
    else throw (.mapping (.noKeyMarks (← get).object))
  bindProperties useKeyMarks properties
  refresh

def enableIdentityInsert : Step := modify fun b ↦ refreshed { b with identityInsert := true }

def insertKeyValues : Step := modify fun b ↦ refreshed { b with keyInserts := true }

def allowKeyUpdates : Step := modify fun b ↦ refreshed { b with keyUpdates := true }

/-- Makes exactly the named columns the key. -/
def overrideKeys (keys : List String) : Step := do
  let b ← get
  if keys.isEmpty then throw (.invalidOperation .noKeyColumns)
  match keys.find? fun k ↦ (b.entry? k).isNone with
  | some k => throw (.mapping (.unknownKey k b.object))
  | none =>
    set (refreshed (b.mapEntries fun e ↦ { e with isKey := keys.any fun k ↦ e.column.answersTo k }))

def bindUpdates (origin : Origin) : List (String × Value) → Step
  | [] => pure ()
  | (name, value) :: rest => do
    change name (fun e ↦ { e.bind value origin with update := true })
      fun b ↦ .mapping (.unknownColumn name b.object)
    bindUpdates origin rest

/-- Updates exactly the named columns, to these values. -/
def applyUpdateValues (values : List (String × Value)) (origin : Origin) : Step := do
  modify (mapEntries fun e ↦ { e with update := false })
  bindUpdates origin values

/-- Binds the column that a rule names, if there is one. -/
def bindRule (name : String) (value : Value) (b : Binding) : Binding :=
  if (b.entry? name).isSome then
    refreshed { b with entries := changeFirst name (Entry.bind value .audit) b.entries }
  else b

/-- Takes the parts of a column away that it is not to have. -/
def restrict (name : String) (insert update : Bool) (b : Binding) : Binding :=
  { b with
    entries := changeFirst name
      (fun e ↦ { e with insert := e.insert && insert, update := e.update && update }) b.entries }

def markRead (e : Entry) : Entry := { e with read := true }

def readNamed : List String → Step
  | [] => pure ()
  | name :: names => do
    changeIfKnown name markRead fun b ↦ .mapping (.unknownDesired name b.object)
    readNamed names

/-- Marks the columns that the caller wants back. Names that mean no column are passed over, but
not if all of them do. -/
def applyDesired : Desired → Step
  | .none => pure ()
  | .all => modify (mapEntries markRead)
  | .named [] => pure ()
  | .named names => do
    readNamed names
    let b ← get
    if names.any fun n ↦ (b.entry? n).isSome then pure ()
    else throw (.mapping (.noneDesired names b.object))

end Binding

end SchemaSql
