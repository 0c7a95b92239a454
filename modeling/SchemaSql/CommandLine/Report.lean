import SchemaSql.CommandLine.Invocation
import SchemaSql.DataSource
import SchemaSql.Store.Basic

/-!
What the program prints: the tables of a database, the columns and indexes of one, the statements
that a command is carried out by, or the rows of a query. A request that fails prints nothing but
its complaint.
-/

set_option autoImplicit false
set_option relaxedAutoImplicit false

namespace SchemaSql

/-- The exit code, the printed lines, and what is said of a failure. -/
structure Report where
  code : Nat
  lines : List String := []
  complaint : Option String := none
deriving DecidableEq

/-- Work on a store and what is known of it, with the complaint when it fails. -/
abbrev Work := EStateM String (Catalog Store × Store)

namespace Work

def ofExcept {α : Type} : Except Error α → Work α
  | .ok a => return a
  | .error e => throw e.message

def ofLookup {α : Type} (a : Lookup Store α) : Work α := fun s ↦
  match a s with
  | .ok x s => .ok x s
  | .error e s => .error e.message s

end Work

namespace Report

def padded (width : Nat) (text : String) : String :=
  text ++ String.ofList (List.replicate (width - text.length) ' ')

def rule : String := String.ofList (List.replicate 60 '-')

def objectLine (o : SchemaObject) : String := o.name.display ++ " " ++ o.kind.describe

def columnFlags (c : Column) : List String :=
  (if c.isKey then ["primary key"] else []) ++ (if c.isIdentity then ["identity"] else []) ++
    (if c.isComputed then ["computed"] else []) ++ (if c.nullable then [] else ["not null"])

def columnLine (c : Column) : String :=
  " " ++ padded 30 c.name ++ " " ++ padded 15 c.typeName ++ " " ++
    String.intercalate ", " (columnFlags c)

def indexLine (i : Index) : String :=
  " " ++ (if i.isUnique then "unique " else "") ++ "index " ++ i.name ++ " (" ++
    String.intercalate ", " (i.columns.map (·.name)) ++ ")"

def parameterLine (p : Parameter) : String := "--   " ++ p.name ++ " = " ++ p.value.literal

def linkLines (l : Link) (i : Nat) : List String :=
  ["-- " ++ toString (i + 1) ++ ": " ++ l.operation, l.text] ++ l.parameters.map parameterLine

def rowLine (values : List Value) : String := String.intercalate " | " (values.map Value.literal)

def rowSetLines (rs : RowSet) : List String :=
  (if rs.columns.isEmpty then [] else [String.intercalate " | " rs.columns, rule]) ++
    rs.rows.map rowLine ++ ["(" ++ toString rs.size ++ " rows)"]

end Report

namespace Request

def argument (json : String) : Work Argument :=
  match Json.read? json with
  | some j => Work.ofExcept (Argument.ofJson j)
  | none => throw "parsing JSON argument"

def command (operation : Operation) (t : Table) (a : Argument) : Command :=
  match operation with
  | .select => .query { Query.ofTable t with criteria := .filter a false }
  | .insert => .insert t a {}
  | .update => .update t a {}
  | .delete => .delete t a {}
  | .upsert => .upsert t a {}

def desired (operation : Operation) (returning : List String) : Desired :=
  if !returning.isEmpty then .named returning
  else if operation = .select then .all
  else .none

def dataSource (s : Settings) : Work (DataSource Store) := return ⟨(← get).1, s, {}⟩

def lines (s : Settings) : Request → Work (List String)
  | .tables => return (← Work.ofLookup Catalog.objects).map Report.objectLine
  | .describe table => do
    let t ← Work.ofLookup (Catalog.table table)
    let indexes ← Work.ofLookup (Catalog.indexes table)
    return [t.quoted, Report.rule] ++ t.columns.map Report.columnLine ++
      indexes.map Report.indexLine
  | .preview operation table json returning => do
    let a ← argument json
    let t ← Work.ofLookup (Catalog.table table)
    let chain ← Work.ofExcept
      ((← dataSource s).prepare default (command operation t a) (desired operation returning))
    return (chain.mapIdx fun i l ↦ Report.linkLines l i).flatten
  | .query table filter sorting take skip => do
    let t ← Work.ofLookup (Catalog.table table)
    let criteria ← match filter with
      | none => pure Criteria.none
      | some json => (Criteria.filter · false) <$> argument json
    let sorting ← Work.ofExcept (sorting.mapM SortTerm.parse)
    let limits : Limits :=
      if take.isSome || skip.isSome then { option := .rows, skip, take } else {}
    let command := Command.query { Query.ofTable t with criteria, sorting, limits }
    let ds ← dataSource s
    match ← Work.ofLookup (Catalog.ask fun _ ↦
        ds.executeOver Store.connection default command (.rows .all)) with
    | .rows rs => return Report.rowSetLines rs
    | _ => return []

end Request

namespace Invocation

/-- The settings of a run, given the text of the settings file if there is one. -/
def settings (i : Invocation) (text : Option String) : Except Error Settings :=
  match text with
  | none => .ok (if i.strict then Settings.withStrict {} true else {})
  | some text =>
    match Settings.read? text with
    | some s => .ok (if i.strict then s.withStrict true else s)
    | none => .error .settings

/-- The lines of a run over the store that its database names, or the complaint. -/
def lines (i : Invocation) (settingsText : Option String) (store : Except Error Store) :
    Except String (List String) := do
  let complain {α : Type} (a : Except Error α) : Except String α := a.mapError Error.message
  let s ← complain (i.settings settingsText)
  let state ← complain (Store.openCatalog s (← complain store))
  match i.request.lines s state with
  | .ok lines _ => .ok lines
  | .error complaint _ => .error complaint

def report (i : Invocation) (settingsText : Option String) (store : Except Error Store) : Report :=
  match i.lines settingsText store with
  | .ok lines => { code := 0, lines }
  | .error complaint => { code := 1, complaint := some ("Error: " ++ complaint) }

end Invocation

/-- The report on a command line that has no meaning. -/
def Report.misused : Report where
  code := 2
  complaint :=
    some "usage: tables | describe TABLE | preview OPERATION TABLE | query TABLE"

end SchemaSql
