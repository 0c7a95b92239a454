import SchemaSql.Fragment
import SchemaSql.Statement.Basic

/-!
How statements are written. Every value is a parameter of the fragment; the rest of the text comes
from quoted names and keywords.
-/

set_option autoImplicit false
set_option relaxedAutoImplicit false

namespace SchemaSql

open Fragment

def commaSeparated (texts : List String) : String := String.intercalate ", " texts

def columnsText (columns : List Column) : String := commaSeparated (columns.map (·.quoted))

/-- The columns, each behind the name of the row image it is taken from. -/
def imageColumnsText (image : String) (columns : List Column) : String :=
  commaSeparated (columns.map fun c ↦ image ++ c.quoted)

def parameterList (ps : List Parameter) : Fragment := join ", " (ps.map param)

def Predicate.fragment : Predicate → Fragment
  | .isNull c => text (c.quoted ++ " IS NULL")
  | .equals c p => text (c.quoted ++ " = ") ++ param p
  | .among c ps => text (c.quoted ++ " IN (") ++ parameterList ps ++ text ")"
  | .unmarked c p =>
    text ("(" ++ c.quoted ++ " <> ") ++ param p ++ text (" OR " ++ c.quoted ++ " IS NULL)")
  | .lastInserted c => text (c.quoted ++ " = LAST_INSERT_ID()")
  | .written s ps => text "(" ++ raw s ps ++ text ")"

def conjunction (criteria : List Predicate) : Fragment :=
  join " AND " (criteria.map Predicate.fragment)

def whereClause : List Predicate → Fragment
  | [] => empty
  | criteria => text " WHERE " ++ conjunction criteria

def OrderTerm.text (t : OrderTerm) : String :=
  if t.descending then t.column.quoted ++ " DESC" else t.column.quoted

def orderText (terms : List OrderTerm) : String :=
  "ORDER BY " ++ commaSeparated (terms.map OrderTerm.text)

def integerText (n : Int64) : String := toString n.toInt

def Order.clause : Order → String
  | .none => ""
  | .by terms => " " ++ orderText terms
  | .random function seed =>
    " ORDER BY " ++ function ++ "(" ++ (seed.map integerText).getD "" ++ ")"

def Projection.text : Projection → String
  | .columns cs => columnsText cs
  | .count => "COUNT(*)"
  | .countDistinct c => "COUNT(DISTINCT " ++ c.quoted ++ ")"

def Source.fragment : Source → Fragment
  | .table t => text t.quoted
  | .function t ps => text (t.quoted ++ "(") ++ parameterList ps ++ text ")"

/-- A bound amount is written in parentheses. -/
def Amount.fragment : Amount → Fragment
  | .bound p => text "(" ++ param p ++ text ")"
  | .literal n => text (integerText n)

def topClause : Option Top → Fragment
  | none => empty
  | some t =>
    text "TOP " ++ t.amount.fragment ++
      text ((if t.percent then " PERCENT" else "") ++ (if t.ties then " WITH TIES" else "") ++ " ")

def SampleUnit.text : SampleUnit → String
  | .rows => " ROWS"
  | .percent => " PERCENT"

def sampleClause : Option Sample → String
  | none => ""
  | some s =>
    " TABLESAMPLE SYSTEM (" ++ integerText s.amount ++ (s.unit.map SampleUnit.text).getD "" ++
      ")" ++ (s.seed.map fun n ↦ " REPEATABLE (" ++ integerText n ++ ")").getD ""

def parameterBetween (before : String) (p : Option Parameter) (after : String) : Fragment :=
  match p with
  | none => empty
  | some p => text before ++ param p ++ text after

def Take.clause : Take → Fragment
  | .none => empty
  | .bound p => text " LIMIT " ++ param p
  | .unlimited n => text (" LIMIT " ++ toString n)

def Window.clause : Window → Fragment
  | .none => empty
  | .limit take skip => take.clause ++ parameterBetween " OFFSET " skip ""
  | .fetch skip take ties =>
    parameterBetween " OFFSET " skip " ROWS" ++
      parameterBetween (if ties then " FETCH FIRST " else " FETCH NEXT ") take
        (if ties then " ROWS WITH TIES" else " ROWS ONLY")

def Select.fragment (s : Select) : Fragment :=
  text "SELECT " ++ topClause s.top ++ text (s.projection.text ++ " FROM ") ++
    s.source.fragment ++ text (sampleClause s.sample) ++ whereClause s.criteria ++
    text s.order.clause ++ s.window.clause ++ text ";"

def RowImage.qualifier : RowImage → String
  | .inserted => "Inserted."
  | .deleted => "Deleted."

/-- The output clause, which stands before the values or the condition. -/
def Output.early : Output → String
  | .output image columns => " OUTPUT " ++ imageColumnsText image.qualifier columns
  | _ => ""

/-- The output clause, which stands at the end. -/
def Output.late : Output → String
  | .returning columns => " RETURNING " ++ columnsText columns
  | _ => ""

/-- A column with the text of its new value; `supplied` writes the value of the row to be
inserted. -/
def assignedText (supplied : Column → String) (a : Assignment) : Fragment :=
  text (a.column.quoted ++ " = ") ++
    match a.value with
    | .parameter p => param p
    | .supplied => text (supplied a.column)
    | .unchanged => text a.column.quoted

def assignmentList (supplied : Column → String) (assignments : List Assignment) : Fragment :=
  join ", " (assignments.map (assignedText supplied))

def excludedText (c : Column) : String := "EXCLUDED." ++ c.quoted

def valuesText (c : Column) : String := "VALUES(" ++ c.quoted ++ ")"

def Conflict.verb : Conflict → String
  | .ignore => "INSERT IGNORE INTO "
  | _ => "INSERT INTO "

def Conflict.clause : Conflict → Fragment
  | .fail | .ignore => empty
  | .onKeys keys [] => text (" ON CONFLICT (" ++ columnsText keys ++ ") DO NOTHING")
  | .onKeys keys assignments =>
    text (" ON CONFLICT (" ++ columnsText keys ++ ") DO UPDATE SET ") ++
      assignmentList excludedText assignments
  | .onDuplicate assignments =>
    text " ON DUPLICATE KEY UPDATE " ++ assignmentList valuesText assignments

/-- Encloses a statement in the switch that lets identities of its target be written. -/
def announce (announced : Bool) (target : Target) (statement : Fragment) : Fragment :=
  if announced then
    text ("SET IDENTITY_INSERT " ++ target.quoted ++ " ON;\n") ++ statement ++
      text ("\nSET IDENTITY_INSERT " ++ target.quoted ++ " OFF;")
  else statement

def rowColumns (row : List Cell) : List Column := row.map (·.column)

def rowParameters (row : List Cell) : List Parameter := row.map (·.parameter)

def Insert.fragment (s : Insert) : Fragment :=
  announce s.announced s.target
    (text (s.conflict.verb ++ s.target.quoted ++ " (" ++ columnsText (rowColumns s.row) ++ ")" ++
        s.output.early ++ (if s.overriding then " OVERRIDING SYSTEM VALUE" else "") ++
        " VALUES (") ++
      parameterList (rowParameters s.row) ++ text ")" ++ s.conflict.clause ++
      text (s.output.late ++ ";"))

def Update.fragment (s : Update) : Fragment :=
  text ("UPDATE " ++ s.target.quoted ++ " SET ") ++ assignmentList (·.quoted) s.assignments ++
    text s.output.early ++ whereClause s.criteria ++ text (s.output.late ++ ";")

def Delete.fragment (s : Delete) : Fragment :=
  text ("DELETE FROM " ++ s.target.quoted ++ s.output.early) ++ whereClause s.criteria ++
    text (s.output.late ++ ";")

/-- Says that the target's value of a column is the source's. -/
def pairText (c : Column) : String := "target." ++ c.quoted ++ " = source." ++ c.quoted

def Merge.fragment (s : Merge) : Fragment :=
  announce s.announced s.target
    (text ("MERGE INTO " ++ s.target.quoted ++ " WITH (HOLDLOCK) AS target USING (VALUES (") ++
      parameterList (rowParameters s.source) ++
      text (") AS source (" ++ columnsText (rowColumns s.source) ++ ") ON " ++
        String.intercalate " AND " (s.keys.map pairText) ++
        (if s.updates.isEmpty then ""
          else " WHEN MATCHED THEN UPDATE SET " ++ commaSeparated (s.updates.map pairText)) ++
        " WHEN NOT MATCHED THEN INSERT (" ++ columnsText s.inserts ++ ") VALUES (" ++
        imageColumnsText "source." s.inserts ++ ")" ++ s.output.early ++ ";"))

/-- The text of a statement with its parameters in their places. -/
def Statement.fragment : Statement → Fragment
  | .select s => s.fragment
  | .insert s => s.fragment
  | .update s => s.fragment
  | .delete s => s.fragment
  | .merge s => s.fragment
  | .lastIdentity => text "SELECT @@IDENTITY;"
  | .call t ps => text ("CALL " ++ t.quoted ++ "(") ++ parameterList ps ++ text ");"
  | .procedure t _ => text t.quoted
  | .written s ps => raw s ps
  | .discover d q _ => text ((d.discoveryQuery? q).getD "")

end SchemaSql
