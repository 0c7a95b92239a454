import SchemaSql.Store.Basic

/-!
Databases described by JSON documents. A description lists tables with their columns and rows, then
indexes, views and the tables to drop again, and they are made in that order. A value that JSON has
no form for is an object with one member: the bits of a float, the bytes of binary data or the parts
of a time.
-/

set_option autoImplicit false
set_option relaxedAutoImplicit false

namespace SchemaSql

namespace Json

/-- A missing member stands for null. -/
def member (j : Json) (name : String) : Json := (j.field? name).getD .null

def items : Json → List Json
  | .array items => items
  | _ => []

/-- A missing item stands for null. -/
def item (j : Json) (i : Nat) : Json := j.items[i]?.getD .null

def text? : Json → Option String
  | .text s => some s
  | _ => none

def integer? : Json → Option Int
  | .number (.integer n) => some n
  | _ => none

/-- A missing flag is off. -/
def isTrue : Json → Bool
  | .bool b => b
  | _ => false

def hexNumber (digits : List Char) : Nat :=
  digits.foldl (fun n c ↦ n * 16 + (hexDigit? c).getD 0) 0

/-- The bytes that pairs of hexadecimal digits stand for. -/
def hexBytes : List Char → List UInt8
  | a :: b :: rest => UInt8.ofNat (hexNumber [a, b]) :: hexBytes rest
  | _ => []

end Json

namespace Value

def ofDescription? : Json → Option Value
  | .null => some .null
  | .bool b => some (.bool b)
  | .text s => some (.text s)
  | .number (.integer n) => some (.int (Int64.ofInt n))
  | .object [("float", .text bits)] => some (.float ⟨UInt64.ofNat (Json.hexNumber bits.toList)⟩)
  | .object [("blob", .text bytes)] => some (.blob (Json.hexBytes bytes.toList))
  | .object [("timestamp", .array parts)] =>
    match parts.mapM Json.integer? with
    | some [year, month, day, hour, minute, second, nanosecond] =>
      some (.timestamp ⟨year, month.toNat, day.toNat, hour.toNat, minute.toNat, second.toNat,
        nanosecond.toNat⟩)
    | _ => none
  | _ => none

def describe : Value → Json
  | .null => .null
  | .bool b => .bool b
  | .int n => Json.ofInt n.toInt
  | .float x => .object [("float", .text (Json.hexText 16 x.bits.toNat))]
  | .text s => .text s
  | .blob bytes =>
    .object [("blob", .text (String.join (bytes.map fun b ↦ Json.hexText 2 b.toNat)))]
  | .timestamp t =>
    .object [("timestamp", .array ([t.year, t.month, t.day, t.hour, t.minute, t.second,
      t.nanosecond].map Json.ofInt))]

end Value

namespace Store

/-- The name that a description gives an object. -/
def describedName (j : Json) : Option ObjectName := j.text?.map fun name ↦ ⟨none, name⟩

def describedColumn (j : Json) : Option ColumnDefinition := do
  return {
    name := ← (j.member "name").text?
    typeName := ((j.member "type").text?).getD ""
    isKey := (j.member "pk").isTrue
    notNull := (j.member "not_null").isTrue
    isUnique := (j.member "unique").isTrue
    computed := (j.member "computed").integer?.map Int64.ofInt }

def orRefuse {α : Type} : Option α → Refusable α
  | some a => .ok a
  | none => .error .notUnderstood

/-- Adds a row that has a value for every column that is not computed. -/
def insertDescribed (t : StoredTable) (row : Json) : Refusable StoredTable := do
  let values ← orRefuse (row.items.mapM Value.ofDescription?)
  let names := (t.columns.filter (·.computed.isNone)).map (·.name)
  let v ← t.propose fun n ↦ ((names.zip values).lookup n).getD .null
  let (t, _) ← t.add v
  return t

def describedTable (j : Json) : Refusable StoredTable := do
  let name ← orRefuse (describedName (j.member "name"))
  let columns ← orRefuse ((j.member "columns").items.mapM describedColumn)
  (j.member "rows").items.foldlM insertDescribed (StoredTable.define name columns)

def addDescribedIndex (db : Database) (j : Json) : Refusable Database := do
  let t ← db.requireTable (← orRefuse (describedName (j.member "table")))
  let columns ← orRefuse ((j.member "columns").items.mapM fun c ↦
    (c.item 0).text?.map fun name ↦ (⟨name, (c.item 1).isTrue⟩ : IndexColumn))
  let t := t.addIndex (((j.member "name").text?).getD "") (j.member "unique").isTrue columns
  t.checkDistinct t.rows
  return db.withTable t

def describedView (j : Json) : Option StoredView := do
  return ⟨← describedName (j.member "name"), ← describedName (j.member "table"),
    ← (j.member "columns").items.mapM Json.text?⟩

/-- Makes in a store what a description asks for. -/
def build (s : Store) (description : Json) : Refusable Store := do
  let tables ← (description.member "tables").items.mapM describedTable
  let views ← orRefuse ((description.member "views").items.mapM describedView)
  let db := tables.foldl Database.create s.database
  let db ← (description.member "indexes").items.foldlM addDescribedIndex db
  let db := views.foldl Database.createView db
  let dropped ← orRefuse ((description.member "drop").items.mapM describedName)
  return { s with
    database := dropped.foldl Database.drop db
    changed := if tables.any fun t ↦ !t.rows.isEmpty then 1 else s.changed }

/-- The database that the text of a description stands for. -/
def readDescription (text : String) : Refusable Database := do
  let s ← build {} (← orRefuse (Json.read? text))
  return s.database

end Store

end SchemaSql
