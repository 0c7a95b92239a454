import Mathlib.Data.List.Nodup
import Mathlib.Data.List.Pairwise
import SchemaSql.Proofs.Catalog.Inquiries
import SchemaSql.Proofs.Catalog.Naming
import SchemaSql.Proofs.Text.Lowered
import SchemaSql.Store.Basic

/-!
The two ways of discovering what a SQLite database holds. A driver asks it about one name at a time;
a snapshot asks it for its list of objects, describes each of them once, and looks names up among
the descriptions. The database knows an object without a schema or in `main` and compares names in
ASCII letter case, while a snapshot finds a description without a schema under every schema, and
compares names in full lower case first if none is asked for. So the two report the same for names
without a schema exactly if every listed name is taken as it is and no two have the same lowercase
form, in `main` if every listed name is taken as it is, and never for another schema.
-/

set_option autoImplicit false
set_option relaxedAutoImplicit false

namespace SchemaSql

/-! ### Listed objects -/

/-- A table or view of a database, with the rows that the database answers about the columns and
indexes of the name that is taken of it. -/
structure ListedObject where
  name : String
  isTable : Bool
  columns : List (List Value)
  indexes : List (List Value)

namespace ListedObject

def taken (o : ListedObject) : ObjectName := .ofParts none o.name

def toObject (o : ListedObject) : SchemaObject := ⟨o.taken, if o.isTable then .table else .view⟩

/-- The row of the object in the list of all objects. -/
def objectRow (o : ListedObject) : List Value :=
  [.null, .text o.name, .text (if o.isTable then "TABLE" else "VIEW")]

/-- The row with which the database answers to the name of the object. -/
def tableRow (o : ListedObject) : List Value :=
  [.null, .text o.name, .int (if o.isTable then 1 else 0)]

def described (o : ListedObject) : Table :=
  .make .sqlite o.taken o.isTable (RowSet.toColumns .sqlite ⟨[], o.columns⟩)

theorem described_name (o : ListedObject) :
    o.described.name = ⟨none, ObjectName.cleaned o.name⟩ := rfl

theorem described_name_of_verbatim {o : ListedObject} (ho : ObjectName.Verbatim o.name) :
    o.described.name = ⟨none, o.name⟩ := by
  rw [described_name, (ObjectName.cleaned_eq_self_iff _).mpr ho]

end ListedObject

/-! ### What rows say -/

namespace RowSet

variable {rs : RowSet} {o : ListedObject} {os : List ListedObject}

theorem toObjects_eq (h : rs.rows = os.map ListedObject.objectRow) :
    rs.toObjects = os.map ListedObject.toObject := by
  have hkind (b : Bool) : ObjectKind.read? (if b then "TABLE" else "VIEW") =
      some (if b then .table else .view) := by
    cases b <;> decide
  rw [toObjects, toRows, h, List.map_map, List.filterMap_map, ← List.filterMap_eq_map]
  refine List.filterMap_congr fun o _ ↦ ?_
  have hread : ((Row.mk rs.columns o.objectRow).textAt? 2).bind ObjectKind.read? =
    some (if o.isTable then .table else .view) := hkind o.isTable
  have hname : (Row.mk rs.columns o.objectRow).objectName? = some o.taken := rfl
  simp only [Function.comp, hread, hname]
  rfl

theorem toTable?_of_row (h : rs.rows = [o.tableRow]) : rs.toTable? = some (o.taken, o.isTable) := by
  rw [toTable?, first?, toRows, h]
  cases hkind : o.isTable <;> simp [ListedObject.tableRow, hkind] <;> rfl

theorem toTable?_of_no_row (h : rs.rows = []) : rs.toTable? = none := by
  rw [toTable?, first?, toRows, h]
  rfl

/-- The headings of rows do not matter to what they say about columns. -/
theorem toColumns_congr (d : Dialect) {rows : List (List Value)} (h : rs.rows = rows) :
    rs.toColumns d = RowSet.toColumns d ⟨[], rows⟩ := by
  rw [toColumns, toColumns, toRows, toRows, h, List.filterMap_map, List.filterMap_map]
  rfl

end RowSet

/-! ### Databases that are not changed -/

section Describes

variable {σ : Type}

/-- In every state of a kind a question is answered with these rows, and the state is of this kind
afterwards. -/
def Connection.Answers (c : Connection σ) (unchanged : σ → Prop) (q : Discovery)
    (ps : List Parameter) (rows : List (List Value)) : Prop :=
  ∀ x, unchanged x → ∃ rs y, c.ask .sqlite q .introspection ps x = .ok rs y ∧ rs.rows = rows ∧
    unchanged y

/-- What a SQLite database with certain tables and views answers as long as nothing changes it. No
two of its objects have names that differ in ASCII letter case only. -/
structure Driver.Describes (driver : Driver σ) (unchanged : σ → Prop)
    (listed : List ListedObject) : Prop where
  opens : ∀ x, unchanged x → ∃ y, driver.openConnection x = .ok () y ∧ unchanged y
  objects : driver.connection.Answers unchanged .objects [] (listed.map ListedObject.objectRow)
  table : ∀ o ∈ listed, ∀ schema name, Text.sameAscii name o.name →
    driver.connection.Answers unchanged .table (ObjectName.mk schema name).parameters
      (if schema.all (· == "main") then [o.tableRow] else [])
  columns : ∀ o ∈ listed,
    driver.connection.Answers unchanged .columns o.taken.parameters o.columns
  indexes : ∀ o ∈ listed,
    driver.connection.Answers unchanged .indexes o.taken.parameters o.indexes
  apart : listed.Pairwise fun o o' ↦ ¬ Text.sameAscii o.name o'.name

/-- A driver and a snapshot both report a description of a name. -/
def Driver.BothReport (driver : Driver σ) (unchanged : σ → Prop) (S : Schema) (n : ObjectName)
    (t : Table) : Prop :=
  ∀ x, unchanged x → Action.answer ((driver.source .sqlite).table n) x = .ok (some t) ∧
    Action.answer (S.source.table n) x = .ok (some t)

namespace Driver.Describes

variable {driver : Driver σ} {unchanged : σ → Prop} {listed : List ListedObject}
  (h : driver.Describes unchanged listed) {x : σ} (hx : unchanged x)
include h

theorem eq_of_sameAscii {o o' : ListedObject} (ho : o ∈ listed) (ho' : o' ∈ listed)
    (hsame : Text.sameAscii o.name o'.name) : o = o' := by
  by_contra hne
  have : Std.Symm fun o o' : ListedObject ↦ ¬ Text.sameAscii o.name o'.name :=
    ⟨fun o o' hapart ↦ by rwa [Text.sameAscii_comm]⟩
  exact h.apart.forall ho ho' hne hsame

include hx

theorem ask {q : Discovery} {text : String} (hq : Dialect.sqlite.discoveryQuery? q = some text)
    {ps : List Parameter} {rows : List (List Value)}
    (hanswers : driver.connection.Answers unchanged q ps rows) :
    ∃ rs y, driver.ask .sqlite q .introspection ps x = .ok rs y ∧ rs.rows = rows ∧ unchanged y := by
  obtain ⟨y, hopen, hy⟩ := h.opens x hx
  obtain ⟨rs, z, hrun, hrows, hz⟩ := hanswers y hy
  refine ⟨rs, z, ?_, hrows, hz⟩
  simp only [Driver.ask, hq]
  exact (Connection.bind_of_ok _ hopen).trans hrun

/-- A driver describes a listed object under its name if it is asked for without a schema or in
`main`, and knows nothing of it in another schema. -/
theorem loadTable_eq {o : ListedObject} (ho : o ∈ listed) (schema : Option String) {name : String}
    (hname : Text.sameAscii name o.name) :
    ∃ y, driver.loadTable .sqlite ⟨schema, name⟩ x =
      .ok (if schema.all (· == "main") then some o.described else none) y ∧ unchanged y := by
  obtain ⟨rs, y, hrun, hrows, hy⟩ := h.ask hx rfl (h.table o ho schema name hname)
  rw [Driver.loadTable, Connection.bind_of_ok _ hrun]
  split at hrows
  · rename_i hmain
    obtain ⟨rs', z, hrun', hrows', hz⟩ := h.ask hy rfl (h.columns o ho)
    refine ⟨z, ?_, hz⟩
    rw [RowSet.toTable?_of_row hrows, if_pos hmain]
    refine (Connection.bind_of_ok _ hrun').trans ?_
    rw [RowSet.toColumns_congr .sqlite hrows']
    rfl
  · rename_i hmain
    refine ⟨y, ?_, hy⟩
    rw [RowSet.toTable?_of_no_row hrows, if_neg hmain]
    rfl

theorem loadTables_eq (os : List ListedObject) (hos : ∀ o ∈ os, o ∈ listed) (S : Schema) :
    ∃ S' y, driver.connection.loadTables .sqlite (os.map ListedObject.toObject) S x = .ok S' y ∧
      S'.tables = S.tables ++ os.map ListedObject.described ∧ unchanged y := by
  induction os generalizing S x with
  | nil => exact ⟨S, x, rfl, (List.append_nil _).symm, hx⟩
  | cons o os ih =>
    obtain ⟨ho, hos⟩ := List.forall_mem_cons.mp hos
    obtain ⟨columns, y, hcolumns, hrows, hy⟩ := h.columns o ho x hx
    obtain ⟨indexes, z, hindexes, -, hz⟩ := h.indexes o ho y hy
    have hkind : o.toObject.kind = .table ∨ o.toObject.kind = .view := by
      cases hkind : o.isTable <;> simp [ListedObject.toObject, hkind]
    have hisTable : decide (o.toObject.kind = .table) = o.isTable := by
      cases hkind : o.isTable <;> simp [ListedObject.toObject, hkind]
    obtain ⟨S', w, hrest, htables, hw⟩ := ih hz hos
      { S with
        tables := S.tables ++ [o.described]
        indexes := S.indexes ++ indexes.toIndexes o.taken }
    refine ⟨S', w, ?_, by simpa using htables, hw⟩
    rw [List.map_cons, Connection.loadTables, if_pos hkind]
    refine (Connection.bind_of_ok _ hcolumns).trans ((Connection.bind_of_ok _ hindexes).trans ?_)
    rw [hisTable, RowSet.toColumns_congr .sqlite hrows]
    exact hrest

/-- A snapshot describes every listed object. -/
theorem loadSchema_eq : ∃ S y, driver.connection.loadSchema .sqlite x = .ok S y ∧
    S.tables = listed.map ListedObject.described ∧ unchanged y := by
  obtain ⟨rs, y, hrun, hrows, hy⟩ := h.objects x hx
  obtain ⟨S, z, hload, htables, hz⟩ := h.loadTables_eq hy listed (fun _ ho ↦ ho) {}
  refine ⟨S, z, ?_, htables, hz⟩
  rw [Connection.loadSchema, Connection.bind_of_ok _ hrun, RowSet.toObjects_eq hrows, hload]

end Driver.Describes

end Describes

/-! ### Names among descriptions -/

namespace Schema

theorem lowercase_of_lookup? {α : Type} {nameOf : α → ObjectName} {items : List α} {k : ObjectName}
    {a : α} (h : lookup? nameOf items k = some a) :
    Text.lowercase (nameOf a).name = Text.lowercase k.name := by
  rw [lookup?] at h
  split at h
  · rename_i b hbears
    obtain rfl := Option.some.inj h
    have hsame := List.find?_some hbears
    exact congrArg Prod.snd ((ObjectName.same_iff _ _).mp hsame)
  · have hloosely := List.find?_some h
    rw [loosely, Bool.and_eq_true] at hloosely
    exact Text.lowercase_congr hloosely.2

theorem lookup?_of_meant {α : Type} {nameOf : α → ObjectName} {items : List α} {k : ObjectName}
    (h : ∀ a ∈ items, ¬ (nameOf a).same k) :
    lookup? nameOf items k = items.find? fun a ↦ loosely (nameOf a) k := by
  have hnone : items.find? (fun a ↦ (nameOf a).same k) = none :=
    List.find?_eq_none.mpr h
  rw [lookup?, hnone]

end Schema

theorem find?_eq_some_of_unique {α : Type} {p : α → Bool} {l : List α} {a : α} (ha : a ∈ l)
    (hp : p a) (hunique : ∀ b ∈ l, p b → b = a) : l.find? p = some a := by
  cases hfound : l.find? p with
  | none => exact absurd hp (List.find?_eq_none.mp hfound a ha)
  | some b =>
    rw [hunique b (List.mem_of_find?_eq_some hfound) (List.find?_some hfound)]

namespace Driver.Describes

section Names

variable {σ : Type} {driver : Driver σ} {unchanged : σ → Prop} {listed : List ListedObject}
  (h : driver.Describes unchanged listed) {S : Schema}
  (hS : S.tables = listed.map ListedObject.described)

/-- If an object is found under its name, then its name is taken as it is. -/
theorem verbatim_of_table? {o : ListedObject} {schema : Option String}
    (hfound : S.table? ⟨schema, o.name⟩ = some o.described) : ObjectName.Verbatim o.name := by
  have hlowercase := Schema.lowercase_of_lookup? hfound
  rw [ListedObject.described_name] at hlowercase
  exact (ObjectName.cleaned_eq_self_iff _).mp
    (Text.eq_of_lowercase_of_sublist (ObjectName.cleaned_sublist _) hlowercase)

include h hS

/-- Under every schema a snapshot finds the listed object of a name, if names are taken as they
are. -/
theorem table?_some (hverbatim : ∀ o ∈ listed, ObjectName.Verbatim o.name) {o : ListedObject}
    (ho : o ∈ listed) (schema : String) {name : String} (hname : Text.sameAscii name o.name) :
    S.table? ⟨some schema, name⟩ = some o.described := by
  have hdiffer : ∀ t ∈ S.tables, ¬ t.name.same ⟨some schema, name⟩ := by
    intro t ht hsame
    rw [hS] at ht
    obtain ⟨o', -, rfl⟩ := List.mem_map.mp ht
    have hschema := ObjectName.isNone_schema_of_same hsame
    simp [ListedObject.described_name] at hschema
  have hloosely : ∀ o' ∈ listed, Schema.loosely o'.described.name ⟨some schema, name⟩ =
      Text.sameAscii o'.name name := by
    intro o' ho'
    rw [ListedObject.described_name_of_verbatim (hverbatim o' ho')]
    rfl
  have hfound : listed.find? (fun o' ↦ Schema.loosely o'.described.name ⟨some schema, name⟩) =
      some o := by
    refine find?_eq_some_of_unique ho ?_ fun o' ho' hmeant ↦ ?_
    · rwa [hloosely o ho, Text.sameAscii_comm]
    · rw [hloosely o' ho'] at hmeant
      exact h.eq_of_sameAscii ho' ho (Text.sameAscii_trans hmeant hname)
  rw [Schema.table?, Schema.lookup?_of_meant hdiffer, hS, List.find?_map, Function.comp_def, hfound]
  rfl

/-- Without a schema a snapshot finds every listed object exactly if names are taken as they are and
differ in their lowercase forms. -/
theorem table?_none_iff :
    (∀ o ∈ listed, ∀ name, Text.sameAscii name o.name →
        S.table? ⟨none, name⟩ = some o.described) ↔
      (∀ o ∈ listed, ObjectName.Verbatim o.name) ∧
        listed.Pairwise fun o o' ↦ Text.lowercase o.name ≠ Text.lowercase o'.name := by
  have hbears (hverbatim : ∀ o ∈ listed, ObjectName.Verbatim o.name) {o : ListedObject}
      (ho : o ∈ listed) (name : String) : o.described.name.same ⟨none, name⟩ ↔
        Text.lowercase o.name = Text.lowercase name := by
    rw [ListedObject.described_name_of_verbatim (hverbatim o ho), ObjectName.same_iff]
    simp [ObjectName.folded]
  constructor
  · intro hfound
    have hverbatim : ∀ o ∈ listed, ObjectName.Verbatim o.name := fun o ho ↦
      verbatim_of_table? (hfound o ho o.name (Text.sameAscii_self _))
    refine ⟨hverbatim, ?_⟩
    have hnodup : listed.Nodup := by
      refine List.Pairwise.imp ?_ h.apart
      rintro o _ hapart rfl
      exact hapart (Text.sameAscii_self _)
    refine List.Nodup.pairwise_of_forall_ne hnodup fun o ho o' ho' hne hlowercase ↦ hne ?_
    -- Both names are borne by the same first description.
    have hmem : o.described ∈ S.tables := hS ▸ List.mem_map_of_mem ho
    obtain ⟨t, ht⟩ := Schema.bears_of_mem (fun t : Table ↦ t.name) hmem
    have hsame : o.described.name.same ⟨none, o'.name⟩ := (hbears hverbatim ho _).mpr hlowercase
    have hcongr : S.table? ⟨none, o'.name⟩ = S.table? o.described.name :=
      Schema.lookup?_congr hsame ht
    rw [hfound o' ho' _ (Text.sameAscii_self _),
      ListedObject.described_name_of_verbatim (hverbatim o ho),
      hfound o ho _ (Text.sameAscii_self _)] at hcongr
    have hnames := congrArg (fun t ↦ t.name.name) (Option.some.inj hcongr)
    simp only [ListedObject.described_name_of_verbatim (hverbatim o ho),
      ListedObject.described_name_of_verbatim (hverbatim o' ho')] at hnames
    exact h.eq_of_sameAscii ho ho' (hnames ▸ Text.sameAscii_self _)
  · rintro ⟨hverbatim, hlowercase⟩ o ho name hname
    have : Std.Symm fun o o' : ListedObject ↦ Text.lowercase o.name ≠ Text.lowercase o'.name :=
      ⟨fun _ _ hne ↦ hne.symm⟩
    have hmeans := Text.lowercase_congr hname
    have hfound : listed.find? (fun o' ↦ o'.described.name.same ⟨none, name⟩) = some o := by
      refine find?_eq_some_of_unique ho ((hbears hverbatim ho name).mpr hmeans.symm)
        fun o' ho' hsame ↦ ?_
      by_contra hne
      exact hlowercase.forall ho' ho hne (((hbears hverbatim ho' name).mp hsame).trans hmeans)
    refine Schema.lookup?_of_bears ?_
    rw [hS, List.find?_map, Function.comp_def, hfound]
    rfl

end Names

/-! ### Agreement -/

section Agreement

variable {σ : Type} {driver : Driver σ} {unchanged : σ → Prop} {listed : List ListedObject}
  (h : driver.Describes unchanged listed) {x : σ} (hx : unchanged x)
include h

theorem answer_table {o : ListedObject} (ho : o ∈ listed) (schema : Option String) {name : String}
    (hname : Text.sameAscii name o.name) {z : σ} (hz : unchanged z) :
    Action.answer ((driver.source .sqlite).table ⟨schema, name⟩) z =
      .ok (if schema.all (· == "main") then some o.described else none) := by
  obtain ⟨y, hrun, -⟩ := h.loadTable_eq hz ho schema hname
  have hsource : (driver.source .sqlite).table ⟨schema, name⟩ z = _ := hrun
  rw [Action.answer, hsource]

include hx

/-- Where the driver reports a listed object, a snapshot does too if it finds the object. -/
theorem bothReport_iff {S : Schema} {o : ListedObject} (ho : o ∈ listed) {schema : Option String}
    (hschema : schema.all (· == "main")) {name : String} (hname : Text.sameAscii name o.name) :
    driver.BothReport unchanged S ⟨schema, name⟩ o.described ↔
      S.table? ⟨schema, name⟩ = some o.described := by
  constructor
  · intro hboth
    exact Except.ok.inj (hboth x hx).2
  · intro hfound z hz
    refine ⟨?_, congrArg Except.ok hfound⟩
    rw [h.answer_table ho schema hname hz, if_pos hschema]

/-- A driver and a snapshot report the same descriptions of listed objects, whichever way their
names are written, if no schema is asked for and the listed names are taken as they are and differ
in their lowercase forms, or if `main` is asked for and the listed names are taken as they are; and
only then. In another schema the driver knows nothing, while a snapshot finds the same objects
there. -/
theorem snapshot_agrees : ∃ S y, driver.connection.loadSchema .sqlite x = .ok S y ∧ unchanged y ∧
    ((∀ o ∈ listed, ∀ name, Text.sameAscii name o.name →
        driver.BothReport unchanged S ⟨none, name⟩ o.described) ↔
      (∀ o ∈ listed, ObjectName.Verbatim o.name) ∧
        listed.Pairwise fun o o' ↦ Text.lowercase o.name ≠ Text.lowercase o'.name) ∧
    ((∀ o ∈ listed, ∀ name, Text.sameAscii name o.name →
        driver.BothReport unchanged S ⟨some "main", name⟩ o.described) ↔
      ∀ o ∈ listed, ObjectName.Verbatim o.name) ∧
    ∀ schema, schema ≠ "main" → ∀ o ∈ listed, ∀ name, Text.sameAscii name o.name →
      ∀ z, unchanged z →
        Action.answer ((driver.source .sqlite).table ⟨some schema, name⟩) z = .ok none ∧
        ((∀ o ∈ listed, ObjectName.Verbatim o.name) →
          Action.answer (S.source.table ⟨some schema, name⟩) z = .ok (some o.described)) := by
  obtain ⟨S, y, hload, hS, hy⟩ := h.loadSchema_eq hx
  refine ⟨S, y, hload, hy, ?_, ⟨?_, ?_⟩, ?_⟩
  · rw [← h.table?_none_iff hS]
    exact forall₂_congr fun o ho ↦ forall₂_congr fun name hname ↦ h.bothReport_iff hx ho rfl hname
  · intro hboth o ho
    have hname := Text.sameAscii_self o.name
    exact verbatim_of_table? ((h.bothReport_iff hx ho rfl hname).mp (hboth o ho o.name hname))
  · intro hverbatim o ho name hname
    exact (h.bothReport_iff hx ho rfl hname).mpr (h.table?_some hS hverbatim ho "main" hname)
  · intro schema hschema o ho name hname z hz
    have hother : ¬ (some schema).all (· == "main") := by simpa using hschema
    constructor
    · rw [h.answer_table ho (some schema) hname hz, if_neg hother]
    · intro hverbatim
      exact congrArg Except.ok (h.table?_some hS hverbatim ho schema hname)

end Agreement

end Driver.Describes

/-! ### A store as a database -/

namespace Store

/-- A store that is open from the start. -/
def driver : Driver Store := ⟨pure (), connection⟩

theorem askedName_parameters (s : Store) (n : ObjectName) :
    Database.askedName (s.scope n.parameters) n.parameters = n := by
  have hschema (v : Value) : (Parameter.make "@Schema" v .filter).name = "@Schema" := by rfl
  have hname (v : Value) : (Parameter.make "@Name" v .filter).name = "@Name" := by rfl
  have hvalue (name : String) (v : Value) : (Parameter.make name v .filter).value = v := by rfl
  have hapart : Text.sameAscii "@Schema" "@Name" = false := by decide
  obtain ⟨schema, name⟩ := n
  cases schema <;>
    simp [Database.askedName, ObjectName.parameters, scope, hschema, hname, hvalue, hapart,
      Text.sameAscii_self, Value.toText?]

/-- A store answers a question as its database does, which stays as it is. -/
theorem answers_of_discover {db : Database} {q : Discovery} {text : String}
    (hq : Dialect.sqlite.discoveryQuery? q = some text) {ps : List Parameter} {rs : RowSet}
    (h : ∀ s : Store, db.discover q (Database.askedName (s.scope ps) ps) = .ok rs) :
    driver.connection.Answers (fun s ↦ s.database = db) q ps rs.rows := by
  rintro s rfl
  have hrun : run (.ofDiscovery .sqlite q text ps) s =
      .ok rs (s.afterEffect { database := s.database, rows := rs }) := by
    have heffect : s.database.run (s.scope ps) (.discover .sqlite q ps) =
        .ok { database := s.database, rows := rs } := by
      rw [Database.run, if_pos rfl, h]
      rfl
    simp only [run, Call.ofDiscovery, heffect]
    rfl
  refine ⟨if rs.isEmpty then .empty else rs, _, ?_, ?_, rfl⟩
  · simp only [Connection.ask, hq]
    exact Connection.bind_of_ok _ hrun
  · by_cases hempty : rs.isEmpty
    · rw [if_pos hempty]
      exact (List.isEmpty_iff.mp hempty).symm
    · rw [if_neg hempty]

theorem answers_of_discover_name {db : Database} {q : Discovery} {text : String}
    (hq : Dialect.sqlite.discoveryQuery? q = some text) {n : ObjectName} {rs : RowSet}
    (h : db.discover q n = .ok rs) :
    driver.connection.Answers (fun s ↦ s.database = db) q n.parameters rs.rows :=
  answers_of_discover hq fun s ↦ by rw [askedName_parameters, h]

def usersDatabase : Database where
  tables := [.define ⟨none, "Users"⟩
    [{ name := "Id", typeName := "INTEGER", isKey := true }, { name := "Name", typeName := "TEXT" }]]

def listedUsers : ListedObject where
  name := "Users"
  isTable := true
  columns :=
    [[.text "Id", .text "INTEGER", .int 0, .int 1, .int 0, .int 1, .null, .null, .null],
      [.text "Name", .text "TEXT", .int 1, .int 0, .int 0, .int 0, .null, .null, .null]]
  indexes := []

theorem describes_listedUsers :
    driver.Describes (fun s ↦ s.database = usersDatabase) [listedUsers] := by
  have htable (schema : Option String) {name : String} (hname : Text.sameAscii name "Users") :
      ∃ rs, usersDatabase.discover .table ⟨schema, name⟩ = .ok rs ∧
        rs.rows = if schema.all (· == "main") then [listedUsers.tableRow] else [] := by
    have hdesignates : (ObjectName.mk schema name).designates ⟨none, "Users"⟩ =
        schema.all (· == "main") := by
      cases schema <;> simp [ObjectName.designates, hname]
    have hview : usersDatabase.view? ⟨schema, name⟩ = none := rfl
    cases hmain : schema.all (· == "main") with
    | true =>
      rw [hmain] at hdesignates
      have hfound : usersDatabase.table? ⟨schema, name⟩ = usersDatabase.tables.head? :=
        List.find?_cons_of_pos hdesignates
      refine ⟨_, by rw [Database.discover, hfound, hview]; rfl, rfl⟩
    | false =>
      rw [hmain] at hdesignates
      have hmissing : usersDatabase.table? ⟨schema, name⟩ = none :=
        List.find?_cons_of_neg (Bool.eq_false_iff.mp hdesignates)
      refine ⟨_, by rw [Database.discover, hmissing, hview], rfl⟩
  have hcolumns : usersDatabase.discover .columns listedUsers.taken =
      .ok ⟨["column_name", "type_name", "is_nullable", "is_identity", "is_computed",
        "is_primary_key", "max_length", "precision", "scale"], listedUsers.columns⟩ := by
    decide
  have hindexes : usersDatabase.discover .indexes listedUsers.taken =
      .ok ⟨["index_name", "is_unique", "is_primary_key", "column_name", "is_descending"],
        listedUsers.indexes⟩ := by
    decide
  constructor
  case opens => exact fun s hs ↦ ⟨s, rfl, hs⟩
  case objects => exact answers_of_discover (q := .objects) rfl fun s ↦ rfl
  case table =>
    rintro o ho schema name hname
    obtain rfl := List.mem_singleton.mp ho
    obtain ⟨rs, hrs, hrows⟩ := htable schema hname
    rw [← hrows]
    exact answers_of_discover_name rfl hrs
  case columns =>
    rintro o ho
    obtain rfl := List.mem_singleton.mp ho
    exact answers_of_discover_name rfl hcolumns
  case indexes =>
    rintro o ho
    obtain rfl := List.mem_singleton.mp ho
    exact answers_of_discover_name rfl hindexes
  case apart => exact List.pairwise_singleton _ _

theorem verbatim_listedUsers : ∀ o ∈ [listedUsers], ObjectName.Verbatim o.name := by
  intro o ho
  obtain rfl := List.mem_singleton.mp ho
  decide

/-- A table is reported alike without a schema, and a snapshot alone reports it in a schema that the
database does not have. -/
theorem snapshot_of_users : ∃ S y,
    driver.connection.loadSchema .sqlite { database := usersDatabase } = .ok S y ∧
    (∀ name, Text.sameAscii name "Users" → driver.BothReport (fun s ↦ s.database = usersDatabase) S
      ⟨none, name⟩ listedUsers.described) ∧
    Action.answer ((driver.source .sqlite).table ⟨some "shop", "Users"⟩) y = .ok none ∧
    Action.answer (S.source.table ⟨some "shop", "Users"⟩) y = .ok (some listedUsers.described) := by
  have hx : ({ database := usersDatabase } : Store).database = usersDatabase := rfl
  obtain ⟨S, y, hload, hy, hnone, -, hother⟩ :=
    Driver.Describes.snapshot_agrees describes_listedUsers hx
  obtain ⟨hdriver, hsnapshot⟩ := hother "shop" (by decide) listedUsers List.mem_cons_self "Users"
    (Text.sameAscii_self _) y hy
  refine ⟨S, y, hload, ?_, hdriver, hsnapshot verbatim_listedUsers⟩
  exact hnone.mpr ⟨verbatim_listedUsers, List.pairwise_singleton _ _⟩ listedUsers
    List.mem_cons_self

/-- A driver and a snapshot do not agree about every name of a listed object: in a schema that the
database does not have, only the snapshot reports the table. -/
theorem driver_not_like_snapshot : ¬ ∀ (σ : Type) (driver : Driver σ) (unchanged : σ → Prop)
    (listed : List ListedObject), driver.Describes unchanged listed → ∀ x, unchanged x →
      ∀ S y, driver.connection.loadSchema .sqlite x = .ok S y →
        ∀ o ∈ listed, ∀ n : ObjectName, Text.sameAscii n.name o.name →
          Action.answer ((driver.source .sqlite).table n) y = Action.answer (S.source.table n) y := by
  intro hagree
  have hx : ({ database := usersDatabase } : Store).database = usersDatabase := rfl
  obtain ⟨S, y, hload, hS, hy⟩ := describes_listedUsers.loadSchema_eq hx
  have hmem : listedUsers ∈ [listedUsers] := List.mem_cons_self
  have hname : Text.sameAscii "Users" listedUsers.name := Text.sameAscii_self _
  have hsame := hagree Store driver _ _ describes_listedUsers _ hx S y hload listedUsers hmem
    ⟨some "shop", "Users"⟩ hname
  rw [describes_listedUsers.answer_table hmem (some "shop") hname hy] at hsame
  have hfound : S.table? ⟨some "shop", "Users"⟩ = some listedUsers.described :=
    describes_listedUsers.table?_some hS verbatim_listedUsers hmem "shop" hname
  have hnone : none = S.table? ⟨some "shop", "Users"⟩ := Except.ok.inj hsame
  rw [hfound] at hnone
  cases hnone

end Store

end SchemaSql
