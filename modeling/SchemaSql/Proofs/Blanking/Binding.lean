import SchemaSql.Command.Plan
import SchemaSql.Proofs.Binding.Steps
import SchemaSql.Proofs.Blanking.Statement
import SchemaSql.Rules

/-!
Bindings and rules without their values. Which columns a step binds, inserts, updates or reads, and
why it fails, does not depend on values, so blanking before a step is blanking after it.
-/

set_option autoImplicit false
set_option relaxedAutoImplicit false

namespace SchemaSql

def Property.blank (p : Property) : Property := { p with value := .null }

def Argument.blank : Argument → Argument
  | .none => .none
  | .properties ps => .properties (ps.map Property.blank)
  | .parameters ps => .parameters (ps.map Parameter.blank)

def Entry.blank (e : Entry) : Entry := { e with value := e.value.map fun _ ↦ .null }

def Binding.blank (b : Binding) : Binding := { b with entries := b.entries.map Entry.blank }

/-- All values of rules become null, also those that are the time of preparation. -/
def ValueRule.blank (r : ValueRule) : ValueRule := { r with value := .fixed .null }

def SoftDelete.blank (s : SoftDelete) : SoftDelete := { s with deleted := .null }

def Rules.blank (r : Rules) : Rules where
  softDeletes := r.softDeletes.map SoftDelete.blank
  values := r.values.map ValueRule.blank

theorem Argument.toProperties_blank (a : Argument) :
    a.blank.toProperties = a.toProperties.map Property.blank := by
  cases a with
  | none => rfl
  | properties ps => rfl
  | parameters ps =>
    simp only [blank, toProperties, List.map_map]
    rfl

theorem Argument.toParameters_blank (a : Argument) :
    a.blank.toParameters = a.toParameters.map Parameter.blank := by
  cases a with
  | none => rfl
  | parameters ps => rfl
  | properties ps =>
    simp only [blank, toParameters, List.map_map]
    rfl

/-! ### Entries -/

namespace Entry

theorem isBound_blank (e : Entry) : e.blank.isBound = e.isBound := by
  simp [blank, isBound]

theorem column_blank (e : Entry) : e.blank.column = e.column := rfl

theorem parameter_blank (e : Entry) : e.blank.parameter = e.parameter.blank := by
  rcases e with ⟨column, insert, update, read, isKey, value, origin⟩
  cases value <;> rfl

theorem cell_blank (e : Entry) : e.blank.cell = e.cell.blank := by
  rw [cell, parameter_blank]
  rfl

theorem map_blank_filter (p : Entry → Bool) (hp : ∀ e : Entry, p e.blank = p e)
    (es : List Entry) : (es.map blank).filter p = (es.filter p).map blank := by
  rw [List.filter_map]
  congr 2
  funext e
  exact hp e

end Entry

namespace Binding

@[simp] theorem blank_object (b : Binding) : b.blank.object = b.object := rfl

@[simp] theorem blank_strict (b : Binding) : b.blank.strict = b.strict := rfl

theorem entry?_blank (b : Binding) (name : String) :
    b.blank.entry? name = (b.entry? name).map Entry.blank := by
  rw [Binding.entry?, blank, List.find?_map]
  rfl

theorem isSome_entry?_blank (b : Binding) (name : String) :
    (b.blank.entry? name).isSome = (b.entry? name).isSome := by
  rw [entry?_blank, Option.isSome_map]

theorem any_entries_blank (b : Binding) (p : Entry → Bool)
    (hp : ∀ e : Entry, p e.blank = p e) : b.blank.entries.any p = b.entries.any p := by
  rw [blank, List.any_map]
  congr 1
  funext e
  exact hp e

/-! ### Steps -/

/-- Two changes of entries that have the same effect once values are blanked. -/
def Agrees (f g : Entry → Entry) : Prop := ∀ e, (f e).blank = g e.blank

theorem mapEntries_blank {f g : Entry → Entry} (hfg : Agrees f g) (b : Binding) :
    b.blank.mapEntries g = (b.mapEntries f).blank := by
  simp only [mapEntries, blank, List.map_map]
  congr 2
  funext e
  exact (hfg e).symm

theorem refreshed_blank (b : Binding) : b.blank.refreshed = b.refreshed.blank := by
  refine mapEntries_blank (fun e ↦ ?_) b
  simp only [Entry.blank, withParts, insertable, updatable, blank, Entry.isBound,
    Option.isSome_map]

theorem bindProperties_blank (marks : Bool) (ps : List Property) (b : Binding) :
    b.blank.apply (bindProperties marks (ps.map Property.blank)) =
      (b.apply (bindProperties marks ps)).map blank := by
  induction ps generalizing b with
  | nil => rfl
  | cons p ps ih =>
    rw [List.map_cons, apply_bindProperties_cons, apply_bindProperties_cons]
    refine bind_mapEntries (changeIfKnown_mapEntries Entry.column_blank (fun e ↦ ?_) p.name _
      (fun _ ↦ rfl) b) ih
    cases marks <;> rfl

theorem bindArgument_blank (marks : Bool) (a : Argument) (b : Binding) :
    b.blank.apply (bindArgument a.blank marks) = (b.apply (bindArgument a marks)).map blank := by
  have hmarked : b.blank.marked marks = (b.marked marks).blank := by
    cases marks with
    | false => rfl
    | true => exact mapEntries_blank (f := fun e ↦ { e with isKey := false }) (fun _ ↦ rfl) b
  have hany : (a.toProperties.map Property.blank).any (·.isKey) = a.toProperties.any (·.isKey) := by
    rw [List.any_map]
    rfl
  rw [apply_bindArgument, apply_bindArgument, a.toProperties_blank, hany, hmarked,
    bindProperties_blank, blank_object]
  split
  · rfl
  · cases (b.marked marks).apply (bindProperties marks a.toProperties) with
    | error e => rfl
    | ok b => exact congrArg Except.ok b.refreshed_blank

theorem bindUpdates_blank (origin : Origin) (values : List (String × Value)) (b : Binding) :
    b.blank.apply (bindUpdates origin (values.map fun v ↦ (v.1, .null))) =
      (b.apply (bindUpdates origin values)).map blank := by
  induction values generalizing b with
  | nil => rfl
  | cons v rest ih =>
    rw [List.map_cons, apply_bindUpdates_cons, apply_bindUpdates_cons]
    refine bind_mapEntries (change_mapEntries Entry.column_blank (fun e ↦ ?_) v.1 _
      (fun _ ↦ rfl) b) ih
    rfl

theorem applyUpdateValues_blank (origin : Origin) (values : List (String × Value))
    (b : Binding) :
    b.blank.apply (applyUpdateValues (values.map fun v ↦ (v.1, .null)) origin) =
      (b.apply (applyUpdateValues values origin)).map blank := by
  rw [apply_applyUpdateValues, apply_applyUpdateValues,
    mapEntries_blank (f := fun e ↦ { e with update := false }) (fun _ ↦ rfl), bindUpdates_blank]

theorem applyDesired_blank (desired : Desired) (b : Binding) :
    b.blank.apply (applyDesired desired) = (b.apply (applyDesired desired)).map blank :=
  applyDesired_mapEntries Entry.column_blank (fun _ ↦ rfl) desired b

/-! ### Clauses -/

theorem hasInserts_blank (b : Binding) : b.blank.hasInserts = b.hasInserts :=
  any_entries_blank b _ fun _ ↦ rfl

theorem hasUpdates_blank (b : Binding) : b.blank.hasUpdates = b.hasUpdates :=
  any_entries_blank b _ fun _ ↦ rfl

theorem insertsIdentity_blank (b : Binding) : b.blank.insertsIdentity = b.insertsIdentity :=
  any_entries_blank b _ fun _ ↦ rfl

theorem filter_entries_blank (b : Binding) (p : Entry → Bool)
    (hp : ∀ e : Entry, p e.blank = p e) :
    b.blank.entries.filter p = (b.entries.filter p).map Entry.blank :=
  Entry.map_blank_filter p hp b.entries

theorem columns_filter_blank (b : Binding) (p : Entry → Bool)
    (hp : ∀ e : Entry, p e.blank = p e) :
    (b.blank.entries.filter p).map (·.column) = (b.entries.filter p).map (·.column) := by
  rw [filter_entries_blank b p hp, List.map_map]
  rfl

theorem keyColumns_blank (b : Binding) : b.blank.keyColumns = b.keyColumns :=
  columns_filter_blank b _ fun _ ↦ rfl

theorem readColumns_blank (b : Binding) : b.blank.readColumns = b.readColumns :=
  columns_filter_blank b _ fun _ ↦ rfl

theorem insertColumns_blank (b : Binding) : b.blank.insertColumns = b.insertColumns :=
  columns_filter_blank b _ fun _ ↦ rfl

theorem updateColumns_blank (b : Binding) : b.blank.updateColumns = b.updateColumns :=
  columns_filter_blank b _ fun _ ↦ rfl

theorem hasKeyValues_blank (b : Binding) : b.blank.hasKeyValues = b.hasKeyValues := by
  rw [hasKeyValues, hasKeyValues, filter_entries_blank b _ fun _ ↦ rfl, List.all_map,
    List.isEmpty_map]
  congr 2
  funext e
  exact e.isBound_blank

theorem cells_filter_blank (b : Binding) (p : Entry → Bool)
    (hp : ∀ e : Entry, p e.blank = p e) :
    (b.blank.entries.filter p).map Entry.cell =
      ((b.entries.filter p).map Entry.cell).map Cell.blank := by
  rw [filter_entries_blank b p hp, List.map_map, List.map_map]
  congr 1
  funext e
  exact e.cell_blank

theorem boundCells_blank (b : Binding) : b.blank.boundCells = b.boundCells.map Cell.blank :=
  cells_filter_blank b _ Entry.isBound_blank

theorem generatedIdentity?_blank (b : Binding) :
    b.blank.generatedIdentity? = b.generatedIdentity? := by
  simp only [generatedIdentity?, blank, List.find?_map, Option.map_map]
  rfl

theorem insertRow_blank (b : Binding) :
    b.blank.insertRow = b.insertRow.map (List.map Cell.blank) := by
  rw [insertRow, insertRow, hasInserts_blank, cells_filter_blank b _ fun _ ↦ rfl]
  split <;> rfl

theorem assignments_blank (b : Binding) :
    b.blank.assignments = b.assignments.map (List.map Assignment.blank) := by
  have hassign (e : Entry) : (⟨e.blank.column, .parameter e.blank.parameter⟩ : Assignment) =
      Assignment.blank ⟨e.column, .parameter e.parameter⟩ := by
    rw [e.parameter_blank]
    rfl
  rw [assignments, assignments, hasUpdates_blank, filter_entries_blank b _ fun _ ↦ rfl]
  split
  · simp [Except.map, hassign]
  · rfl

theorem equalities_blank (object : String) (es : List Entry) :
    equalities object (es.map Entry.blank) =
      (equalities object es).map (List.map Predicate.blank) := by
  induction es with
  | nil => rfl
  | cons e es ih =>
    rw [List.map_cons, equalities, equalities, e.isBound_blank, e.parameter_blank, ih]
    split
    · cases equalities object es <;> rfl
    · rfl

theorem keyCriteria_blank (b : Binding) :
    b.blank.keyCriteria = b.keyCriteria.map (List.map Predicate.blank) := by
  rw [keyCriteria, keyCriteria, filter_entries_blank b _ fun _ ↦ rfl]
  cases b.entries.filter (·.isKey) with
  | nil => rfl
  | cons e es => exact equalities_blank b.object (e :: es)

end Binding

/-! ### Rules -/

namespace Rules

theorem bindRule_blank (name : String) (value : Value) (b : Binding) :
    b.blank.bindRule name .null = (b.bindRule name value).blank := by
  rw [Binding.bindRule, Binding.bindRule, b.isSome_entry?_blank]
  split
  · rw [← Binding.refreshed_blank]
    congr 1
    simp only [Binding.blank]
    rw [Binding.changeFirst_map (g := Entry.bind .null .audit) Entry.column_blank fun _ ↦ rfl]
  · rfl

theorem bindWhere_blank (r : Rules) {p : ValueRule → Bool} (hp : ∀ v : ValueRule, p v.blank = p v)
    (now now' : Timestamp) (b : Binding) :
    r.blank.bindWhere p now' b.blank = (r.bindWhere p now b).blank := by
  have hfilter : (r.values.map ValueRule.blank).filter p =
      (r.values.filter p).map ValueRule.blank := by
    rw [List.filter_map]
    congr 2
    funext v
    exact hp v
  rw [bindWhere, bindWhere, blank, hfilter, List.foldl_map]
  induction r.values.filter p generalizing b with
  | nil => rfl
  | cons v rest ih =>
    rw [List.foldl_cons, List.foldl_cons, ← ih]
    congr 1
    exact bindRule_blank v.column (v.value.resolve now) b

theorem restrict_blank (name : String) (insert update : Bool) (b : Binding) :
    b.blank.restrict name insert update = (b.restrict name insert update).blank := by
  simp only [Binding.restrict, Binding.blank]
  congr 1
  refine (Binding.changeFirst_map Entry.column_blank (fun e ↦ ?_) name b.entries).symm
  rfl

theorem bindInsert_blank (r : Rules) (now now' : Timestamp) (b : Binding) :
    r.blank.bindInsert now' b.blank = (r.bindInsert now b).blank :=
  bindWhere_blank r (fun _ ↦ rfl) now now' b

theorem bindUpdate_blank (r : Rules) (now now' : Timestamp) (b : Binding) :
    r.blank.bindUpdate now' b.blank = (r.bindUpdate now b).blank :=
  bindWhere_blank r (fun _ ↦ rfl) now now' b

theorem bindUpsert_blank (r : Rules) (now now' : Timestamp) (b : Binding) :
    r.blank.bindUpsert now' b.blank = (r.bindUpsert now b).blank := by
  have hfold (vs : List ValueRule) (b : Binding) :
      (vs.map ValueRule.blank).foldl (fun b v ↦ b.restrict v.column v.onInsert v.onUpdate) b.blank =
        (vs.foldl (fun b v ↦ b.restrict v.column v.onInsert v.onUpdate) b).blank := by
    induction vs generalizing b with
    | nil => rfl
    | cons v vs ih =>
      rw [List.map_cons, List.foldl_cons, List.foldl_cons, ← ih]
      congr 1
      exact restrict_blank v.column v.onInsert v.onUpdate b
  rw [bindUpsert, bindUpsert, bindWhere_blank r (fun _ ↦ rfl) now now']
  exact hfold r.values _

theorem softDelete?_blank (r : Rules) (t : Table) :
    r.blank.softDelete? t = (r.softDelete? t).map fun s ↦ (s.1.blank, s.2) := by
  rw [softDelete?, softDelete?, blank]
  induction r.softDeletes with
  | nil => rfl
  | cons s rest ih =>
    rw [List.map_cons, List.findSome?_cons, List.findSome?_cons, ih]
    have hcolumn : t.column? s.blank.column = t.column? s.column := rfl
    rw [hcolumn]
    cases t.column? s.column <;> rfl

theorem softDeleteValues?_blank (r : Rules) (now now' : Timestamp) (t : Table) :
    r.blank.softDeleteValues? now' t =
      (r.softDeleteValues? now t).map (List.map fun v ↦ (v.1, Value.null)) := by
  have hvalues (vs : List ValueRule) :
      ((vs.map ValueRule.blank).filter (·.onUpdate)).filterMap (fun v ↦
          (t.column? v.column).map fun c ↦ (c.name, v.value.resolve now')) =
        ((vs.filter (·.onUpdate)).filterMap fun v ↦
          (t.column? v.column).map fun c ↦ (c.name, v.value.resolve now)).map
            fun v ↦ (v.1, Value.null) := by
    rw [List.filter_map, List.filterMap_map, List.map_filterMap]
    congr 1
    funext v
    simp only [Function.comp_apply, Option.map_map]
    rfl
  rw [softDeleteValues?, softDeleteValues?, softDelete?_blank, Option.map_map, Option.map_map]
  congr 1
  funext s
  simp only [Function.comp_apply, List.map_cons, ← hvalues]
  rfl

theorem readCriterion?_blank (r : Rules) (t : Table) :
    r.blank.readCriterion? t = (r.readCriterion? t).map Predicate.blank := by
  rw [readCriterion?, readCriterion?, softDelete?_blank]
  cases r.softDelete? t <;> rfl

end Rules

end SchemaSql
