import SchemaSql.Proofs.Binding.Steps
import SchemaSql.Store.Write

/-!
What an update leaves of the rows of a stored table. It visits every row, whatever index it goes by,
and in a row that meets its conditions each assigned column holds the value it is given, in the form
in which values are stored.
-/

set_option autoImplicit false
set_option relaxedAutoImplicit false

namespace SchemaSql

/-! ### Stored values -/

namespace Value

@[simp] theorem stored_stored (v : Value) : v.stored.stored = v.stored := by
  cases v with
  | float x => by_cases hnan : x.isNaN <;> simp [stored, hnan]
  | _ => rfl

theorem same_self (v : Value) : v.same v = true := by
  rw [same]
  cases hratio : v.ratio? with
  | none => simp
  | some a => simp

/-- Whether a stored value is the one asked for; null is, where null is asked for. -/
def Holds (cell v : Value) : Prop :=
  cell.stored.isNull ∧ v.stored.isNull ∨ cell.equal v = .yes

instance (cell v : Value) : Decidable (cell.Holds v) := inferInstanceAs (Decidable (_ ∨ _))

theorem holds_stored (v : Value) : v.stored.Holds v := by
  rw [Holds, equal, stored_stored]
  cases hnull : v.stored.isNull with
  | true => simp
  | false => simp [same_self]

end Value

/-! ### Visited rows -/

theorem mem_insertRow {order : List IndexColumn} {r s : Row} {rows : List Row} :
    s ∈ insertRow order r rows ↔ s = r ∨ s ∈ rows := by
  induction rows with
  | nil => simp [insertRow]
  | cons r' rows ih =>
    rw [insertRow]
    split
    · rw [List.mem_cons]
    · rw [List.mem_cons, ih, List.mem_cons]
      exact or_left_comm

theorem mem_arrangeRows {order : List IndexColumn} {s : Row} {rows : List Row} :
    s ∈ arrangeRows order rows ↔ s ∈ rows := by
  induction rows with
  | nil => rfl
  | cons r rows ih =>
    rw [arrangeRows, List.foldr_cons, ← arrangeRows, mem_insertRow, ih, List.mem_cons]

namespace StoredTable

variable {t : StoredTable} {sc : Scope}

theorem mem_visit {criteria : List Predicate} {order : List IndexColumn} {v : List Value} :
    v ∈ t.visit criteria order ↔ v ∈ t.rows := by
  have harranged (columns : List IndexColumn) :
      v ∈ (arrangeRows columns (t.rows.map t.row)).map (·.values) ↔ v ∈ t.rows := by
    rw [List.mem_map]
    simp only [mem_arrangeRows, List.mem_map]
    constructor
    · rintro ⟨-, ⟨w, hw, rfl⟩, rfl⟩
      exact hw
    · exact fun hv ↦ ⟨t.row v, ⟨v, hv, rfl⟩, rfl⟩
  rw [visit]
  split
  · rfl
  · split
    · rw [List.mem_reverse, harranged]
    · rw [harranged]

/-! ### Updates -/

/-- Every row has a value for each column of the table. -/
def Fits (t : StoredTable) : Prop := ∀ v ∈ t.rows, v.length = t.columns.length

instance (t : StoredTable) : Decidable t.Fits := inferInstanceAs (Decidable (∀ v ∈ _, _))

/-- A column holds the value that the first assignment to its name gives it. -/
theorem cell_assign {v : List Value} (hv : v.length = t.columns.length) {name : String}
    (hname : (t.column? name).isSome) {as : List Assignment} {c : Column} {p : Parameter}
    (has : as.find? (fun a ↦ Text.sameAscii a.column.name name) = some ⟨c, .parameter p⟩)
    (supplied : String → Value) :
    (t.row (t.assign sc supplied as v)).cell name = (sc.value p).stored := by
  obtain ⟨i, hi⟩ : ∃ i, t.columnNames.findIdx? (Text.sameAscii · name) = some i := by
    refine Option.isSome_iff_exists.mp ?_
    rw [column?, List.find?_isSome] at hname
    simpa [columnNames] using hname
  obtain ⟨hlt, hsame, -⟩ := List.findIdx?_eq_some_iff_getElem.mp hi
  have hcolumn : i < t.columns.length := by simpa [columnNames] using hlt
  have hi' : Text.sameAscii t.columns[i].name name := by simpa [columnNames] using hsame
  have hassigned : as.find? (fun a ↦ Text.sameAscii a.column.name t.columns[i].name) =
      some ⟨c, .parameter p⟩ := by
    rw [← has]
    refine congrArg (as.find? ·) (funext fun a ↦ ?_)
    rw [Text.sameAscii, (Text.sameAscii_iff _ _).mp hi']
    rfl
  have hvalue : (t.assign sc supplied as v)[i]? = some (sc.value p).stored := by
    rw [assign, List.getElem?_zipWith, List.getElem?_eq_getElem hcolumn,
      List.getElem?_eq_getElem (hv ▸ hcolumn)]
    simp only [hassigned]
  rw [Row.cell, Row.get?, row]
  simp only [hi, hvalue, Option.getD_some]

theorem forM_eq_ok {α : Type} {f : α → Refusable Unit} {xs : List α} (h : xs.forM f = .ok ()) :
    ∀ x ∈ xs, f x = .ok () := by
  induction xs with
  | nil => simp
  | cons x xs ih =>
    obtain ⟨⟨⟩, hx, hrest⟩ := bind_eq_ok.mp h
    exact List.forall_mem_cons.mpr ⟨hx, ih hrest⟩

theorem change_ok {visited : List (List Value)} {chosen : List Value → Bool}
    {f : List Value → List Value} {t' : StoredTable} {changes : List Change}
    (h : t.change visited chosen f = .ok (t', changes)) :
    t'.columns = t.columns ∧
      changes = (visited.filter chosen).map fun v ↦ ⟨some v, some (f v)⟩ := by
  obtain ⟨-, -, h⟩ := bind_eq_ok.mp h
  obtain ⟨-, -, h⟩ := bind_eq_ok.mp h
  obtain ⟨rfl, rfl⟩ := Prod.mk.inj (Except.ok.inj h)
  exact ⟨rfl, rfl⟩

theorem checkWritable_ok {columns : List Column} (h : t.checkWritable columns = .ok ()) :
    ∀ c ∈ columns, (t.column? c.name).isSome := by
  intro c hc
  have hwritable := forM_eq_ok h c hc
  cases hcolumn : t.column? c.name with
  | none => simp [hcolumn] at hwritable
  | some s => rfl

/-- An update is of columns that the table has, and changes the rows that meet its conditions. -/
theorem update_ok {u : Update} {t' : StoredTable} {changes : List Change}
    (h : t.update sc u = .ok (t', changes)) :
    (∀ a ∈ u.assignments, (t.column? a.column.name).isSome) ∧ t'.columns = t.columns ∧
      ∀ change ∈ changes, ∃ v ∈ t.rows, (t.row v).meets sc u.criteria ∧
        change = ⟨some v, some (t.assign sc (fun _ ↦ .null) u.assignments v)⟩ := by
  obtain ⟨⟨⟩, hwritable, h⟩ := bind_eq_ok.mp h
  obtain ⟨-, -, h⟩ := bind_eq_ok.mp h
  obtain ⟨hcolumns, rfl⟩ := change_ok h
  refine ⟨fun a ha ↦ checkWritable_ok hwritable _ (List.mem_map_of_mem ha), hcolumns, ?_⟩
  intro change hchange
  obtain ⟨v, hv, rfl⟩ := List.mem_map.mp hchange
  obtain ⟨hvisited, hmeets⟩ := List.mem_filter.mp hv
  exact ⟨v, mem_visit.mp hvisited, hmeets, rfl⟩

end StoredTable

end SchemaSql
