import SchemaSql.Command.Basic
import SchemaSql.Proofs.Binding.Clauses
import SchemaSql.Proofs.Relation.Running

/-!
Upserts of relations. Whichever statements carry an upsert out, the rows with its key are updated,
or a row is added if there are none; but where the database finds the rows by a clash of keys, a
column is updated to the value that the row to be inserted would have.
-/

set_option autoImplicit false
set_option relaxedAutoImplicit false

namespace SchemaSql

namespace Binding

/-- The columns of certain entries with the values they are bound to. -/
def valuesWhere (b : Binding) (p : Entry → Bool) : List (Column × Value) :=
  (b.entries.filter p).map fun e ↦ (e.column, e.value.getD .null)

def keyValues (b : Binding) : List (Column × Value) := b.valuesWhere (·.isKey)

def insertValues (b : Binding) : List (Column × Value) := b.valuesWhere (·.insert)

def updateValues (b : Binding) : List (Column × Value) := b.valuesWhere (·.update)

/-- The row of all bound columns. -/
def suppliedRow (b : Binding) : Tuple := Tuple.overwrite (b.valuesWhere (·.isBound)) fun _ ↦ .null

/-- Bound columns are distinct, and key columns are among those that are inserted, but not among
those that are updated. -/
structure Upserts (b : Binding) : Prop where
  once : b.BoundOnce
  insert : ∀ e ∈ b.entries, e.insert → e.isBound
  update : ∀ e ∈ b.entries, e.update → e.isBound
  key : ∀ e ∈ b.entries, e.isKey → e.insert = true ∧ e.update = false

theorem cellValues_eq (b : Binding) (p : Entry → Bool) :
    cellValues Parameter.value ((b.entries.filter p).map Entry.cell) = b.valuesWhere p := by
  simp [cellValues, valuesWhere, Entry.cell, Entry.parameter, Column.parameter, Parameter.make]

theorem Upserts.isBound_of_isKey {b : Binding} (h : b.Upserts) {e : Entry} (he : e ∈ b.entries)
    (hkey : e.isKey) : e.isBound :=
  h.insert e he (h.key e he hkey).1

namespace BoundOnce

variable {b : Binding} {p : Entry → Bool} {e : Entry}

theorem distinct (h : b.BoundOnce) (hp : ∀ e ∈ b.entries, p e → e.isBound) :
    (b.valuesWhere p).Pairwise fun x y ↦ x.1 ≠ y.1 := by
  refine List.pairwise_map.mpr (List.Pairwise.imp_of_mem ?_ (List.Pairwise.filter p h))
  intro e e' _ he' hdistinct hcolumn
  obtain ⟨hentry, hchosen⟩ := List.mem_filter.mp he'
  exact hdistinct (hp e' hentry hchosen) hcolumn.symm

/-- A row that bound columns overwrite has their values. -/
theorem overwrite_eq (h : b.BoundOnce) (hp : ∀ e ∈ b.entries, p e → e.isBound) (he : e ∈ b.entries)
    (hchosen : p e) (v : Tuple) :
    v.overwrite (b.valuesWhere p) e.column = e.value.getD .null :=
  Tuple.overwrite_of_mem (h.distinct hp) (x := (e.column, e.value.getD .null))
    (List.mem_map_of_mem (List.mem_filter.mpr ⟨he, hchosen⟩)) v

/-- A row keeps its value in a bound column that is not among those that overwrite it. -/
theorem overwrite_ne (h : b.BoundOnce) (hp : ∀ e ∈ b.entries, p e → e.isBound) (he : e ∈ b.entries)
    (hbound : e.isBound) (hleft : p e = false) (v : Tuple) :
    v.overwrite (b.valuesWhere p) e.column = v e.column := by
  refine Tuple.overwrite_of_forall_ne ?_ v
  intro x hx hcolumn
  obtain ⟨e', he', rfl⟩ := List.mem_map.mp hx
  obtain ⟨hentry, hchosen⟩ := List.mem_filter.mp he'
  obtain rfl := h.eq_of_column hentry he (hp e' hentry hchosen) hbound hcolumn
  rw [hleft] at hchosen
  simp at hchosen

/-- Keys are not among the updated columns if no entry is both. -/
theorem apart (h : b.BoundOnce) (hkey : ∀ e ∈ b.entries, e.isKey → e.isBound)
    (hupdate : ∀ e ∈ b.entries, e.update → e.isBound ∧ e.isKey = false) :
    ∀ c ∈ b.updateColumns, c ∉ b.keyColumns := by
  intro c hc hcKey
  obtain ⟨e, he, rfl⟩ := List.mem_map.mp hc
  obtain ⟨e', he', hcolumn⟩ := List.mem_map.mp hcKey
  obtain ⟨hentry, hupdated⟩ := List.mem_filter.mp he
  obtain ⟨hentry', hisKey⟩ := List.mem_filter.mp he'
  obtain ⟨hbound, hunkeyed⟩ := hupdate e hentry hupdated
  obtain rfl := h.eq_of_column hentry' hentry (hkey e' hentry' hisKey) hbound hcolumn
  rw [hunkeyed] at hisKey
  simp at hisKey

end BoundOnce

theorem Upserts.apart {b : Binding} (h : b.Upserts) : ∀ c ∈ b.updateColumns, c ∉ b.keyColumns := by
  refine h.once.apart (fun _ ↦ h.isBound_of_isKey) fun e he hupdate ↦ ⟨h.update e he hupdate, ?_⟩
  refine Bool.eq_false_iff.mpr fun hkey ↦ ?_
  rw [(h.key e he hkey).2] at hupdate
  simp at hupdate

end Binding

namespace Relation

/-- The rows after those with the key of a binding are overwritten, or a row is added to them. -/
def settled (R : Relation) (b : Binding) (updates : List (Column × Value)) (rows : List Tuple) :
    List Tuple :=
  if rows.any (Tuple.matching b.keyValues) then
    rows.map fun v ↦ if v.matching b.keyValues then v.overwrite updates else v
  else rows ++ [R.propose b.insertValues rows]

/-- The rows after an upsert. -/
def upserted (R : Relation) (b : Binding) (rows : List Tuple) : List Tuple :=
  R.settled b b.updateValues rows

/-- The updated columns with the values that a row to be inserted would have. -/
def proposedUpdates (R : Relation) (b : Binding) (rows : List Tuple) : List (Column × Value) :=
  b.updateColumns.map fun c ↦ (c, R.propose b.insertValues rows c)

section Effects

variable {R : Relation} {b : Binding} {rows : List Tuple}

/-! ### Rows with the key -/

theorem agree_propose (hb : b.Upserts) (hkey : R.key = b.keyColumns) :
    R.agree (R.propose b.insertValues rows) = Tuple.matching b.keyValues := by
  funext v
  rw [agree, hkey, Binding.keyColumns, Tuple.matching, Binding.keyValues, Binding.valuesWhere,
    Bool.eq_iff_iff, List.all_map, List.all_map, List.all_eq_true, List.all_eq_true]
  refine forall₂_congr fun e he ↦ ?_
  obtain ⟨hentry, hisKey⟩ := List.mem_filter.mp he
  have hvalue : R.propose b.insertValues rows e.column = e.value.getD .null :=
    hb.once.overwrite_eq hb.insert hentry (hb.key e hentry hisKey).1 _
  simp only [Function.comp_apply, hvalue, Value.agrees_comm (v e.column)]

/-- A column that the chosen rows keep is kept by all rows. -/
theorem changed_eq {chosen : Tuple → Bool} {f : Tuple → Tuple} {v : Tuple} {c : Column}
    (h : chosen v → f v c = v c) : (if chosen v then f v else v) c = v c := by
  split
  · exact h ‹_›
  · rfl

/-- A change of other columns keeps rows apart. -/
theorem change_ok {chosen : Tuple → Bool} {f : Tuple → Tuple} (hrows : R.Keyed rows)
    (hf : ∀ v, chosen v → ∀ c ∈ R.key, f v c = v c) :
    R.change chosen f rows = .ok ⟨rows.map fun v ↦ if chosen v then f v else v,
      (rows.filter chosen).map f⟩ := by
  have hsame (v : Tuple) : ∀ c ∈ R.key, (if chosen v then f v else v) c = v c :=
    fun c hc ↦ changed_eq fun hchosen ↦ hf v hchosen c hc
  have hkeyed : R.Keyed (rows.map fun v ↦ if chosen v then f v else v) := by
    refine List.pairwise_map.mpr (List.Pairwise.imp ?_ hrows)
    intro v w hapart
    rw [← hapart, agree, agree, Bool.eq_iff_iff, List.all_eq_true, List.all_eq_true]
    exact forall₂_congr fun c hc ↦ by rw [hsame v c hc, hsame w c hc]
  rw [change, if_pos hkeyed]

theorem overwrite_key (hapart : ∀ c ∈ b.updateColumns, c ∉ b.keyColumns)
    {xs : List (Column × Value)} (hxs : ∀ x ∈ xs, x.1 ∈ b.updateColumns) {c : Column}
    (hc : c ∈ b.keyColumns) (v : Tuple) : v.overwrite xs c = v c :=
  Tuple.overwrite_of_forall_ne (fun x hx hcolumn ↦ hapart x.1 (hxs x hx) (hcolumn ▸ hc)) v

/-- The rows with the key are overwritten, or a row is added. -/
theorem resolve_ok (hb : b.Upserts) (hkey : R.key = b.keyColumns) (hrows : R.Keyed rows)
    {as : List Assignment} {f : Tuple → Tuple} {xs : List (Column × Value)}
    (hxs : ∀ x ∈ xs, x.1 ∈ b.updateColumns) (hempty : as = [] → ∀ v, f v = v)
    (hf : ∀ v, v.matching b.keyValues → f v = v.overwrite xs) :
    ∃ touched, (if rows.any (Tuple.matching b.keyValues) then
        R.changeBy (Tuple.matching b.keyValues) as f rows
      else R.add (R.propose b.insertValues rows) rows) = .ok ⟨R.settled b xs rows, touched⟩ := by
  have hsame : (rows.map fun v ↦ if v.matching b.keyValues then f v else v) =
      rows.map fun v ↦ if v.matching b.keyValues then v.overwrite xs else v := by
    refine List.map_congr_left fun v _ ↦ ?_
    split
    · exact hf v ‹_›
    · rfl
  by_cases hany : rows.any (Tuple.matching b.keyValues) = true
  · rw [if_pos hany, settled, if_pos hany, ← hsame, changeBy]
    by_cases has : as = []
    · have hid : (rows.map fun v ↦ if v.matching b.keyValues then f v else v) = rows := by
        simp [hempty has]
      exact ⟨[], by rw [if_pos (List.isEmpty_iff.mpr has), hid]⟩
    · refine ⟨(rows.filter (Tuple.matching b.keyValues)).map f, ?_⟩
      rw [if_neg (by simpa using has)]
      refine change_ok hrows fun v hv c hc ↦ ?_
      rw [hf v hv, overwrite_key hb.apart hxs (hkey ▸ hc)]
  · refine ⟨[R.propose b.insertValues rows], ?_⟩
    rw [if_neg hany, settled, if_neg hany, add, agree_propose hb hkey, if_neg hany]

/-! ### One statement -/

theorem assign_nil (value : Parameter → Value) (supplied v : Tuple) :
    Tuple.assign value supplied [] v = v := rfl

theorem assign_supplied (value : Parameter → Value) (supplied : Tuple) (columns : List Column)
    (v : Tuple) : Tuple.assign value supplied (columns.map fun c ↦ ⟨c, .supplied⟩) v =
      v.overwrite (columns.map fun c ↦ (c, supplied c)) := by
  simp [Tuple.assign, Assignment.newValue, Function.comp_def]

theorem assign_unchanged (value : Parameter → Value) (supplied : Tuple) (columns : List Column)
    (v : Tuple) : Tuple.assign value supplied (columns.map fun c ↦ ⟨c, .unchanged⟩) v = v := by
  refine Tuple.overwrite_of_matching fun x hx ↦ ?_
  simp only [List.map_map, List.mem_map] at hx
  obtain ⟨c, -, rfl⟩ := hx
  rfl

theorem updateValues_columns : ∀ x ∈ b.updateValues, x.1 ∈ b.updateColumns := by
  intro x hx
  obtain ⟨e, he, rfl⟩ := List.mem_map.mp hx
  exact List.mem_map_of_mem he

theorem columns_supplied (hb : b.BoundOnce) {p : Entry → Bool}
    (hp : ∀ e ∈ b.entries, p e → e.isBound) :
    ((b.entries.filter p).map (·.column)).map (fun c ↦ (c, b.suppliedRow c)) = b.valuesWhere p := by
  rw [List.map_map]
  refine List.map_congr_left fun e he ↦ ?_
  obtain ⟨hentry, hchosen⟩ := List.mem_filter.mp he
  exact congrArg (e.column, ·) (hb.overwrite_eq (fun _ _ ↦ id) hentry (hp e hentry hchosen) _)

/-- A merge whose columns are all bound updates the rows with the key, or adds a row. -/
theorem merge_eq (hb : b.BoundOnce) (hkey : ∀ e ∈ b.entries, e.isKey → e.isBound)
    (hinsert : ∀ e ∈ b.entries, e.insert → e.isBound)
    (hupdate : ∀ e ∈ b.entries, e.update → e.isBound) (announced : Bool) (output : Output)
    (rows : List Tuple) :
    R.merge Parameter.value rows ⟨R.target, b.boundCells, b.keyColumns, b.updateColumns,
      b.insertColumns, announced, output⟩ =
        if rows.any (Tuple.matching b.keyValues) then
          R.changeBy (Tuple.matching b.keyValues) (b.updateColumns.map fun c ↦ ⟨c, .supplied⟩)
            (Tuple.overwrite b.updateValues) rows
        else R.add (R.propose b.insertValues rows) rows := by
  have hknown {c : Column} (p : Entry → Bool) (hp : ∀ e ∈ b.entries, p e → e.isBound)
      (hc : c ∈ (b.entries.filter p).map (·.column)) :
      ((b.valuesWhere (·.isBound)).lookup c).isSome := by
    obtain ⟨e, he, rfl⟩ := List.mem_map.mp hc
    obtain ⟨hentry, hchosen⟩ := List.mem_filter.mp he
    rw [List.lookup_isSome_iff]
    exact ⟨(e.column, e.value.getD .null),
      List.mem_map_of_mem (List.mem_filter.mpr ⟨hentry, hp e hentry hchosen⟩), by simp⟩
  have hall : ((b.keyColumns ++ b.updateColumns ++ b.insertColumns).all fun c ↦
      ((b.valuesWhere (·.isBound)).lookup c).isSome) = true := by
    refine List.all_eq_true.mpr fun c hc ↦ ?_
    rcases List.mem_append.mp hc with hc | hc
    · rcases List.mem_append.mp hc with hc | hc
      · exact hknown _ hkey hc
      · exact hknown _ hupdate hc
    · exact hknown _ hinsert hc
  have hsource : cellValues Parameter.value b.boundCells = b.valuesWhere (·.isBound) :=
    b.cellValues_eq _
  have hsupplied : (Tuple.overwrite (b.valuesWhere (·.isBound)) fun _ ↦ .null) = b.suppliedRow :=
    rfl
  have hkeys : b.keyColumns.map (fun c ↦ (c, b.suppliedRow c)) = b.keyValues :=
    columns_supplied hb hkey
  have hinserts : b.insertColumns.map (fun c ↦ (c, b.suppliedRow c)) = b.insertValues :=
    columns_supplied hb hinsert
  have hupdates : b.updateColumns.map (fun c ↦ (c, b.suppliedRow c)) = b.updateValues :=
    columns_supplied hb hupdate
  have hassign : Tuple.assign Parameter.value b.suppliedRow
      (b.updateColumns.map fun c ↦ ⟨c, .supplied⟩) = Tuple.overwrite b.updateValues :=
    funext fun v ↦ by rw [assign_supplied, hupdates]
  simp only [merge, hsource, hall, if_true, hsupplied, hkeys, hinserts, hassign]

theorem merge_ok (hb : b.Upserts) (hkey : R.key = b.keyColumns) (hrows : R.Keyed rows)
    (announced : Bool) (output : Output) :
    ∃ touched, R.merge Parameter.value rows ⟨R.target, b.boundCells, b.keyColumns,
      b.updateColumns, b.insertColumns, announced, output⟩ =
        .ok ⟨R.upserted b rows, touched⟩ := by
  rw [merge_eq hb.once (fun _ ↦ hb.isBound_of_isKey) hb.insert hb.update]
  refine resolve_ok hb hkey hrows updateValues_columns (fun hempty v ↦ ?_) fun _ _ ↦ rfl
  have hnone : b.updateValues = [] := by
    rw [List.map_eq_nil_iff] at hempty
    exact List.map_eq_nil_iff.mpr (List.map_eq_nil_iff.mp hempty)
  rw [hnone]
  rfl

/-- An insert that resolves clashes changes the rows that have the key of the proposed one, or adds
this one. -/
theorem insert_eq {value : Parameter → Value} {s : Insert} (hfail : s.conflict ≠ .fail)
    (htarget : ∀ keys as, s.conflict = .onKeys keys as → keys = R.key) :
    R.insert value rows s =
      if rows.any (R.agree (R.propose (cellValues value s.row) rows)) then
        R.changeBy (R.agree (R.propose (cellValues value s.row) rows)) s.conflict.assignments
          (Tuple.assign value (R.propose (cellValues value s.row) rows) s.conflict.assignments) rows
      else R.add (R.propose (cellValues value s.row) rows) rows := by
  rw [insert]
  cases hconflict : s.conflict with
  | fail => exact absurd hconflict hfail
  | ignore | onDuplicate as => rfl
  | onKeys keys as =>
    have hperm : keys.isPerm R.key := by
      rw [htarget keys as hconflict]
      exact List.isPerm_iff.mpr (List.Perm.refl _)
    simp only [hperm, if_true]

/-- An insert that resolves clashes settles what its assignments make of a row with the key. -/
theorem insert_ok (hb : b.Upserts) (hkey : R.key = b.keyColumns) (hrows : R.Keyed rows)
    {s : Insert} (hrow : s.row = (b.entries.filter (·.insert)).map Entry.cell)
    (hfail : s.conflict ≠ .fail)
    (htarget : ∀ keys as, s.conflict = .onKeys keys as → keys = b.keyColumns)
    {xs : List (Column × Value)} (hxs : ∀ x ∈ xs, x.1 ∈ b.updateColumns)
    (hassign : ∀ v, v.matching b.keyValues → Tuple.assign Parameter.value
      (R.propose b.insertValues rows) s.conflict.assignments v = v.overwrite xs) :
    ∃ touched, R.insert Parameter.value rows s = .ok ⟨R.settled b xs rows, touched⟩ := by
  have hsupplied : cellValues Parameter.value s.row = b.insertValues := by
    rw [hrow]
    exact b.cellValues_eq _
  have hempty : s.conflict.assignments = [] → ∀ v, Tuple.assign Parameter.value
      (R.propose b.insertValues rows) s.conflict.assignments v = v := by
    intro hnone v
    rw [hnone, assign_nil]
  rw [insert_eq hfail fun keys as h ↦ (htarget keys as h).trans hkey.symm, hsupplied,
    agree_propose hb hkey]
  exact resolve_ok hb hkey hrows hxs hempty hassign

theorem satisfies_keys (v : Tuple) :
    ((b.entries.filter (·.isKey)).map fun e ↦ Predicate.equals e.column e.parameter).all
      (v.satisfies Parameter.value) = v.matching b.keyValues := by
  simp [Tuple.matching, Binding.keyValues, Binding.valuesWhere, Tuple.satisfies, Function.comp_def,
    Entry.parameter, Column.parameter, Parameter.make]

end Effects

/-! ### Whole upserts -/

section Plans

variable {R : Relation} {p : WritePlan} {rows : List Tuple}

theorem exec_insert {value : Parameter → Value} {s : Insert} (h : s.target = R.target) :
    R.exec value rows (.insert s) = R.insert value rows s := if_pos h

theorem exec_update {value : Parameter → Value} {s : Update} (h : s.target = R.target) :
    R.exec value rows (.update s) = R.update value rows s := if_pos h

theorem exec_merge {value : Parameter → Value} {s : Merge} (h : s.target = R.target) :
    R.exec value rows (.merge s) = R.merge value rows s := if_pos h

/-- Reading rows leaves them as they are. -/
theorem exec_read (htarget : R.target = p.target) (value : Parameter → Value)
    (criteria : List Predicate) (rows : List Tuple) :
    R.exec value rows (p.readStatement criteria) =
      .ok ⟨rows, rows.filter fun v ↦ criteria.all (v.satisfies value)⟩ := by
  simp [exec, select, WritePlan.readStatement, htarget]

theorem updateValues_of_not_hasUpdates {b : Binding} (h : b.hasUpdates = false) :
    b.updateValues = [] ∧ b.updateColumns = [] := by
  have hnone : b.entries.filter (·.update) = [] := by
    simpa [Binding.hasUpdates, List.filter_eq_nil_iff] using h
  simp [Binding.updateValues, Binding.valuesWhere, Binding.updateColumns, hnone]

/-- An update that is to find out whether a row exists changes it as the upsert says. -/
theorem assign_presence {as : List Assignment} (h : p.presenceAssignments = .ok as)
    (supplied v : Tuple) :
    Tuple.assign Parameter.value supplied as v = v.overwrite p.binding.updateValues := by
  rw [WritePlan.presenceAssignments] at h
  split at h
  · rw [Binding.assignments_ok h]
    simp [Tuple.assign, Assignment.newValue, Binding.updateValues, Binding.valuesWhere,
      Function.comp_def, Entry.parameter, Column.parameter, Parameter.make]
  · rename_i hnone
    obtain rfl := Except.ok.inj h
    rw [(updateValues_of_not_hasUpdates (by simpa using hnone)).1, assign_unchanged]
    rfl

/-- Where nothing is updated, a key that is taken from the row to be inserted stays as it is. -/
theorem assign_upsertColumns (hb : p.binding.Upserts) {v : Tuple}
    (hv : v.matching p.binding.keyValues) :
    Tuple.assign Parameter.value (R.propose p.binding.insertValues rows)
      (p.upsertColumns.map fun c ↦ ⟨c, .supplied⟩) v =
        v.overwrite (R.proposedUpdates p.binding rows) := by
  rw [assign_supplied, WritePlan.upsertColumns]
  split
  · rfl
  · rename_i hnone
    rw [proposedUpdates, (updateValues_of_not_hasUpdates (by simpa using hnone)).2]
    split
    · rfl
    · refine Tuple.overwrite_of_matching fun x hx ↦ ?_
      obtain ⟨c, hc, rfl⟩ := List.mem_map.mp hx
      obtain ⟨e, he, rfl⟩ := List.mem_map.mp hc
      obtain ⟨hentry, hkey⟩ := List.mem_filter.mp he
      have hagrees := List.all_eq_true.mp hv (e.column, e.value.getD .null) (List.mem_map_of_mem he)
      rw [((Value.agrees_iff _ _).mp hagrees).2]
      exact (hb.once.overwrite_eq hb.insert hentry (hb.key e hentry hkey).1 _).symm

theorem duplicateConflict_cases (p : WritePlan) :
    p.duplicateConflict = .ignore ∨ ∃ as, p.duplicateConflict = .onDuplicate as := by
  rw [WritePlan.duplicateConflict]
  cases p.upsertColumns with
  | nil => exact .inl rfl
  | cons c cs => exact .inr ⟨_, rfl⟩

theorem duplicateConflict_assignments : p.duplicateConflict.assignments = p.upsertColumns.map
    fun c ↦ ⟨c, if p.binding.hasUpdates then .supplied else .unchanged⟩ := by
  rw [WritePlan.duplicateConflict]
  cases p.upsertColumns <;> rfl

theorem assign_duplicateConflict (hb : p.binding.Upserts) {v : Tuple}
    (hv : v.matching p.binding.keyValues) :
    Tuple.assign Parameter.value (R.propose p.binding.insertValues rows)
      p.duplicateConflict.assignments v = v.overwrite (R.proposedUpdates p.binding rows) := by
  rw [duplicateConflict_assignments]
  cases hupdates : p.binding.hasUpdates with
  | true => exact assign_upsertColumns hb hv
  | false =>
    rw [proposedUpdates, (updateValues_of_not_hasUpdates hupdates).2]
    exact assign_unchanged _ _ _ v

theorem runSteps_reads (htarget : R.target = p.target) {reads : List ChainStep}
    (h : p.ReadsBack reads) (counted : Option Nat) : R.runSteps counted reads rows = .ok rows := by
  rcases h with rfl | ⟨criteria, -, rfl⟩
  · rfl
  · have hread := exec_read htarget Parameter.value criteria rows
    rw [runSteps_cons rfl hread, runSteps]

theorem proposedUpdates_columns {b : Binding} :
    ∀ x ∈ R.proposedUpdates b rows, x.1 ∈ b.updateColumns := by
  intro x hx
  obtain ⟨c, hc, rfl⟩ := List.mem_map.mp hx
  exact hc

/-- The update of the rows with the key touches just these. -/
theorem update_ok (hapart : ∀ c ∈ p.binding.updateColumns, c ∉ p.binding.keyColumns)
    (hkey : R.key = p.binding.keyColumns) (hrows : R.Keyed rows) {as : List Assignment}
    (has : p.presenceAssignments = .ok as) :
    R.update Parameter.value rows ⟨p.target, as,
      (p.binding.entries.filter (·.isKey)).map fun e ↦ .equals e.column e.parameter, .none⟩ =
        .ok ⟨rows.map fun v ↦
            if v.matching p.binding.keyValues then v.overwrite p.binding.updateValues else v,
          (rows.filter (Tuple.matching p.binding.keyValues)).map
            (Tuple.overwrite p.binding.updateValues)⟩ := by
  simp only [update, satisfies_keys, assign_presence has]
  exact change_ok hrows fun v _ c hc ↦ overwrite_key hapart updateValues_columns (hkey ▸ hc) v

/-- An insert adds its row if there is none with the key. -/
theorem insert_new (hb : p.binding.Upserts) (hkey : R.key = p.binding.keyColumns)
    (hnone : rows.any (Tuple.matching p.binding.keyValues) = false) :
    R.insert Parameter.value rows ⟨p.target,
      (p.binding.entries.filter (·.insert)).map Entry.cell, .fail, false, false, .none⟩ =
        .ok ⟨rows ++ [R.propose p.binding.insertValues rows],
          [R.propose p.binding.insertValues rows]⟩ := by
  have hsupplied : cellValues Parameter.value
      ((p.binding.entries.filter (·.insert)).map Entry.cell) = p.binding.insertValues :=
    p.binding.cellValues_eq _
  simp only [insert, hsupplied]
  rw [add, agree_propose hb hkey, hnone]
  rfl

/-- An update that is followed by an insert if it meets no row. -/
theorem runSteps_updateThenInsert (hb : p.binding.Upserts) (htarget : R.target = p.target)
    (hkey : R.key = p.binding.keyColumns) (hrows : R.Keyed rows) {criteria : List Predicate}
    {as : List Assignment} {row : List Cell} {reads : List ChainStep}
    (hcriteria : p.binding.keyCriteria = .ok criteria) (has : p.presenceAssignments = .ok as)
    (hrow : p.binding.insertRow = .ok row) (hreads : p.ReadsBack reads) :
    R.runSteps none ({ statement := .update ⟨p.target, as, criteria, .none⟩, counted := true } ::
      { statement := .insert ⟨p.target, row, .fail, false, false, .none⟩
        condition := .previousAffectedNone } :: reads) rows =
          .ok (R.upserted p.binding rows) := by
  obtain ⟨-, -, rfl⟩ := Binding.keyCriteria_ok hcriteria
  obtain rfl := Binding.insertRow_ok hrow
  have hupdate := update_ok hb.apart hkey hrows has
  rw [← exec_update htarget.symm] at hupdate
  rw [runSteps_cons rfl hupdate, if_pos rfl, List.length_map]
  cases hany : rows.any (Tuple.matching p.binding.keyValues) with
  | true =>
    have htouched : (rows.filter (Tuple.matching p.binding.keyValues)).length ≠ 0 := by
      simpa [List.filter_eq_nil_iff] using hany
    rw [runSteps_skip (by simpa [ChainStep.runsAfter?] using htouched),
      runSteps_reads htarget hreads, upserted, settled, if_pos hany]
  | false =>
    have huntouched : rows.filter (Tuple.matching p.binding.keyValues) = [] := by
      simpa [List.filter_eq_nil_iff] using hany
    have hsame : (rows.map fun v ↦ if v.matching p.binding.keyValues then
        v.overwrite p.binding.updateValues else v) = rows := by
      refine (List.map_congr_left fun v hv ↦ ?_).trans (List.map_id rows)
      rw [if_neg (by simpa using List.any_eq_false.mp hany v hv)]
      rfl
    have hinsert := insert_new hb hkey hany
    rw [← exec_insert htarget.symm] at hinsert
    rw [huntouched, hsame, runSteps_cons rfl hinsert, runSteps_reads htarget hreads, upserted,
      settled, hany]
    rfl

theorem runSteps_upsert (hb : p.binding.Upserts) (htarget : R.target = p.target)
    (hkey : R.key = p.binding.keyColumns) (hrows : R.Keyed rows) {steps : List ChainStep}
    (hsteps : p.UpsertSteps steps) :
    R.runSteps none steps rows = .ok (R.settled p.binding
      (if Command.findsByClash p.dialect then R.proposedUpdates p.binding rows
        else p.binding.updateValues) rows) := by
  cases hsteps with
  | merge announced output hd =>
    obtain ⟨touched, hmerge⟩ := merge_ok hb hkey hrows announced output
    rw [htarget] at hmerge
    simp [runSteps, ChainStep.runsAfter?, exec, htarget, hmerge, Except.bind,
      Command.findsByClash, hd, upserted]
  | onConflict overriding output hd hrow =>
    obtain rfl := Binding.insertRow_ok hrow
    obtain ⟨touched, hinsert⟩ := insert_ok hb hkey hrows (s := ⟨p.target, _,
      .onKeys p.binding.keyColumns (p.upsertColumns.map fun c ↦ ⟨c, .supplied⟩), false, overriding,
      output⟩) rfl (by simp) (by simp +contextual [eq_comm]) proposedUpdates_columns
      fun v ↦ assign_upsertColumns hb
    simp [runSteps, ChainStep.runsAfter?, exec, htarget, hinsert, Except.bind,
      Command.findsByClash, hd]
  | onDuplicateKey hd hrow hreads =>
    obtain rfl := Binding.insertRow_ok hrow
    obtain ⟨touched, hinsert⟩ := insert_ok hb hkey hrows (s := ⟨p.target, _,
      p.duplicateConflict, false, false, .none⟩) rfl
      (by rcases duplicateConflict_cases p with h | ⟨as, h⟩ <;> simp [h])
      (by rcases duplicateConflict_cases p with h | ⟨as, h⟩ <;> simp [h]) proposedUpdates_columns
      fun v ↦ assign_duplicateConflict hb
    simp [runSteps, ChainStep.runsAfter?, exec, htarget, hinsert, Except.bind,
      Command.findsByClash, hd, runSteps_reads htarget hreads]
  | updateThenInsert hd hcriteria has hrow hreads =>
    rw [runSteps_updateThenInsert hb htarget hkey hrows hcriteria has hrow hreads]
    simp [Command.findsByClash, hd, upserted]

end Plans

/-! ### Columns that are updated but not inserted -/

/-- The database gives columns that are updated but not inserted the values they are updated to. -/
def FillsUpdates (R : Relation) (b : Binding) (rows : List Tuple) : Prop :=
  ∀ e ∈ b.entries, e.update → e.insert = false → R.fill rows e.column = e.value.getD .null

/-- An update to what the row to be inserted would have is the one wanted exactly if there is none,
or the database fills the columns that the row leaves out accordingly. -/
theorem settled_proposedUpdates_iff {R : Relation} {b : Binding} (hb : b.Upserts)
    (rows : List Tuple) :
    R.settled b (R.proposedUpdates b rows) rows = R.upserted b rows ↔
      (rows.any (Tuple.matching b.keyValues) → R.FillsUpdates b rows) := by
  have hleft {e : Entry} (he : e ∈ b.entries) (hupdate : e.update) (hinsert : e.insert = false) :
      R.propose b.insertValues rows e.column = R.fill rows e.column :=
    hb.once.overwrite_ne hb.insert he (hb.update e he hupdate) hinsert _
  constructor
  · intro hrows hany e he hupdate hinsert
    obtain ⟨v, hv, hmatching⟩ := List.any_eq_true.mp hany
    rw [upserted, settled, settled, if_pos hany, if_pos hany] at hrows
    have hrow := List.map_inj_left.mp hrows v hv
    rw [if_pos hmatching, if_pos hmatching] at hrow
    calc R.fill rows e.column
        = R.propose b.insertValues rows e.column := (hleft he hupdate hinsert).symm
      _ = v.overwrite (R.proposedUpdates b rows) e.column :=
          (Tuple.overwrite_map_of_mem (List.mem_map_of_mem (List.mem_filter.mpr ⟨he, hupdate⟩))
            _ v).symm
      _ = v.overwrite b.updateValues e.column := by rw [hrow]
      _ = e.value.getD .null := hb.once.overwrite_eq hb.update he hupdate v
  · intro hfills
    rw [upserted, settled, settled]
    split
    · rename_i hany
      have hvalues : R.proposedUpdates b rows = b.updateValues := by
        rw [proposedUpdates, Binding.updateColumns, List.map_map]
        refine List.map_congr_left fun e he ↦ ?_
        obtain ⟨hentry, hupdate⟩ := List.mem_filter.mp he
        refine congrArg (e.column, ·) ?_
        cases hinsert : e.insert with
        | true => exact hb.once.overwrite_eq hb.insert hentry hinsert _
        | false => rw [hleft hentry hupdate hinsert, hfills hany e hentry hupdate hinsert]
      rw [hvalues]
    · rfl

end Relation

end SchemaSql
