import SchemaSql.Proofs.Command.Parts

/-!
What statements add rows with and what they update rows to. An upsert has both branches, in one
statement or in two, and the steps of every strategy give the columns of both the values of the
binding; but where a row is found by a clash of keys, the updated columns get the values of the row
that is not added, and a column that is not inserted has none there.
-/

set_option autoImplicit false
set_option relaxedAutoImplicit false

namespace SchemaSql

/-! ### Branches of statements -/

/-- Columns, and the value that each of them is given, if it is given one. -/
abbrev Branch := List (Column × Option Value)

/-- The branch that gives all columns values. -/
def Branch.ofValues (xs : List (Column × Value)) : Branch := xs.map fun x ↦ (x.1, some x.2)

/-- The columns that an insert updates in a row it clashes with. Rows that clash on keys have the
keys in common, so that assigning these changes nothing. -/
def Conflict.suppliedColumns : Conflict → List Column
  | .fail | .ignore => []
  | .onKeys keys as => ((as.filter (·.value = .supplied)).map (·.column)).filter (· ∉ keys)
  | .onDuplicate as => (as.filter (·.value = .supplied)).map (·.column)

def Assignment.given? (a : Assignment) : Option (Column × Option Value) :=
  match a.value with
  | .parameter p => some (a.column, some p.value)
  | .supplied => some (a.column, none)
  | .unchanged => none

namespace Statement

/-- What rows are added with. -/
def inserted : Statement → Branch
  | .insert s => .ofValues (cellValues Parameter.value s.row)
  | .merge s => s.inserts.map fun c ↦ (c, (cellValues Parameter.value s.source).lookup c)
  | _ => []

/-- What rows that are there already are updated to. A supplied value is that of the row that is not
added. -/
def updated : Statement → Branch
  | .insert s => s.conflict.suppliedColumns.map fun c ↦
      (c, (cellValues Parameter.value s.row).lookup c)
  | .update s => s.assignments.filterMap Assignment.given?
  | .merge s => s.updates.map fun c ↦ (c, (cellValues Parameter.value s.source).lookup c)
  | _ => []

end Statement

namespace Chain

def inserted (chain : Chain) : Branch := chain.flatMap (·.statement.inserted)

def updated (chain : Chain) : Branch := chain.flatMap (·.statement.updated)

end Chain

theorem Branch.ofValues_valuesWhere (b : Binding) (p : Entry → Bool) :
    Branch.ofValues (b.valuesWhere p) =
      (b.entries.filter p).map fun e ↦ (e.column, some (e.value.getD .null)) := by
  rw [ofValues, Binding.valuesWhere, List.map_map]
  rfl

theorem Branch.mem_ofValues {xs : List (Column × Value)} {c : Column} {x : Option Value} :
    (c, x) ∈ ofValues xs ↔ ∃ v, x = some v ∧ (c, v) ∈ xs := by
  simp [ofValues, and_comm, eq_comm]

/-! ### Branches of chains -/

section Chains

variable {p : WritePlan} {steps : List ChainStep} {chain : Chain}

/-- Statements that read add and update nothing. -/
theorem Chain.flatMap_of_select {g : Statement → Branch} (hg : ∀ q, g (.select q) = [])
    {links : List Link} (h : ∀ l ∈ links, ∃ q, l.statement = .select q) :
    links.flatMap (fun l ↦ g l.statement) = [] := by
  refine List.flatMap_eq_nil_iff.mpr fun l hl ↦ ?_
  obtain ⟨q, hq⟩ := h l hl
  rw [hq, hg]

theorem WritePlan.CarriedOutBy.updated {s : Statement} (h : p.CarriedOutBy s chain) :
    chain.updated = s.updated := by
  obtain ⟨-, before, write, after, rfl, hwrite, hreads⟩ := h
  have hnone : (before ++ after).flatMap (fun l ↦ l.statement.updated) = [] :=
    Chain.flatMap_of_select (fun _ ↦ rfl) fun l hl ↦ ⟨_, hreads l hl⟩
  rw [List.flatMap_append, List.append_eq_nil_iff] at hnone
  rw [Chain.updated, List.flatMap_append, List.flatMap_cons, hnone.1, hnone.2, hwrite,
    List.nil_append, List.append_nil]

theorem WritePlan.AddsRow.inserted (h : p.AddsRow chain) :
    chain.inserted = Branch.ofValues p.binding.insertValues := by
  obtain ⟨-, write, after, s, rfl, hwrite, -, -, hrow, hreads⟩ := h
  have hnone : after.flatMap (fun l ↦ l.statement.inserted) = [] := by
    refine List.flatMap_eq_nil_iff.mpr fun l hl ↦ ?_
    rcases hreads.reads l hl with ⟨q, hq⟩ | hq <;> rw [hq] <;> rfl
  rw [Chain.inserted, List.flatMap_cons, hnone, List.append_nil, hwrite, Statement.inserted,
    Binding.insertRow_ok hrow, Binding.cellValues_eq]
  rfl

theorem Chain.Runs.flatMap_statement {d : Dialect} (h : chain.Runs d steps)
    (g : Statement → Branch) :
    chain.flatMap (fun l ↦ g l.statement) = steps.flatMap fun step ↦ g step.statement := by
  induction h with
  | nil => rfl
  | cons hruns _ ih => rw [List.flatMap_cons, List.flatMap_cons, ih, hruns.statement]

namespace WritePlan

theorem ReadsBack.flatMap_statement {reads : List ChainStep} (h : p.ReadsBack reads)
    {g : Statement → Branch} (hg : ∀ q, g (.select q) = []) :
    reads.flatMap (fun step ↦ g step.statement) = [] := by
  rcases h with rfl | ⟨criteria, -, rfl⟩
  · rfl
  · exact (List.flatMap_singleton _ _).trans (hg _)

/-- A merge gives the columns of a branch the values that they are bound to. -/
theorem lookup_boundCells (hb : p.binding.Splits) {part : Entry → Bool}
    (hpart : ∀ e ∈ p.binding.entries, part e → e.isBound) :
    ((p.binding.entries.filter part).map (·.column)).map (fun c ↦
      (c, (cellValues Parameter.value p.binding.boundCells).lookup c)) =
        Branch.ofValues (p.binding.valuesWhere part) := by
  have hvalues : cellValues Parameter.value p.binding.boundCells =
      p.binding.valuesWhere (·.isBound) := p.binding.cellValues_eq (·.isBound)
  rw [hvalues, List.map_map, Branch.ofValues_valuesWhere]
  refine List.map_congr_left fun e he ↦ ?_
  obtain ⟨hmem, hchosen⟩ := List.mem_filter.mp he
  have hbound := hpart e hmem hchosen
  have hlookup := hb.once.lookup_valuesWhere (p := (·.isBound)) (fun _ _ ↦ id) hmem hbound
  rw [if_pos hbound] at hlookup
  exact congrArg (Prod.mk e.column) hlookup

theorem insertRow_values {row : List Cell} (h : p.binding.insertRow = .ok row) :
    cellValues Parameter.value row = p.binding.insertValues := by
  rw [Binding.insertRow_ok h, Binding.cellValues_eq]
  rfl

theorem UpsertSteps.inserted (hb : p.binding.Splits) (h : p.UpsertSteps steps) :
    steps.flatMap (fun step ↦ step.statement.inserted) =
      Branch.ofValues p.binding.insertValues := by
  cases h with
  | merge => exact (List.flatMap_singleton _ _).trans (lookup_boundCells hb hb.insert)
  | onConflict _ _ _ hrow =>
    rw [List.flatMap_singleton, ← insertRow_values hrow]
    rfl
  | onDuplicateKey _ hrow hreads =>
    rw [List.flatMap_cons, hreads.flatMap_statement fun _ ↦ rfl, List.append_nil,
      ← insertRow_values hrow]
    rfl
  | updateThenInsert _ _ _ hrow hreads =>
    rw [List.flatMap_cons, List.flatMap_cons, hreads.flatMap_statement fun _ ↦ rfl, List.append_nil,
      ← insertRow_values hrow]
    rfl

/-- Keys are not among the columns that are updated. -/
theorem not_mem_keyColumns (hb : p.binding.Splits) {c : Column} (hc : c ∈ p.binding.updateColumns) :
    c ∉ p.binding.keyColumns :=
  hb.once.apart (fun e he ↦ (hb.parts e he).key) (fun e he ↦ (hb.parts e he).update) c hc

/-- An upsert assigns the columns that its binding updates or, without any, those of its key. -/
theorem mem_upsertColumns {c : Column} (h : c ∈ p.upsertColumns) :
    c ∈ p.binding.updateColumns ∨ p.binding.hasUpdates = false ∧ c ∈ p.binding.keyColumns := by
  rw [upsertColumns] at h
  split at h
  · exact .inl h
  · rename_i hnone
    split at h
    · simp at h
    · exact .inr ⟨by simpa using hnone, h⟩

/-- A clash on the key updates the binding's columns: the key, which is assigned where there is
nothing else to update, is not counted. -/
theorem onKeys_suppliedColumns (hb : p.binding.Splits) :
    (Conflict.onKeys p.binding.keyColumns
      (p.upsertColumns.map fun c ↦ ⟨c, .supplied⟩)).suppliedColumns = p.binding.updateColumns := by
  have hcolumns : ((p.upsertColumns.map fun c ↦ (⟨c, .supplied⟩ : Assignment)).filter
      (·.value = .supplied)).map (·.column) = p.upsertColumns := by
    simp [List.filter_map, Function.comp_def]
  rw [Conflict.suppliedColumns, hcolumns, upsertColumns]
  split
  · exact List.filter_eq_self.mpr fun c hc ↦ by simpa using not_mem_keyColumns hb hc
  · rename_i hnone
    rw [(Relation.updateValues_of_not_hasUpdates (by simpa using hnone)).2]
    split <;> simp

theorem duplicateConflict_suppliedColumns :
    p.duplicateConflict.suppliedColumns = p.binding.updateColumns := by
  have hsupplied : p.duplicateConflict.suppliedColumns =
      if p.binding.hasUpdates then p.upsertColumns else [] := by
    rw [duplicateConflict]
    cases p.binding.hasUpdates <;> cases p.upsertColumns <;>
      simp [Conflict.suppliedColumns, List.filter_map, Function.comp_def]
  rw [hsupplied, upsertColumns]
  split
  · rfl
  · rename_i hnone
    exact (Relation.updateValues_of_not_hasUpdates (by simpa using hnone)).2.symm

theorem assignments_given {b : Binding} {as : List Assignment} (h : b.assignments = .ok as) :
    as.filterMap Assignment.given? = Branch.ofValues b.updateValues := by
  have hgiven : Assignment.given? ∘ (fun e : Entry ↦ ⟨e.column, .parameter e.parameter⟩) =
      some ∘ fun e ↦ (e.column, some (e.value.getD .null)) := by
    funext e
    simp [Assignment.given?, Entry.parameter, Column.parameter, Parameter.make]
  rw [Binding.assignments_ok h, List.filterMap_map, hgiven, List.filterMap_eq_map,
    Binding.updateValues, Branch.ofValues_valuesWhere]

theorem presenceAssignments_given {as : List Assignment} (h : p.presenceAssignments = .ok as) :
    as.filterMap Assignment.given? = Branch.ofValues p.binding.updateValues := by
  rw [presenceAssignments] at h
  split at h
  · exact assignments_given h
  · rename_i hnone
    obtain rfl := Except.ok.inj h
    rw [(Relation.updateValues_of_not_hasUpdates (by simpa using hnone)).1]
    simp [Branch.ofValues, Assignment.given?]

theorem UpsertSteps.updated (hb : p.binding.Splits) (h : p.UpsertSteps steps) :
    steps.flatMap (fun step ↦ step.statement.updated) =
      if Command.findsByClash p.dialect then
        p.binding.updateColumns.map fun c ↦ (c, p.binding.insertValues.lookup c)
      else Branch.ofValues p.binding.updateValues := by
  cases h with
  | merge _ _ hd =>
    rw [Command.findsByClash, hd]
    exact (List.flatMap_singleton _ _).trans (lookup_boundCells hb hb.update)
  | onConflict _ _ hd hrow =>
    rw [Command.findsByClash, hd]
    rw [List.flatMap_singleton, ← insertRow_values hrow, ← onKeys_suppliedColumns hb]
    rfl
  | onDuplicateKey hd hrow hreads =>
    rw [Command.findsByClash, hd]
    rw [List.flatMap_cons, hreads.flatMap_statement fun _ ↦ rfl, List.append_nil,
      ← insertRow_values hrow, ← duplicateConflict_suppliedColumns]
    rfl
  | updateThenInsert hd _ has hrow hreads =>
    rw [Command.findsByClash, hd]
    rw [List.flatMap_cons, List.flatMap_cons, hreads.flatMap_statement fun _ ↦ rfl, List.append_nil,
      ← presenceAssignments_given has]
    exact List.append_nil _

end WritePlan

end Chains

end SchemaSql
