import SchemaSql.Proofs.Command.Siblings

/-!
The lists of columns in the statements of an upsert. Whether the argument has something to insert
and a value for every key is seen to before the rules are applied, and rules take columns out of the
insert afterwards. An insert is refused if they leave nothing of it; a merge is not. Where a row is
found by a clash of keys, nothing sees to the keys in the insert.
-/

set_option autoImplicit false
set_option relaxedAutoImplicit false

namespace SchemaSql

theorem Binding.insertRow_columns {b : Binding} {row : List Cell} (h : b.insertRow = .ok row) :
    row ≠ [] ∧ row.map (·.column) = b.insertColumns := by
  rw [insertRow] at h
  split at h
  · rename_i hinserts
    obtain ⟨e, he, hinsert⟩ := List.any_eq_true.mp hinserts
    obtain rfl := Except.ok.inj h
    refine ⟨fun hnone ↦ ?_, List.map_map⟩
    rw [List.map_eq_nil_iff] at hnone
    exact List.filter_eq_nil_iff.mp hnone e he hinsert
  · simp at h

/-- All columns of the key are bound. -/
theorem Binding.Splits.key_mem_boundCells {b : Binding} (hb : b.Splits) {c : Column}
    (hc : c ∈ b.keyColumns) : c ∈ b.boundCells.map (·.column) := by
  obtain ⟨e, he, rfl⟩ := List.mem_map.mp hc
  obtain ⟨hmem, hkey⟩ := List.mem_filter.mp he
  have hcell : e.cell ∈ b.boundCells :=
    List.mem_map_of_mem (List.mem_filter.mpr ⟨hmem, (hb.parts e hmem).key hkey⟩)
  exact List.mem_map_of_mem hcell

/-! ### Steps of upserts -/

/-- Whether a statement adds a row that is not there yet. -/
def Statement.AddsRows : Statement → Prop
  | .insert _ | .merge _ => True
  | _ => False

namespace WritePlan

variable {p : WritePlan} {steps : List ChainStep}

/-- The columns that a statement of an upsert lists. -/
def Lists (p : WritePlan) : Statement → Prop
  | .insert s => s.row ≠ [] ∧ s.row.map (·.column) = p.binding.insertColumns ∧
      ∀ keys as, s.conflict = .onKeys keys as → keys = p.binding.keyColumns
  | .merge s => p.dialect.upsertStrategy = .merge ∧ s.keys = p.binding.keyColumns ∧
      s.source = p.binding.boundCells ∧ s.inserts = p.binding.insertColumns
  | _ => True

theorem ReadsBack.lists {reads : List ChainStep} (h : p.ReadsBack reads) :
    ∀ step ∈ reads, p.Lists step.statement := by
  rcases h with rfl | ⟨criteria, -, rfl⟩
  · simp
  · simp [readStatement, Lists]

theorem duplicateConflict_ne_onKeys (keys : List Column) (as : List Assignment) :
    p.duplicateConflict ≠ .onKeys keys as := by
  rw [duplicateConflict]
  cases p.binding.hasUpdates <;> cases p.upsertColumns <;> simp

theorem UpsertSteps.lists (h : p.UpsertSteps steps) : ∀ step ∈ steps, p.Lists step.statement := by
  cases h with
  | merge _ _ hd =>
    rintro step hstep
    obtain rfl := List.mem_singleton.mp hstep
    exact ⟨hd, rfl, rfl, rfl⟩
  | onConflict _ _ _ hrow =>
    rintro step hstep
    obtain rfl := List.mem_singleton.mp hstep
    obtain ⟨hsome, hcolumns⟩ := Binding.insertRow_columns hrow
    refine ⟨hsome, hcolumns, fun keys as hkeys ↦ ?_⟩
    cases hkeys
    rfl
  | onDuplicateKey _ hrow hreads =>
    obtain ⟨hsome, hcolumns⟩ := Binding.insertRow_columns hrow
    refine List.forall_mem_cons.mpr ⟨⟨hsome, hcolumns, fun keys as hkeys ↦ ?_⟩, hreads.lists⟩
    exact absurd hkeys (duplicateConflict_ne_onKeys keys as)
  | updateThenInsert _ _ _ hrow hreads =>
    obtain ⟨hsome, hcolumns⟩ := Binding.insertRow_columns hrow
    refine List.forall_mem_cons.mpr ⟨trivial, List.forall_mem_cons.mpr ⟨?_, hreads.lists⟩⟩
    exact ⟨hsome, hcolumns, fun keys as hkeys ↦ by cases hkeys⟩

theorem UpsertSteps.exists_addsRows (h : p.UpsertSteps steps) :
    ∃ step ∈ steps, step.statement.AddsRows := by
  cases h with
  | merge | onConflict | onDuplicateKey => exact ⟨_, List.mem_cons_self, trivial⟩
  | updateThenInsert => exact ⟨_, List.mem_cons_of_mem _ List.mem_cons_self, trivial⟩

end WritePlan

namespace Command

variable {env : Environment} {desired : Desired} {t : Table} {a : Argument} {b : Binding}
  {o : UpsertOptions} {chain : Chain}

/-! ### Keys among the inserted columns -/

/-- Whether an upsert that finds its row by a clash can insert a column of the key: the database
does not compute it, or leaves its identity to the request, and no rule takes it out. -/
def InsertsKey (env : Environment) (t : Table) (o : UpsertOptions) (c : Column) : Prop :=
  (c.isComputed → o.identityInsert ∧ c.isIdentity) ∧ (env.rules.about t c).all (·.onInsert)

/-- The key of an upsert is that of its argument. -/
theorem keyColumns_bindUpsert (b : Binding) (o : UpsertOptions) :
    (env.rules.bindUpsert env.now (upsertBase env b o)).keyColumns = b.keyColumns :=
  Binding.keyColumns_of_keyMarks
    ((Binding.keyMarks_bindUpsert _ _ _).trans (keyMarks_upsertBase b o))

theorem mem_insertColumns_iff
    (hb : (binding env t).apply (Binding.bindArgument a o.useKeyMarks) = .ok b)
    (hruled : (env.rules.bindUpsert env.now (upsertBase env b o)).Splits)
    (hclash : findsByClash env.dialect) {c : Column} (hc : c ∈ b.keyColumns) :
    c ∈ (env.rules.bindUpsert env.now (upsertBase env b o)).insertColumns ↔
      InsertsKey env t o c := by
  have hinserts : c ∈ (env.rules.bindUpsert env.now (upsertBase env b o)).insertColumns ↔
      ∃ e ∈ (env.rules.bindUpsert env.now (upsertBase env b o)).entries,
        e.insert ∧ e.column = c := by
    simp [Binding.insertColumns, and_assoc]
  -- A key is bound, so that its entry is the one that the column means.
  rw [← keyColumns_bindUpsert b o] at hc
  obtain ⟨e, he, rfl⟩ := List.mem_map.mp hc
  obtain ⟨hmem, hkey⟩ := List.mem_filter.mp he
  have hbound : e.isBound := (hruled.parts e hmem).key hkey
  have hentry := hruled.once.entryOf?_eq hmem hbound
  rw [hinserts, hruled.once.exists_entry_iff hruled.insert, hentry]
  rw [entryOf?_bindUpsert hb] at hentry
  obtain ⟨-, hentry⟩ := Option.ite_none_right_eq_some.mp hentry
  have hmade := Option.some.inj hentry
  generalize hcolumn : e.column = c at hmade ⊢
  subst hmade
  have hbound' : (upsertEntry env t a o.useKeyMarks c).isBound := hbound
  have hkey' : (upsertEntry env t a o.useKeyMarks c).isKey := hkey
  have hcolumn' : (upsertEntry env t a o.useKeyMarks c).column = c := hcolumn
  simp only [Option.some.injEq, exists_eq_left', Entry.restricted, Binding.withParts, hbound',
    Binding.insertable_eq (upsertBase_makes hb).choices, hcolumn', hclash, hkey', InsertsKey,
    Column.isWritable]
  cases c.isComputed <;> cases c.isIdentity <;> cases o.identityInsert <;> simp

/-- An upsert that finds its row otherwise inserts something if the insert of its argument inserts a
column that all rules are for. -/
theorem insertColumns_ne_nil_iff
    (hb : (binding env t).apply (Binding.bindArgument a o.useKeyMarks) = .ok b)
    (hbase : (upsertBase env b o).Splits)
    (hruled : (env.rules.bindUpsert env.now (upsertBase env b o)).Splits)
    (hclash : findsByClash env.dialect = false) {added : Binding}
    (hadded : insertBinding env t a ⟨o.identityInsert⟩ = .ok added) :
    (env.rules.bindUpsert env.now (upsertBase env b o)).insertColumns ≠ [] ↔
      ∃ x ∈ added.insertValues, (env.rules.about t x.1).all (·.onInsert) := by
  have hchanged := updateBinding_of_bindArgument hb
  have hmem (x : Column × Value) :
      x ∈ (env.rules.bindUpsert env.now (upsertBase env b o)).insertValues ↔
        x ∈ added.insertValues ∧ (env.rules.about t x.1).all (·.onInsert) :=
    (mem_insertValues_iff hb hbase hruled hadded hchanged).trans (by simp [hclash])
  rw [Binding.insertColumns, ← Binding.valuesWhere_columns, ne_eq, List.map_eq_nil_iff,
    List.eq_nil_iff_forall_not_mem, not_forall_not]
  exact exists_congr hmem

/-! ### Upserts -/

/-- An upsert lists at least one column to insert, unless it is a merge; a merge does if the insert
of its argument has a column that all rules are for. Every key of a merge is a column of its source;
a key that rows clash on is inserted if the database does not compute it and all rules are for
it. -/
theorem prepare_upsert_columns {o : UpsertOptions}
    (h : prepare env desired (.upsert t a o) = .ok chain) :
    ∃ b added, (binding env t).apply (Binding.bindArgument a o.useKeyMarks) = .ok b ∧
      insertBinding env t a ⟨o.identityInsert⟩ = .ok added ∧
      (∃ l ∈ chain, l.statement.AddsRows) ∧
      ∀ l ∈ chain,
        (∀ s, l.statement = .insert s → s.row ≠ [] ∧
          (∀ keys as, s.conflict = .onKeys keys as → keys = b.keyColumns) ∧
          (findsByClash env.dialect → ∀ c ∈ b.keyColumns,
            (c ∈ s.row.map (·.column) ↔ InsertsKey env t o c))) ∧
        (∀ s, l.statement = .merge s → s.keys = b.keyColumns ∧
          (∀ c ∈ s.keys, c ∈ s.source.map (·.column)) ∧
          (s.inserts ≠ [] ↔
            ∃ x ∈ added.insertValues, (env.rules.about t x.1).all (·.onInsert))) := by
  obtain ⟨b, p, steps, hb, hbase, hd, hunread, hsplits, hsteps, hruns⟩ := prepareUpsert_plan h
  obtain ⟨added, hadded⟩ := exists_insertBinding (o := ⟨o.identityInsert⟩) hb
  have hruled := bindUpsert_splits hb hbase
  have hkeys : p.binding.keyColumns = b.keyColumns :=
    (Binding.keyColumns_of_keyMarks (Binding.keyMarks_unread hunread)).trans
      (keyColumns_bindUpsert b o)
  have hcolumns : p.binding.insertColumns =
      (env.rules.bindUpsert env.now (upsertBase env b o)).insertColumns := by
    have hvalues := Binding.valuesWhere_congr hunread (p := (·.insert)) fun _ ↦ rfl
    have hmap := congrArg (List.map (·.1)) hvalues
    rwa [Binding.valuesWhere_columns, Binding.valuesWhere_columns] at hmap
  obtain ⟨step, hstep, hadds⟩ := hsteps.exists_addsRows
  obtain ⟨l, hl, hlink⟩ := hruns.exists_link hstep
  refine ⟨b, added, hb, hadded, ⟨l, hl, hlink.statement ▸ hadds⟩, fun l hl ↦ ?_⟩
  obtain ⟨step, hstep, hlink⟩ := hruns.exists_step hl
  have hlists := hsteps.lists step hstep
  rw [← hlink.statement] at hlists
  refine ⟨fun s hs ↦ ?_, fun s hs ↦ ?_⟩
  · rw [hs] at hlists
    obtain ⟨hsome, hrow, hconflict⟩ := hlists
    refine ⟨hsome, fun keys as hcs ↦ (hconflict keys as hcs).trans hkeys, fun hclash c hc ↦ ?_⟩
    rw [hrow, hcolumns]
    exact mem_insertColumns_iff hb hruled hclash hc
  · rw [hs] at hlists
    obtain ⟨hmerge, hkey, hsource, hinserts⟩ := hlists
    refine ⟨hkey.trans hkeys, fun c hc ↦ ?_, ?_⟩
    · rw [hsource]
      exact hsplits.key_mem_boundCells (hkey ▸ hc)
    · have hclash : findsByClash env.dialect = false := by rw [findsByClash, ← hd, hmerge]
      rw [hinserts, hcolumns]
      exact insertColumns_ne_nil_iff hb hbase hruled hclash hadded

/-- Users whose keys the database numbers. -/
def numberedUsers (d : Dialect) : Table :=
  Table.make d ⟨none, "Users"⟩ true [(Users.id d).identity, Users.name d]

/-- A name that a rule is for in updates alone leaves nothing to insert. -/
theorem merge_user_without_inserts :
    ∃ chain, prepare (Users.environment .sqlServer (.bool true) (.text "Eve")) .none
        (.upsert (numberedUsers .sqlServer) (plainUser (.int 1) (.text "Ann")) {}) = .ok chain ∧
      ∃ l ∈ chain, ∃ s, l.statement = .merge s ∧
        s.keys = (numberedUsers .sqlServer).keyColumns ∧ s.inserts = [] := by
  have hmerges : (prepare (Users.environment .sqlServer (.bool true) (.text "Eve")) .none
      (.upsert (numberedUsers .sqlServer) (plainUser (.int 1) (.text "Ann")) {})).toOption.any
        fun c ↦ c.all fun l ↦ l.statement matches .merge _ := by decide +kernel
  have hbound : ((binding (Users.environment .sqlServer (.bool true) (.text "Eve"))
      (numberedUsers .sqlServer)).apply (Binding.bindArgument
        (plainUser (.int 1) (.text "Ann")) false)).toOption.all fun b ↦
          b.keyColumns = (numberedUsers .sqlServer).keyColumns := by decide +kernel
  have hrules : (insertBinding (Users.environment .sqlServer (.bool true) (.text "Eve"))
      (numberedUsers .sqlServer) (plainUser (.int 1) (.text "Ann")) {}).toOption.all fun b ↦
        b.insertValues.all fun x ↦ !((Users.environment .sqlServer (.bool true)
          (.text "Eve")).rules.about (numberedUsers .sqlServer) x.1).all (·.onInsert) := by
    decide +kernel
  obtain ⟨chain, hchain, hmerges⟩ := exists_ok_of_any hmerges
  obtain ⟨b, added, hb, hadded, ⟨l, hl, -⟩, hlists⟩ := prepare_upsert_columns hchain
  have hmerge := List.all_eq_true.mp hmerges l hl
  cases hs : l.statement with
  | merge s =>
    obtain ⟨hkeys, -, hinserts⟩ := (hlists l hl).2 s hs
    rw [hb] at hbound
    rw [hadded] at hrules
    refine ⟨chain, hchain, l, hl, s, hs, hkeys.trans (of_decide_eq_true hbound), ?_⟩
    refine by_contra fun hsome ↦ ?_
    obtain ⟨x, hx, hall⟩ := hinserts.mp hsome
    have hnone := List.all_eq_true.mp hrules x hx
    rw [hall] at hnone
    cases hnone
  | _ =>
    rw [hs] at hmerge
    cases hmerge

end Command

end SchemaSql
