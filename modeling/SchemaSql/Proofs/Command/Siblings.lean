import SchemaSql.Proofs.Command.Branches

/-!
The two branches of an upsert next to the insert and the update of the same argument. Every column
has one value for both branches, the one that the last rule for a branch gives it or else the
argument's, and every rule that means a column takes it out of the branch that the rule is not for.
So a column is in a branch with the value that the insert or update gives it if all rules for the
column are for that branch, and in no branch otherwise.
-/

set_option autoImplicit false
set_option relaxedAutoImplicit false

namespace SchemaSql

namespace Command

variable {env : Environment} {desired : Desired} {t : Table} {a : Argument} {b : Binding}
  {chain : Chain}

/-! ### The insert and the update of an argument -/

/-- The binding whose inserted columns the insert of an argument adds a row with. -/
def insertBinding (env : Environment) (t : Table) (a : Argument) (o : InsertOptions) :
    Except Error Binding :=
  ((binding env t).apply (Binding.bindArgument a false)).map fun b ↦
    env.rules.bindInsert env.now (b.withIdentities o.identityInsert)

/-- The binding whose updated columns the update by an argument updates rows to. -/
def updateBinding (env : Environment) (t : Table) (a : Argument) (useKeyMarks : Bool) :
    Except Error Binding :=
  ((binding env t).apply (Binding.bindArgument a useKeyMarks)).map (env.rules.bindUpdate env.now)

theorem updateBinding_of_bindArgument {marks : Bool}
    (hb : (binding env t).apply (Binding.bindArgument a marks) = .ok b) :
    updateBinding env t a marks = .ok (env.rules.bindUpdate env.now b) := by
  rw [updateBinding, hb]
  rfl

theorem prepareInsert_inserted {o : InsertOptions} (hb : insertBinding env t a o = .ok b)
    (h : prepareInsert env desired t a o = .ok chain) :
    chain.inserted = Branch.ofValues b.insertValues := by
  obtain ⟨c, hc, rfl⟩ := map_eq_ok.mp hb
  rw [prepareInsert_eq] at h
  obtain ⟨c', hc', h⟩ := bind_eq_ok.mp h
  obtain rfl := Except.ok.inj (hc'.symm.trans hc)
  obtain ⟨r, hr, h⟩ := bind_eq_ok.mp h
  have hvalues := Binding.valuesWhere_congr (returningFor_ok hr).2.1 (p := (·.insert)) fun _ ↦ rfl
  rw [(WritePlan.insertChain_addsRow h).inserted]
  exact congrArg Branch.ofValues hvalues

theorem prepareUpdate_updated {o : UpdateOptions}
    (hb : updateBinding env t a o.useKeyMarks = .ok b)
    (h : prepareUpdate env desired t a o = .ok chain) :
    chain.updated = Branch.ofValues b.updateValues := by
  obtain ⟨c, hc, rfl⟩ := map_eq_ok.mp hb
  obtain ⟨c', hc', h⟩ := bind_eq_ok.mp h
  obtain rfl := Except.ok.inj (hc'.symm.trans hc)
  obtain ⟨_, -, h⟩ := bind_eq_ok.mp h
  obtain ⟨criteria, -, h⟩ := bind_eq_ok.mp h
  obtain ⟨r, hr, h⟩ := bind_eq_ok.mp h
  obtain ⟨as, output, has, hcarried⟩ := WritePlan.updateChain_ok h
  have hvalues := Binding.valuesWhere_congr (returningFor_ok hr).2.1 (p := (·.update)) fun _ ↦ rfl
  rw [hcarried.updated, Statement.updated, WritePlan.assignments_given has]
  exact congrArg Branch.ofValues hvalues

/-! ### The binding of an upsert -/

variable {o : UpsertOptions}

theorem upsertBase_makes
    (hb : (binding env t).apply (Binding.bindArgument a o.useKeyMarks) = .ok b) :
    (upsertBase env b o).Makes t (o.identityInsert, findsByClash env.dialect, false)
      (a.entryFor t o.useKeyMarks) :=
  ((Binding.Makes.ofArgument hb).withIdentities o.identityInsert).withKeyInserts _

theorem keyUpdates_upsertBase
    (hb : (binding env t).apply (Binding.bindArgument a o.useKeyMarks) = .ok b) :
    (upsertBase env b o).keyUpdates = false :=
  congrArg (·.2.2) (upsertBase_makes hb).choices

theorem upsertBase_splits
    (hb : (binding env t).apply (Binding.bindArgument a o.useKeyMarks) = .ok b)
    (hkeys : (upsertBase env b o).hasKeyValues) : (upsertBase env b o).Splits := by
  have honce : (binding env t).BoundOnce := boundOnce_binding env t
  have hmakes := upsertBase_makes (o := o) hb
  refine ⟨((honce.bindArgument hb).withIdentities _).withKeyInserts _, fun e he ↦ ?_⟩
  have hkey : e.isKey → e.isBound := fun hkey ↦ by
    simp only [Binding.hasKeyValues, Bool.and_eq_true, List.all_eq_true] at hkeys
    exact hkeys.2 e (List.mem_filter.mpr ⟨he, hkey⟩)
  rw [← hmakes.refreshed] at he
  obtain ⟨e, -, rfl⟩ := List.mem_map.mp he
  exact Binding.splitsParts_withParts (keyUpdates_upsertBase hb) hkey

theorem bindUpsert_splits
    (hb : (binding env t).apply (Binding.bindArgument a o.useKeyMarks) = .ok b)
    (hbase : (upsertBase env b o).Splits) :
    (env.rules.bindUpsert env.now (upsertBase env b o)).Splits :=
  hbase.bindUpsert (keyUpdates_upsertBase hb) env.rules env.now

/-- The plan of an upsert is made of the argument's binding after the rules and hands back the
wanted columns, which the last link of its chain reads. -/
theorem prepareUpsert_answers (h : prepareUpsert env desired t a o = .ok chain) :
    ∃ (b : Binding) (p : WritePlan) (steps : List ChainStep),
      (binding env t).apply (Binding.bindArgument a o.useKeyMarks) = .ok b ∧
      (upsertBase env b o).hasKeyValues ∧ p.dialect = env.dialect ∧ p.target = t.target ∧
      returningFor (env.rules.bindUpsert env.now (upsertBase env b o)) desired .new =
        .ok (p.binding, p.returning) ∧
      p.UpsertSteps steps ∧ chain.Runs env.dialect steps ∧
      (p.returning ≠ .none → chain.Answers) := by
  rw [prepareUpsert_eq] at h
  obtain ⟨b, hb, h⟩ := bind_eq_ok.mp h
  split at h
  · simp at h
  rename_i hmissing
  split at h
  · simp at h
  obtain ⟨r, hr, h⟩ := bind_eq_ok.mp h
  have hframe : r.1.frame = (t.target, env.dialect, t.columns) := by
    rw [(returningFor_ok hr).1, Binding.frame_bindUpsert, frame_upsertBase,
      Binding.frame_bindArgument hb, frame_binding]
  obtain ⟨steps, hsteps, hruns, hanswers⟩ := WritePlan.upsertChain_answers rfl h
  have hdialect : r.1.dialect = env.dialect := congrArg (·.2.1) hframe
  refine ⟨b, _, steps, hb, by simpa using hmissing, ?_, ?_, ?_, hsteps, ?_, hanswers⟩
  · exact hdialect
  · exact congrArg (·.1) hframe
  · exact hr
  · exact hdialect ▸ hruns

theorem prepareUpsert_plan (h : prepareUpsert env desired t a o = .ok chain) :
    ∃ (b : Binding) (p : WritePlan) (steps : List ChainStep),
      (binding env t).apply (Binding.bindArgument a o.useKeyMarks) = .ok b ∧
      (upsertBase env b o).Splits ∧ p.dialect = env.dialect ∧
      p.binding.unread = (env.rules.bindUpsert env.now (upsertBase env b o)).unread ∧
      p.binding.Splits ∧ p.UpsertSteps steps ∧ chain.Runs env.dialect steps := by
  obtain ⟨b, p, steps, hb, hkeys, hd, -, hr, hsteps, hruns, -⟩ := prepareUpsert_answers h
  obtain ⟨-, hunread, honce⟩ := returningFor_ok hr
  have hsplits := upsertBase_splits (o := o) hb hkeys
  have hruled := bindUpsert_splits hb hsplits
  exact ⟨b, p, steps, hb, hsplits, hd, hunread, hruled.of_unread hunread (honce hruled.once),
    hsteps, hruns⟩

/-- What an upsert makes of a column, in the parts apart: the argument's part in it, bound by the
last rule for a branch. -/
def upsertEntry (env : Environment) (t : Table) (a : Argument) (useKeyMarks : Bool) (c : Column) :
    Entry :=
  (a.entryFor t useKeyMarks c).ruled env.now
    ((env.rules.about t c).filter fun v ↦ v.onInsert || v.onUpdate)

section Upsert

variable (hb : (binding env t).apply (Binding.bindArgument a o.useKeyMarks) = .ok b)

include hb

/-- A column of an upsert is left in the branches that all rules for it are for. -/
theorem entryOf?_bindUpsert (c : Column) :
    (env.rules.bindUpsert env.now (upsertBase env b o)).entryOf? c =
      if c ∈ t.columns then
        some (((upsertBase env b o).withParts (upsertEntry env t a o.useKeyMarks c)).restricted
          (env.rules.about t c))
      else none := by
  have hmakes := upsertBase_makes (o := o) hb
  rw [Rules.entryOf?_bindUpsert hmakes.refreshed hmakes.columns, hmakes.entry]
  split
  · rw [Option.map_some, Binding.Makes.withParts_ruled]
    rfl
  · rfl

variable (hsplits : (env.rules.bindUpsert env.now (upsertBase env b o)).Splits) {c : Column}
  {v : Value}

include hsplits

theorem mem_insertValues_bindUpsert :
    (c, v) ∈ (env.rules.bindUpsert env.now (upsertBase env b o)).insertValues ↔
      c ∈ t.columns ∧ (upsertBase env b o).insertable (upsertEntry env t a o.useKeyMarks c) ∧
        (upsertEntry env t a o.useKeyMarks c).value = some v ∧
          (env.rules.about t c).all (·.onInsert) := by
  rw [Binding.insertValues, hsplits.once.mem_valuesWhere hsplits.insert, entryOf?_bindUpsert hb]
  by_cases hc : c ∈ t.columns
  · by_cases hvalue : (upsertEntry env t a o.useKeyMarks c).value = some v <;>
      simp [hc, hvalue, Entry.restricted, Binding.withParts, Entry.isBound]
  · simp [hc]

theorem mem_updateValues_bindUpsert :
    (c, v) ∈ (env.rules.bindUpsert env.now (upsertBase env b o)).updateValues ↔
      c ∈ t.columns ∧ (upsertBase env b o).updatable (upsertEntry env t a o.useKeyMarks c) ∧
        (upsertEntry env t a o.useKeyMarks c).value = some v ∧
          (env.rules.about t c).all (·.onUpdate) := by
  rw [Binding.updateValues, hsplits.once.mem_valuesWhere hsplits.update, entryOf?_bindUpsert hb]
  by_cases hc : c ∈ t.columns
  · by_cases hvalue : (upsertEntry env t a o.useKeyMarks c).value = some v <;>
      simp [hc, hvalue, Entry.restricted, Binding.withParts, Entry.isBound]
  · simp [hc]

/-- A column that is updated has the value of the insert if it is inserted too. -/
theorem lookup_insertValues_bindUpsert
    (hc : (c, v) ∈ (env.rules.bindUpsert env.now (upsertBase env b o)).updateValues) :
    (env.rules.bindUpsert env.now (upsertBase env b o)).insertValues.lookup c =
      if (env.rules.about t c).all (·.onInsert) then some v else none := by
  obtain ⟨e, he, hupdate, hvalue⟩ := (hsplits.once.mem_valuesWhere hsplits.update).mp hc
  have hbound : e.isBound := by rw [Entry.isBound, hvalue]; rfl
  have hlookup := hsplits.once.lookup_valuesWhere hsplits.insert (Binding.mem_of_entryOf? he) hbound
  rw [Binding.column_of_entryOf? he, hvalue, Option.getD_some] at hlookup
  rw [Binding.insertValues, hlookup]
  rw [entryOf?_bindUpsert hb] at he
  obtain ⟨-, he⟩ := Option.ite_none_right_eq_some.mp he
  -- What is updated is writable, so that only rules can take it out of the insert.
  have hinsert : e.insert = (env.rules.about t c).all (·.onInsert) := by
    rw [← Option.some.inj he] at hupdate hbound ⊢
    have hwritable := (Bool.and_eq_true_iff.mp (Bool.and_eq_true_iff.mp
      (Bool.and_eq_true_iff.mp hupdate).1).2).1
    have hbound' : (upsertEntry env t a o.useKeyMarks c).isBound := hbound
    simp [Entry.restricted, Binding.withParts, Binding.insertable, hwritable, hbound']
  rw [hinsert]

end Upsert

/-! ### Keys -/

theorem keyMarks_upsertBase (b : Binding) (o : UpsertOptions) :
    (upsertBase env b o).keyMarks = b.keyMarks := by
  have hidentities (wanted : Bool) : (b.withIdentities wanted).keyMarks = b.keyMarks := by
    cases wanted with
    | false => rfl
    | true => exact Binding.keyMarks_refreshed _
  rw [upsertBase, Binding.withKeyInserts]
  split
  · exact (Binding.keyMarks_refreshed _).trans (hidentities _)
  · exact hidentities _

theorem keyMarks_bindWhere (r : Rules) (p : ValueRule → Bool) (now : Timestamp) (b : Binding) :
    (r.bindWhere p now b).keyMarks = b.keyMarks := by
  refine r.bindWhere_induction (I := fun c ↦ c.keyMarks = b.keyMarks) p now ?_ rfl
  intro v _ _ c hc
  rw [Binding.keyMarks_bindRule, hc]

theorem mem_keyColumns (hb : (binding env t).apply (Binding.bindArgument a o.useKeyMarks) = .ok b)
    (hbase : (upsertBase env b o).Splits) {c : Column} :
    c ∈ b.keyColumns ↔ c ∈ t.columns ∧ (a.entryFor t o.useKeyMarks c).isKey := by
  have hmem : c ∈ (upsertBase env b o).keyColumns ↔
      ∃ e ∈ (upsertBase env b o).entries, e.isKey ∧ e.column = c := by
    simp [Binding.keyColumns, and_assoc]
  have hmarks : (upsertBase env b o).keyMarks = b.keyMarks := keyMarks_upsertBase b o
  rw [← Binding.keyColumns_of_keyMarks hmarks, hmem,
    hbase.once.exists_entry_iff (P := fun e ↦ e.isKey) fun e he ↦ (hbase.parts e he).key,
    (upsertBase_makes hb).entry]
  by_cases hc : c ∈ t.columns <;> simp [hc, Binding.withParts]

/-! ### Upserts next to inserts and updates -/

/-- If all rules for a column are of one kind, the last of those for a branch is the last of that
kind. -/
theorem upsertEntry_value {p : ValueRule → Bool} (hp : ∀ v, p v → (v.onInsert || v.onUpdate))
    {c : Column} (hall : (env.rules.about t c).all p) (marks marks' : Bool) :
    (upsertEntry env t a marks c).value =
      ((a.entryFor t marks' c).ruled env.now ((env.rules.about t c).filter p)).value := by
  have hkind : (env.rules.about t c).filter p = env.rules.about t c :=
    List.filter_eq_self.mpr (List.all_eq_true.mp hall)
  have hbranch : (env.rules.about t c).filter (fun v ↦ v.onInsert || v.onUpdate) =
      env.rules.about t c :=
    List.filter_eq_self.mpr fun v hv ↦ hp v (List.all_eq_true.mp hall v hv)
  rw [upsertEntry, hbranch, hkind]
  exact Entry.ruled_value (Argument.entryFor_value.trans Argument.entryFor_value.symm) _ _

section Siblings

variable (hb : (binding env t).apply (Binding.bindArgument a o.useKeyMarks) = .ok b)
  (hbase : (upsertBase env b o).Splits)
  (hruled : (env.rules.bindUpsert env.now (upsertBase env b o)).Splits) {c : Column} {v : Value}

include hb hruled

/-- What an upsert updates the update of its argument does, where all rules are for updates. -/
theorem mem_updateValues_iff {changed : Binding}
    (hchanged : updateBinding env t a o.useKeyMarks = .ok changed) :
    (c, v) ∈ (env.rules.bindUpsert env.now (upsertBase env b o)).updateValues ↔
      (c, v) ∈ changed.updateValues ∧ (env.rules.about t c).all (·.onUpdate) := by
  obtain ⟨b', hb', rfl⟩ := map_eq_ok.mp hchanged
  obtain rfl := Except.ok.inj (hb.symm.trans hb')
  have hmakes := (Binding.Makes.ofArgument hb).bindWhere env.rules (·.onUpdate) env.now
  have honce := ((boundOnce_binding env t).bindArgument hb).bindWhere env.rules (·.onUpdate) env.now
  rw [mem_updateValues_bindUpsert hb hruled, Rules.bindUpdate, hmakes.mem_updateValues honce,
    Binding.updatable_eq (upsertBase_makes hb).choices, Binding.updatable_eq hmakes.choices]
  by_cases hall : (env.rules.about t c).all (·.onUpdate) = true
  · rw [upsertEntry_value (p := (·.onUpdate)) (fun v hv ↦ by simp [hv]) hall _ o.useKeyMarks]
    simp [hall, upsertEntry]
  · simp [hall]

include hbase

/-- What an upsert inserts the insert of its argument does, where all rules are for inserts; but
where the row is found by a clash, the key is inserted too. -/
theorem mem_insertValues_iff {added changed : Binding}
    (hadded : insertBinding env t a ⟨o.identityInsert⟩ = .ok added)
    (hchanged : updateBinding env t a o.useKeyMarks = .ok changed) :
    (c, v) ∈ (env.rules.bindUpsert env.now (upsertBase env b o)).insertValues ↔
      ((c, v) ∈ added.insertValues ∨
        findsByClash env.dialect ∧ c ∈ changed.keyColumns ∧ c.isComputed = false ∧
          (c, v) ∈ added.valuesWhere (·.isBound)) ∧
      (env.rules.about t c).all (·.onInsert) := by
  obtain ⟨b₀, hb₀, rfl⟩ := map_eq_ok.mp hadded
  obtain ⟨b', hb', rfl⟩ := map_eq_ok.mp hchanged
  obtain rfl := Except.ok.inj (hb.symm.trans hb')
  have hmakes := ((Binding.Makes.ofArgument hb₀).withIdentities o.identityInsert).bindWhere
    env.rules (·.onInsert) env.now
  have honce := (((boundOnce_binding env t).bindArgument hb₀).withIdentities
    o.identityInsert).bindWhere env.rules (·.onInsert) env.now
  have hkeys : c ∈ (env.rules.bindUpdate env.now b).keyColumns ↔ c ∈ b.keyColumns := by
    rw [Rules.bindUpdate, Binding.keyColumns_of_keyMarks (keyMarks_bindWhere env.rules _ env.now b)]
  rw [mem_insertValues_bindUpsert hb hruled, Rules.bindInsert, hmakes.mem_insertValues honce,
    hmakes.mem_boundValues honce, hkeys, mem_keyColumns hb hbase,
    Binding.insertable_eq (upsertBase_makes hb).choices, Binding.insertable_eq hmakes.choices]
  by_cases hall : (env.rules.about t c).all (·.onInsert) = true
  · rw [upsertEntry_value (p := (·.onInsert)) (fun v hv ↦ by simp [hv]) hall _ false]
    simp only [hall, upsertEntry, Argument.entryFor_column, Entry.ruled_column, Entry.ruled_isKey,
      Bool.or_eq_true, Bool.and_eq_true, Bool.not_eq_true', Bool.false_eq_true, false_and, or_false,
      and_true]
    grind
  · simp [hall]

end Siblings

/-- The insert of an argument knows its properties if a request with its key marks does. -/
theorem exists_insertBinding {marks : Bool} {o : InsertOptions}
    (hb : (binding env t).apply (Binding.bindArgument a marks) = .ok b) :
    ∃ added, insertBinding env t a o = .ok added := by
  obtain ⟨-, hknown, -⟩ := Binding.bindArgument_eq_ok.mp hb
  obtain ⟨c, hunmarked⟩ : ∃ c, (binding env t).apply (Binding.bindArgument a false) = .ok c :=
    ⟨_, Binding.bindArgument_eq_ok.mpr ⟨fun h ↦ absurd h Bool.false_ne_true, hknown, rfl⟩⟩
  exact ⟨_, by rw [insertBinding, hunmarked]; rfl⟩

/-- A chain that carries out the steps of an upsert has the branches of its binding. -/
theorem prepareUpsert_branches (h : prepareUpsert env desired t a o = .ok chain) :
    ∃ b, (binding env t).apply (Binding.bindArgument a o.useKeyMarks) = .ok b ∧
      (upsertBase env b o).Splits ∧
      (env.rules.bindUpsert env.now (upsertBase env b o)).Splits ∧
      (∀ l ∈ chain, l.WrittenIn env.dialect) ∧
      chain.inserted =
        Branch.ofValues (env.rules.bindUpsert env.now (upsertBase env b o)).insertValues ∧
      chain.updated = if findsByClash env.dialect then
          (env.rules.bindUpsert env.now (upsertBase env b o)).updateValues.map fun x ↦
            (x.1, (env.rules.bindUpsert env.now (upsertBase env b o)).insertValues.lookup x.1)
        else Branch.ofValues (env.rules.bindUpsert env.now (upsertBase env b o)).updateValues := by
  obtain ⟨b, p, steps, hb, hbase, hd, hunread, hsplits, hsteps, hruns⟩ := prepareUpsert_plan h
  have hinserted : p.binding.insertValues = _ := Binding.valuesWhere_congr hunread fun _ ↦ rfl
  have hupdated : p.binding.updateValues = _ := Binding.valuesWhere_congr hunread fun _ ↦ rfl
  refine ⟨b, hb, hbase, bindUpsert_splits hb hbase, ?_, ?_, ?_⟩
  · intro l hl
    obtain ⟨step, -, hlink⟩ := hruns.exists_step hl
    exact hlink.written
  · rw [Chain.inserted, hruns.flatMap_statement, hsteps.inserted hsplits, hinserted]
    rfl
  · have hcolumns : p.binding.updateColumns = p.binding.updateValues.map (·.1) :=
      (p.binding.valuesWhere_columns _).symm
    rw [Chain.updated, hruns.flatMap_statement, hsteps.updated hsplits, hd, hcolumns, List.map_map,
      hinserted, hupdated]
    rfl

/-- An upsert adds what the insert of its argument does, and the key where the row is found by a
clash, and updates to what the update by its argument does, both without the columns that some rule
is not for. An updated column that is not inserted has no value where the row is found by a
clash. -/
theorem prepare_upsert_branches {o : UpsertOptions}
    (h : prepare env desired (.upsert t a o) = .ok chain) :
    (∀ l ∈ chain, l.WrittenIn env.dialect) ∧ ∃ added changed,
      insertBinding env t a ⟨o.identityInsert⟩ = .ok added ∧
      updateBinding env t a o.useKeyMarks = .ok changed ∧
      (∀ desired' chain', prepare env desired' (.insert t a ⟨o.identityInsert⟩) = .ok chain' →
        chain'.inserted = Branch.ofValues added.insertValues) ∧
      (∀ desired' old ignored chain',
        prepare env desired' (.update t a ⟨o.useKeyMarks, old, ignored⟩) = .ok chain' →
          chain'.updated = Branch.ofValues changed.updateValues) ∧
      (∀ c x, (c, x) ∈ chain.inserted ↔ ∃ v, x = some v ∧
        ((c, v) ∈ added.insertValues ∨
          findsByClash env.dialect ∧ c ∈ changed.keyColumns ∧ c.isComputed = false ∧
            (c, v) ∈ added.valuesWhere (·.isBound)) ∧
        (env.rules.about t c).all (·.onInsert)) ∧
      ∀ c x, (c, x) ∈ chain.updated ↔ ∃ v, (c, v) ∈ changed.updateValues ∧
        (env.rules.about t c).all (·.onUpdate) ∧
        x = if findsByClash env.dialect && !(env.rules.about t c).all (·.onInsert) then none
          else some v := by
  obtain ⟨b, hb, hbase, hruled, hwritten, hinserted, hupdated⟩ := prepareUpsert_branches h
  obtain ⟨added, hadded⟩ := exists_insertBinding (o := ⟨o.identityInsert⟩) hb
  have hchanged := updateBinding_of_bindArgument hb
  refine ⟨hwritten, added, _, hadded, hchanged, fun _ _ ↦ prepareInsert_inserted hadded,
    fun _ _ _ _ ↦ prepareUpdate_updated hchanged, fun c x ↦ ?_, fun c x ↦ ?_⟩
  · rw [hinserted, Branch.mem_ofValues]
    simp only [mem_insertValues_iff hb hbase hruled hadded hchanged]
  · simp only [← and_assoc, ← mem_updateValues_iff hb hruled hchanged]
    rw [hupdated]
    cases hclash : findsByClash env.dialect with
    | false =>
      simp [Branch.mem_ofValues, and_comm]
    | true =>
      -- A row that clashes gets what the row that is not added has in the updated columns.
      have hlookup {v : Value}
          (hv : (c, v) ∈ (env.rules.bindUpsert env.now (upsertBase env b o)).updateValues) :
          (env.rules.bindUpsert env.now (upsertBase env b o)).insertValues.lookup c =
            if true && !(env.rules.about t c).all (·.onInsert) then none else some v := by
        rw [lookup_insertValues_bindUpsert hb hruled hv]
        cases (env.rules.about t c).all (·.onInsert) <;> rfl
      rw [if_pos rfl, List.mem_map]
      constructor
      · rintro ⟨⟨_, v⟩, hv, heq⟩
        cases heq
        exact ⟨v, hv, hlookup hv⟩
      · rintro ⟨v, hv, rfl⟩
        exact ⟨(c, v), hv, congrArg (Prod.mk c) (hlookup hv)⟩

/-- Users whose name is of one kind when they are added and of another when they are updated. -/
def kindsEnvironment (d : Dialect) (added updated : Value) : Environment where
  dialect := d
  rules :=
    { values :=
        [{ column := "Name", onInsert := true, value := .fixed added },
          { column := "Name", onUpdate := true, value := .fixed updated }] }

/-- A user by key and name, none of them marked. -/
def plainUser (key name : Value) : Argument :=
  .properties [⟨"Id", key, false⟩, ⟨"Name", name, false⟩]

/-- Two rules of different kinds leave their column in neither branch. -/
theorem upsert_user_without_name :
    ∃ chain, prepare (kindsEnvironment .sqlite (.text "new") (.text "old")) .none
        (.upsert (Users.table .sqlite) (plainUser (.int 1) (.text "Ann")) {}) = .ok chain ∧
      (∀ x, (Users.name .sqlite, x) ∉ chain.inserted ∧ (Users.name .sqlite, x) ∉ chain.updated) ∧
      ((prepare (kindsEnvironment .sqlite (.text "new") (.text "old")) .none
        (.insert (Users.table .sqlite) (plainUser (.int 1) (.text "Ann")) {})).toOption.any
          fun c ↦ (Users.name .sqlite, some (.text "new")) ∈ c.inserted) ∧
      (prepare (kindsEnvironment .sqlite (.text "new") (.text "old")) .none
        (.update (Users.table .sqlite) (plainUser (.int 1) (.text "Ann")) {})).toOption.any
          fun c ↦ (Users.name .sqlite, some (.text "old")) ∈ c.updated := by
  have hok : (prepare (kindsEnvironment .sqlite (.text "new") (.text "old")) .none
      (.upsert (Users.table .sqlite) (plainUser (.int 1) (.text "Ann")) {})).toOption.isSome := by
    decide +kernel
  have hinsert : ((kindsEnvironment .sqlite (.text "new") (.text "old")).rules.about
      (Users.table .sqlite) (Users.name .sqlite)).all (·.onInsert) = false := by decide +kernel
  have hupdate : ((kindsEnvironment .sqlite (.text "new") (.text "old")).rules.about
      (Users.table .sqlite) (Users.name .sqlite)).all (·.onUpdate) = false := by decide +kernel
  obtain ⟨chain, hchain⟩ := exists_ok_of_isSome hok
  obtain ⟨-, added, changed, -, -, -, -, hinserted, hupdated⟩ := prepare_upsert_branches hchain
  refine ⟨chain, hchain, fun x ↦ ⟨fun hx ↦ ?_, fun hx ↦ ?_⟩, by decide +kernel,
    by decide +kernel⟩
  · obtain ⟨v, -, -, hall⟩ := (hinserted _ _).mp hx
    rw [hinsert] at hall
    cases hall
  · obtain ⟨v, -, hall, -⟩ := (hupdated _ _).mp hx
    rw [hupdate] at hall
    cases hall

end Command

end SchemaSql
