import SchemaSql.Proofs.Command.Assigned
import SchemaSql.Proofs.Command.Inserted
import SchemaSql.Proofs.Command.Restriction

/-!
Links that read a row back by its key. The condition of the read and the statements of the write are
made of the same binding, but not in the same way: the condition compares every column of the key
that is bound, and the row to be added has only those that the request may insert and no rule takes
out. So an update always demands the values that are compared afterwards, and an insert gives its
row these values unless one of them is null or its column is left to the database.
-/

set_option autoImplicit false
set_option relaxedAutoImplicit false

namespace SchemaSql

/-! ### What links say about a column -/

namespace Link

/-- The link adds a row that has a value other than null in the column. -/
def Adds (l : Link) (k : Column) (v : Value) : Prop :=
  ∃ s, l.statement = .insert s ∧ (k, v) ∈ cellValues (valueAmong l.parameters) s.row ∧
    v.isNull = false

/-- The link updates only rows that have the value in the column. -/
def Demands (l : Link) (k : Column) (v : Value) : Prop :=
  ∃ u p, l.statement = .update u ∧ .equals k p ∈ u.criteria ∧ valueAmong l.parameters p = v

/-- The link assigns nothing but itself to the column. -/
def LeavesColumn (l : Link) (k : Column) : Prop :=
  ∀ x ∈ l.statement.assigned, x.column = k → x.value = .unchanged

variable {d : Dialect} {l : Link} {b : Binding} {k : Column}

theorem WrittenIn.adds_iff (h : l.WrittenIn d) {s : Insert} (hs : l.statement = .insert s)
    (hrow : b.insertRow = .ok s.row) {v : Value} :
    l.Adds k v ↔ (k, v) ∈ b.insertValues ∧ v.isNull = false := by
  have hvalues : cellValues (SchemaSql.valueAmong l.parameters) s.row = b.insertValues := by
    rw [Binding.insertValues, ← b.cellValues_eq, ← Binding.insertRow_ok hrow]
    refine cellValues_congr fun p hp ↦ h.valueAmong ?_
    rw [hs, Statement.insert_parameters]
    exact List.mem_append_left _ hp
  rw [← hvalues]
  constructor
  · rintro ⟨s', hs', hcell, hnull⟩
    obtain rfl := Statement.insert.inj (hs.symm.trans hs')
    exact ⟨hcell, hnull⟩
  · rintro ⟨hcell, hnull⟩
    exact ⟨s, hs, hcell, hnull⟩

theorem WrittenIn.demands (h : l.WrittenIn d) {u : Update} (hu : l.statement = .update u)
    {p : Parameter} (hp : .equals k p ∈ u.criteria) : l.Demands k p.value := by
  refine ⟨u, p, hu, hp, h.valueAmong ?_⟩
  rw [hu, Statement.update_parameters]
  exact List.mem_append_right _ (List.mem_flatMap.mpr ⟨_, hp, List.mem_singleton_self p⟩)

/-- A link that reads compares a column with the value that its condition is made with. -/
theorem WrittenIn.compares (h : l.WrittenIn d) {p : WritePlan} {criteria : List Predicate}
    (hselect : l.statement = p.readStatement criteria) {param : Parameter}
    (hparam : .equals k param ∈ criteria) :
    SchemaSql.valueAmong l.parameters param = param.value := by
  refine h.valueAmong ?_
  rw [hselect, WritePlan.readStatement, Statement.select_parameters]
  exact List.mem_flatMap.mpr ⟨_, hparam, List.mem_singleton_self param⟩

end Link

/-- Conditions on the key compare bound columns with their values. -/
theorem Binding.keyCriteria_values {b : Binding} {criteria : List Predicate}
    (h : b.keyCriteria = .ok criteria) {p : Predicate} (hp : p ∈ criteria) :
    ∃ k param, p = .equals k param ∧ (k, param.value) ∈ b.keyValues := by
  obtain ⟨-, -, rfl⟩ := keyCriteria_ok h
  obtain ⟨e, he, rfl⟩ := List.mem_map.mp hp
  exact ⟨e.column, e.parameter, rfl, List.mem_map.mpr ⟨e, he, rfl⟩⟩

theorem Binding.isIdentity_of_generatedIdentity {b : Binding} {k : Column}
    (h : b.generatedIdentity? = some k) : k.isIdentity := by
  obtain ⟨e, he, rfl⟩ := Option.map_eq_some_iff.mp h
  have hchosen := List.find?_some he
  exact (Bool.and_eq_true_iff.mp hchosen).1

/-- An identity that the database is to make up is not among the inserted columns. -/
theorem Binding.not_mem_insertColumns_of_generatedIdentity {b : Binding} {k : Column}
    (h : b.generatedIdentity? = some k) (hdistinct : (b.entries.map (·.column)).Nodup) :
    k ∉ b.insertColumns := by
  obtain ⟨e, he, rfl⟩ := Option.map_eq_some_iff.mp h
  have hmem := List.mem_of_find?_eq_some he
  have hchosen := List.find?_some he
  rw [Bool.and_eq_true, Bool.not_eq_true'] at hchosen
  intro hinsert
  obtain ⟨e', he', hcolumn⟩ := List.mem_map.mp hinsert
  obtain ⟨hmem', hinsert'⟩ := List.mem_filter.mp he'
  obtain rfl := List.inj_on_of_nodup_map hdistinct hmem' hmem hcolumn
  exact absurd hinsert' (by rw [hchosen.2]; exact Bool.false_ne_true)

/-- A link that reads takes the value of a column from the insert in front of it: it is the identity
which that insert produced, as the database reports it or as a link in between forwards it. -/
def Chain.ReadsIdentity (chain : Chain) (read : Link) (p : Predicate) (k : Column) : Prop :=
  ∃ front write rest s, write.statement = .insert s ∧
    (p = .lastInserted k ∧ chain = front ++ write :: read :: rest ∨
      p = .equals k (WritePlan.identityParameter k) ∧
        ∃ fetch, chain = front ++ write :: fetch :: read :: rest ∧
          fetch.statement = .lastIdentity ∧ fetch.mode = .forward (some "@Identity"))

/-! ### Reads of plans -/

namespace WritePlan

variable {p : WritePlan} {chain : Chain} {steps : List ChainStep}

theorem criteria_of_readStatement {l : Link} {q : Select} (hq : l.statement = .select q)
    {criteria : List Predicate} (h : l.statement = p.readStatement criteria) :
    q.criteria = criteria := by
  rw [hq] at h
  exact congrArg Select.criteria (Statement.select.inj h)

theorem CarriedOutBy.statement {s : Statement} (h : p.CarriedOutBy s chain) {l : Link}
    (hl : l ∈ chain) : l.statement = s ∨ l.statement = p.readStatement p.criteria := by
  obtain ⟨-, before, write, after, rfl, hwrite, hreads⟩ := h
  by_cases hsame : l = write
  · exact .inl (hsame ▸ hwrite)
  · refine .inr (hreads l ?_)
    simp only [List.mem_append, List.mem_cons, hsame, false_or] at hl ⊢
    exact hl

/-- Without rows to hand back an update has no link that reads. -/
theorem updateChain_of_none (h : p.updateChain = .ok chain) (hnone : p.returning = .none)
    {l : Link} (hl : l ∈ chain) (q : Select) : l.statement ≠ .select q := by
  obtain ⟨c, hc, rfl⟩ := map_eq_ok.mp h
  have hone {output : Output} (hc : ((p.update output).bind fun s ↦
      (p.writeLink s).bind fun write ↦ .ok [write]) = .ok c) :
      ∃ write u, c = [write] ∧ write.statement = .update u := by
    obtain ⟨s, hs, hc⟩ := bind_eq_ok.mp hc
    obtain ⟨as, -, rfl⟩ := update_ok hs
    obtain ⟨write, hwrite, hc⟩ := bind_eq_ok.mp hc
    exact ⟨write, _, (Except.ok.inj hc).symm, (writeLink_ok hwrite).1⟩
  have hsingle : ∃ write u, c = [write] ∧ write.statement = .update u := by
    cases hd : p.dialect <;> rw [hd] at hc
    case sqlServer => exact hone hc
    case postgreSql | sqlite =>
      rw [returningUpdate, if_neg (by simp [hnone])] at hc
      exact hone hc
    case mySql | access =>
      simp only [readingUpdate, readingChain, hnone] at hc
      exact hone hc
  obtain ⟨write, u, rfl, hu⟩ := hsingle
  have hstatement : l.statement = .update u := by
    rw [finish, if_pos hnone, Chain.withoutResult] at hl
    obtain ⟨m, hm, rfl⟩ := List.mem_map.mp hl
    rw [Link.withoutResult_statement, List.mem_singleton.mp hm, hu]
  simp [hstatement]

namespace AddsRow

variable {l : Link}

theorem insertRow (h : p.AddsRow chain) (hl : l ∈ chain) {s : Insert}
    (hs : l.statement = .insert s) : p.binding.insertRow = .ok s.row := by
  obtain ⟨-, write, after, s', rfl, hwrite, -, -, hrow, hreads⟩ := h
  rcases List.mem_cons.mp hl with rfl | hl
  · obtain rfl := Statement.insert.inj (hs.symm.trans hwrite)
    exact hrow
  · rcases hreads.reads l hl with ⟨q, hq⟩ | hlast
    · cases hs.symm.trans hq
    · cases hs.symm.trans hlast

/-- The chain touches no row that is there already. -/
theorem keeps (h : p.AddsRow chain) (hl : l ∈ chain) :
    l.statement.assigned = [] ∧ ∀ u, l.statement ≠ .update u := by
  obtain ⟨-, write, after, s, rfl, hwrite, -, hconflict, -, hreads⟩ := h
  rcases List.mem_cons.mp hl with rfl | hl
  · simp [hwrite, Statement.assigned, hconflict, Conflict.assignments]
  · rcases hreads.reads l hl with ⟨q, hq⟩ | hlast
    · simp [hq, Statement.assigned]
    · simp [hlast, Statement.assigned]

/-- A link that reads takes the identity that was made up, or compares the key. -/
theorem read (h : p.AddsRow chain) (hl : l ∈ chain) {q : Select} (hq : l.statement = .select q)
    {c : Predicate} (hc : c ∈ q.criteria) :
    (∃ k, p.binding.generatedIdentity? = some k ∧ chain.ReadsIdentity l c k) ∨
      ∃ criteria, p.binding.keyCriteria = .ok criteria ∧
        l.statement = p.readStatement criteria := by
  obtain ⟨-, write, after, s, rfl, hwrite, -, -, -, hreads⟩ := h
  have hafter : l ∈ after := by
    refine (List.mem_cons.mp hl).resolve_left fun hsame ↦ ?_
    rw [hsame, hwrite] at hq
    cases hq
  have hcriteria {criteria : List Predicate} (hselect : l.statement = p.readStatement criteria) :
      c ∈ criteria := criteria_of_readStatement hq hselect ▸ hc
  cases hreads with
  | nothing => simp at hafter
  | byIdentity hidentity hread =>
    obtain rfl := List.mem_singleton.mp hafter
    obtain rfl := List.mem_singleton.mp (hcriteria hread)
    exact .inl ⟨_, hidentity, [], write, [], s, hwrite, .inl ⟨rfl, rfl⟩⟩
  | byForwarded hidentity hfetch hread =>
    rcases List.mem_cons.mp hafter with rfl | hafter
    · cases hq.symm.trans hfetch.1
    obtain rfl := List.mem_singleton.mp hafter
    obtain rfl := List.mem_singleton.mp (hcriteria hread)
    exact .inl ⟨_, hidentity, [], write, [], s, hwrite, .inr ⟨rfl, _, rfl, hfetch⟩⟩
  | byKey _ hkey hread =>
    obtain rfl := List.mem_singleton.mp hafter
    exact .inr ⟨_, hkey, hread⟩

end AddsRow

/-- What a statement of an upsert does whose rows are read by a condition: it updates by this same
condition, adds the row of the binding, and leaves what the binding does not update. -/
structure Beside (p : WritePlan) (criteria : List Predicate) (s : Statement) : Prop where
  criteria : ∀ u, s = .update u → u.criteria = criteria
  row : ∀ i, s = .insert i → p.binding.insertRow = .ok i.row
  kept : ∀ x ∈ s.assigned, x.column ∈ p.binding.updateColumns ∨ x.value = .unchanged

theorem ReadsBack.beside {reads : List ChainStep} (h : p.ReadsBack reads) {read : ChainStep}
    (hread : read ∈ reads) :
    ∃ criteria, p.binding.keyCriteria = .ok criteria ∧ read.statement = p.readStatement criteria ∧
      ∀ step ∈ reads, p.Beside criteria step.statement := by
  rcases h with rfl | ⟨criteria, hcriteria, rfl⟩
  · simp at hread
  · obtain rfl := List.mem_singleton.mp hread
    refine ⟨criteria, hcriteria, rfl, List.forall_mem_singleton.mpr ⟨?_, ?_, ?_⟩⟩ <;>
      simp [readStatement, Statement.assigned]

/-- Only where an insert clashes on keys is anything else assigned than what is updated or what is
there already. -/
theorem UpsertSteps.kept (h : p.UpsertSteps steps) {step : ChainStep} (hstep : step ∈ steps)
    (hclash : ∀ i keys as, step.statement = .insert i → i.conflict ≠ .onKeys keys as) :
    ∀ x ∈ step.statement.assigned, x.column ∈ p.binding.updateColumns ∨ x.value = .unchanged := by
  intro x hx
  rcases h.assigned step hstep x hx with
    hupdated | ⟨-, -, hsame | ⟨-, i, keys, as, hi, hconflict, -⟩⟩
  · exact .inl hupdated
  · exact .inr hsame
  · exact absurd hconflict (hclash i keys as hi)

/-- The steps of an upsert that reads compare the key. -/
theorem UpsertSteps.of_read (h : p.UpsertSteps steps) {read : ChainStep} (hread : read ∈ steps)
    {q : Select} (hq : read.statement = .select q) :
    ∃ criteria, p.binding.keyCriteria = .ok criteria ∧
      read.statement = p.readStatement criteria ∧
      ∀ step ∈ steps, p.Beside criteria step.statement := by
  have hkept (step : ChainStep) (hstep : step ∈ steps) := h.kept hstep
  cases h with
  | merge | onConflict =>
    obtain rfl := List.mem_singleton.mp hread
    cases hq
  | onDuplicateKey hd hrow hreads =>
    rcases List.mem_cons.mp hread with rfl | hread
    · cases hq
    obtain ⟨criteria, hcriteria, hselect, hbeside⟩ := hreads.beside hread
    refine ⟨criteria, hcriteria, hselect, List.forall_mem_cons.mpr ⟨⟨fun u hu ↦ ?_, fun i hi ↦ ?_,
      hkept _ List.mem_cons_self fun i keys as hi ↦ ?_⟩, hbeside⟩⟩
    · cases hu
    · cases hi
      exact hrow
    · cases hi
      exact duplicateConflict_ne_onKeys keys as
  | updateThenInsert hd hcriteria has hrow hreads =>
    rcases List.mem_cons.mp hread with rfl | hread
    · cases hq
    rcases List.mem_cons.mp hread with rfl | hread
    · cases hq
    obtain ⟨criteria, hcriteria', hselect, hbeside⟩ := hreads.beside hread
    obtain rfl := Except.ok.inj (hcriteria.symm.trans hcriteria')
    refine ⟨_, hcriteria, hselect, List.forall_mem_cons.mpr ⟨⟨fun u hu ↦ ?_, fun i hi ↦ ?_,
      hkept _ List.mem_cons_self fun i keys as hi ↦ ?_⟩,
      List.forall_mem_cons.mpr ⟨⟨fun u hu ↦ ?_, fun i hi ↦ ?_, ?_⟩, hbeside⟩⟩⟩
    · cases hu
      rfl
    · cases hi
    · cases hi
    · cases hu
    · cases hi
      exact hrow
    · simp [Statement.assigned, Conflict.assignments]

end WritePlan

namespace Command

variable {env : Environment} {desired : Desired} {t : Table} {a : Argument} {b : Binding}
  {chain : Chain}

/-! ### Reads of requests -/

/-- Whether a request adds or updates rows of a table. -/
def WritesRows (t : Table) : Command → Prop
  | .insert u _ _ | .update u _ _ | .updateWhere u _ _ _ _ | .upsert u _ _ => u = t
  | _ => False

/-- Whether the row that a request adds has a column of its key that is bound: the column may be
written, and no rule of an upsert takes it out. -/
def addsKey (env : Environment) (k : Column) : Command → Bool
  | .insert _ _ o => k.isWritable || o.identityInsert && k.isIdentity
  | .upsert t _ o =>
    (k.isWritable || o.identityInsert && k.isIdentity ||
      findsByClash env.dialect && !k.isComputed) && (env.rules.about t k).all (·.onInsert)
  | _ => false

/-- The links of a chain see to it that a column has a value: updates demand it and leave the column
alone, and an insert gives its row the value if the request adds the column and the value is not
null. -/
structure Settles (env : Environment) (c : Command) (chain : Chain) (k : Column) (v : Value) :
    Prop where
  leaves : ∀ l ∈ chain, l.LeavesColumn k
  demands : ∀ l ∈ chain, ∀ u, l.statement = .update u → l.Demands k v
  adds : ∀ l ∈ chain, ∀ s, l.statement = .insert s →
    (l.Adds k v ↔ addsKey env k c ∧ v.isNull = false)

theorem prepareUpdate_settles {o : UpdateOptions}
    (h : prepareUpdate env desired t a o = .ok chain) {read : Link} (hread : read ∈ chain)
    {q : Select} (hq : read.statement = .select q) {p : Predicate} (hp : p ∈ q.criteria) :
    ∃ k param, p = .equals k param ∧
      Settles env (.update t a o) chain k (valueAmong read.parameters param) := by
  obtain ⟨b, hb, h⟩ := bind_eq_ok.mp h
  obtain ⟨_, -, h⟩ := bind_eq_ok.mp h
  obtain ⟨criteria, hcriteria, h⟩ := bind_eq_ok.mp h
  obtain ⟨r, hr, h⟩ := bind_eq_ok.mp h
  have hupdatable := updateChain_updatable (updateBinding_of_bindArgument hb)
    (returningFor_ok hr).2.1 h
  obtain ⟨as, output, has, hcarried⟩ := WritePlan.updateChain_ok h
  have hselect : read.statement = _ := (hcarried.statement hread).resolve_left (by simp [hq])
  obtain rfl : q.criteria = criteria := WritePlan.criteria_of_readStatement hq hselect
  obtain ⟨k, param, rfl, hkey⟩ := Binding.keyCriteria_values hcriteria hp
  obtain ⟨-, hbound, -⟩ := Binding.keyCriteria_ok hcriteria
  have hisKey : a.isKeyOf t o.useKeyMarks k := by
    have hmakes := Binding.Makes.ofArgument hb
    have hmem := (hmakes.mem_valuesWhere ((boundOnce_binding env t).bindArgument hb)
      fun e he hk ↦ hbound e (List.mem_filter.mpr ⟨he, hk⟩)).mp hkey
    exact Argument.entryFor_isKey.symm.trans hmem.2.1
  refine ⟨k, param, rfl, ?_⟩
  rw [(hcarried.1 read hread).compares hselect hp]
  refine ⟨fun l hl x hx hcolumn ↦ ?_, fun l hl u hu ↦ ?_, fun l hl s hs ↦ ?_⟩
  · have hunkeyed := (hupdatable l hl x hx).unkeyed
    rw [hcolumn, hisKey] at hunkeyed
    cases hunkeyed
  · have hwrite := (hcarried.statement hl).resolve_right (by simp [hu, WritePlan.readStatement])
    refine (hcarried.1 l hl).demands hu ?_
    rw [hwrite] at hu
    rw [← Statement.update.inj hu]
    exact hp
  · rcases hcarried.statement hl with hwrite | hwrite <;>
      simp [hs, WritePlan.readStatement] at hwrite

theorem prepareInsert_settles {o : InsertOptions}
    (h : prepareInsert env desired t a o = .ok chain) {read : Link} (hread : read ∈ chain)
    {q : Select} (hq : read.statement = .select q) {p : Predicate} (hp : p ∈ q.criteria) :
    (∃ k, chain.ReadsIdentity read p k ∧ k.isIdentity ∧
      (t.columns.Nodup → ∀ l ∈ chain, ∀ s, l.statement = .insert s → k ∉ rowColumns s.row)) ∨
    ∃ k param, p = .equals k param ∧
      Settles env (.insert t a o) chain k (valueAmong read.parameters param) := by
  obtain ⟨b, plan, hb, hframe, hunread, -, hadds⟩ := prepareInsert_addsRow h
  rcases hadds.read hread hq hp with ⟨k, hk, hidentity⟩ | ⟨criteria, hcriteria, hselect⟩
  · left
    refine ⟨k, hidentity, (Binding.isIdentity_of_generatedIdentity hk), ?_⟩
    intro hdistinct l hl s hs
    rw [rowColumns, (Binding.insertRow_columns (hadds.insertRow hl hs)).2]
    exact Binding.not_mem_insertColumns_of_generatedIdentity hk (columns_eq hframe ▸ hdistinct)
  · right
    have hcompared : p ∈ criteria := WritePlan.criteria_of_readStatement hq hselect ▸ hp
    obtain ⟨k, param, rfl, hkey⟩ := Binding.keyCriteria_values hcriteria hcompared
    refine ⟨k, param, rfl, ?_⟩
    rw [(hadds.1 read hread).compares hselect hcompared]
    refine ⟨fun l hl x hx ↦ ?_, fun l hl u hu ↦ ?_, fun l hl s hs ↦ ?_⟩
    · rw [(hadds.keeps hl).1] at hx
      simp at hx
    · exact absurd hu ((hadds.keeps hl).2 u)
    · have hkeys : plan.binding.keyValues = b.keyValues :=
        Binding.valuesWhere_congr hunread fun _ ↦ rfl
      have hinserts : plan.binding.insertValues = b.insertValues :=
        Binding.valuesWhere_congr hunread fun _ ↦ rfl
      obtain ⟨-, hbound, -⟩ := Binding.keyCriteria_ok hcriteria
      have hbound' : ∀ e ∈ b.entries, e.isKey → e.isBound :=
        Binding.forall_of_unread hunread.symm (fun _ he ↦ he) fun e he hk ↦
          hbound e (List.mem_filter.mpr ⟨he, hk⟩)
      obtain ⟨honce, hmakes⟩ := insertBinding_makes hb
      rw [hkeys, Binding.keyValues, hmakes.mem_valuesWhere honce hbound',
        ruled_insertedValue?] at hkey
      rw [(hadds.1 l hl).adds_iff hs (hadds.insertRow hl hs), hinserts, mem_insertBinding_iff hb]
      simp [addsKey, hkey.1, hkey.2.2]

theorem prepareUpsert_settles {o : UpsertOptions}
    (h : prepareUpsert env desired t a o = .ok chain) {read : Link} (hread : read ∈ chain)
    {q : Select} (hq : read.statement = .select q) {p : Predicate} (hp : p ∈ q.criteria) :
    ∃ k param, p = .equals k param ∧
      Settles env (.upsert t a o) chain k (valueAmong read.parameters param) := by
  obtain ⟨b, plan, steps, hb, hbase, hd, hunread, hsplits, hsteps, hruns⟩ := prepareUpsert_plan h
  have hruled := bindUpsert_splits hb hbase
  obtain ⟨step, hstep, hlink⟩ := hruns.exists_step hread
  obtain ⟨criteria, hcriteria, hselect, hall⟩ :=
    hsteps.of_read hstep (hlink.statement.symm.trans hq)
  rw [← hlink.statement] at hselect
  have hcompared : p ∈ criteria := WritePlan.criteria_of_readStatement hq hselect ▸ hp
  obtain ⟨k, param, rfl, hkey⟩ := Binding.keyCriteria_values hcriteria hcompared
  have hcolumn : k ∈ plan.binding.keyColumns := by
    rw [Binding.keyColumns, ← Binding.valuesWhere_columns]
    exact List.mem_map_of_mem hkey
  refine ⟨k, param, rfl, ?_⟩
  rw [hlink.written.compares hselect hcompared]
  refine ⟨fun l hl x hx hsame ↦ ?_, fun l hl u hu ↦ ?_, fun l hl s hs ↦ ?_⟩
  all_goals obtain ⟨step', hstep', hlink'⟩ := hruns.exists_step hl
  all_goals obtain ⟨hupdates, hinserts, hassigned⟩ := hall step' hstep'
  · rw [hlink'.statement] at hx
    refine (hassigned x hx).resolve_left fun hupdated ↦ ?_
    exact WritePlan.not_mem_keyColumns hsplits hupdated (hsame ▸ hcolumn)
  · refine hlink'.written.demands hu ?_
    rw [hupdates u (hlink'.statement.symm.trans hu)]
    exact hcompared
  · have hkeys : plan.binding.keyValues = _ := Binding.valuesWhere_congr hunread fun _ ↦ rfl
    have hrows : plan.binding.insertValues = _ := Binding.valuesWhere_congr hunread fun _ ↦ rfl
    rw [hkeys, hruled.once.mem_valuesWhere fun e he ↦ (hruled.parts e he).key,
      entryOf?_bindUpsert hb] at hkey
    obtain ⟨e, he, hisKey, hvalue⟩ := hkey
    obtain ⟨hmem, hentry⟩ := Option.ite_none_right_eq_some.mp he
    obtain rfl := Option.some.inj hentry
    rw [hlink'.written.adds_iff hs (hinserts s (hlink'.statement.symm.trans hs)), hrows]
    have hinserted := mem_insertValues_bindUpsert hb hruled (c := k) (v := param.value)
    rw [Binding.insertValues] at hinserted
    rw [hinserted, Binding.insertable_eq (upsertBase_makes hb).choices]
    have hvalue' : (upsertEntry env t a o.useKeyMarks k).value = some param.value := hvalue
    have hisKey' : (upsertEntry env t a o.useKeyMarks k).isKey := hisKey
    have hcolumn' : (upsertEntry env t a o.useKeyMarks k).column = k := by
      rw [upsertEntry, Entry.ruled_column, Argument.entryFor_column]
    simp [addsKey, hmem, hvalue', hisKey', hcolumn']

/-- Where rows are read by links of their own, the condition of a read takes the identity that the
insert in front of it has produced, of a column which that insert leaves out; or it compares columns
with values that every update of the chain demands of them. The row that is added has such a value
if and only if the request adds the column and the value is not null. -/
theorem prepare_readBack {c : Command} (hc : c.WritesRows t)
    (hd : WritePlan.readsByLink env.dialect) (h : prepare env desired c = .ok chain) {read : Link}
    (hread : read ∈ chain) {q : Select} (hq : read.statement = .select q) {p : Predicate}
    (hp : p ∈ q.criteria) :
    (∃ k, chain.ReadsIdentity read p k ∧ k.isIdentity ∧
      (t.columns.Nodup → ∀ l ∈ chain, ∀ s, l.statement = .insert s → k ∉ rowColumns s.row)) ∨
    ∃ k param, p = .equals k param ∧
      Settles env c chain k (valueAmong read.parameters param) := by
  cases c with
  | insert u a o =>
    obtain rfl : u = t := hc
    exact prepareInsert_settles h hread hq hp
  | update u a o => exact .inr (prepareUpdate_settles h hread hq hp)
  | upsert u a o => exact .inr (prepareUpsert_settles h hread hq hp)
  | updateWhere u a criteria allRows old =>
    -- Rows that a filter selects cannot be read by their key, so that none are wanted here.
    rw [prepare, prepareUpdateWhere_eq] at h
    split at h
    · simp at h
    obtain ⟨b, hb, h⟩ := bind_eq_ok.mp h
    obtain ⟨_, -, h⟩ := bind_eq_ok.mp h
    obtain ⟨predicates, -, h⟩ := bind_eq_ok.mp h
    obtain ⟨r, hr, h⟩ := bind_eq_ok.mp h
    have hdialect : r.1.dialect = env.dialect :=
      dialect_eq ((returningFor_ok hr).1.trans (frame_bindUpdate (Binding.frame_bindArgument hb)))
    have hnone := (WritePlan.updateChain_byKey h (by rwa [WritePlan.dialect, hdialect])).resolve_right
      Bool.false_ne_true
    exact absurd hq (WritePlan.updateChain_of_none h hnone hread q)
  | query | delete | deleteKeys | deleteWhere | procedure | written => exact hc.elim

/-- A user whose key the database numbers is read back by the key of the request, which the row that
was added does not have. -/
theorem upsert_numberedUser_unread :
    ∃ chain, prepare { dialect := .access } .all
        (.upsert (numberedUsers .access) (plainUser (.int 3) (.text "Ada")) {}) = .ok chain ∧
      (∃ l ∈ chain, l.statement.AddsRows) ∧
      ∃ read ∈ chain, ∃ q param, read.statement = .select q ∧
        .equals (Users.id .access).identity param ∈ q.criteria ∧
        ∀ l ∈ chain, ¬ l.Adds (Users.id .access).identity (valueAmong read.parameters param) := by
  have hreads : (prepare { dialect := .access } .all (.upsert (numberedUsers .access)
      (plainUser (.int 3) (.text "Ada")) {})).toOption.any fun c ↦ c.any fun l ↦
        match l.statement with
        | .select q => q.criteria.any fun p ↦ p.column? = some (Users.id .access).identity
        | _ => false := by decide +kernel
  have hkept : (prepare { dialect := .access } .all (.upsert (numberedUsers .access)
      (plainUser (.int 3) (.text "Ada")) {})).toOption.all fun c ↦ c.all fun l ↦
        match l.statement with
        | .select q => q.criteria.all (fun p ↦ p matches .equals _ _)
        | .lastIdentity => false
        | _ => true := by decide +kernel
  have hkey : addsKey { dialect := .access } (Users.id .access).identity
      (.upsert (numberedUsers .access) (plainUser (.int 3) (.text "Ada")) {}) = false := by
    decide +kernel
  obtain ⟨chain, hchain, hreads⟩ := exists_ok_of_any hreads
  rw [hchain] at hkept
  obtain ⟨read, hread, hselect⟩ := List.any_eq_true.mp hreads
  have hequals := List.all_eq_true.mp hkept
  obtain ⟨-, plan, steps, -, -, -, -, -, hsteps, hruns⟩ := prepareUpsert_plan hchain
  obtain ⟨step, hstep, hadds⟩ := hsteps.exists_addsRows
  obtain ⟨added, hadded, hlink⟩ := hruns.exists_link hstep
  cases hq : read.statement with
  | select q =>
    rw [hq] at hselect
    obtain ⟨p, hp, hcolumn⟩ := List.any_eq_true.mp hselect
    have hwrites : (upsert (numberedUsers .access) (plainUser (.int 3) (.text "Ada"))
        {}).WritesRows (numberedUsers .access) := rfl
    rcases prepare_readBack hwrites rfl hchain hread hq hp with
      ⟨k, ⟨front, write, rest, s, -, hidentity⟩, -⟩ | ⟨k, param, rfl, hsettles⟩
    · rcases hidentity with ⟨rfl, -⟩ | ⟨-, fetch, rfl, hfetch, -⟩
      · have hpredicates := hequals read hread
        rw [hq] at hpredicates
        cases List.all_eq_true.mp hpredicates _ hp
      · have hforwarded := hequals fetch (by simp)
        rw [hfetch] at hforwarded
        cases hforwarded
    · obtain rfl : k = (Users.id .access).identity :=
        Option.some.inj (of_decide_eq_true hcolumn)
      refine ⟨chain, hchain, ⟨added, hadded, hlink.statement ▸ hadds⟩, read, hread, q, param, hq,
        hp, fun l hl hsettled ↦ ?_⟩
      obtain ⟨s, hs, -⟩ := id hsettled
      have hinserted := ((hsettles.adds l hl s hs).mp hsettled).1
      rw [hkey] at hinserted
      cases hinserted
  | _ =>
    rw [hq] at hselect
    cases hselect

end Command

end SchemaSql
