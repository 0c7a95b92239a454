import SchemaSql.Proofs.Command.Updated
import SchemaSql.Proofs.Users

/-!
No write meets a whole table by accident. Whatever is updated or deleted is restricted by
conditions, and its text says them: equalities of the key columns with the argument's values, the
given keys, the properties of a filter, or a condition that the caller wrote. Only a request that
has neither a filter nor a condition and asks for all rows has no restriction.

An upsert that first updates is the exception to where conditions come from. Its rules are applied
before the key is compared, so that a rule for a key column replaces the argument's value; if there
are such rules for the whole key, no condition comes from the argument.
-/

set_option autoImplicit false
set_option relaxedAutoImplicit false

namespace SchemaSql

/-! ### Conditions that come from a request -/

/-- The argument has a value for a column of its key, the last one given under the column's
names. -/
def Argument.SuppliesKey (a : Argument) (t : Table) (marks : Bool) (c : Column) (v : Value) :
    Prop :=
  c ∈ t.columns ∧ a.isKeyOf t marks c ∧ a.valueFor? t c = some v

/-- The condition compares a column of the key with the argument's value. -/
def Argument.Builds (a : Argument) (t : Table) (marks : Bool) (p : Predicate) : Prop :=
  ∃ c v, a.SuppliesKey t marks c v ∧ p = .equals c (c.parameter v .argument)

/-- The rule that gives a column its value in an upsert: the last one that means the column and is
for a branch. -/
def Rules.forBranch? (r : Rules) (t : Table) (c : Column) : Option ValueRule :=
  ((r.about t c).filter fun v ↦ v.onInsert || v.onUpdate).getLast?

namespace Command

/-- Whether a condition on the rows to write comes from the request. -/
def Builds : Command → Predicate → Prop
  | .update t a o, p => a.Builds t o.useKeyMarks p
  | .updateWhere t _ criteria _ _, p => criteria.Builds t p
  | .delete t a o, p => a.Builds t o.useKeyMarks p
  | .deleteKeys t keys, p => ∃ c ∈ t.columns, c.isKey = true ∧
      ((∃ key, keys = [key] ∧ p = .equals c (Binding.keyParameter c 0 key)) ∨
        keys ≠ [] ∧ p = .among c (keys.mapIdx (Binding.keyParameter c)))
  | .deleteWhere t criteria _, p => criteria.Builds t p
  | .upsert t a o, p => a.Builds t o.useKeyMarks p
  | _, _ => False

/-- Whether a condition compares a column of an upsert's key with the value of a rule, which has
taken the place of the argument's. -/
def Replaces (env : Environment) : Command → Predicate → Prop
  | .upsert t a o, p => ∃ c v r, a.SuppliesKey t o.useKeyMarks c v ∧
      env.rules.forBranch? t c = some r ∧
        p = .equals c (c.parameter (r.value.resolve env.now) .audit)
  | _, _ => False

/-- Whether the request is an upsert and rules give values to its whole key. -/
def LosesKey (env : Environment) : Command → Prop
  | .upsert t a o => ∀ c ∈ t.columns, a.isKeyOf t o.useKeyMarks c →
      (env.rules.forBranch? t c).isSome
  | _ => False

/-- The conditions come from the request, but for those of an upsert's key that rules have replaced;
at least one comes from it, unless rules have replaced them all. -/
structure Restricts (env : Environment) (c : Command) (criteria : List Predicate) : Prop where
  nonempty : criteria ≠ []
  each : ∀ p ∈ criteria, c.Builds p ∨ c.Replaces env p
  some_iff : (∃ p ∈ criteria, c.Builds p) ↔ ¬ c.LosesKey env

/-- Whether the request is to write all rows, and has nothing that says otherwise. -/
def AsksForAllRows : Command → Prop
  | .updateWhere _ _ criteria allRows _ => criteria = .none ∧ allRows = true
  | .deleteWhere _ criteria allRows => criteria = .none ∧ allRows = true
  | _ => False

/-- Whether the request has a filter of which nothing is left, since its properties mean no column
or are null and passed over. -/
def HasVoidFilter : Command → Prop
  | .updateWhere t _ (.filter f ignoreNulls) _ _ | .deleteWhere t (.filter f ignoreNulls) _ =>
    ∀ q ∈ f.toProperties, t.column? q.name = none ∨ ignoreNulls = true ∧ q.value.isNull = true
  | _ => False

/-- The same request, but asking for all rows or not. -/
def withAllRows (allRows : Bool) : Command → Command
  | .updateWhere t a criteria _ old => .updateWhere t a criteria allRows old
  | .deleteWhere t criteria _ => .deleteWhere t criteria allRows
  | c => c

def criteria : Command → Criteria
  | .updateWhere _ _ criteria _ _ | .deleteWhere _ criteria _ => criteria
  | _ => .none

/-- The conditions that an update or delete of the request may have. -/
def Allows (env : Environment) (c : Command) (criteria : List Predicate) : Prop :=
  (c.AsksForAllRows ∧ criteria = []) ∨ c.Restricts env criteria

variable {env : Environment} {desired : Desired} {t : Table} {a : Argument} {b : Binding}
  {chain : Chain} {criteria : List Predicate}

/-! ### Conditions of updates and deletes -/

theorem Restricts.of_builds {c : Command} (hnonempty : criteria ≠ [])
    (h : ∀ p ∈ criteria, c.Builds p) (hkey : ¬ c.LosesKey env) : c.Restricts env criteria := by
  obtain ⟨p, hp⟩ := List.exists_mem_of_ne_nil criteria hnonempty
  exact ⟨hnonempty, fun p hp ↦ .inl (h p hp), iff_of_true ⟨p, hp, h p hp⟩ hkey⟩

/-- The criteria by key of an argument say that the keys have the argument's values. -/
theorem keyCriteria_built {marks : Bool}
    (h : (binding env t).apply (Binding.bindArgument a marks) = .ok b)
    (hcriteria : b.keyCriteria = .ok criteria) :
    criteria ≠ [] ∧ ∀ p ∈ criteria, a.Builds t marks p := by
  obtain ⟨keys, rfl, hne, -, -, hmem, -⟩ := comparesOwnKey_of_bindArgument h hcriteria
  refine ⟨by simpa using hne, fun p hp ↦ ?_⟩
  obtain ⟨⟨c, v⟩, hkey, rfl⟩ := List.mem_map.mp hp
  exact ⟨c, v, (hmem c v).mp hkey, rfl⟩

theorem prepareUpdate_restrictedTo {o : UpdateOptions}
    (h : prepareUpdate env desired t a o = .ok chain) :
    chain.RestrictedTo env.dialect ((update t a o).Allows env) := by
  obtain ⟨b, hb, h⟩ := bind_eq_ok.mp h
  obtain ⟨_, -, h⟩ := bind_eq_ok.mp h
  obtain ⟨criteria, hcriteria, h⟩ := bind_eq_ok.mp h
  obtain ⟨r, hr, h⟩ := bind_eq_ok.mp h
  obtain ⟨as, output, -, hcarried⟩ := WritePlan.updateChain_ok h
  obtain ⟨hnonempty, hbuilt⟩ := keyCriteria_built hb hcriteria
  refine .of_carriedOutBy hcarried ?_ rfl (.inr (.of_builds hnonempty hbuilt id))
  exact dialect_eq ((returningFor_ok hr).1.trans (frame_bindUpdate (Binding.frame_bindArgument hb)))

theorem prepareUpdateWhere_restrictedTo {c : Criteria} {allRows old : Bool}
    (h : prepareUpdateWhere env desired t a c allRows old = .ok chain) :
    chain.RestrictedTo env.dialect ((updateWhere t a c allRows old).Allows env) := by
  rw [prepareUpdateWhere_eq] at h
  split at h
  · simp at h
  · rename_i hguard
    obtain ⟨b, hb, h⟩ := bind_eq_ok.mp h
    obtain ⟨_, -, h⟩ := bind_eq_ok.mp h
    obtain ⟨criteria, hcriteria, h⟩ := bind_eq_ok.mp h
    obtain ⟨r, hr, h⟩ := bind_eq_ok.mp h
    obtain ⟨as, output, -, hcarried⟩ := WritePlan.updateChain_ok h
    have hframe := frame_bindUpdate (Binding.frame_bindArgument hb)
    refine .of_carriedOutBy hcarried (dialect_eq ((returningFor_ok hr).1.trans hframe)) rfl ?_
    rcases Criteria.predicates_built hframe hcriteria with ⟨rfl, rfl⟩ | ⟨hnonempty, hbuilt⟩
    · exact .inl ⟨⟨rfl, by simpa [Criteria.isNone] using hguard⟩, rfl⟩
    · exact .inr (.of_builds hnonempty hbuilt id)

theorem prepareDelete_restrictedTo {o : DeleteOptions}
    (h : prepareDelete env desired t a o = .ok chain) :
    chain.RestrictedTo env.dialect ((delete t a o).Allows env) := by
  obtain ⟨b, hb, h⟩ := bind_eq_ok.mp h
  obtain ⟨criteria, hcriteria, h⟩ := bind_eq_ok.mp h
  obtain ⟨hnonempty, hbuilt⟩ := keyCriteria_built hb hcriteria
  exact prepareDeletion_restrictedTo (Binding.frame_bindArgument hb)
    (.inr (.of_builds hnonempty hbuilt id)) h

theorem prepareDeleteKeys_restrictedTo {keys : List Value}
    (h : prepareDeleteKeys env desired t keys = .ok chain) :
    chain.RestrictedTo env.dialect ((deleteKeys t keys).Allows env) := by
  obtain ⟨p, hp, h⟩ := bind_eq_ok.mp h
  refine prepareDeletion_restrictedTo rfl (.inr (.of_builds (by simp) (fun q hq ↦ ?_) id)) h
  obtain rfl := List.mem_singleton.mp hq
  obtain ⟨e, he, hkey, hcondition⟩ := Binding.keyListCriterion_ok hp
  obtain ⟨c, hc, rfl⟩ := List.mem_map.mp he
  exact ⟨c, hc, hkey, hcondition⟩

theorem prepareDeleteWhere_restrictedTo {c : Criteria} {allRows : Bool}
    (h : prepareDeleteWhere env desired t c allRows = .ok chain) :
    chain.RestrictedTo env.dialect ((deleteWhere t c allRows).Allows env) := by
  rw [prepareDeleteWhere_eq] at h
  split at h
  · simp at h
  · rename_i hguard
    obtain ⟨criteria, hcriteria, h⟩ := bind_eq_ok.mp h
    refine prepareDeletion_restrictedTo rfl ?_ h
    rcases Criteria.predicates_built rfl hcriteria with ⟨rfl, rfl⟩ | ⟨hnonempty, hbuilt⟩
    · exact .inl ⟨⟨rfl, by simpa [Criteria.isNone] using hguard⟩, rfl⟩
    · exact .inr (.of_builds hnonempty hbuilt id)

/-! ### Conditions of upserts -/

/-- The condition on a column of an upsert's key: the value of the last rule for a branch counts, if
there is one, and the argument's otherwise. -/
def upsertCondition (env : Environment) (t : Table) (c : Column) (v : Value) : Predicate :=
  match env.rules.forBranch? t c with
  | some r => .equals c (c.parameter (r.value.resolve env.now) .audit)
  | none => .equals c (c.parameter v .argument)

theorem upsertCondition_eq {marks : Bool} {c : Column} {v : Value}
    (h : a.valueFor? t c = some v) :
    upsertCondition env t c v = .equals c (upsertEntry env t a marks c).parameter := by
  rw [upsertCondition, upsertEntry, Entry.ruled, ← Rules.forBranch?]
  cases env.rules.forBranch? t c with
  | some r =>
    have hcolumn : (a.entryFor t marks c).column = c := Argument.entryFor_column
    change _ = Predicate.equals c ((a.entryFor t marks c).column.parameter _ _)
    rw [hcolumn]
    rfl
  | none =>
    change _ = Predicate.equals c (a.entryFor t marks c).parameter
    rw [Entry.parameter, Argument.entryFor_column, Argument.entryFor_value,
      Argument.entryFor_origin, h]
    rfl

section Upsert

variable {o : UpsertOptions}
  (hb : (binding env t).apply (Binding.bindArgument a o.useKeyMarks) = .ok b)
  (hbase : (upsertBase env b o).Splits)

include hb hbase

/-- An upsert has a value for every column of its key. -/
theorem exists_suppliesKey {c : Column} (hc : c ∈ t.columns)
    (hkey : a.isKeyOf t o.useKeyMarks c) : ∃ v, a.SuppliesKey t o.useKeyMarks c v := by
  have hentry := (upsertBase_makes (o := o) hb).entry c
  rw [if_pos hc] at hentry
  have hbound : (a.entryFor t o.useKeyMarks c).isBound :=
    (hbase.parts _ (Binding.mem_of_entryOf? hentry)).key (Argument.entryFor_isKey.trans hkey)
  rw [Entry.isBound, Argument.entryFor_value] at hbound
  obtain ⟨v, hv⟩ := Option.isSome_iff_exists.mp hbound
  exact ⟨v, hc, hkey, hv⟩

/-- What a key column is bound to after the rules makes the condition on it. -/
theorem condition_of_mem_bindUpsert :
    ∀ e ∈ (env.rules.bindUpsert env.now (upsertBase env b o)).entries, e.isKey →
      ∃ v, a.SuppliesKey t o.useKeyMarks e.column v ∧
        Predicate.equals e.column e.parameter = upsertCondition env t e.column v := by
  intro e he hkey
  have hruled := bindUpsert_splits hb hbase
  have hmade := hruled.once.entryOf?_eq he ((hruled.parts e he).key hkey)
  rw [entryOf?_bindUpsert hb, Option.ite_none_right_eq_some] at hmade
  obtain ⟨hc, hentry⟩ := hmade
  -- What rules leave of the entry for a branch is neither its key nor its value.
  have hisKey : (upsertEntry env t a o.useKeyMarks e.column).isKey = e.isKey :=
    (congrArg Entry.isKey (Option.some.inj hentry) :)
  have hparameter : (upsertEntry env t a o.useKeyMarks e.column).parameter = e.parameter :=
    (congrArg Entry.parameter (Option.some.inj hentry) :)
  rw [upsertEntry, Entry.ruled_isKey, Argument.entryFor_isKey] at hisKey
  obtain ⟨v, hv⟩ := exists_suppliesKey hb hbase hc (hisKey.trans hkey)
  exact ⟨v, hv, by rw [upsertCondition_eq hv.2.2, hparameter]⟩

/-- The conditions of an upsert's update are those on the columns of its key, after the rules. -/
theorem mem_upsertCriteria_iff {ruled : Binding}
    (hunread : ruled.unread = (env.rules.bindUpsert env.now (upsertBase env b o)).unread)
    (hcriteria : ruled.keyCriteria = .ok criteria) (p : Predicate) :
    p ∈ criteria ↔
      ∃ c v, a.SuppliesKey t o.useKeyMarks c v ∧ p = upsertCondition env t c v := by
  have hcondition := Binding.forall_of_unread (P := fun e ↦ e.isKey →
    ∃ v, a.SuppliesKey t o.useKeyMarks e.column v ∧
      Predicate.equals e.column e.parameter = upsertCondition env t e.column v) hunread
    (fun _ ↦ id) (condition_of_mem_bindUpsert hb hbase)
  obtain ⟨-, -, rfl⟩ := Binding.keyCriteria_ok hcriteria
  constructor
  · intro hp
    obtain ⟨e, he, rfl⟩ := List.mem_map.mp hp
    obtain ⟨hentry, hkey⟩ := List.mem_filter.mp he
    obtain ⟨v, hv, heq⟩ := hcondition e hentry hkey
    exact ⟨e.column, v, hv, heq⟩
  · rintro ⟨c, v, hv, rfl⟩
    have hmarks : ruled.keyMarks = b.keyMarks := (Binding.keyMarks_unread hunread).trans
      ((Binding.keyMarks_bindUpsert _ _ _).trans (keyMarks_upsertBase b o))
    have hkeyed : c ∈ ruled.keyColumns := by
      rw [Binding.keyColumns_of_keyMarks hmarks, mem_keyColumns hb hbase, Argument.entryFor_isKey]
      exact ⟨hv.1, hv.2.1⟩
    obtain ⟨e, he, rfl⟩ := List.mem_map.mp hkeyed
    obtain ⟨hentry, hkey⟩ := List.mem_filter.mp he
    obtain ⟨v', hv', heq⟩ := hcondition e hentry hkey
    obtain rfl : v' = v := Option.some.inj (hv'.2.2.symm.trans hv.2.2)
    exact List.mem_map.mpr ⟨e, he, heq⟩

theorem upsert_restricts {ruled : Binding}
    (hunread : ruled.unread = (env.rules.bindUpsert env.now (upsertBase env b o)).unread)
    (hcriteria : ruled.keyCriteria = .ok criteria) :
    (upsert t a o).Restricts env criteria := by
  have hmem := mem_upsertCriteria_iff hb hbase hunread hcriteria
  refine ⟨?_, fun p hp ↦ ?_, ?_, ?_⟩
  · obtain ⟨hkeys, -, rfl⟩ := Binding.keyCriteria_ok hcriteria
    simpa using hkeys
  · obtain ⟨c, v, hv, rfl⟩ := (hmem p).mp hp
    rw [upsertCondition]
    cases hrule : env.rules.forBranch? t c with
    | none => exact .inl ⟨c, v, hv, rfl⟩
    | some r => exact .inr ⟨c, v, r, hv, hrule, rfl⟩
  · rintro ⟨p, hp, c, v, hv, rfl⟩ hloses
    obtain ⟨r, hr⟩ := Option.isSome_iff_exists.mp (hloses c hv.1 hv.2.1)
    obtain ⟨c', v', -, heq⟩ := (hmem _).mp hp
    rw [upsertCondition] at heq
    -- The origin of a value tells the argument's from those of rules.
    cases hrule : env.rules.forBranch? t c' with
    | none =>
      rw [hrule] at heq
      obtain ⟨rfl, -⟩ := Predicate.equals.inj heq
      rw [hrule] at hr
      cases hr
    | some r' =>
      rw [hrule] at heq
      have horigin := congrArg Parameter.origin (Predicate.equals.inj heq).2
      cases horigin
  · intro hkept
    obtain ⟨c, hc, hkey, hnone⟩ : ∃ c ∈ t.columns, a.isKeyOf t o.useKeyMarks c ∧
        env.rules.forBranch? t c = none := by
      by_contra hall
      refine hkept fun c hc hkey ↦ Option.isSome_iff_ne_none.mpr fun hnone ↦ ?_
      exact hall ⟨c, hc, hkey, hnone⟩
    obtain ⟨v, hv⟩ := exists_suppliesKey hb hbase hc hkey
    refine ⟨upsertCondition env t c v, (hmem _).mpr ⟨c, v, hv, rfl⟩, c, v, hv, ?_⟩
    rw [upsertCondition, hnone]

end Upsert

theorem prepareUpsert_restrictedTo {o : UpsertOptions}
    (h : prepareUpsert env desired t a o = .ok chain) :
    chain.RestrictedTo env.dialect ((upsert t a o).Allows env) := by
  obtain ⟨b, p, steps, hb, hbase, -, hunread, -, hsteps, hruns⟩ := prepareUpsert_plan h
  intro l hl criteria hcriteria
  obtain ⟨step, hstep, hlink⟩ := hruns.exists_step hl
  refine ⟨hlink.written, ?_⟩
  rw [hlink.statement] at hcriteria
  have hnotRead {reads : List ChainStep} (hreads : p.ReadsBack reads) : step ∉ reads := by
    rcases hreads with rfl | ⟨_, -, rfl⟩
    · exact List.not_mem_nil
    · intro hmem
      rw [List.mem_singleton.mp hmem] at hcriteria
      cases hcriteria
  cases hsteps with
  | merge =>
    rw [List.mem_singleton.mp hstep] at hcriteria
    cases hcriteria
  | onConflict =>
    rw [List.mem_singleton.mp hstep] at hcriteria
    cases hcriteria
  | onDuplicateKey _ _ hreads =>
    rcases List.mem_cons.mp hstep with rfl | hmem
    · cases hcriteria
    · exact absurd hmem (hnotRead hreads)
  | updateThenInsert _ hkeyCriteria _ _ hreads =>
    rcases List.mem_cons.mp hstep with rfl | hmem
    · obtain rfl := Option.some.inj hcriteria
      exact .inr (upsert_restricts hb hbase hunread hkeyCriteria)
    · rcases List.mem_cons.mp hmem with rfl | hmem
      · cases hcriteria
      · exact absurd hmem (hnotRead hreads)

/-! ### Conditions of all requests -/

theorem prepare_restrictedTo {c : Command} (h : c.prepare env desired = .ok chain) :
    chain.RestrictedTo env.dialect (c.Allows env) := by
  cases c with
  | query q =>
    obtain ⟨s, hs, h⟩ := bind_eq_ok.mp h
    obtain ⟨l, hl, h⟩ := bind_eq_ok.mp h
    obtain rfl := Except.ok.inj h
    obtain ⟨_, -, hs⟩ := bind_eq_ok.mp hs
    obtain ⟨_, -, hs⟩ := bind_eq_ok.mp hs
    obtain ⟨_, -, hs⟩ := bind_eq_ok.mp hs
    obtain rfl := Except.ok.inj hs
    refine .of_singleton ?_
    rw [(Link.ofStatement_ok hl).2.2.1]
    rfl
  | insert t a o =>
    rw [prepare, prepareInsert_eq] at h
    obtain ⟨b, -, h⟩ := bind_eq_ok.mp h
    obtain ⟨r, -, h⟩ := bind_eq_ok.mp h
    exact .of_unrestricted fun l hl ↦ restriction?_none (WritePlan.insertChain_ok h l hl)
  | update t a o => exact prepareUpdate_restrictedTo h
  | updateWhere t a criteria allRows old => exact prepareUpdateWhere_restrictedTo h
  | delete t a o => exact prepareDelete_restrictedTo h
  | deleteKeys t keys => exact prepareDeleteKeys_restrictedTo h
  | deleteWhere t criteria allRows => exact prepareDeleteWhere_restrictedTo h
  | upsert t a o => exact prepareUpsert_restrictedTo h
  | procedure p a =>
    obtain ⟨ps, -, h⟩ := bind_eq_ok.mp h
    obtain ⟨l, hl, h⟩ := bind_eq_ok.mp h
    obtain rfl := Except.ok.inj h
    exact .of_singleton (procedureLink_restriction? hl)
  | written text a =>
    obtain ⟨l, hl, h⟩ := bind_eq_ok.mp h
    obtain rfl := Except.ok.inj h
    refine .of_singleton ?_
    rw [(Link.ofStatement_ok hl).2.2.1]
    rfl

/-- A restriction is part of the text of its statement. -/
theorem saysWhere_of_restriction {d : Dialect} {l : Link} (hwritten : l.WrittenIn d)
    (h : l.statement.restriction? = some criteria) : l.SaysWhere d criteria := by
  cases hs : l.statement <;> rw [hs] at h
  case update s =>
    obtain rfl := Option.some.inj h
    have hparameters : l.statement.fragment.parameters =
        (s.assignments.flatMap fun a ↦ a.value.parameters) ++
          s.criteria.flatMap Predicate.parameters := by rw [hs, Statement.update_parameters]
    have htext := Statement.update_text d.placeholderStyle s
    rw [String.append_assoc] at htext
    exact hwritten.saysWhere hparameters (by rw [hs, htext])
  case delete s =>
    obtain rfl := Option.some.inj h
    have hparameters : l.statement.fragment.parameters =
        [] ++ s.criteria.flatMap Predicate.parameters := by
      rw [hs, Statement.delete_parameters, List.nil_append]
    have htext := Statement.delete_text d.placeholderStyle s
    rw [String.append_assoc] at htext
    exact hwritten.saysWhere hparameters (by rw [hs, htext]; rfl)
  all_goals cases h

/-! ### Void filters and requests for all rows -/

theorem prepare_of_hasVoidFilter {c : Command} (h : c.HasVoidFilter) :
    ∃ e, c.prepare env desired = .error e := by
  cases hprepare : c.prepare env desired with
  | error e => exact ⟨e, rfl⟩
  | ok chain =>
    have hvoid {t : Table} {b : Binding} {f : Argument} {ignoreNulls : Bool}
        (hb : b.frame = (binding env t).frame) (hf : ∀ q ∈ f.toProperties,
          t.column? q.name = none ∨ ignoreNulls = true ∧ q.value.isNull = true)
        {criteria : List Predicate} (hcriteria : b.filterCriteria f ignoreNulls = .ok criteria) :
        False := by
      obtain ⟨e, he⟩ := Binding.filterCriteria_of_nothing fun q hq ↦
        (hf q hq).imp_left (entry?_of_column?_none hb)
      rw [he] at hcriteria
      simp at hcriteria
    cases c with
    | updateWhere t a criteria allRows old =>
      cases criteria with
      | filter f ignoreNulls =>
        rw [prepare, prepareUpdateWhere_eq] at hprepare
        obtain ⟨b, hb, hprepare⟩ := bind_eq_ok.mp hprepare
        obtain ⟨_, -, hprepare⟩ := bind_eq_ok.mp hprepare
        obtain ⟨criteria, hcriteria, -⟩ := bind_eq_ok.mp hprepare
        exact (hvoid (frame_bindUpdate (Binding.frame_bindArgument hb)) h hcriteria).elim
      | none | written => exact h.elim
    | deleteWhere t criteria allRows =>
      cases criteria with
      | filter f ignoreNulls =>
        rw [prepare, prepareDeleteWhere_eq] at hprepare
        obtain ⟨criteria, hcriteria, -⟩ := bind_eq_ok.mp hprepare
        exact (hvoid rfl h hcriteria).elim
      | none | written => exact h.elim
    | query | insert | update | delete | deleteKeys | upsert | procedure | written => exact h.elim

theorem prepare_withAllRows {c : Command} (h : c.criteria ≠ .none) (allRows : Bool) :
    prepare env desired (c.withAllRows allRows) = prepare env desired c := by
  have hset {criteria : Criteria} (hcriteria : criteria ≠ .none) : criteria.isNone = false := by
    cases criteria with
    | none => exact absurd rfl hcriteria
    | filter | written => rfl
  cases c with
  | updateWhere t a criteria allRows' old =>
    have hnone : criteria.isNone = false := hset h
    simp only [withAllRows, prepare, prepareUpdateWhere_eq, hnone, Bool.false_and]
  | deleteWhere t criteria allRows' =>
    have hnone : criteria.isNone = false := hset h
    simp only [withAllRows, prepare, prepareDeleteWhere_eq, hnone, Bool.false_and]
  | query | insert | update | delete | deleteKeys | upsert | procedure | written => rfl

/-- Whatever a request updates or deletes meets conditions that its text says and the request gives,
and at least one, unless it asks for all rows without a filter or condition; but of an upsert whose
whole key has values by rules, no condition comes from the request. A filter of which nothing is
left is refused, and asking for all rows changes nothing where there is a filter or condition. -/
theorem prepare_restricted (env : Environment) (desired : Desired) (c : Command) :
    (∀ chain, c.prepare env desired = .ok chain → ∀ l ∈ chain, ∀ criteria,
      l.statement.restriction? = some criteria →
        l.WrittenIn env.dialect ∧ l.SaysWhere env.dialect criteria ∧
          ((c.AsksForAllRows ∧ criteria = []) ∨ c.Restricts env criteria)) ∧
    (c.HasVoidFilter → ∃ e, c.prepare env desired = .error e) ∧
    (c.criteria ≠ .none → ∀ allRows,
      prepare env desired (c.withAllRows allRows) = prepare env desired c) := by
  refine ⟨?_, prepare_of_hasVoidFilter, prepare_withAllRows⟩
  intro chain hchain l hl criteria hcriteria
  obtain ⟨hwritten, hallowed⟩ := prepare_restrictedTo hchain l hl criteria hcriteria
  exact ⟨hwritten, saysWhere_of_restriction hwritten hcriteria, hallowed⟩

/-- A rule gives all users one key, whether they are added or updated. -/
def oneKeyEnvironment (d : Dialect) (key : Value) : Environment where
  dialect := d
  rules :=
    { values := [{ column := "Id", onInsert := true, onUpdate := true, value := .fixed key }] }

/-- The users with the key that the rule gives are updated, and the argument's key restricts
nothing; a rename is restricted by its filter. -/
theorem upsert_user_by_ruled_key :
    (∃ chain, prepare (oneKeyEnvironment .access (.int 7)) .none
        (.upsert (Users.table .access) (plainUser (.int 1) (.text "Ann")) {}) = .ok chain ∧
      chain.map (fun l ↦ (l.text, l.parameters.map (·.value))) =
        [("UPDATE [Users] SET [Name] = ? WHERE [Id] = ?;", [.text "Ann", .int 7]),
          ("INSERT INTO [Users] ([Id], [Name]) VALUES (?, ?);", [.int 7, .text "Ann"])] ∧
      ∀ l ∈ chain, ∀ criteria, l.statement.restriction? = some criteria → criteria ≠ [] ∧
        ∀ p ∈ criteria,
          ¬ Builds (.upsert (Users.table .access) (plainUser (.int 1) (.text "Ann")) {}) p) ∧
    ∃ chain, prepare (Users.environment .access .null .null) .none
        (Users.rename .access (.int 1) (.text "Ann")) = .ok chain ∧
      ∀ l ∈ chain, ∀ criteria, l.statement.restriction? = some criteria →
        l.SaysWhere .access criteria ∧
          ∃ p ∈ criteria, (Users.rename .access (.int 1) (.text "Ann")).Builds p := by
  constructor
  · have htexts : (prepare (oneKeyEnvironment .access (.int 7)) .none
        (.upsert (Users.table .access) (plainUser (.int 1) (.text "Ann")) {})).toOption.any
          fun c ↦ c.map (fun l ↦ (l.text, l.parameters.map (·.value))) =
            [("UPDATE [Users] SET [Name] = ? WHERE [Id] = ?;", [.text "Ann", .int 7]),
              ("INSERT INTO [Users] ([Id], [Name]) VALUES (?, ?);", [.int 7, .text "Ann"])] := by
      decide +kernel
    have hloses : LosesKey (oneKeyEnvironment .access (.int 7))
        (.upsert (Users.table .access) (plainUser (.int 1) (.text "Ann")) {}) := by
      unfold LosesKey
      decide +kernel
    obtain ⟨chain, hchain, htexts⟩ := exists_ok_of_any htexts
    refine ⟨chain, hchain, of_decide_eq_true htexts, fun l hl criteria hcriteria ↦ ?_⟩
    obtain ⟨-, -, ⟨hall, -⟩ | hrestricts⟩ :=
      (prepare_restricted _ _ _).1 chain hchain l hl criteria hcriteria
    · exact hall.elim
    · exact ⟨hrestricts.nonempty, fun p hp hbuilt ↦ hrestricts.some_iff.mp ⟨p, hp, hbuilt⟩ hloses⟩
  · have hok : (prepare (Users.environment .access .null .null) .none
        (Users.rename .access (.int 1) (.text "Ann"))).toOption.isSome := by decide +kernel
    obtain ⟨chain, hchain⟩ := exists_ok_of_isSome hok
    refine ⟨chain, hchain, fun l hl criteria hcriteria ↦ ?_⟩
    obtain ⟨-, hsaid, ⟨hall, -⟩ | hrestricts⟩ :=
      (prepare_restricted _ _ _).1 chain hchain l hl criteria hcriteria
    · exact absurd hall.2 Bool.false_ne_true
    · exact ⟨hsaid, hrestricts.some_iff.mpr id⟩

end Command

end SchemaSql
