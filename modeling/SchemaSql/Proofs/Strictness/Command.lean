import SchemaSql.Proofs.Command.Listed
import SchemaSql.Proofs.Strictness.Binding

/-!
Strict mode is conservative. A strict request is prepared exactly if the lenient one is and every
name that it consults is known, and then into the same chain; a request that only a strict data
source refuses is refused for an unknown name, or because it asks for ties without an order. What
counts is which names a request consults: an aggregate passes over the wanted columns, and an
insert has no filter.
-/

set_option autoImplicit false
set_option relaxedAutoImplicit false

namespace SchemaSql

open Binding (Loosens)

/-! ### What a request minds -/

section Names

variable (object : String) (columns : List Column)

/-- A property of an argument is no column. -/
abbrev MindsProperties (names : List String) : Error → Prop :=
  MindsNames (knownAmong columns) names (.unknownProperty · object)

/-- A property of a filter is no column. -/
abbrev MindsFilter (names : List String) : Error → Prop :=
  MindsNames (knownAmong columns) names (.unknownFilterProperty · object)

/-- A wanted column is none. -/
abbrev MindsDesired (names : List String) : Error → Prop :=
  MindsNames (knownAmong columns) names (.unknownDesired · object)

/-- A property of an argument is no parameter of a routine. -/
abbrev MindsArguments (declared : List RoutineParameter) (names : List String) : Error → Prop :=
  MindsNames (fun n ↦ declared.any fun p ↦ p.answersTo n) names (.unknownRoutineProperty · object)

end Names

namespace Query

/-- The names of wanted columns that a query consults. -/
def desiredNames (q : Query) (desired : Desired) : List String :=
  if q.aggregate.isSome then [] else desired.names

/-- A query that is no aggregate asks for ties of rows that are in no order. -/
def MindsTies (q : Query) (e : Error) : Prop :=
  q.aggregate = none ∧ q.sorting = [] ∧ q.limits.effective.hasTies ∧
    e = .invalidOperation (.unsorted q.limits.effective)

end Query

namespace Command

/-- The columns that names of a request may mean. -/
def columns : Command → List Column
  | .query q => q.source.columns
  | .insert t _ _ | .update t _ _ | .updateWhere t _ _ _ _ | .delete t _ _ | .deleteKeys t _
  | .deleteWhere t _ _ | .upsert t _ _ => t.columns
  | .procedure .. | .written .. => []

def object : Command → String
  | .query q => q.object
  | .insert t _ _ | .update t _ _ | .updateWhere t _ _ _ _ | .delete t _ _ | .deleteKeys t _
  | .deleteWhere t _ _ | .upsert t _ _ => t.quoted
  | .procedure p _ => p.quoted
  | .written .. => ""

/-- The names of properties that are to be columns of the target. -/
def argumentNames : Command → List String
  | .insert _ a _ | .update _ a _ | .updateWhere _ a _ _ _ | .delete _ a _ | .upsert _ a _ =>
    a.toProperties.map (·.name)
  | _ => []

/-- The names of properties that rows are filtered by. -/
def filterNames : Command → List String
  | .query q => q.criteria.names
  | .updateWhere _ _ c _ _ | .deleteWhere _ c _ => c.names
  | _ => []

/-- The names of wanted columns that a request consults. -/
def desiredNames (desired : Desired) : Command → List String
  | .query q => q.desiredNames desired
  | .procedure .. | .written .. => []
  | _ => desired.names

/-- The parameters of the routine that a request runs or reads. -/
def declared : Command → List RoutineParameter
  | .query { source := .function f _, .. } => f.parameters
  | .procedure p _ => p.parameters
  | _ => []

/-- The names of properties that are to be parameters of a routine. -/
def routineNames : Command → List String
  | .query { source := .function _ a, .. } | .procedure _ a => a.toProperties.map (·.name)
  | _ => []

/-- A query asks for ties of rows that are in no order. -/
def MindsTies : Command → Error → Prop
  | .query q => q.MindsTies
  | _ => Unminded

/-- What a strict data source alone refuses a request for, as an error that tells of it. -/
def Minds (desired : Desired) (c : Command) (e : Error) : Prop :=
  MindsProperties c.object c.columns c.argumentNames e ∨
    MindsFilter c.object c.columns c.filterNames e ∨
    MindsDesired c.object c.columns (c.desiredNames desired) e ∨
    MindsArguments c.object c.declared c.routineNames e ∨ c.MindsTies e

section Write

variable {desired : Desired} {c : Command} {e : Error}

/-- Names in a write are names of columns, and a write has no ties. -/
theorem minds_iff_of_write (h : c.routineNames = [] ∧ c.MindsTies = Unminded) :
    c.Minds desired e ↔ MindsProperties c.object c.columns c.argumentNames e ∨
      MindsFilter c.object c.columns c.filterNames e ∨
      MindsDesired c.object c.columns (c.desiredNames desired) e := by
  simp only [Minds, h.1, h.2, mindsNames_nil, or_false]

theorem minds_iff_of_unfiltered
    (h : c.filterNames = [] ∧ c.routineNames = [] ∧ c.MindsTies = Unminded) :
    c.Minds desired e ↔ MindsProperties c.object c.columns c.argumentNames e ∨
      MindsDesired c.object c.columns (c.desiredNames desired) e := by
  simp only [minds_iff_of_write h.2, h.1, mindsNames_nil, false_or]

theorem minds_iff_of_unargued
    (h : c.argumentNames = [] ∧ c.routineNames = [] ∧ c.MindsTies = Unminded) :
    c.Minds desired e ↔ MindsFilter c.object c.columns c.filterNames e ∨
      MindsDesired c.object c.columns (c.desiredNames desired) e := by
  simp only [minds_iff_of_write h.2, h.1, mindsNames_nil, false_or]

end Write

end Command

/-! ### Stages -/

namespace Binding.Loosens

variable {target : Target} {columns : List Column} {a b : Binding}

theorem ofColumns (target : Target) (columns : List Column) (d : Dialect) :
    Loosens target columns (.ofColumns target columns d true)
      (.ofColumns target columns d false) :=
  ⟨rfl, rfl, by simp [Binding.ofColumns, Entry.ofColumn, Function.comp_def], rfl⟩

theorem withIdentities (h : Loosens target columns a b) (wanted : Bool) :
    Loosens target columns (a.withIdentities wanted) (b.withIdentities wanted) := by
  obtain rfl := h.lenient
  cases wanted with
  | false => exact h
  | true => exact (h.of_entries (c := { a with identityInsert := true }) rfl rfl rfl).refreshed

theorem withKeyInserts (h : Loosens target columns a b) (wanted : Bool) :
    Loosens target columns (a.withKeyInserts wanted) (b.withKeyInserts wanted) := by
  obtain rfl := h.lenient
  cases wanted with
  | false => exact h
  | true => exact (h.of_entries (c := { a with keyInserts := true }) rfl rfl rfl).refreshed

theorem bindRule (h : Loosens target columns a b) (name : String) (value : Value) :
    Loosens target columns (a.bindRule name value) (b.bindRule name value) := by
  have hentry : (b.entry? name).isSome = (a.entry? name).isSome := by
    obtain rfl := h.lenient
    rfl
  rw [Binding.bindRule, Binding.bindRule, hentry]
  split
  · exact (h.changed name (f := Entry.bind value .audit) fun _ ↦ rfl).refreshed
  · exact h

theorem restrict (h : Loosens target columns a b) (name : String) (insert update : Bool) :
    Loosens target columns (a.restrict name insert update) (b.restrict name insert update) :=
  h.changed name fun _ ↦ rfl

/-- Rules pass over columns that a table lacks, in strict mode too. -/
theorem bindWhere (h : Loosens target columns a b) (r : Rules) (p : ValueRule → Bool)
    (now : Timestamp) : Loosens target columns (r.bindWhere p now a) (r.bindWhere p now b) :=
  r.bindWhere_relation p now (fun _ _ _ _ _ hab ↦ hab.bindRule _ _) h

theorem bindUpsert (h : Loosens target columns a b) (r : Rules) (now : Timestamp) :
    Loosens target columns (r.bindUpsert now a) (r.bindUpsert now b) :=
  r.bindUpsert_relation now (fun _ _ _ _ hab ↦ hab.bindRule _ _)
    (fun _ _ _ _ hab ↦ hab.restrict _ _ _) h

/-- What does not ask for strictness finds the same in both bindings. -/
theorem congr (h : Loosens target columns a b) {α : Type} {f : Binding → α}
    (hf : ∀ c : Binding, f { c with strict := false } = f c) : f a = f b := by
  obtain rfl := h.lenient
  exact (hf a).symm

end Binding.Loosens

theorem Binding.orderTerms_lenient (b : Binding) (sorting : List SortTerm) :
    { b with strict := false }.orderTerms sorting = b.orderTerms sorting := by
  induction sorting with
  | nil => rfl
  | cons s rest ih =>
    rw [orderTerms, orderTerms, ih]
    rfl

theorem Desired.names_of_isNone {desired : Desired} (h : desired.isNone) : desired.names = [] := by
  cases desired with
  | none | all => rfl
  | named names => exact List.isEmpty_iff.mp h

/-- A routine is called alike, unless a strict data source minds a property. -/
theorem bindRoutine_tightens (object : String) (declared : List RoutineParameter) (a : Argument) :
    Tightens (MindsArguments object declared (a.toProperties.map (·.name))) (· = ·)
      (bindRoutine object declared a true) (bindRoutine object declared a false) := by
  have hlenient : bindRoutine object declared a false =
      .ok (declared.map (boundParameter a.toProperties)) := by
    rw [bindRoutine, List.find?_eq_none.mpr fun q _ ↦ by simp]
  rw [hlenient, bindRoutine]
  cases hfind : a.toProperties.find? fun q ↦ true && !declared.any fun p ↦ p.answersTo q.name with
  | some q =>
    have hunknown : (declared.any fun p ↦ p.answersTo q.name) = false := by
      simpa using List.find?_some hfind
    exact .minded
      ⟨q.name, List.mem_map_of_mem (List.mem_of_find?_eq_some hfind), hunknown, rfl⟩ _
  | none =>
    have hknown := List.find?_eq_none.mp hfind
    refine .ok ?_ rfl
    rintro e ⟨n, hn, hunknown, -⟩
    obtain ⟨q, hq, rfl⟩ := List.mem_map.mp hn
    exact hknown q hq (by simpa using hunknown)

namespace Command

variable {target : Target} {columns : List Column} {a b : Binding}

theorem returningFor_tightens (h : Loosens target columns a b) (desired : Desired)
    (wanted : Returning) :
    Tightens (MindsDesired target.quoted columns desired.names)
      (fun r s ↦ Loosens target columns r.1 s.1 ∧ r.2 = s.2)
      (returningFor a desired wanted) (returningFor b desired wanted) := by
  rw [returningFor, returningFor]
  cases hnone : desired.isNone with
  | true =>
    rw [Desired.names_of_isNone hnone]
    exact .ok (fun e ↦ (mindsNames_nil _ _ e).mp) ⟨h, rfl⟩
  | false => exact (Binding.applyDesired_tightens h desired).map fun _ _ hab ↦ ⟨hab, rfl⟩

/-- The wanted columns are all that the end of a write may mind. -/
theorem returned_tightens (h : Loosens target columns a b) (desired : Desired)
    (wanted : Returning) {k : Binding → Returning → Except Error Chain}
    (hk : ∀ (c : Binding) r, k { c with strict := false } r = k c r) :
    Tightens (MindsDesired target.quoted columns desired.names) (· = ·)
      ((returningFor a desired wanted).bind fun r ↦ k r.1 r.2)
      ((returningFor b desired wanted).bind fun r ↦ k r.1 r.2) := by
  refine (returningFor_tightens h desired wanted).bind_unminded ?_
  rintro ⟨c, r⟩ ⟨d, -⟩ ⟨hcd, rfl⟩
  exact .of_eq (hcd.congr (f := fun c ↦ k c r) fun c ↦ hk c r)

/-! ### Writes -/

section Write

variable (env : Environment) (desired : Desired) (t : Table)

theorem binding_loosens : Loosens t.target t.columns (binding { env with strict := true } t)
    (binding { env with strict := false } t) :=
  .ofColumns t.target t.columns env.dialect

theorem prepareInsert_tightens (a : Argument) (o : InsertOptions) :
    Tightens ((Command.insert t a o).Minds desired) (· = ·)
      (prepareInsert { env with strict := true } desired t a o)
      (prepareInsert { env with strict := false } desired t a o) := by
  rw [prepareInsert_eq, prepareInsert_eq]
  have hargument := Binding.bindArgument_tightens (binding_loosens env t) a false
  refine Tightens.congr ?_ fun e ↦ (minds_iff_of_unfiltered ⟨rfl, rfl, rfl⟩).symm
  refine hargument.bind fun b c hbc ↦ ?_
  have hrules := (hbc.withIdentities o.identityInsert).bindWhere env.rules (·.onInsert) env.now
  exact returned_tightens hrules desired .new (k := fun b r ↦ WritePlan.insertChain
    { binding := b, operation := "Insert", criteria := [], byKey := false, returning := r
      check := .exactlyOne, identityInsert := o.identityInsert }) fun _ _ ↦ rfl

theorem prepareUpdate_tightens (a : Argument) (o : UpdateOptions) :
    Tightens ((Command.update t a o).Minds desired) (· = ·)
      (prepareUpdate { env with strict := true } desired t a o)
      (prepareUpdate { env with strict := false } desired t a o) := by
  rw [prepareUpdate_eq, prepareUpdate_eq]
  have hargument := Binding.bindArgument_tightens (binding_loosens env t) a o.useKeyMarks
  refine Tightens.congr ?_ fun e ↦ (minds_iff_of_unfiltered ⟨rfl, rfl, rfl⟩).symm
  refine hargument.bind fun b c hbc ↦ ?_
  rw [← hbc.congr (f := requireUpdates) fun _ ↦ rfl,
    ← hbc.congr (f := Binding.keyCriteria) fun _ ↦ rfl]
  refine .bind_same fun _ ↦ .bind_same fun criteria ↦ ?_
  have hrules := hbc.bindWhere env.rules (·.onUpdate) env.now
  exact returned_tightens hrules desired (oldOrNew o.returnOldValues)
    (k := fun b r ↦ WritePlan.updateChain
      { binding := b, operation := "Update", criteria, byKey := true, returning := r
        check := keyCheck o.ignoreRowsAffected, identityInsert := false }) fun _ _ ↦ rfl

theorem prepareUpdateWhere_tightens (a : Argument) (c : Criteria) (allRows old : Bool) :
    Tightens ((Command.updateWhere t a c allRows old).Minds desired) (· = ·)
      (prepareUpdateWhere { env with strict := true } desired t a c allRows old)
      (prepareUpdateWhere { env with strict := false } desired t a c allRows old) := by
  rw [prepareUpdateWhere_eq, prepareUpdateWhere_eq]
  split
  · exact .same _
  have hargument := Binding.bindArgument_tightens (binding_loosens env t) a false
  refine Tightens.congr ?_ fun e ↦ (minds_iff_of_write ⟨rfl, rfl⟩).symm
  refine hargument.bind fun b d hbd ↦ ?_
  rw [← hbd.congr (f := requireUpdates) fun _ ↦ rfl]
  refine .bind_same fun _ ↦ ?_
  have hrules := hbd.bindWhere env.rules (·.onUpdate) env.now
  refine (c.predicates_tightens hrules).bind fun criteria _ hcriteria ↦ ?_
  subst hcriteria
  exact returned_tightens hrules desired (oldOrNew old) (k := fun b r ↦ WritePlan.updateChain
    { binding := b, operation := "UpdateSet", criteria, byKey := false, returning := r
      check := .ignore, identityInsert := false }) fun _ _ ↦ rfl

/-- Marking rows as deleted names only columns that the table has. -/
theorem prepareDeletion_tightens {target : Target} {columns : List Column} {a b : Binding}
    (h : Loosens target columns a b) (criteria : List Predicate) (byKey : Bool) (check : RowCheck) :
    Tightens (MindsDesired target.quoted columns desired.names) (· = ·)
      (prepareDeletion { env with strict := true } desired t a criteria byKey check)
      (prepareDeletion { env with strict := false } desired t b criteria byKey check) := by
  cases hmarks : env.rules.softDeleteValues? env.now t with
  | none =>
    rw [prepareDeletion_of_none { env with strict := true } desired t a criteria byKey check hmarks,
      prepareDeletion_of_none { env with strict := false } desired t b criteria byKey check hmarks]
    exact returned_tightens h desired .old (k := fun b r ↦ WritePlan.deleteChain
      { binding := b, operation := "Delete", criteria, byKey, returning := r, check
        identityInsert := false }) fun _ _ ↦ rfl
  | some values =>
    rw [prepareDeletion_of_some { env with strict := true } desired t a criteria byKey check hmarks,
      prepareDeletion_of_some { env with strict := false } desired t b criteria byKey check hmarks]
    have hmarked := Binding.applyUpdateValues_tightens h values .audit
    refine Tightens.congr ?_ fun e ↦ iff_of_eq (false_or _)
    refine hmarked.bind fun c d hcd ↦ ?_
    exact returned_tightens hcd desired .old (k := fun b r ↦ WritePlan.updateChain
      { binding := b, operation := "SoftDelete", criteria, byKey, returning := r
        check := markCheck check, identityInsert := false }) fun _ _ ↦ rfl

theorem prepareDelete_tightens (a : Argument) (o : DeleteOptions) :
    Tightens ((Command.delete t a o).Minds desired) (· = ·)
      (prepareDelete { env with strict := true } desired t a o)
      (prepareDelete { env with strict := false } desired t a o) := by
  rw [prepareDelete_eq, prepareDelete_eq]
  have hargument := Binding.bindArgument_tightens (binding_loosens env t) a o.useKeyMarks
  refine Tightens.congr ?_ fun e ↦ (minds_iff_of_unfiltered ⟨rfl, rfl, rfl⟩).symm
  refine hargument.bind fun b c hbc ↦ ?_
  rw [← hbc.congr (f := Binding.keyCriteria) fun _ ↦ rfl]
  exact .bind_same fun criteria ↦ prepareDeletion_tightens env desired t hbc criteria true _

theorem prepareDeleteKeys_tightens (keys : List Value) :
    Tightens ((Command.deleteKeys t keys).Minds desired) (· = ·)
      (prepareDeleteKeys { env with strict := true } desired t keys)
      (prepareDeleteKeys { env with strict := false } desired t keys) := by
  have hbinding := binding_loosens env t
  rw [prepareDeleteKeys_eq, prepareDeleteKeys_eq,
    ← hbinding.congr (f := fun b ↦ b.keyListCriterion keys) fun _ ↦ rfl]
  refine Tightens.congr ?_ fun e ↦ (minds_iff_of_unargued ⟨rfl, rfl, rfl⟩).symm
  refine .congr ?_ fun e ↦ (or_iff_right (mindsNames_nil _ _ e).mp).symm
  refine .bind_same fun criterion ↦ ?_
  exact prepareDeletion_tightens env desired t hbinding [criterion] true _

theorem prepareDeleteWhere_tightens (c : Criteria) (allRows : Bool) :
    Tightens ((Command.deleteWhere t c allRows).Minds desired) (· = ·)
      (prepareDeleteWhere { env with strict := true } desired t c allRows)
      (prepareDeleteWhere { env with strict := false } desired t c allRows) := by
  rw [prepareDeleteWhere_eq, prepareDeleteWhere_eq]
  split
  · exact .same _
  have hbinding := binding_loosens env t
  refine Tightens.congr ?_ fun e ↦ (minds_iff_of_unargued ⟨rfl, rfl, rfl⟩).symm
  refine (c.predicates_tightens hbinding).bind fun criteria _ hcriteria ↦ ?_
  subst hcriteria
  exact prepareDeletion_tightens env desired t hbinding criteria false .ignore

theorem prepareUpsert_tightens (a : Argument) (o : UpsertOptions) :
    Tightens ((Command.upsert t a o).Minds desired) (· = ·)
      (prepareUpsert { env with strict := true } desired t a o)
      (prepareUpsert { env with strict := false } desired t a o) := by
  rw [prepareUpsert_eq, prepareUpsert_eq]
  have hargument := Binding.bindArgument_tightens (binding_loosens env t) a o.useKeyMarks
  refine Tightens.congr ?_ fun e ↦ (minds_iff_of_unfiltered ⟨rfl, rfl, rfl⟩).symm
  refine hargument.bind fun b c hbc ↦ ?_
  have hbase : Loosens t.target t.columns (upsertBase { env with strict := true } b o)
      (upsertBase { env with strict := false } c o) :=
    (hbc.withIdentities o.identityInsert).withKeyInserts (findsByClash env.dialect)
  rw [← hbase.congr (f := Binding.hasKeyValues) fun _ ↦ rfl,
    ← hbase.congr (f := Binding.hasInserts) fun _ ↦ rfl]
  split
  · exact .same _
  split
  · exact .same _
  exact returned_tightens (hbase.bindUpsert env.rules env.now) desired .new
    (k := fun b r ↦ WritePlan.upsertChain
      { binding := b, operation := "Upsert", criteria := [], byKey := true, returning := r
        check := .ignore, identityInsert := o.identityInsert || findsByClash env.dialect })
    fun _ _ ↦ rfl

end Write

end Command

/-! ### Queries -/

namespace Query

variable (env : Environment) (desired : Desired) (q : Query)
  {target : Target} {columns : List Column} {a b : Binding}

/-- A source is read alike, unless a strict data source minds an argument of a function. -/
theorem source_tightens :
    Tightens
      (MindsArguments q.object (Command.query q).declared (Command.query q).routineNames) (· = ·)
      (q.source.resolve { env with strict := true })
      (q.source.resolve { env with strict := false }) := by
  obtain ⟨source | ⟨f, a⟩, criteria, keys, sorting, limits, aggregate, includeDeleted⟩ := q
  · exact (Tightens.of_eq rfl).congr fun e ↦ (mindsNames_nil _ _ e).symm
  · refine (bindRoutine_tightens f.quoted f.parameters a).bind_unminded fun ps _ hps ↦ ?_
    subst hps
    exact .of_eq rfl

/-- Ties need an order. A strict data source wants it from the caller; others take the key's. -/
theorem orderTerms_tightens (h : Loosens target columns a b) (hrows : q.aggregate = none) :
    Tightens q.MindsTies (· = ·) (q.orderTerms { env with strict := true } a)
      (q.orderTerms { env with strict := false } b) := by
  rw [orderTerms_eq, orderTerms_eq,
    ← h.congr (f := fun c ↦ c.orderTerms q.sorting) fun c ↦ c.orderTerms_lenient q.sorting]
  refine .bind_same fun _ ↦ .bind_same fun terms ↦ ?_
  cases hties : q.sorting.isEmpty && q.limits.effective.hasTies with
  | true =>
    obtain ⟨hsorting, hlimit⟩ := Bool.and_eq_true_iff.mp hties
    exact .minded ⟨hrows, List.isEmpty_iff.mp hsorting, hlimit, rfl⟩ _
  | false =>
    refine .ok (fun e he ↦ ?_) rfl
    obtain ⟨-, hsorting, hlimit, -⟩ := he
    simp [hsorting, hlimit] at hties

/-- The heads of both statements are the same, and the bindings are alike. -/
theorem plan_tightens (h : Loosens q.source.target q.source.columns a b) :
    Tightens
      (fun e ↦ MindsDesired q.object q.source.columns (q.desiredNames desired) e ∨ q.MindsTies e)
      (fun x y ↦ x.1 = y.1 ∧ x.2.1 = y.2.1 ∧ x.2.2.1 = y.2.2.1 ∧
        Loosens q.source.target q.source.columns x.2.2.2 y.2.2.2)
      (q.plan { env with strict := true } desired a)
      (q.plan { env with strict := false } desired b) := by
  cases haggregate : q.aggregate with
  | some g =>
    have hunminded (e : Error) :
        MindsDesired q.object q.source.columns (q.desiredNames desired) e ∨ q.MindsTies e ↔
          False := by
      simp [desiredNames, MindsTies, haggregate]
    have hprojection := h.congr (f := fun c ↦ aggregateProjection env c q.limits g) fun _ ↦ rfl
    rw [plan, plan, haggregate]
    refine Tightens.congr ?_ fun e ↦ (hunminded e).symm
    refine (Tightens.of_eq hprojection).map fun p _ hp ↦ ?_
    exact ⟨hp, rfl, rfl, h⟩
  | none =>
    have hnames : (if desired.isNone then .all else desired).names = q.desiredNames desired := by
      rw [desiredNames, haggregate]
      cases hnone : desired.isNone with
      | true => exact (Desired.names_of_isNone hnone).symm
      | false => rfl
    rw [plan_eq _ _ _ _ haggregate, plan_eq _ _ _ _ haggregate, ← hnames]
    refine (Binding.applyDesired_tightens h _).bind fun c d hcd ↦ ?_
    rw [← hcd.congr (f := Binding.hasReads) fun _ ↦ rfl]
    split
    · exact .same _
    have hread := hcd.congr (f := Binding.readColumns) fun _ ↦ rfl
    refine (q.orderTerms_tightens env hcd haggregate).map fun terms _ hterms ↦ ?_
    exact ⟨congrArg Projection.columns hread, hterms, rfl, hcd⟩

theorem predicates_tightens (h : Loosens target columns a b) :
    Tightens (MindsFilter target.quoted columns q.criteria.names) (· = ·)
      (q.predicates { env with strict := true } a)
      (q.predicates { env with strict := false } b) := by
  rw [predicates_eq, predicates_eq]
  refine (q.criteria.predicates_tightens h).bind_unminded fun criteria _ hcriteria ↦ ?_
  subst hcriteria
  have hkeys : a.listCriteria q.keys = b.listCriteria q.keys :=
    h.congr (f := fun c ↦ c.listCriteria q.keys) fun c ↦ by cases q.keys <;> rfl
  exact .of_eq (by rw [hkeys])

theorem statement_tightens :
    Tightens
      (fun e ↦ (MindsDesired q.object q.source.columns (q.desiredNames desired) e ∨ q.MindsTies e) ∨
        MindsArguments q.object (Command.query q).declared (Command.query q).routineNames e ∨
          MindsFilter q.object q.source.columns q.criteria.names e)
      (· = ·) (q.statement { env with strict := true } desired)
      (q.statement { env with strict := false } desired) := by
  have hplan := q.plan_tightens env desired
    (.ofColumns q.source.target q.source.columns env.dialect)
  refine hplan.bind ?_
  rintro ⟨projection, terms, limits, b⟩ ⟨-, -, -, c⟩ ⟨rfl, rfl, rfl, hbc⟩
  refine (q.source_tightens env).bind fun source _ hsource ↦ ?_
  subst hsource
  refine (q.predicates_tightens env hbc).bind_unminded fun criteria _ hcriteria ↦ ?_
  subst hcriteria
  exact .of_eq rfl

/-- What the stages of a query mind, in their order. -/
theorem minds_iff (e : Error) :
    (Command.query q).Minds desired e ↔
      (MindsDesired q.object q.source.columns (q.desiredNames desired) e ∨ q.MindsTies e) ∨
        MindsArguments q.object (Command.query q).declared (Command.query q).routineNames e ∨
          MindsFilter q.object q.source.columns q.criteria.names e := by
  simp only [Command.Minds, Command.argumentNames, mindsNames_nil, false_or]
  tauto

theorem prepare_tightens :
    Tightens ((Command.query q).Minds desired) (· = ·)
      (q.prepare { env with strict := true } desired)
      (q.prepare { env with strict := false } desired) := by
  refine Tightens.congr ?_ fun e ↦ (q.minds_iff desired e).symm
  refine (q.statement_tightens env desired).bind_unminded fun s _ hs ↦ ?_
  subst hs
  exact .of_eq rfl

end Query

/-! ### Commands -/

namespace Command

variable (env : Environment) (desired : Desired)

theorem prepareProcedure_tightens (p : Procedure) (a : Argument) :
    Tightens ((Command.procedure p a).Minds desired) (· = ·)
      (prepareProcedure { env with strict := true } p a)
      (prepareProcedure { env with strict := false } p a) := by
  have hminds (e : Error) : MindsArguments p.quoted p.parameters (a.toProperties.map (·.name)) e ↔
      (Command.procedure p a).Minds desired e := by
    simp [Minds, argumentNames, filterNames, desiredNames, MindsTies, object, declared,
      routineNames]
  refine Tightens.congr ?_ hminds
  refine (bindRoutine_tightens p.quoted p.parameters a).bind_unminded fun ps _ hps ↦ ?_
  subst hps
  exact .of_eq rfl

theorem prepare_tightens (c : Command) :
    Tightens (c.Minds desired) (· = ·) (prepare { env with strict := true } desired c)
      (prepare { env with strict := false } desired c) := by
  cases c with
  | query q => exact q.prepare_tightens env desired
  | insert t a o => exact prepareInsert_tightens env desired t a o
  | update t a o => exact prepareUpdate_tightens env desired t a o
  | updateWhere t a c allRows old => exact prepareUpdateWhere_tightens env desired t a c allRows old
  | delete t a o => exact prepareDelete_tightens env desired t a o
  | deleteKeys t keys => exact prepareDeleteKeys_tightens env desired t keys
  | deleteWhere t c allRows => exact prepareDeleteWhere_tightens env desired t c allRows
  | upsert t a o => exact prepareUpsert_tightens env desired t a o
  | procedure p a => exact prepareProcedure_tightens env desired p a
  | written text a =>
    refine (Tightens.of_eq rfl).congr fun e ↦ ?_
    simp [Minds, argumentNames, filterNames, desiredNames, MindsTies, routineNames]

/-- Strict mode is conservative: it prepares exactly the chains that lenient mode prepares for
requests in which there is nothing to mind, and what it refuses alone it minds. -/
theorem prepare_conservative (c : Command) :
    (∀ chain, prepare { env with strict := true } desired c = .ok chain ↔
      prepare { env with strict := false } desired c = .ok chain ∧ ∀ e, ¬ c.Minds desired e) ∧
    ∀ chain e, prepare { env with strict := false } desired c = .ok chain →
      prepare { env with strict := true } desired c = .error e → c.Minds desired e := by
  have hruns := prepare_tightens env desired c
  exact ⟨hruns.strict_ok_iff, fun _ _ hlenient hstrict ↦ hruns.minded_of_error hstrict hlenient⟩

/-- A name that no column has is passed over next to one that a column has, unless the data source
is strict. -/
theorem users_strictly_known :
    ∃ chain e,
      prepare { dialect := .sqlite, strict := false } (.named ["Name", "Nick"])
        (.query (.ofTable (numberedUsers .sqlite))) = .ok chain ∧
      prepare { dialect := .sqlite, strict := true } (.named ["Name", "Nick"])
        (.query (.ofTable (numberedUsers .sqlite))) = .error e ∧
      (Command.query (.ofTable (numberedUsers .sqlite))).Minds (.named ["Name", "Nick"]) e := by
  have hok : (prepare { dialect := .sqlite, strict := false } (.named ["Name", "Nick"])
      (.query (.ofTable (numberedUsers .sqlite)))).toOption.isSome := by decide +kernel
  have hrefused : (prepare { dialect := .sqlite, strict := true } (.named ["Name", "Nick"])
      (.query (.ofTable (numberedUsers .sqlite)))).toOption.isNone := by decide +kernel
  obtain ⟨chain, hlenient⟩ := exists_ok_of_isSome hok
  cases hstrict : prepare { dialect := .sqlite, strict := true } (.named ["Name", "Nick"])
      (.query (.ofTable (numberedUsers .sqlite))) with
  | ok c => rw [hstrict] at hrefused; cases hrefused
  | error e =>
    have hminded := (prepare_conservative { dialect := .sqlite } (.named ["Name", "Nick"])
      (.query (.ofTable (numberedUsers .sqlite)))).2 chain e hlenient hstrict
    exact ⟨chain, e, hlenient, rfl, hminded⟩

end Command

end SchemaSql
