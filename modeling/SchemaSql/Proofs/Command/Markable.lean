import SchemaSql.Proofs.Binding.Clauses
import SchemaSql.Proofs.Catalog.Answering
import SchemaSql.Proofs.Catalog.Shelf
import SchemaSql.Proofs.Command.SoftDelete

/-!
Which deletes can still be prepared where a rule marks rows as deleted. The update that stands for
the delete binds a parameter for every column that the rules write, and these share the statement
with the conditions. So a delete is lost if a written column does not answer to its own name, if two
written columns give their parameters the same name, or if a condition has a parameter of that name
already, as it has if it is about a column that the rules write. Nothing else stands in the way.
-/

set_option autoImplicit false
set_option relaxedAutoImplicit false

namespace SchemaSql

/-! ### Names of parameters -/

/-- The name of every parameter that is named for the column. -/
def Column.parameterName (c : Column) : String := "@" ++ c.property

theorem Column.toList_parameterName (c : Column) :
    c.parameterName.toList = '@' :: c.property.toList := by
  rw [parameterName, String.toList_append]
  rfl

theorem Column.name_parameter (c : Column) (value : Value) (origin : Origin) :
    (c.parameter value origin).name = c.parameterName := by
  rw [parameter, Parameter.make, ← parameterName, toList_parameterName]
  rfl

/-- Columns with parameters of the same name have the same property name. -/
theorem Column.sameAscii_of_parameterName {c c' : Column} (hc : c.Derived) (hc' : c'.Derived)
    (h : Text.lowercase c.parameterName = Text.lowercase c'.parameterName) :
    Text.sameAscii c.property c'.property := by
  have hascii {c : Column} (hc : c.Derived) : ∀ d ∈ c.parameterName.toList, d.toNat < 128 := by
    rw [toList_parameterName, hc]
    refine List.forall_mem_cons.mpr ⟨by decide, fun d hd ↦ ?_⟩
    exact toNat_lt_of_isPropertyChar
      (List.all_eq_true.mp (isPropertyName_propertyName c.name).1 d hd)
  have hsame := Text.sameAscii_of_lowercase (hascii hc) (hascii hc') h
  rw [Text.sameAscii_iff, toList_parameterName, toList_parameterName] at hsame
  exact (Text.sameAscii_iff _ _).mpr (List.cons.inj hsame).2

namespace Table

/-- One of the values is given under a name of the column. -/
def Given (t : Table) (values : List (String × Value)) (c : Column) : Prop :=
  ∃ x ∈ values, t.column? x.1 = some c

theorem given_iff {t : Table} {values : List (String × Value)} {c : Column} :
    t.Given values c ↔ ∃ v, t.lastFor? c values = some v := by
  rw [← Option.isSome_iff_exists, lastFor?, Option.isSome_map, List.find?_isSome]
  simp [Given]

/-- The values by which a rule marks rows can be written in place of the plain delete. -/
@[mk_iff]
structure TakesMarks (t : Table) (values : List (String × Value)) (plain : Chain) : Prop where
  /-- Every name of a value means a column. -/
  known : ∀ x ∈ values, (t.column? x.1).isSome
  /-- No two of the columns name their parameters alike. -/
  distinct : ∀ c c', t.Given values c → t.Given values c' →
    Text.lowercase c.parameterName = Text.lowercase c'.parameterName → c = c'
  /-- The plain delete has no parameter that is named alike. -/
  unused : ∀ c, t.Given values c → ∀ l ∈ plain, ∀ p ∈ l.parameters,
    Text.lowercase c.parameterName ≠ Text.lowercase p.name

end Table

/-- Rows are marked by values under the own names of columns. -/
theorem Rules.exists_column_of_softDeleteValues? {r : Rules} {now : Timestamp} {t : Table}
    {values : List (String × Value)} (h : r.softDeleteValues? now t = some values)
    {x : String × Value} (hx : x ∈ values) : ∃ c ∈ t.columns, c.name = x.1 := by
  have hmem {name : String} {c : Column} (hc : t.column? name = some c) : c ∈ t.columns :=
    List.mem_of_find?_eq_some hc
  obtain ⟨⟨s, flag⟩, hrule, rfl⟩ := Option.map_eq_some_iff.mp h
  rcases List.mem_cons.mp hx with rfl | hx
  · obtain ⟨s', -, hs'⟩ := List.exists_of_findSome?_eq_some hrule
    obtain ⟨c, hc, hpair⟩ := Option.map_eq_some_iff.mp hs'
    obtain ⟨-, rfl⟩ := Prod.mk.inj hpair
    exact ⟨c, hmem hc, rfl⟩
  · obtain ⟨v, -, hv⟩ := List.mem_filterMap.mp hx
    obtain ⟨c, hc, rfl⟩ := Option.map_eq_some_iff.mp hv
    exact ⟨c, hmem hc, rfl⟩

/-- In a table whose property names differ, rows are marked unless a column that the rules write has
a name that is lost, or the plain delete has a parameter that is named for one. -/
theorem Table.Apart.takesMarks_iff {t : Table} (h : t.Apart) {r : Rules} {now : Timestamp}
    {values : List (String × Value)} (hvalues : r.softDeleteValues? now t = some values)
    (plain : Chain) : t.TakesMarks values plain ↔
      (∀ x ∈ values, ∀ c ∈ t.columns, c.name = x.1 → c.Sayable) ∧
        ∀ c, t.Given values c → ∀ l ∈ plain, ∀ p ∈ l.parameters,
          Text.lowercase c.parameterName ≠ Text.lowercase p.name := by
  have hknown : (∀ x ∈ values, (t.column? x.1).isSome) ↔
      ∀ x ∈ values, ∀ c ∈ t.columns, c.name = x.1 → c.Sayable := by
    refine forall₂_congr fun x hx ↦ ?_
    obtain ⟨c, hc, hname⟩ := Rules.exists_column_of_softDeleteValues? hvalues hx
    constructor
    · rintro hfound c' hc' hname'
      exact (h.isSome_column?_own_iff hc').mp (hname' ▸ hfound)
    · intro hsayable
      rw [← hname]
      exact (h.isSome_column?_own_iff hc).mpr (hsayable c hc hname)
  have hdistinct : ∀ c c', t.Given values c → t.Given values c' →
      Text.lowercase c.parameterName = Text.lowercase c'.parameterName → c = c' := by
    rintro c c' ⟨x, -, hx⟩ ⟨x', -, hx'⟩ hsame
    have hc := List.mem_of_find?_eq_some hx
    have hc' := List.mem_of_find?_eq_some hx'
    exact h.eq_of_sameAscii hc hc'
      (Column.sameAscii_of_parameterName (h.derived c hc) (h.derived c' hc') hsame)
  rw [← hknown]
  exact ⟨fun hmarks ↦ ⟨hmarks.known, hmarks.unused⟩, fun ⟨hk, hu⟩ ↦ ⟨hk, hdistinct, hu⟩⟩

theorem Binding.parameters_of_assignments {b : Binding} {as : List Assignment}
    (has : b.assignments = .ok as) : (as.flatMap fun a ↦ a.value.parameters) =
      (b.entries.filter (·.update)).map Entry.parameter := by
  rw [assignments_ok has, List.flatMap_map]
  exact List.map_eq_flatMap.symm

namespace Binding.Updated

variable {t : Table} {values : List (String × Value)} {b : Binding}

/-- The entries that are updated have the columns that are given a value. -/
theorem exists_entry_iff (h : b.Updated t values) (c : Column) :
    (∃ e ∈ b.entries.filter (·.update), e.column = c) ↔ t.Given values c := by
  rw [Table.given_iff]
  constructor
  · rintro ⟨e, he, rfl⟩
    obtain ⟨hentry, hupdate⟩ := List.mem_filter.mp he
    obtain ⟨v, hv, -⟩ := h.value e hentry hupdate
    exact ⟨v, hv⟩
  · rintro ⟨v, hv⟩
    obtain ⟨e, he, hupdate, hcolumn⟩ := h.reached c v hv
    exact ⟨e, List.mem_filter.mpr ⟨he, hupdate⟩, hcolumn⟩

theorem distinctNames_iff (h : b.Updated t values) {as : List Assignment}
    (has : b.assignments = .ok as) : DistinctNames (as.flatMap fun a ↦ a.value.parameters) ↔
      ∀ c c', t.Given values c → t.Given values c' →
        Text.lowercase c.parameterName = Text.lowercase c'.parameterName → c = c' := by
  rw [parameters_of_assignments has]
  simp only [DistinctNames, List.pairwise_map, Entry.parameter, Column.name_parameter,
    ← h.exists_entry_iff]
  constructor
  · rintro hdistinct _ _ ⟨e, he, rfl⟩ ⟨e', he', rfl⟩ hname
    have hsymm : Std.Symm fun e e' : Entry ↦ Text.lowercase e.column.parameterName ≠
        Text.lowercase e'.column.parameterName := ⟨fun _ _ ↦ Ne.symm⟩
    by_contra hcolumn
    exact hdistinct.forall he he' (fun hsame ↦ hcolumn (hsame ▸ rfl)) hname
  · intro hcolumns
    refine List.Pairwise.imp_of_mem (fun he he' hne hname ↦ hne ?_) h.pairwise
    exact hcolumns _ _ ⟨_, he, rfl⟩ ⟨_, he', rfl⟩ hname

/-- The assignments bind a parameter for each column that is given a value. -/
theorem forall_parameter_iff (h : b.Updated t values) {as : List Assignment}
    (has : b.assignments = .ok as) {P : String → Prop} :
    (∀ p ∈ as.flatMap fun a ↦ a.value.parameters, P p.name) ↔
      ∀ c, t.Given values c → P c.parameterName := by
  rw [parameters_of_assignments has]
  simp only [List.forall_mem_map, Entry.parameter, Column.name_parameter, ← h.exists_entry_iff]
  constructor
  · rintro hall _ ⟨e, he, rfl⟩
    exact hall e he
  · intro hall e he
    exact hall _ ⟨e, he, rfl⟩

/-- There are assignments if a column is given a value. -/
theorem assignments_ok (h : b.Updated t values) {c : Column} (hc : t.Given values c) :
    ∃ as, b.assignments = .ok as := by
  obtain ⟨e, he, -⟩ := (h.exists_entry_iff c).mpr hc
  obtain ⟨hentry, hupdate⟩ := List.mem_filter.mp he
  exact ⟨_, if_pos (List.any_eq_true.mpr ⟨e, hentry, hupdate⟩)⟩

end Binding.Updated

/-! ### Plans -/

namespace WritePlan

variable {p : WritePlan} {chain : Chain}

/-- Every link of a delete has the parameters of its conditions, and no others. -/
theorem forall_parameter_deleteChain_iff (h : p.deleteChain = .ok chain) {P : Parameter → Prop} :
    (∀ l ∈ chain, ∀ q ∈ l.parameters, P q) ↔
      ∀ q ∈ p.criteria.flatMap Predicate.parameters, P q := by
  obtain ⟨output, hwritten, before, write, after, rfl, hwrite, hreads⟩ := deleteChain_ok h
  have hparameters : ∀ l ∈ before ++ write :: after,
      l.parameters = p.criteria.flatMap Predicate.parameters := by
    intro l hl
    have hread (hmem : l ∈ before ++ after) : l.statement.fragment.parameters =
        p.criteria.flatMap Predicate.parameters := by
      rw [hreads l hmem, readStatement, Statement.select_parameters]
    rw [(Fragment.render_ok (hwritten l hl)).1]
    rcases List.mem_append.mp hl with hmem | hmem
    · exact hread (List.mem_append_left _ hmem)
    · rcases List.mem_cons.mp hmem with rfl | hmem
      · rw [hwrite, Statement.delete_parameters]
      · exact hread (List.mem_append_right _ hmem)
  have hwriteMem : write ∈ before ++ write :: after := by simp
  exact ⟨fun hall ↦ hparameters write hwriteMem ▸ hall write hwriteMem,
    fun hall l hl ↦ (hparameters l hl).symm ▸ hall⟩

/-- Where the conditions alone could be written, an update can be unless the parameters of its
assignments clash with each other or with theirs. -/
theorem succeeds_updateChain_iff_of_updated {t : Table} {values : List (String × Value)}
    {b : Binding} (hupdated : b.Updated t values) (hunread : p.binding.unread = b.unread)
    {c₀ : Column} (hgiven : t.Given values c₀)
    (hdistinct : DistinctNames (p.criteria.flatMap Predicate.parameters)) (hreports : p.Reports) :
    Succeeds p.updateChain ↔
      (∀ c c', t.Given values c → t.Given values c' →
        Text.lowercase c.parameterName = Text.lowercase c'.parameterName → c = c') ∧
      ∀ c, t.Given values c → ∀ q ∈ p.criteria.flatMap Predicate.parameters,
        Text.lowercase c.parameterName ≠ Text.lowercase q.name := by
  obtain ⟨as, has⟩ := hupdated.assignments_ok hgiven
  have has' : p.binding.assignments = .ok as := (Binding.assignments_congr hunread).trans has
  have hcross := hupdated.forall_parameter_iff has (P := fun name ↦
    ∀ q ∈ p.criteria.flatMap Predicate.parameters, Text.lowercase name ≠ Text.lowercase q.name)
  rw [succeeds_updateChain_iff, ← hupdated.distinctNames_iff has, ← hcross]
  constructor
  · rintro ⟨as', has'', hnames, -⟩
    obtain rfl := Except.ok.inj (has'.symm.trans has'')
    obtain ⟨hassigned, -, hapart⟩ := List.pairwise_append.mp hnames
    exact ⟨hassigned, hapart⟩
  · rintro ⟨hassigned, hapart⟩
    exact ⟨as, has', List.pairwise_append.mpr ⟨hassigned, hdistinct, hapart⟩, hreports⟩

end WritePlan

namespace Command

variable {env : Environment} {desired : Desired} {t : Table} {b : Binding} {plain : Chain}
  {values : List (String × Value)} {criteria : List Predicate} {byKey : Bool} {check : RowCheck}

/-- Where the plain delete is written and all values are known, the update in its place is written
unless parameters clash. -/
theorem succeeds_marking_iff {c : Binding} {r' : Binding × Returning}
    (hframe : b.frame = (binding env t).frame) (honce : b.BoundOnce)
    (hc : b.apply (Binding.applyUpdateValues values .audit) = .ok c) {c₀ : Column}
    (hgiven : t.Given values c₀) (hr' : returningFor b desired .old = .ok r')
    (hplain : WritePlan.deleteChain
      { binding := r'.1, operation := "Delete", criteria, byKey, returning := r'.2, check
        identityInsert := false } = .ok plain) :
    Succeeds ((returningFor c desired .old).bind fun r ↦
      WritePlan.updateChain
        { binding := r.1, operation := "SoftDelete", criteria, byKey, returning := r.2
          check := markCheck check, identityInsert := false }) ↔
      (∀ c c', t.Given values c → t.Given values c' →
        Text.lowercase c.parameterName = Text.lowercase c'.parameterName → c = c') ∧
      ∀ c, t.Given values c → ∀ l ∈ plain, ∀ q ∈ l.parameters,
        Text.lowercase c.parameterName ≠ Text.lowercase q.name := by
  obtain ⟨hdistinct, hreports⟩ := WritePlan.succeeds_deleteChain_iff.mp ⟨plain, hplain⟩
  obtain ⟨r, hr, hreturning⟩ : ∃ r, returningFor c desired .old = .ok r ∧ r.2 = r'.2 := by
    refine map_eq_ok.mp ?_
    rw [returningFor_applyUpdateValues hc, hr']
    rfl
  obtain ⟨hrframe, hrunread, -⟩ := returningFor_ok hr
  have hdialect : r.1.dialect = r'.1.dialect := by
    have hsame : r.1.frame = r'.1.frame := by
      rw [hrframe, Binding.frame_applyUpdateValues hc, (returningFor_ok hr').1]
    exact congrArg (·.2.1) hsame
  have hupdated := Binding.Updated.applyUpdateValues (columns_eq hframe) honce hc
  rw [hr]
  simp only [WritePlan.forall_parameter_deleteChain_iff hplain]
  refine WritePlan.succeeds_updateChain_iff_of_updated hupdated hrunread hgiven hdistinct ?_
  simp only [WritePlan.Reports, WritePlan.dialect, hdialect, hreturning]
  exact hreports

theorem succeeds_prepareDeletion_iff (hframe : b.frame = (binding env t).frame)
    (honce : b.BoundOnce) (hvalues : env.rules.softDeleteValues? env.now t = some values)
    (hplain : prepareDeletion { env with rules := {} } desired t b criteria byKey check =
      .ok plain) :
    Succeeds (prepareDeletion env desired t b criteria byKey check) ↔ t.TakesMarks values plain := by
  rw [prepareDeletion_of_none { env with rules := {} } desired t b criteria byKey check rfl]
    at hplain
  obtain ⟨r', hr', hplain⟩ := bind_eq_ok.mp hplain
  have hknown : Succeeds (b.apply (Binding.applyUpdateValues values .audit)) ↔
      ∀ x ∈ values, (t.column? x.1).isSome := by
    simp only [Binding.succeeds_applyUpdateValues_iff, ← column?_eq hframe, Option.isSome_map]
  have hvalued : values ≠ [] := by
    obtain ⟨rule, -, rfl⟩ := Option.map_eq_some_iff.mp hvalues
    simp
  obtain ⟨x, hx⟩ := List.exists_mem_of_ne_nil values hvalued
  rw [prepareDeletion_of_some env desired t b criteria byKey check hvalues, Table.takesMarks_iff,
    ← hknown]
  refine succeeds_bind_iff_and fun c hc ↦ ?_
  obtain ⟨c₀, hc₀⟩ := Option.isSome_iff_exists.mp (hknown.mp ⟨c, hc⟩ x hx)
  exact succeeds_marking_iff hframe honce hc ⟨x, hx, hc₀⟩ hr' hplain

/-- A delete that can be prepared without rules can be prepared where a rule marks the rows as
deleted exactly if the values by which it marks them are known by their columns' names and have
names of parameters for themselves. -/
theorem prepare_softDelete_iff {c : Command} (hc : c.DeletesFrom t)
    (hvalues : env.rules.softDeleteValues? env.now t = some values)
    (hplain : prepare { env with rules := {} } desired c = .ok plain) :
    (∃ chain, prepare env desired c = .ok chain) ↔ t.TakesMarks values plain := by
  obtain ⟨x, hx, hprepare⟩ := hc.exists_deletion env desired
  rw [hprepare {}] at hplain
  obtain ⟨d, rfl, hplain⟩ := bind_eq_ok.mp hplain
  obtain ⟨hframe, honce⟩ := hx d rfl
  rw [hprepare env.rules]
  exact succeeds_prepareDeletion_iff hframe honce hvalues hplain

/-- Users of several tenants. -/
def tenantUsers (d : Dialect) : Table :=
  Table.make d ⟨none, "Users"⟩ true
    [(Column.make d "TenantId" "integer").key, Users.id d, Users.removed d]

/-- Removed users are marked, and every row is written for the tenant. -/
def tenantEnvironment (d : Dialect) (tenant : Value) : Environment where
  dialect := d
  rules :=
    { softDeletes := [⟨"Removed", .bool true⟩]
      values :=
        [{ column := "TenantId", onInsert := true, onUpdate := true, value := .fixed tenant }] }

/-- A user of a tenant can be deleted by the key that says the tenant, but not be marked as deleted
where a rule writes the tenant too. -/
theorem tenantUser_not_marked :
    let c := delete (tenantUsers .sqlite)
      (.properties [⟨"TenantId", .int 7, false⟩, ⟨"Id", .int 1, false⟩]) {}
    (∃ plain, prepare { dialect := .sqlite } .none c = .ok plain) ∧
      ¬ ∃ chain, prepare (tenantEnvironment .sqlite (.int 7)) .none c = .ok chain := by
  intro c
  have hreused : (prepare { dialect := .sqlite } .none c).toOption.any fun plain ↦
      plain.any fun l ↦ l.parameters.any fun p ↦
        Text.lowercase "@TenantId" = Text.lowercase p.name := by decide +kernel
  obtain ⟨plain, hplain, hreused⟩ := exists_ok_of_any hreused
  refine ⟨⟨plain, hplain⟩, fun hchain ↦ ?_⟩
  have hdeletes : c.DeletesFrom (tenantUsers .sqlite) := rfl
  have hvalues : (tenantEnvironment .sqlite (.int 7)).rules.softDeleteValues?
      (tenantEnvironment .sqlite (.int 7)).now (tenantUsers .sqlite) =
        some [("Removed", .bool true), ("TenantId", .int 7)] := by decide +kernel
  have hmarks := (prepare_softDelete_iff hdeletes hvalues hplain).mp hchain
  have hgiven : (tenantUsers .sqlite).Given [("Removed", .bool true), ("TenantId", .int 7)]
      (Column.make .sqlite "TenantId" "integer").key := ⟨("TenantId", .int 7), by simp, by decide⟩
  obtain ⟨l, hl, hreused⟩ := List.any_eq_true.mp hreused
  obtain ⟨p, hp, hname⟩ := List.any_eq_true.mp hreused
  exact hmarks.unused _ hgiven l hl p hp (of_decide_eq_true hname)

end Command

end SchemaSql
