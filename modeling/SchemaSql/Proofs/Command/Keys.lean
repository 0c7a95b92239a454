import SchemaSql.Proofs.Binding.Entries
import SchemaSql.Proofs.Command.Restriction
import SchemaSql.Proofs.Users
import SchemaSql.Store.Condition

/-!
Updates and deletes by an argument's key. Their condition has one equality for every column of the
key and nothing else, with the value that the argument has for the column. The key is the table's
own or, where the argument's marks count, made of the columns that marked properties mean. A lenient
request passes over a marked property that means no column, so that fewer columns select the rows.
-/

set_option autoImplicit false
set_option relaxedAutoImplicit false

namespace SchemaSql

namespace Argument

/-- Whether a column is to select the rows: those of the table's key or, where marks count, those
that marked properties mean. -/
def Designates (a : Argument) (t : Table) (marks : Bool) (c : Column) : Prop :=
  if marks then ∃ p ∈ a.toProperties, p.isKey ∧ t.column? p.name = some c
  else c ∈ t.columns ∧ c.isKey

/-- No property without a mark stands behind a marked one and means the same column. -/
def KeepsMarks (a : Argument) (t : Table) : Prop :=
  a.toProperties.Pairwise fun p q ↦
    p.isKey → (t.column? p.name).isSome → t.column? q.name = t.column? p.name → q.isKey

instance (a : Argument) (t : Table) : Decidable (a.KeepsMarks t) :=
  inferInstanceAs (Decidable (List.Pairwise _ _))

/-- The conditions compare every column of the key with the argument's value for it, once each, and
say nothing else. -/
structure ComparesKeys (a : Argument) (t : Table) (marks : Bool) (criteria : List Predicate) :
    Prop where
  only : ∀ p ∈ criteria, ∃ c, p.column? = some c ∧ a.Designates t marks c
  each : ∀ c, a.Designates t marks c → ∃ v, a.valueFor? t c = some v ∧
    criteria.filter (fun p ↦ p.column? = some c) = [.equals c (c.parameter v .argument)]

variable {a : Argument} {t : Table} {marks : Bool} {c : Column}

/-- Where no later property takes a mark away, the last property that means a column is marked if
one of them is. -/
theorem designates_iff (h : marks → a.KeepsMarks t) :
    a.Designates t marks c ↔ c ∈ t.columns ∧ (a.entryFor t marks c).isKey := by
  rw [entryFor_isKey, Designates]
  cases marks with
  | false => rfl
  | true =>
    have hmeans {p : Property} : p ∈ t.naming c (·.name) a.toProperties ↔
        p ∈ a.toProperties ∧ t.column? p.name = some c := by
      simp [Table.naming, List.mem_filter]
    simp only [if_true]
    constructor
    · rintro ⟨p, hp, hkey, hcolumn⟩
      refine ⟨List.mem_of_find?_eq_some hcolumn, ?_⟩
      have hin := hmeans.mpr ⟨hp, hcolumn⟩
      cases hlast : (t.naming c (·.name) a.toProperties).getLast? with
      | none =>
        rw [List.getLast?_eq_none_iff.mp hlast] at hin
        simp at hin
      | some q =>
        obtain ⟨front, hnaming⟩ := List.getLast?_eq_some_iff.mp hlast
        have hkept := List.Pairwise.filter (fun p ↦ decide (t.column? p.name = some c)) (h rfl)
        rw [← Table.naming, hnaming] at hkept
        have hq : t.column? q.name = some c := (hmeans.mp (List.mem_of_getLast? hlast)).2
        rw [hnaming] at hin
        rcases List.mem_append.mp hin with hfront | hback
        · exact (List.pairwise_append.mp hkept).2.2 p hfront q (List.mem_singleton_self q) hkey
            (by rw [hcolumn]; rfl) (hq.trans hcolumn.symm)
        · obtain rfl := List.mem_singleton.mp hback
          exact hkey
    · rintro ⟨-, hlast⟩
      obtain ⟨p, hp, hkey⟩ := (Option.any_eq_true _ _).mp hlast
      obtain ⟨hmem, hcolumn⟩ := hmeans.mp (List.mem_of_getLast? hp)
      exact ⟨p, hmem, hkey, hcolumn⟩

end Argument

/-- One link of the chain writes the rows that meet the conditions, with the values that the
conditions are made with, and all others read rows. -/
def Chain.WritesWhere (d : Dialect) (criteria : List Predicate) (chain : Chain) : Prop :=
  ∃ before write after, chain = before ++ write :: after ∧ write.WrittenIn d ∧
    write.statement.restriction? = some criteria ∧
    (∀ p ∈ criteria.flatMap Predicate.parameters, valueAmong write.parameters p = p.value) ∧
    ∀ l ∈ before ++ after, ∃ q, l.statement = .select q

theorem Chain.WritesWhere.of_carriedOutBy {d : Dialect} {p : WritePlan} {s : Statement}
    {chain : Chain} (h : p.CarriedOutBy s chain) (hd : p.dialect = d)
    (hs : s.restriction? = some p.criteria) : chain.WritesWhere d p.criteria := by
  obtain ⟨hwritten, before, write, after, rfl, rfl, hreads⟩ := h
  have hwrite := hd ▸ hwritten write (by simp)
  refine ⟨before, write, after, rfl, hwrite, hs, fun q hq ↦ hwrite.valueAmong ?_,
    fun l hl ↦ ⟨_, hreads l hl⟩⟩
  cases hstatement : write.statement <;> rw [hstatement] at hs
  case update u =>
    rw [← Option.some.inj hs] at hq
    rw [Statement.update_parameters]
    exact List.mem_append_right _ hq
  case delete u =>
    rw [← Option.some.inj hs] at hq
    rw [Statement.delete_parameters]
    exact hq
  all_goals cases hs

namespace Command

variable {env : Environment} {desired : Desired} {t : Table} {a : Argument} {marks : Bool}
  {b : Binding} {chain : Chain} {criteria : List Predicate}

/-- Whether a request writes the rows with an argument's key, and whether the argument's marks make
the key. -/
def WritesByKey (t : Table) (a : Argument) (marks : Bool) : Command → Prop
  | .update u a' o => u = t ∧ a' = a ∧ o.useKeyMarks = marks
  | .delete u a' o => u = t ∧ a' = a ∧ o.useKeyMarks = marks
  | _ => False

theorem comparesKeys_of_bindArgument
    (h : (binding env t).apply (Binding.bindArgument a marks) = .ok b)
    (hmarks : marks → a.KeepsMarks t) (hcriteria : b.keyCriteria = .ok criteria) :
    a.ComparesKeys t marks criteria := by
  have honce := (boundOnce_binding env t).bindArgument h
  have hentry (c : Column) := Binding.entryOf?_bindArgument h c
  obtain ⟨-, hbound, rfl⟩ := Binding.keyCriteria_ok hcriteria
  have hkeys : ∀ e ∈ b.entries, e.isKey → e.isBound := fun e he hkey ↦
    hbound e (List.mem_filter.mpr ⟨he, hkey⟩)
  have hdesignated (c : Column) : a.Designates t marks c ↔
      ∃ e ∈ b.entries, e.isKey ∧ e.column = c := by
    rw [honce.exists_entry_iff (P := fun e ↦ e.isKey) hkeys, Argument.designates_iff hmarks, hentry]
    by_cases hc : c ∈ t.columns <;> simp [hc, Binding.withParts]
  constructor
  · intro p hp
    obtain ⟨e, he, rfl⟩ := List.mem_map.mp hp
    obtain ⟨hmem, hkey⟩ := List.mem_filter.mp he
    exact ⟨e.column, rfl, (hdesignated _).mpr ⟨e, hmem, hkey, rfl⟩⟩
  · intro c hc
    obtain ⟨e, he, hkey, rfl⟩ := (hdesignated c).mp hc
    obtain ⟨v, hv⟩ := Option.isSome_iff_exists.mp (hkeys e he hkey)
    obtain ⟨hvalue, horigin⟩ := Binding.bound_of_bindArgument h honce he (hkeys e he hkey)
    refine ⟨v, hvalue.trans hv, ?_⟩
    have hparameter : e.column.parameter v .argument = e.parameter := by
      rw [Entry.parameter, hv, horigin]
      rfl
    have hfilter := honce.filter_column hkeys (List.mem_filter.mpr ⟨he, hkey⟩)
    have hcolumn (e' : Entry) : decide ((Predicate.equals e'.column e'.parameter).column? =
        some e.column) = decide (e'.column = e.column) := by
      simp [Predicate.column?]
    simp only [List.filter_map, Function.comp_def, hcolumn, hfilter, List.map_singleton, hparameter]

/-- A strict request knows every property of its argument. -/
theorem known_of_bindArgument
    (h : (binding env t).apply (Binding.bindArgument a marks) = .ok b) :
    env.strict → ∀ p ∈ a.toProperties, (t.column? p.name).isSome := by
  intro hstrict p hp
  have hknown := (Binding.bindArgument_eq_ok.mp h).2.1 hstrict p hp
  rw [← column?_eq rfl, Option.isSome_map]
  exact hknown

theorem prepareDeletion_writesWhere (hb : b.frame = (binding env t).frame) {byKey : Bool}
    {check : RowCheck} (h : prepareDeletion env desired t b criteria byKey check = .ok chain) :
    chain.WritesWhere env.dialect criteria := by
  cases hmarks : env.rules.softDeleteValues? env.now t with
  | none =>
    rw [prepareDeletion_of_none env desired t b criteria byKey check hmarks] at h
    obtain ⟨r, hr, h⟩ := bind_eq_ok.mp h
    obtain ⟨output, hcarried⟩ := WritePlan.deleteChain_ok h
    refine .of_carriedOutBy hcarried ?_ rfl
    exact dialect_eq ((returningFor_ok hr).1.trans hb)
  | some values =>
    rw [prepareDeletion_of_some env desired t b criteria byKey check hmarks] at h
    obtain ⟨c, hc, h⟩ := bind_eq_ok.mp h
    obtain ⟨r, hr, h⟩ := bind_eq_ok.mp h
    obtain ⟨as, output, -, hcarried⟩ := WritePlan.updateChain_ok h
    refine .of_carriedOutBy hcarried ?_ rfl
    exact dialect_eq ((returningFor_ok hr).1.trans
      ((Binding.frame_applyUpdateValues hc).trans hb))

/-- An update or delete by an argument's key has one equality for every column of the key, with the
argument's value for it, and no other condition. Strict requests know all marked properties. -/
theorem prepare_comparesKeys {c : Command} (hc : c.WritesByKey t a marks)
    (hmarks : marks → a.KeepsMarks t) (h : prepare env desired c = .ok chain) :
    (env.strict → ∀ p ∈ a.toProperties, (t.column? p.name).isSome) ∧
      ∃ criteria, chain.WritesWhere env.dialect criteria ∧ a.ComparesKeys t marks criteria := by
  cases c with
  | update u a' o =>
    obtain ⟨rfl, rfl, rfl⟩ := hc
    obtain ⟨b, hb, h⟩ := bind_eq_ok.mp h
    obtain ⟨_, -, h⟩ := bind_eq_ok.mp h
    obtain ⟨criteria, hcriteria, h⟩ := bind_eq_ok.mp h
    obtain ⟨r, hr, h⟩ := bind_eq_ok.mp h
    obtain ⟨as, output, -, hcarried⟩ := WritePlan.updateChain_ok h
    refine ⟨known_of_bindArgument hb, criteria, .of_carriedOutBy hcarried ?_ rfl,
      comparesKeys_of_bindArgument hb hmarks hcriteria⟩
    exact dialect_eq ((returningFor_ok hr).1.trans
      (frame_bindUpdate (Binding.frame_bindArgument hb)))
  | delete u a' o =>
    obtain ⟨rfl, rfl, rfl⟩ := hc
    obtain ⟨b, hb, h⟩ := bind_eq_ok.mp h
    obtain ⟨criteria, hcriteria, h⟩ := bind_eq_ok.mp h
    exact ⟨known_of_bindArgument hb, criteria,
      prepareDeletion_writesWhere (Binding.frame_bindArgument hb) h,
      comparesKeys_of_bindArgument hb hmarks hcriteria⟩
  | query | insert | updateWhere | deleteKeys | deleteWhere | upsert | procedure | written =>
    exact hc.elim

/-- A user by key and name. -/
def namedUser (key name : Value) : Argument :=
  .properties [⟨"Id", key, true⟩, ⟨"Name", name, true⟩]

theorem delete_namedUser_comparesName :
    ∃ chain criteria, prepare { dialect := .sqlite } .none
        (.delete (Users.table .sqlite) (namedUser (.int 1) (.text "Ann"))
          { useKeyMarks := true }) = .ok chain ∧
      chain.WritesWhere .sqlite criteria ∧
      criteria.filter (fun p ↦ p.column? = some (Users.name .sqlite)) =
        [.equals (Users.name .sqlite)
          ((Users.name .sqlite).parameter (.text "Ann") .argument)] := by
  have hok : (prepare { dialect := .sqlite } .none (.delete (Users.table .sqlite)
      (namedUser (.int 1) (.text "Ann")) { useKeyMarks := true })).toOption.isSome := by
    decide +kernel
  have hdeletes : (delete (Users.table .sqlite) (namedUser (.int 1) (.text "Ann"))
      { useKeyMarks := true }).WritesByKey (Users.table .sqlite)
        (namedUser (.int 1) (.text "Ann")) true := ⟨rfl, rfl, rfl⟩
  have hmarks : (namedUser (.int 1) (.text "Ann")).KeepsMarks (Users.table .sqlite) := by
    decide +kernel
  have hname : (namedUser (.int 1) (.text "Ann")).Designates (Users.table .sqlite) true
      (Users.name .sqlite) := by
    refine ⟨⟨"Name", .text "Ann", true⟩, ?_, rfl, by decide +kernel⟩
    simp [namedUser, Argument.toProperties]
  have hvalue : (namedUser (.int 1) (.text "Ann")).valueFor? (Users.table .sqlite)
      (Users.name .sqlite) = some (.text "Ann") := by decide +kernel
  obtain ⟨chain, hchain⟩ := exists_ok_of_isSome hok
  obtain ⟨-, criteria, hwrites, hcompares⟩ :=
    prepare_comparesKeys hdeletes (fun _ ↦ hmarks) hchain
  obtain ⟨v, hv, hfilter⟩ := hcompares.each _ hname
  obtain rfl := Option.some.inj (hvalue.symm.trans hv)
  exact ⟨chain, criteria, hchain, hwrites, hfilter⟩

/-- A user by key and by a tenant, which users are without. -/
def tenantUser (key tenant : Value) : Argument :=
  .properties [⟨"Id", key, true⟩, ⟨"Tenant", tenant, true⟩]

/-- The only link of a delete of a user by key. -/
def deleteByKey (d : Dialect) (key : Value) : Link where
  operation := "Delete"
  statement := .delete
    { target := (Users.table d).target
      criteria := [.equals (Users.id d) ((Users.id d).parameter key .argument)] }
  text := "DELETE FROM \"Users\" WHERE \"Id\" = ?;"
  parameters := [(Users.id d).parameter key .argument]
  mode := .count
  check := .exactlyOne

/-- A marked property that means no column takes no part in a lenient delete: the user with the key
is deleted, whatever tenant the argument names. -/
theorem delete_tenantUser_by_key :
    (tenantUser (.int 1) (.int 7)).KeepsMarks (Users.table .sqlite) ∧
      prepare { dialect := .sqlite } .none (.delete (Users.table .sqlite)
        (tenantUser (.int 1) (.int 7)) { useKeyMarks := true }) =
          .ok [deleteByKey .sqlite (.int 1)] ∧
      ∃ p ∈ (tenantUser (.int 1) (.int 7)).toProperties, p.isKey ∧
        ∀ q ∈ (deleteByKey .sqlite (.int 1)).parameters, q.value ≠ p.value := by
  decide +kernel

end Command

end SchemaSql
