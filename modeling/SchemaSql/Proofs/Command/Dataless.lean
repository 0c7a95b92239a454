import SchemaSql.Proofs.Command.Assigned
import SchemaSql.Proofs.Command.Inserted

/-!
Writes whose argument has no data for the table. An update or upsert looks for columns to write
before its rules are applied, and is refused if no property of the argument means one. An insert
looks afterwards, so that a rule for inserts which means such a column stands in for the argument:
the insert is refused only if neither means one.
-/

set_option autoImplicit false
set_option relaxedAutoImplicit false

namespace SchemaSql

/-! ### How preparations fail -/

section Failures

variable {α β : Type} {k : ErrorCategory} {x : Except Error α} {f : α → Except Error β}

/-- There is no result, but an error of the category. -/
def FailsWith (k : ErrorCategory) (x : Except Error α) : Prop := ∃ e, x = .error e ∧ e.category = k

/-- Only an error of the category stands in the way of a result. -/
def FailsOnlyWith (k : ErrorCategory) (x : Except Error α) : Prop :=
  ∀ e, x = .error e → e.category = k

theorem FailsOnlyWith.ok (a : α) : FailsOnlyWith k (.ok a : Except Error α) := fun e h ↦ by cases h

theorem FailsOnlyWith.error {e : Error} (h : e.category = k) :
    FailsOnlyWith k (.error e : Except Error α) := fun e' he' ↦ by
  cases he'
  exact h

theorem FailsOnlyWith.bind (hx : FailsOnlyWith k x) (hf : ∀ a, FailsOnlyWith k (f a)) :
    FailsOnlyWith k (x.bind f) := by
  cases x with
  | error e => exact .error (hx e rfl)
  | ok a => exact hf a

theorem FailsOnlyWith.map {g : α → β} (hx : FailsOnlyWith k x) : FailsOnlyWith k (x.map g) := by
  cases x with
  | error e => exact .error (hx e rfl)
  | ok a => exact .ok (g a)

theorem FailsWith.bind (hx : FailsOnlyWith k x) (hf : ∀ a, x = .ok a → FailsWith k (f a)) :
    FailsWith k (x.bind f) := by
  cases x with
  | error e => exact ⟨e, rfl, hx e rfl⟩
  | ok a => exact hf a rfl

end Failures

namespace Binding

variable {b : Binding}

theorem changeIfKnown_fails {name : String} {f : Entry → Entry} {missing : Binding → Error}
    {k : ErrorCategory} (h : (missing b).category = k) :
    FailsOnlyWith k (b.apply (changeIfKnown name f missing)) := by
  rw [apply_changeIfKnown]
  split
  · exact .ok _
  · split
    · exact .error h
    · exact .ok b

theorem bindArgument_fails (b : Binding) (a : Argument) (marks : Bool) :
    FailsOnlyWith .mapping (b.apply (bindArgument a marks)) := by
  have hproperties (ps : List Property) (b : Binding) :
      FailsOnlyWith .mapping (b.apply (bindProperties marks ps)) := by
    induction ps generalizing b with
    | nil => exact .ok b
    | cons p ps ih =>
      rw [apply_bindProperties_cons]
      exact (changeIfKnown_fails rfl).bind ih
  rw [apply_bindArgument]
  split
  · exact .error rfl
  · exact (hproperties _ _).map

theorem applyDesired_fails (b : Binding) (desired : Desired) :
    FailsOnlyWith .mapping (b.apply (applyDesired desired)) := by
  have hnames (names : List String) (b : Binding) :
      FailsOnlyWith .mapping (b.apply (readNamed names)) := by
    induction names generalizing b with
    | nil => exact .ok b
    | cons n names ih =>
      rw [apply_readNamed_cons]
      exact (changeIfKnown_fails rfl).bind ih
  cases desired with
  | none => exact .ok b
  | all => exact .ok _
  | named names =>
    cases names with
    | nil => exact .ok b
    | cons n names =>
      rw [apply_applyDesired_named]
      refine (hnames _ b).bind fun c ↦ ?_
      split
      · exact .ok c
      · exact .error rfl

end Binding

theorem Command.returningFor_fails (b : Binding) (desired : Desired) (wanted : Returning) :
    FailsOnlyWith .mapping (returningFor b desired wanted) := by
  rw [returningFor]
  split
  · exact .ok _
  · exact (b.applyDesired_fails desired).map

/-! ### Statements that are not written -/

namespace Fragment

theorem register_fails (written ps : List Parameter) :
    FailsOnlyWith .duplicateParameter (register written ps) := by
  induction ps generalizing written with
  | nil => exact .ok written
  | cons p ps ih =>
    rw [register]
    split
    · exact .error rfl
    · exact ih _

/-- A statement is not written only if two of its parameters share a name. -/
theorem renderFrom_fails (style : PlaceholderStyle) (written : List Parameter)
    (pieces : List Piece) :
    FailsOnlyWith .duplicateParameter (renderFrom style written pieces) := by
  induction pieces generalizing written with
  | nil => exact .ok _
  | cons piece rest ih =>
    rw [renderFrom]
    split
    · rename_i e hclash
      exact .error (register_fails _ _ e hclash)
    · split
      · rename_i e hrest
        exact .error (ih _ e hrest)
      · exact .ok _

end Fragment

namespace WritePlan

variable {p : WritePlan}

theorem writeLink_fails (s : Statement) :
    FailsOnlyWith .duplicateParameter (p.writeLink s) := by
  rw [writeLink, Link.ofStatement]
  exact (Fragment.renderFrom_fails _ _ _).map.map

theorem insertChain_of_not_hasInserts (h : p.binding.hasInserts = false) :
    p.insertChain = .error (.mapping (.nothingToInsert p.binding.object)) := by
  have hrow : p.binding.insertRow = .error (.mapping (.nothingToInsert p.binding.object)) := by
    rw [Binding.insertRow, if_neg (by simp [h])]
  cases hd : p.dialect <;>
    simp only [insertChain, hd, outputInsert, returningInsert, readBackInsert, forwardingInsert,
      hrow] <;> rfl

/-- An insert that hands nothing back is one statement. -/
theorem insertChain_fails (h : p.binding.hasInserts) (hreturning : p.returning = .none) :
    FailsOnlyWith .duplicateParameter p.insertChain := by
  obtain ⟨row, hrow⟩ : ∃ row, p.binding.insertRow = .ok row := ⟨_, if_pos h⟩
  have hlink (s : List Cell → Statement) : FailsOnlyWith .duplicateParameter
      (p.finish <$> do
        let row ← Except.ok row
        let write ← p.writeLink (s row)
        return [write]) :=
    ((FailsOnlyWith.ok row).bind fun row ↦ (writeLink_fails (s row)).bind fun _ ↦ .ok _).map
  rw [insertChain]
  cases hd : p.dialect with
  | sqlServer =>
    rw [outputInsert, hrow]
    exact hlink _
  | postgreSql | sqlite =>
    rw [returningInsert, hrow]
    exact hlink _
  | mySql =>
    simp only [readBackInsert, hrow, if_pos hreturning]
    exact hlink _
  | access =>
    simp only [forwardingInsert, hrow, if_pos hreturning]
    exact hlink _

end WritePlan

/-! ### Columns that names mean -/

/-- Some of the names mean a column of the table of a certain kind. -/
def Table.Means (t : Table) (names : List String) (p : Column → Prop) : Prop :=
  ∃ n ∈ names, ∃ c, t.column? n = some c ∧ p c

/-- The argument has a property that means a column of a certain kind. -/
def Argument.Supplies (a : Argument) (t : Table) (p : Column → Prop) : Prop :=
  t.Means (a.toProperties.map (·.name)) p

/-- A rule for inserts means a column of a certain kind. -/
def Rules.SupplyInserts (r : Rules) (t : Table) (p : Column → Prop) : Prop :=
  t.Means ((r.values.filter (·.onInsert)).map (·.column)) p

namespace Binding.Makes

variable {b : Binding} {t : Table} {choices : Bool × Bool × Bool} {f : Column → Entry}

theorem hasInserts_iff (h : b.Makes t choices f) (hb : b.BoundOnce) :
    b.hasInserts ↔ ∃ c ∈ t.columns, b.insertable (f c) ∧ ∃ v, (f c).value = some v := by
  have hvalues : b.hasInserts ↔ ∃ c v, (c, v) ∈ b.insertValues := by
    simp [hasInserts, insertValues, valuesWhere]
  simp only [hvalues, h.mem_insertValues hb, exists_and_left]

theorem hasUpdates_iff (h : b.Makes t choices f) (hb : b.BoundOnce) :
    b.hasUpdates ↔ ∃ c ∈ t.columns, b.updatable (f c) ∧ ∃ v, (f c).value = some v := by
  have hvalues : b.hasUpdates ↔ ∃ c v, (c, v) ∈ b.updateValues := by
    simp [hasUpdates, updateValues, valuesWhere]
  simp only [hvalues, h.mem_updateValues hb, exists_and_left]

end Binding.Makes

section Means

variable {t : Table} {a : Argument} {p : Column → Prop}

/-- Names of items mean a column of a certain kind if items are named after such a column. -/
theorem Table.means_iff {α : Type} {name : α → String} {xs : List α} :
    t.Means (xs.map name) p ↔ ∃ c ∈ t.columns, p c ∧ t.naming c name xs ≠ [] := by
  simp only [Table.Means, Table.naming, List.mem_map, ne_eq, List.filter_eq_nil_iff,
    decide_eq_true_eq, not_forall, not_not]
  constructor
  · rintro ⟨_, ⟨x, hx, rfl⟩, c, hc, hp⟩
    exact ⟨c, List.mem_of_find?_eq_some hc, hp, x, hx, hc⟩
  · rintro ⟨c, -, hp, x, hx, hc⟩
    exact ⟨_, ⟨x, hx, rfl⟩, c, hc, hp⟩

/-- An argument supplies a column of a certain kind if it has a value for one. -/
theorem Argument.supplies_iff :
    a.Supplies t p ↔ ∃ c ∈ t.columns, p c ∧ ∃ v, a.valueFor? t c = some v := by
  rw [Supplies, Table.means_iff]
  simp only [valueFor?, Option.map_eq_some_iff, ← List.getLast?_isSome]
  refine exists_congr fun c ↦ and_congr_right fun _ ↦ and_congr_right fun _ ↦ ?_
  cases (t.naming c (·.name) a.toProperties).getLast? <;> simp

end Means

namespace Command

variable {env : Environment} {desired : Desired} {t : Table} {a : Argument} {b : Binding}

/-! ### What is found to write -/

/-- An insert writes the column if it has a value: the database does not fill it, or leaves its
identity to the request. -/
def InsertedBy (o : InsertOptions) (c : Column) : Prop :=
  c.isWritable ∨ o.identityInsert ∧ c.isIdentity

/-- An upsert inserts the column if it has a value: an insert does, or it is of the key that rows
clash on and not computed. -/
def UpsertedBy (env : Environment) (t : Table) (a : Argument) (o : UpsertOptions) (c : Column) :
    Prop :=
  InsertedBy ⟨o.identityInsert⟩ c ∨
    findsByClash env.dialect ∧ a.isKeyOf t o.useKeyMarks c ∧ c.isComputed = false

/-- A bound argument has columns to update if it supplies one that may be updated. -/
theorem hasUpdates_bindArgument {marks : Bool}
    (hb : (binding env t).apply (Binding.bindArgument a marks) = .ok b) :
    b.hasUpdates ↔ a.Supplies t (a.Updatable t marks) := by
  have hmakes := Binding.Makes.ofArgument hb
  rw [hmakes.hasUpdates_iff ((boundOnce_binding env t).bindArgument hb), Argument.supplies_iff]
  refine exists_congr fun c ↦ and_congr_right fun hc ↦ ?_
  rw [Binding.updatable_eq hmakes.choices, Argument.entryFor_column, Argument.entryFor_isKey,
    Argument.entryFor_value, Bool.or_false, Bool.and_eq_true, Bool.not_eq_true']
  exact and_congr_left fun _ ↦ ⟨fun h ↦ ⟨hc, h.1, h.2⟩, fun h ↦ ⟨h.writable, h.unkeyed⟩⟩

/-- An upsert has columns to insert, before its rules, if the argument supplies one. -/
theorem hasInserts_upsertBase {o : UpsertOptions}
    (hb : (binding env t).apply (Binding.bindArgument a o.useKeyMarks) = .ok b) :
    (upsertBase env b o).hasInserts ↔ a.Supplies t (UpsertedBy env t a o) := by
  have hmakes := upsertBase_makes (o := o) hb
  have honce := (((boundOnce_binding env t).bindArgument hb).withIdentities
    o.identityInsert).withKeyInserts (findsByClash env.dialect)
  rw [hmakes.hasInserts_iff honce, Argument.supplies_iff]
  refine exists_congr fun c ↦ and_congr_right fun _ ↦ ?_
  rw [Binding.insertable_eq hmakes.choices, Argument.entryFor_column, Argument.entryFor_isKey,
    Argument.entryFor_value]
  refine and_congr_left fun _ ↦ ?_
  simp [UpsertedBy, InsertedBy, Argument.isKeyOf, and_assoc]

/-- An insert has columns to insert, after its rules, if the argument or a rule for inserts supplies
one. -/
theorem hasInserts_insertBinding {o : InsertOptions} (hb : insertBinding env t a o = .ok b) :
    b.hasInserts ↔ a.Supplies t (InsertedBy o) ∨ env.rules.SupplyInserts t (InsertedBy o) := by
  obtain ⟨honce, hmakes⟩ := insertBinding_makes hb
  rw [hmakes.hasInserts_iff honce, Argument.supplies_iff, Rules.SupplyInserts, Table.means_iff,
    ← exists_or]
  refine exists_congr fun c ↦ ?_
  rw [← and_or_left, ← and_or_left, ruled_insertedValue?, Binding.insertable_eq hmakes.choices,
    Entry.ruled_column, Argument.entryFor_column]
  refine and_congr_right fun _ ↦ and_congr (by simp [InsertedBy]) ?_
  rw [Rules.naming_filter, insertedValue?]
  cases hrules : ((env.rules.about t c).filter (·.onInsert)).getLast? with
  | none => simp [List.getLast?_eq_none_iff.mp hrules]
  | some v =>
    have hsome : (env.rules.about t c).filter (·.onInsert) ≠ [] := fun hnil ↦ by
      rw [hnil] at hrules
      cases hrules
    simp [hsome]

/-! ### Refusals -/

theorem prepareUpdate_dataless (desired : Desired) {o : UpdateOptions}
    (h : ¬ a.Supplies t (a.Updatable t o.useKeyMarks)) :
    FailsWith .mapping (prepareUpdate env desired t a o) := by
  rw [prepareUpdate_eq]
  refine .bind (Binding.bindArgument_fails _ a _) fun b hb ↦ ?_
  have hnone : ¬ b.hasUpdates := mt (hasUpdates_bindArgument hb).mp h
  rw [requireUpdates, if_neg hnone]
  exact ⟨_, rfl, rfl⟩

theorem prepareUpsert_dataless (desired : Desired) {o : UpsertOptions}
    (h : ¬ a.Supplies t (UpsertedBy env t a o)) :
    FailsWith .mapping (prepareUpsert env desired t a o) := by
  rw [prepareUpsert_eq]
  refine .bind (Binding.bindArgument_fails _ a _) fun b hb ↦ ?_
  have hnone : (upsertBase env b o).hasInserts = false :=
    Bool.eq_false_iff.mpr (mt (hasInserts_upsertBase hb).mp h)
  rw [hnone]
  split
  · exact ⟨_, rfl, rfl⟩
  · exact ⟨_, rfl, rfl⟩

/-- Columns are inserted or not, whether or not they are handed back. -/
theorem hasInserts_returningFor {wanted : Returning} {r : Binding × Returning}
    (h : returningFor b desired wanted = .ok r) : r.1.hasInserts = b.hasInserts := by
  have hunread (c : Binding) : c.unread.hasInserts = c.hasInserts := by
    simp [Binding.hasInserts, Binding.unread, Binding.mapEntries, Function.comp_def]
  rw [← hunread, (returningFor_ok h).2.1, hunread]

theorem insertBinding_of_bindArgument {o : InsertOptions}
    (hb : (binding env t).apply (Binding.bindArgument a false) = .ok b) :
    insertBinding env t a o =
      .ok (env.rules.bindInsert env.now (b.withIdentities o.identityInsert)) := by
  rw [insertBinding, hb]
  rfl

theorem prepareInsert_dataless (desired : Desired) {o : InsertOptions}
    (h : ¬ a.Supplies t (InsertedBy o)) (hrules : ¬ env.rules.SupplyInserts t (InsertedBy o)) :
    FailsWith .mapping (prepareInsert env desired t a o) := by
  rw [prepareInsert_eq]
  refine .bind (Binding.bindArgument_fails _ a _) fun b hb ↦ .bind (returningFor_fails _ _ _)
    fun r hr ↦ ?_
  have hnone : r.1.hasInserts = false := by
    rw [hasInserts_returningFor hr, Bool.eq_false_iff]
    have hinserts := hasInserts_insertBinding (insertBinding_of_bindArgument (o := o) hb)
    exact mt hinserts.mp (not_or.mpr ⟨h, hrules⟩)
  rw [WritePlan.insertChain_of_not_hasInserts hnone]
  exact ⟨_, rfl, rfl⟩

/-- An insert whose properties are known, where they must be, and that has a column to insert is
prepared unless its parameters cannot be told apart. -/
theorem prepareInsert_fails {o : InsertOptions}
    (h : a.Supplies t (InsertedBy o) ∨ env.rules.SupplyInserts t (InsertedBy o))
    (hknown : env.strict → ∀ p ∈ a.toProperties, (t.column? p.name).isSome) :
    FailsOnlyWith .duplicateParameter (prepareInsert env .none t a o) := by
  have hbound : ∃ b, (binding env t).apply (Binding.bindArgument a false) = .ok b := by
    refine ⟨_, Binding.bindArgument_eq_ok.mpr ⟨by simp, fun hstrict p hp ↦ ?_, rfl⟩⟩
    rw [← Option.isSome_map (f := Entry.column), column?_eq rfl]
    exact hknown hstrict p hp
  obtain ⟨b, hb⟩ := hbound
  have hsome := (hasInserts_insertBinding (insertBinding_of_bindArgument hb)).mpr h
  rw [prepareInsert_eq, hb]
  exact WritePlan.insertChain_fails hsome rfl

/-- A write is refused if its argument has no property that means a column to write; only an insert
is not, if a rule for inserts means one. -/
theorem prepare_dataless (env : Environment) (desired : Desired) (t : Table) (a : Argument) :
    (∀ o : UpdateOptions, ¬ a.Supplies t (a.Updatable t o.useKeyMarks) →
      FailsWith .mapping (prepare env desired (.update t a o))) ∧
    (∀ o : UpsertOptions, ¬ a.Supplies t (UpsertedBy env t a o) →
      FailsWith .mapping (prepare env desired (.upsert t a o))) ∧
    ∀ o : InsertOptions, ¬ a.Supplies t (InsertedBy o) →
      (¬ env.rules.SupplyInserts t (InsertedBy o) →
        FailsWith .mapping (prepare env desired (.insert t a o))) ∧
      (env.rules.SupplyInserts t (InsertedBy o) →
        (env.strict → ∀ p ∈ a.toProperties, (t.column? p.name).isSome) →
        FailsOnlyWith .duplicateParameter (prepare env .none (.insert t a o))) :=
  ⟨fun _ h ↦ prepareUpdate_dataless desired h, fun _ h ↦ prepareUpsert_dataless desired h,
    fun _ h ↦ ⟨prepareInsert_dataless desired h,
      fun hrules hknown ↦ prepareInsert_fails (.inr hrules) hknown⟩⟩

/-- A user of whom nothing is said that the table keeps. -/
def nicknamedUser : Argument := .properties [⟨"Nickname", .text "Ann", false⟩]

/-- A rule that names all users makes an insert of nothing else pass, but no update or upsert. -/
theorem nicknamedUser_inserted :
    FailsWith .mapping (prepare (kindsEnvironment .sqlite (.text "new") (.text "old")) .all
        (.update (Users.table .sqlite) nicknamedUser {})) ∧
      FailsWith .mapping (prepare (kindsEnvironment .sqlite (.text "new") (.text "old")) .all
        (.upsert (Users.table .sqlite) nicknamedUser {})) ∧
      FailsWith .mapping (prepare { dialect := .sqlite } .all
        (.insert (Users.table .sqlite) nicknamedUser {})) ∧
      ∃ chain, prepare (kindsEnvironment .sqlite (.text "new") (.text "old")) .none
        (.insert (Users.table .sqlite) nicknamedUser {}) = .ok chain := by
  have hunknown : (Users.table .sqlite).column? "Nickname" = none := by decide +kernel
  have hname : (Users.table .sqlite).column? "Name" = some (Users.name .sqlite) := by
    decide +kernel
  have hdataless (p : Column → Prop) : ¬ nicknamedUser.Supplies (Users.table .sqlite) p := by
    rintro ⟨n, hn, c, hc, -⟩
    obtain rfl := List.mem_singleton.mp hn
    rw [hunknown] at hc
    cases hc
  obtain ⟨hupdate, hupsert, hinsert⟩ := prepare_dataless
    (kindsEnvironment .sqlite (.text "new") (.text "old")) .all (Users.table .sqlite) nicknamedUser
  obtain ⟨-, -, hruleless⟩ := prepare_dataless { dialect := .sqlite } .all (Users.table .sqlite)
    nicknamedUser
  have hrules : (kindsEnvironment .sqlite (.text "new") (.text "old")).rules.SupplyInserts
      (Users.table .sqlite) (InsertedBy {}) :=
    ⟨"Name", by decide, Users.name .sqlite, hname, .inl (by decide)⟩
  have hfails := (hinsert {} (hdataless _)).2 hrules fun hstrict ↦ by cases hstrict
  refine ⟨hupdate {} (hdataless _), hupsert {} (hdataless _),
    (hruleless {} (hdataless _)).1 (by rintro ⟨n, hn, -⟩; cases hn), ?_⟩
  have hdistinct : (match prepare (kindsEnvironment .sqlite (.text "new") (.text "old")) .none
      (.insert (Users.table .sqlite) nicknamedUser {}) with
    | .ok _ => true
    | .error e => e.category ≠ .duplicateParameter) = true := by decide +kernel
  cases hchain : prepare (kindsEnvironment .sqlite (.text "new") (.text "old")) .none
      (.insert (Users.table .sqlite) nicknamedUser {}) with
  | ok chain => exact ⟨chain, rfl⟩
  | error e =>
    rw [hchain] at hdistinct
    exact absurd (hfails e hchain) (of_decide_eq_true hdistinct)

end Command

end SchemaSql
