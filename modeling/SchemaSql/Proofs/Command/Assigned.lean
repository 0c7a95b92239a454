import SchemaSql.Proofs.Command.MarkedRows
import SchemaSql.Proofs.Command.Siblings

/-!
The columns that requests assign in rows that are there already. An update or upsert assigns columns
that the database does not fill itself and that are not of the request's key; only an upsert that
has nothing to update may assign the key, to what it is. A deletion that marks rows does not look at
its columns: it assigns the mark and every column that a rule for updates means, so that a rule
which updates pass over makes it write an identity, a computed column or the key.
-/

set_option autoImplicit false
set_option relaxedAutoImplicit false

namespace SchemaSql

/-! ### Assignments of statements -/

namespace Statement

/-- What a statement assigns to rows that are there already. -/
def assigned : Statement → List Assignment
  | .insert s => s.conflict.assignments
  | .update s => s.assignments
  | .merge s => s.updates.map fun c ↦ ⟨c, .supplied⟩
  | _ => []

/-- The statement assigns a column to itself, or to the value of the row to be inserted, with which
the row clashes on the column. -/
def Keeps (s : Statement) (x : Assignment) : Prop :=
  x.value = .unchanged ∨ x.value = .supplied ∧
    ∃ i keys as, s = .insert i ∧ i.conflict = .onKeys keys as ∧ x.column ∈ keys

end Statement

namespace Binding

variable {b b' : Binding}

theorem assignments_columns {as : List Assignment} (h : b.assignments = .ok as) :
    as.map (·.column) = b.updateColumns := by
  rw [assignments_ok h, List.map_map]
  rfl

theorem mem_updateColumns {c : Column} :
    c ∈ b.updateColumns ↔ ∃ v, (c, v) ∈ b.updateValues := by
  rw [updateColumns, ← valuesWhere_columns]
  simp [updateValues]

theorem mem_updateColumns_unread (h : b'.unread = b.unread) {c : Column} :
    c ∈ b'.updateColumns ↔ c ∈ b.updateColumns := by
  have hvalues : b'.updateValues = b.updateValues := valuesWhere_congr h fun _ ↦ rfl
  rw [mem_updateColumns, mem_updateColumns, hvalues]

end Binding

namespace WritePlan

variable {p : WritePlan} {chain : Chain} {steps : List ChainStep}

/-- A chain that carries out a write assigns what the write assigns. -/
theorem CarriedOutBy.mem_assigned {s : Statement} (h : p.CarriedOutBy s chain) {x : Assignment} :
    (∃ l ∈ chain, x ∈ l.statement.assigned) ↔ x ∈ s.assigned := by
  obtain ⟨-, before, write, after, rfl, rfl, hreads⟩ := h
  constructor
  · rintro ⟨l, hl, hx⟩
    by_cases hwrite : l = write
    · exact hwrite ▸ hx
    · have hread : l ∈ before ++ after := by
        simp only [List.mem_append, List.mem_cons, hwrite, false_or] at hl ⊢
        exact hl
      rw [hreads l hread] at hx
      simp [readStatement, Statement.assigned] at hx
  · intro hx
    exact ⟨write, by simp, hx⟩

theorem ReadsBack.assigned {reads : List ChainStep} (h : p.ReadsBack reads) :
    ∀ step ∈ reads, step.statement.assigned = [] := by
  rcases h with rfl | ⟨criteria, -, rfl⟩
  · simp
  · simp [readStatement, Statement.assigned]

/-- The steps of an upsert update its columns, and keep its key where there is nothing to update. -/
theorem UpsertSteps.assigned (h : p.UpsertSteps steps) :
    ∀ step ∈ steps, ∀ x ∈ step.statement.assigned, x.column ∈ p.binding.updateColumns ∨
      p.binding.hasUpdates = false ∧ x.column ∈ p.binding.keyColumns ∧ step.statement.Keeps x := by
  have hreadsBack {reads : List ChainStep} (hreads : p.ReadsBack reads) :
      ∀ step ∈ reads, ∀ x ∈ step.statement.assigned, x.column ∈ p.binding.updateColumns ∨
        p.binding.hasUpdates = false ∧ x.column ∈ p.binding.keyColumns ∧
          step.statement.Keeps x := by
    intro step hstep x hx
    rw [hreads.assigned step hstep] at hx
    simp at hx
  cases h with
  | merge =>
    intro step hstep x hx
    obtain rfl := List.mem_singleton.mp hstep
    obtain ⟨c, hc, rfl⟩ := List.mem_map.mp hx
    exact .inl hc
  | onConflict =>
    intro step hstep x hx
    obtain rfl := List.mem_singleton.mp hstep
    obtain ⟨c, hc, rfl⟩ := List.mem_map.mp hx
    refine (mem_upsertColumns hc).imp_right fun hkey ↦ ⟨hkey.1, hkey.2, .inr ⟨rfl, ?_⟩⟩
    exact ⟨_, _, _, rfl, rfl, hkey.2⟩
  | onDuplicateKey _ _ hreads =>
    refine List.forall_mem_cons.mpr ⟨fun x hx ↦ ?_, hreadsBack hreads⟩
    rw [Statement.assigned, Relation.duplicateConflict_assignments] at hx
    obtain ⟨c, hc, rfl⟩ := List.mem_map.mp hx
    refine (mem_upsertColumns hc).imp_right fun hkey ↦ ⟨hkey.1, hkey.2, .inl ?_⟩
    exact if_neg (by rw [hkey.1]; exact Bool.false_ne_true)
  | updateThenInsert _ _ has _ hreads =>
    refine List.forall_mem_cons.mpr ⟨fun x hx ↦ ?_,
      List.forall_mem_cons.mpr ⟨fun x hx ↦ ?_, hreadsBack hreads⟩⟩
    · rw [presenceAssignments] at has
      split at has
      · exact .inl (Binding.assignments_columns has ▸ List.mem_map_of_mem hx)
      · rename_i hnone
        obtain rfl := Except.ok.inj has
        obtain ⟨c, hc, rfl⟩ := List.mem_map.mp hx
        exact .inr ⟨by simpa using hnone, hc, .inl rfl⟩
    · simp [Statement.assigned, Conflict.assignments] at hx

end WritePlan

/-! ### Columns that requests may update -/

namespace Argument

/-- Whether a column is of the key that a request by an argument selects rows with: that of the
table or, where marks count, what the marks of its properties make of it. -/
def isKeyOf (a : Argument) (t : Table) (marks : Bool) (c : Column) : Bool :=
  if marks then (t.naming c (·.name) a.toProperties).getLast?.any (·.isKey) else c.isKey

/-- The column may be updated: the table has it, the database does not fill it, and it is not of the
request's key. -/
structure Updatable (a : Argument) (t : Table) (marks : Bool) (c : Column) : Prop where
  column : c ∈ t.columns
  writable : c.isWritable
  unkeyed : a.isKeyOf t marks c = false

end Argument

/-- Whether a deletion that marks rows of the table gives the column a value. -/
def Rules.setsOnDelete (r : Rules) (now : Timestamp) (t : Table) (c : Column) : Bool :=
  ((r.softDeleteValues? now t).bind (t.lastFor? c)).isSome

namespace Command

variable {env : Environment} {desired : Desired} {t : Table} {a : Argument} {marks : Bool}
  {b : Binding} {p : WritePlan} {chain : Chain}

/-- The binding of an update makes of every column what the argument and then the rules give it. -/
theorem updateBinding_makes (hb : updateBinding env t a marks = .ok b) :
    b.BoundOnce ∧ b.Makes t (false, false, false) fun c ↦
      (a.entryFor t marks c).ruled env.now ((env.rules.about t c).filter (·.onUpdate)) := by
  obtain ⟨c, hc, rfl⟩ := map_eq_ok.mp hb
  constructor
  · have honce := (boundOnce_binding env t).bindArgument hc
    exact honce.bindWhere env.rules (·.onUpdate) env.now
  · exact (Binding.Makes.ofArgument hc).bindWhere env.rules (·.onUpdate) env.now

/-- An update assigns the columns that may be updated and have a value. -/
theorem mem_updateBinding_iff (hb : updateBinding env t a marks = .ok b) {c : Column} {v : Value} :
    (c, v) ∈ b.updateValues ↔ a.Updatable t marks c ∧
      ((a.entryFor t marks c).ruled env.now ((env.rules.about t c).filter (·.onUpdate))).value =
        some v := by
  obtain ⟨honce, hmakes⟩ := updateBinding_makes hb
  rw [hmakes.mem_updateValues honce, Binding.updatable_eq hmakes.choices, Entry.ruled_column,
    Entry.ruled_isKey, Argument.entryFor_column, Argument.entryFor_isKey, Bool.or_false,
    Bool.and_eq_true, Bool.not_eq_true']
  constructor
  · rintro ⟨hcolumn, ⟨hwritable, hkey⟩, hvalue⟩
    exact ⟨⟨hcolumn, hwritable, hkey⟩, hvalue⟩
  · rintro ⟨hupdatable, hvalue⟩
    exact ⟨hupdatable.column, ⟨hupdatable.writable, hupdatable.unkeyed⟩, hvalue⟩

theorem updatable_of_updateBinding (hb : updateBinding env t a marks = .ok b) {c : Column}
    (hc : c ∈ b.updateColumns) : a.Updatable t marks c := by
  obtain ⟨v, hv⟩ := Binding.mem_updateColumns.mp hc
  exact ((mem_updateBinding_iff hb).mp hv).1

/-- Updates of an argument's binding assign columns that may be updated. -/
theorem updateChain_updatable (hb : updateBinding env t a marks = .ok b)
    (hunread : p.binding.unread = b.unread) (h : p.updateChain = .ok chain) :
    ∀ l ∈ chain, ∀ x ∈ l.statement.assigned, a.Updatable t marks x.column := by
  obtain ⟨as, output, has, hcarried⟩ := WritePlan.updateChain_ok h
  intro l hl x hx
  have hassigned : x ∈ as := hcarried.mem_assigned.mp ⟨l, hl, hx⟩
  have hcolumn : x.column ∈ p.binding.updateColumns :=
    Binding.assignments_columns has ▸ List.mem_map_of_mem hassigned
  exact updatable_of_updateBinding hb ((Binding.mem_updateColumns_unread hunread).mp hcolumn)

/-- The links of an upsert assign columns that may be updated, or keep the key. -/
theorem prepareUpsert_updatable {o : UpsertOptions}
    (h : prepareUpsert env desired t a o = .ok chain) :
    ∀ l ∈ chain, ∀ x ∈ l.statement.assigned, a.Updatable t o.useKeyMarks x.column ∨
      chain.updated = [] ∧ a.isKeyOf t o.useKeyMarks x.column ∧ l.statement.Keeps x := by
  obtain ⟨b, p, steps, hb, hbase, hd, hunread, hsplits, hsteps, hruns⟩ := prepareUpsert_plan h
  have hruled := bindUpsert_splits hb hbase
  have hkeys : p.binding.keyColumns = b.keyColumns :=
    Binding.keyColumns_of_keyMarks ((Binding.keyMarks_unread hunread).trans
      ((Binding.keyMarks_bindUpsert _ _ _).trans (keyMarks_upsertBase b o)))
  intro l hl x hx
  obtain ⟨step, hstep, hlink⟩ := hruns.exists_step hl
  rw [hlink.statement] at hx ⊢
  rcases hsteps.assigned step hstep x hx with hupdated | ⟨hnone, hkey, hkeeps⟩
  · left
    obtain ⟨v, hv⟩ := Binding.mem_updateColumns.mp
      ((Binding.mem_updateColumns_unread hunread).mp hupdated)
    obtain ⟨hcolumn, hupdatable, -⟩ := (mem_updateValues_bindUpsert hb hruled).mp hv
    rw [Binding.updatable_eq (upsertBase_makes hb).choices, upsertEntry, Entry.ruled_column,
      Entry.ruled_isKey, Argument.entryFor_column, Argument.entryFor_isKey, Bool.or_false,
      Bool.and_eq_true, Bool.not_eq_true'] at hupdatable
    exact ⟨hcolumn, hupdatable.1, hupdatable.2⟩
  · right
    obtain ⟨hvalues, hcolumns⟩ := Relation.updateValues_of_not_hasUpdates hnone
    refine ⟨?_, ?_, hkeeps⟩
    · rw [Chain.updated, hruns.flatMap_statement, hsteps.updated hsplits, hvalues, hcolumns]
      split <;> rfl
    · rw [hkeys, mem_keyColumns hb hbase, Argument.entryFor_isKey] at hkey
      exact hkey.2

/-- A deletion assigns exactly the columns that it gives a value. -/
theorem prepareDeletion_assigned (hframe : b.frame = (binding env t).frame) (honce : b.BoundOnce)
    {criteria : List Predicate} {byKey : Bool} {check : RowCheck}
    (h : prepareDeletion env desired t b criteria byKey check = .ok chain) (c : Column) :
    (∃ l ∈ chain, ∃ x ∈ l.statement.assigned, x.column = c) ↔
      env.rules.setsOnDelete env.now t c := by
  have hflat : (∃ l ∈ chain, ∃ x ∈ l.statement.assigned, x.column = c) ↔
      ∃ x, (∃ l ∈ chain, x ∈ l.statement.assigned) ∧ x.column = c := by
    constructor
    · rintro ⟨l, hl, x, hx, hcolumn⟩
      exact ⟨x, ⟨l, hl, hx⟩, hcolumn⟩
    · rintro ⟨x, ⟨l, hl, hx⟩, hcolumn⟩
      exact ⟨l, hl, x, hx, hcolumn⟩
  rw [hflat, Rules.setsOnDelete]
  cases hvalues : env.rules.softDeleteValues? env.now t with
  | none =>
    rw [prepareDeletion_of_none env desired t b criteria byKey check hvalues] at h
    obtain ⟨r, hr, h⟩ := bind_eq_ok.mp h
    obtain ⟨output, hcarried⟩ := WritePlan.deleteChain_ok h
    simp only [hcarried.mem_assigned]
    simp [Statement.assigned]
  | some values =>
    rw [prepareDeletion_of_some env desired t b criteria byKey check hvalues] at h
    obtain ⟨b', hb', h⟩ := bind_eq_ok.mp h
    obtain ⟨r, hr, h⟩ := bind_eq_ok.mp h
    obtain ⟨as, output, has, hcarried⟩ := WritePlan.updateChain_ok h
    have hupdated := Binding.Updated.applyUpdateValues (columns_eq hframe) honce hb'
    have hcolumns : (∃ x ∈ as, x.column = c) ↔ c ∈ b'.updateColumns := by
      rw [← Binding.mem_updateColumns_unread (returningFor_ok hr).2.1,
        ← Binding.assignments_columns has, List.mem_map]
    have hentries : c ∈ b'.updateColumns ↔ ∃ e ∈ b'.entries, e.update ∧ e.column = c := by
      simp [Binding.updateColumns, and_assoc]
    simp only [hcarried.mem_assigned, Option.bind_some, Option.isSome_iff_exists]
    rw [Statement.assigned, hcolumns, hentries]
    constructor
    · rintro ⟨e, he, hupdate, rfl⟩
      obtain ⟨v, hv, -⟩ := hupdated.value e he hupdate
      exact ⟨v, hv⟩
    · rintro ⟨v, hv⟩
      exact hupdated.reached c v hv

/-- Whether a request updates rows of a table by an argument, and whether the argument's marks make
its key. -/
def UpdatesBy (t : Table) (a : Argument) (marks : Bool) : Command → Prop
  | .update u a' o => u = t ∧ a' = a ∧ o.useKeyMarks = marks
  | .updateWhere u a' _ _ _ => u = t ∧ a' = a ∧ marks = false
  | .upsert u a' o => u = t ∧ a' = a ∧ o.useKeyMarks = marks
  | _ => False

/-- Updates and upserts assign only columns that may be updated, except that an upsert with nothing
to update may assign columns of its key to what they are. A deletion assigns the columns that the
rules give it values for, whether they may be updated or not. -/
theorem prepare_assigned {c : Command} (h : prepare env desired c = .ok chain) :
    (∀ t a marks, c.UpdatesBy t a marks → ∀ l ∈ chain, ∀ x ∈ l.statement.assigned,
      a.Updatable t marks x.column ∨
        (∃ o, c = .upsert t a o) ∧ chain.updated = [] ∧ a.isKeyOf t marks x.column ∧
          l.statement.Keeps x) ∧
      ∀ t, c.DeletesFrom t → ∀ k, (∃ l ∈ chain, ∃ x ∈ l.statement.assigned, x.column = k) ↔
        env.rules.setsOnDelete env.now t k := by
  constructor
  · intro t a marks hc l hl x hx
    cases c with
    | update u a' o =>
      obtain ⟨rfl, rfl, rfl⟩ := hc
      obtain ⟨b, hb, h⟩ := bind_eq_ok.mp h
      obtain ⟨_, -, h⟩ := bind_eq_ok.mp h
      obtain ⟨criteria, -, h⟩ := bind_eq_ok.mp h
      obtain ⟨r, hr, h⟩ := bind_eq_ok.mp h
      exact .inl (updateChain_updatable (updateBinding_of_bindArgument hb)
        (returningFor_ok hr).2.1 h l hl x hx)
    | updateWhere u a' criteria allRows old =>
      obtain ⟨rfl, rfl, rfl⟩ := hc
      rw [prepare, prepareUpdateWhere_eq] at h
      split at h
      · simp at h
      · obtain ⟨b, hb, h⟩ := bind_eq_ok.mp h
        obtain ⟨_, -, h⟩ := bind_eq_ok.mp h
        obtain ⟨predicates, -, h⟩ := bind_eq_ok.mp h
        obtain ⟨r, hr, h⟩ := bind_eq_ok.mp h
        exact .inl (updateChain_updatable (updateBinding_of_bindArgument hb)
          (returningFor_ok hr).2.1 h l hl x hx)
    | upsert u a' o =>
      obtain ⟨rfl, rfl, rfl⟩ := hc
      exact (prepareUpsert_updatable h l hl x hx).imp_right fun hkeeps ↦ ⟨⟨o, rfl⟩, hkeeps⟩
    | query | insert | delete | deleteKeys | deleteWhere | procedure | written => exact hc.elim
  · intro t hc k
    obtain ⟨b, criteria, byKey, check, hframe, honce, h⟩ := hc.prepareDeletion h
    exact prepareDeletion_assigned hframe honce h k

/-- A number of the version of a row, which the database computes. -/
def version (d : Dialect) : Column := (Column.make d "Version" "integer").computed

def versionedUsers (d : Dialect) : Table :=
  Table.make d ⟨none, "Users"⟩ true [Users.id d, Users.name d, Users.removed d, version d]

/-- Removed users are marked, and a rule gives the version of a user that is updated. -/
def versioningEnvironment (d : Dialect) : Environment where
  dialect := d
  rules :=
    { softDeletes := [⟨"Removed", .bool true⟩]
      values := [{ column := "Version", onUpdate := true, value := .fixed (.int 2) }] }

/-- The rule for a computed column is passed over when a user is updated, but not when one is
removed. -/
theorem version_assigned_by_removal :
    (prepare (versioningEnvironment .sqlite) .none (.update (versionedUsers .sqlite)
      (plainUser (.int 1) (.text "Ann")) {})).toOption.any (fun c ↦ c.all fun l ↦
        l.statement.assigned.all fun x ↦ x.column ≠ version .sqlite) ∧
      ∃ chain, prepare (versioningEnvironment .sqlite) .none
          (.deleteKeys (versionedUsers .sqlite) [.int 1]) = .ok chain ∧
        ∃ l ∈ chain, ∃ x ∈ l.statement.assigned, x.column = version .sqlite ∧
          ¬ Argument.none.Updatable (versionedUsers .sqlite) false x.column := by
  have hok : (prepare (versioningEnvironment .sqlite) .none
      (.deleteKeys (versionedUsers .sqlite) [.int 1])).toOption.isSome := by decide +kernel
  have hset : (versioningEnvironment .sqlite).rules.setsOnDelete
      (versioningEnvironment .sqlite).now (versionedUsers .sqlite) (version .sqlite) := by
    decide +kernel
  refine ⟨by decide +kernel, ?_⟩
  obtain ⟨chain, hchain⟩ := exists_ok_of_isSome hok
  obtain ⟨l, hl, x, hx, hcolumn⟩ := ((prepare_assigned hchain).2 _ rfl _).mpr hset
  refine ⟨chain, hchain, l, hl, x, hx, hcolumn, fun hupdatable ↦ ?_⟩
  have hwritable : (version .sqlite).isWritable := hcolumn ▸ hupdatable.writable
  exact absurd hwritable (by decide)

end Command

end SchemaSql
