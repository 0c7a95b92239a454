import SchemaSql.Proofs.Binding.Entries
import SchemaSql.Proofs.Command.Chains
import SchemaSql.Proofs.Command.Stages

/-!
When updates and deletes can be prepared. A statement can be written if no two of its parameters
share a name. Dialects that read rows back by a link of their own must know the rows by their key,
if any are wanted. An update needs an assignment besides, and its assignments share the statement
with the conditions.
-/

set_option autoImplicit false
set_option relaxedAutoImplicit false

namespace SchemaSql

/-! ### Results -/

/-- There is a result, whatever it is. -/
def Succeeds {α : Type} (x : Except Error α) : Prop := ∃ a, x = .ok a

section Results

variable {α β : Type} {x : Except Error α}

theorem succeeds_ok (a : α) : Succeeds (.ok a) := ⟨a, rfl⟩

theorem not_succeeds_error (e : Error) : ¬ Succeeds (.error e : Except Error α) := nofun

theorem succeeds_map_iff {f : α → β} : Succeeds (x.map f) ↔ Succeeds x := by
  cases x with
  | ok a => exact iff_of_true (succeeds_ok (f a)) (succeeds_ok a)
  | error e => exact iff_of_false (not_succeeds_error e) (not_succeeds_error e)

theorem succeeds_bind_iff {f : α → Except Error β} :
    Succeeds (x.bind f) ↔ ∃ a, x = .ok a ∧ Succeeds (f a) := by
  cases x with
  | ok a => simp [Except.bind]
  | error e => exact iff_of_false (not_succeeds_error e) (by rintro ⟨_, h, -⟩; cases h)

theorem succeeds_bind_ok_iff {f : α → β} : Succeeds (x.bind fun a ↦ .ok (f a)) ↔ Succeeds x :=
  succeeds_map_iff

/-- What follows a result may depend on its existence alone. -/
theorem succeeds_bind_iff_and {f : α → Except Error β} {P : Prop}
    (hf : ∀ a, x = .ok a → (Succeeds (f a) ↔ P)) : Succeeds (x.bind f) ↔ Succeeds x ∧ P := by
  rw [succeeds_bind_iff]
  constructor
  · rintro ⟨a, ha, hrest⟩
    exact ⟨⟨a, ha⟩, (hf a ha).mp hrest⟩
  · rintro ⟨⟨a, ha⟩, hP⟩
    exact ⟨a, ha, (hf a ha).mpr hP⟩

end Results

theorem Link.succeeds_ofStatement_iff {d : Dialect} {operation : String} {s : Statement} :
    Succeeds (ofStatement d operation s) ↔ DistinctNames s.fragment.parameters := by
  refine ⟨fun ⟨l, hl⟩ ↦ ?_, ofStatement_of_distinctNames operation⟩
  obtain ⟨hwritten, -, rfl, -⟩ := ofStatement_ok hl
  exact hwritten.distinctNames

/-! ### Plans -/

namespace WritePlan

variable {p : WritePlan}

/-- Dialects without an output clause read rows back by their key. -/
def readsByLink (d : Dialect) : Bool := d = .mySql || d = .access

/-- The rows that are wanted can be handed back: none are, the statement itself returns them, or
they are known by their key. -/
def Reports (p : WritePlan) : Prop :=
  readsByLink p.dialect → p.returning = .none ∨ p.byKey = true

theorem succeeds_writeLink_iff {s : Statement} :
    Succeeds (p.writeLink s) ↔ DistinctNames s.fragment.parameters :=
  succeeds_map_iff.trans Link.succeeds_ofStatement_iff

theorem succeeds_readLink_iff {operation : String} {criteria : List Predicate} :
    Succeeds (p.readLink operation criteria) ↔
      DistinctNames (criteria.flatMap Predicate.parameters) := by
  rw [readLink, Link.succeeds_ofStatement_iff, readStatement, Statement.select_parameters]

/-- Rows can be read by their key with parameters that a statement is already written with. -/
theorem succeeds_readingChain_iff (h : DistinctNames (p.criteria.flatMap Predicate.parameters))
    (write : Link) (verb : String) :
    Succeeds (p.readingChain write verb) ↔ p.returning = .none ∨ p.byKey = true := by
  have hread (operation : String) (f : Link → Chain) :
      Succeeds ((p.readLink operation p.criteria).bind fun read ↦ .ok (f read)) := by
    rw [succeeds_bind_ok_iff, succeeds_readLink_iff]
    exact h
  rw [readingChain]
  cases p.returning with
  | none => exact iff_of_true (succeeds_ok [write]) (.inl rfl)
  | new =>
    cases p.byKey with
    | true =>
      exact iff_of_true (hread ("ReadAfter" ++ verb) fun read ↦ [write.counting, read]) (.inr rfl)
    | false => exact iff_of_false (not_succeeds_error _) (by simp)
  | old =>
    cases p.byKey with
    | true =>
      exact iff_of_true (hread ("ReadBefore" ++ verb) fun read ↦ [read, write.counting]) (.inr rfl)
    | false => exact iff_of_false (not_succeeds_error _) (by simp)

theorem succeeds_deleteChain_iff : Succeeds p.deleteChain ↔
    DistinctNames (p.criteria.flatMap Predicate.parameters) ∧ p.Reports := by
  have hwrite (output : Output) : Succeeds (p.writeLink (p.delete output)) ↔
      DistinctNames (p.criteria.flatMap Predicate.parameters) := by
    rw [succeeds_writeLink_iff, delete, Statement.delete_parameters]
  have honly (output : Output) : Succeeds ((p.writeLink (p.delete output)).bind fun l ↦ .ok [l]) ↔
      DistinctNames (p.criteria.flatMap Predicate.parameters) :=
    succeeds_bind_ok_iff.trans (hwrite output)
  have hreading : Succeeds p.readingDelete ↔
      DistinctNames (p.criteria.flatMap Predicate.parameters) ∧
        (p.returning = .none ∨ p.byKey = true) := by
    refine (succeeds_bind_iff_and fun l hl ↦ succeeds_readingChain_iff ?_ l "Delete").trans
      (and_congr_left' (hwrite .none))
    exact (hwrite .none).mp ⟨l, hl⟩
  refine succeeds_map_iff.trans ?_
  rw [Reports]
  cases p.dialect with
  | sqlServer | postgreSql | sqlite => exact (honly _).trans (by simp [readsByLink])
  | mySql | access => exact hreading.trans (by simp [readsByLink])

/-- The parameters that an update with the assignments is written with. -/
def updateParameters (p : WritePlan) (as : List Assignment) : List Parameter :=
  (as.flatMap fun a ↦ a.value.parameters) ++ p.criteria.flatMap Predicate.parameters

/-- Where there are assignments the statement is made of them, and what follows is about it. -/
theorem succeeds_update_bind_iff {output : Output} {f : Statement → Except Error Chain}
    {P : List Assignment → Prop}
    (hf : ∀ as, Succeeds (f (.update ⟨p.target, as, p.criteria, output⟩)) ↔ P as) :
    Succeeds ((p.update output).bind f) ↔ ∃ as, p.binding.assignments = .ok as ∧ P as := by
  rw [succeeds_bind_iff]
  constructor
  · rintro ⟨s, hs, hrest⟩
    obtain ⟨as, has, rfl⟩ := update_ok hs
    exact ⟨as, has, (hf as).mp hrest⟩
  · rintro ⟨as, has, hP⟩
    exact ⟨_, bind_eq_ok.mpr ⟨as, has, rfl⟩, (hf as).mpr hP⟩

theorem succeeds_updateLink_iff {as : List Assignment} {output : Output} :
    Succeeds (p.writeLink (.update ⟨p.target, as, p.criteria, output⟩)) ↔
      DistinctNames (p.updateParameters as) := by
  rw [succeeds_writeLink_iff, Statement.update_parameters]
  rfl

theorem succeeds_outputUpdate_iff : Succeeds p.outputUpdate ↔
    ∃ as, p.binding.assignments = .ok as ∧ DistinctNames (p.updateParameters as) :=
  succeeds_update_bind_iff fun _ ↦ succeeds_bind_ok_iff.trans succeeds_updateLink_iff

theorem succeeds_returningUpdate_iff : Succeeds p.returningUpdate ↔
    ∃ as, p.binding.assignments = .ok as ∧ DistinctNames (p.updateParameters as) := by
  rw [returningUpdate]
  split
  · refine succeeds_update_bind_iff fun as ↦ ?_
    -- The query is written with parameters that the update has too.
    refine (succeeds_bind_iff_and fun read _ ↦
      succeeds_bind_ok_iff.trans succeeds_updateLink_iff).trans (and_iff_right_of_imp fun h ↦ ?_)
    exact succeeds_readLink_iff.mpr (List.pairwise_append.mp h).2.1
  · exact succeeds_update_bind_iff fun _ ↦ succeeds_bind_ok_iff.trans succeeds_updateLink_iff

theorem succeeds_readingUpdate_iff : Succeeds p.readingUpdate ↔
    ∃ as, p.binding.assignments = .ok as ∧ DistinctNames (p.updateParameters as) ∧
      (p.returning = .none ∨ p.byKey = true) := by
  refine succeeds_update_bind_iff fun as ↦ ?_
  refine (succeeds_bind_iff_and fun l hl ↦ succeeds_readingChain_iff ?_ l "Update").trans
    (and_congr_left' succeeds_updateLink_iff)
  have h : DistinctNames (p.updateParameters as) := succeeds_updateLink_iff.mp ⟨l, hl⟩
  exact (List.pairwise_append.mp h).2.1

theorem succeeds_updateChain_iff : Succeeds p.updateChain ↔
    ∃ as, p.binding.assignments = .ok as ∧ DistinctNames (p.updateParameters as) ∧ p.Reports := by
  refine succeeds_map_iff.trans ?_
  rw [Reports]
  cases p.dialect with
  | sqlServer => exact succeeds_outputUpdate_iff.trans (by simp [readsByLink])
  | postgreSql | sqlite => exact succeeds_returningUpdate_iff.trans (by simp [readsByLink])
  | mySql | access => exact succeeds_readingUpdate_iff.trans (by simp [readsByLink])

theorem updateChain_byKey {chain : Chain} (h : p.updateChain = .ok chain)
    (hd : readsByLink p.dialect) : p.returning = .none ∨ p.byKey = true := by
  obtain ⟨-, -, -, hreports⟩ := succeeds_updateChain_iff.mp ⟨chain, h⟩
  exact hreports hd

end WritePlan

/-! ### Bindings -/

namespace Binding

variable {b : Binding} {values : List (String × Value)} {origin : Origin}

theorem succeeds_bindUpdates_iff :
    Succeeds (b.apply (bindUpdates origin values)) ↔ ∀ x ∈ values, (b.entry? x.1).isSome := by
  induction values generalizing b with
  | nil => exact iff_of_true (succeeds_ok b) (by simp)
  | cons x values ih =>
    have hknown (y : String × Value) := isSome_entry?_changed
      (f := updated x.2 origin) (fun _ ↦ rfl) b x.1 y.1
    rw [apply_bindUpdates_cons, apply_change, List.forall_mem_cons]
    split
    · rename_i hx
      refine (ih (b := b.changed x.1 (updated x.2 origin))).trans ?_
      simp only [hknown, hx, true_and]
    · rename_i hx
      exact iff_of_false (not_succeeds_error _) fun h ↦ hx h.1

/-- Values can be given to columns that are known, whatever they are. -/
theorem succeeds_applyUpdateValues_iff :
    Succeeds (b.apply (applyUpdateValues values origin)) ↔
      ∀ x ∈ values, (b.entry? x.1).isSome := by
  have hcolumn : ∀ e : Entry, ({ e with update := false } : Entry).column = e.column := fun _ ↦ rfl
  rw [apply_applyUpdateValues, succeeds_bindUpdates_iff]
  simp only [isSome_entry?_mapEntries hcolumn]

end Binding

/-- What is handed back does not depend on the values that columns are given. -/
theorem Command.returningFor_applyUpdateValues {b c : Binding} {desired : Desired}
    {wanted : Returning} {values : List (String × Value)} {origin : Origin}
    (hc : b.apply (Binding.applyUpdateValues values origin) = .ok c) :
    (returningFor c desired wanted).map Prod.snd = (returningFor b desired wanted).map Prod.snd := by
  let view (e : Entry) : Entry := { e with update := false, value := none, origin := .argument }
  have hview : c.mapEntries view = b.mapEntries view := by
    rw [Binding.apply_applyUpdateValues] at hc
    refine Binding.bindUpdates_induction (I := fun c ↦ c.mapEntries view = b.mapEntries view)
      ?_ ?_ hc
    · intro name value c hc
      have hentries : (Binding.changeFirst name (Binding.updated value origin) c.entries).map view =
          c.entries.map view := Binding.map_changeFirst fun _ ↦ rfl
      rw [← hc]
      simp only [Binding.mapEntries, Binding.changed, hentries]
    · simp [Binding.mapEntries, view, Function.comp_def]
  have hcolumn : ∀ e, (view e).column = e.column := fun _ ↦ rfl
  have hmarked : ∀ e, view (Binding.markRead e) = Binding.markRead (view e) := fun _ ↦ rfl
  have hread := Binding.applyDesired_mapEntries hcolumn hmarked desired
  have hboth := hread c
  rw [hview, hread b] at hboth
  rw [returningFor, returningFor]
  split
  · rfl
  · have hsnd (x : Except Error Binding) : (x.map (·, wanted)).map Prod.snd =
        (x.map (Binding.mapEntries view)).map fun _ ↦ wanted := by cases x <;> rfl
    rw [hsnd, hsnd, hboth]

end SchemaSql
