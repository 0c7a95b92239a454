import SchemaSql.Proofs.Binding.Updates
import SchemaSql.Proofs.Command.Prepared
import SchemaSql.Proofs.Users
import SchemaSql.Store.Condition

/-!
Deletes from a table whose rows a rule marks as deleted. In place of the delete there is an update
of the rows that the delete would have met. The mark is written first, so that the column takes it
only if no later value is meant for the same column: a rule that writes the column on every update
replaces the mark.
-/

set_option autoImplicit false
set_option relaxedAutoImplicit false

namespace SchemaSql

/-! ### Rows that conditions select -/

/-- What a call of the link says of its parameters. -/
def Link.scope (l : Link) (written : String → List Parameter → Row → Truth) (lastIdentity : Value) :
    Scope where
  value := valueAmong l.parameters
  written
  lastIdentity

theorem Predicate.truth_congr {sc sc' : Scope} (hwritten : sc.written = sc'.written)
    (hidentity : sc.lastIdentity = sc'.lastIdentity) (r : Row) {p : Predicate}
    (hvalue : ∀ q ∈ p.parameters, sc.value q = sc'.value q) : p.truth sc r = p.truth sc' r := by
  cases p with
  | isNull c => rfl
  | equals c q => simp only [truth, hvalue q (List.mem_singleton_self q)]
  | among c qs =>
    rw [truth, truth]
    refine congrArg Truth.any (List.map_congr_left fun q hq ↦ ?_)
    rw [hvalue q hq]
  | unmarked c q => simp only [truth, hvalue q (List.mem_singleton_self q)]
  | lastInserted c => simp only [truth, hidentity]
  | written s qs => simp only [truth, hwritten]

theorem Row.meets_congr {sc sc' : Scope} (hwritten : sc.written = sc'.written)
    (hidentity : sc.lastIdentity = sc'.lastIdentity) (r : Row) {criteria : List Predicate}
    (hvalue : ∀ q ∈ criteria.flatMap Predicate.parameters, sc.value q = sc'.value q) :
    r.meets sc criteria = r.meets sc' criteria := by
  have htruth : criteria.map (Predicate.truth sc r) = criteria.map (Predicate.truth sc' r) := by
    refine List.map_congr_left fun p hp ↦ Predicate.truth_congr hwritten hidentity r fun q hq ↦ ?_
    exact hvalue q (List.mem_flatMap.mpr ⟨p, hp, hq⟩)
  rw [meets, meets, htruth]

/-- Links with the same conditions select the same rows, whatever else their statements say. -/
theorem Link.meets_congr {d d' : Dialect} {l m : Link} (hl : l.WrittenIn d) (hm : m.WrittenIn d')
    {criteria : List Predicate}
    (hlc : ∀ q ∈ criteria.flatMap Predicate.parameters, q ∈ l.statement.fragment.parameters)
    (hmc : ∀ q ∈ criteria.flatMap Predicate.parameters, q ∈ m.statement.fragment.parameters)
    (written : String → List Parameter → Row → Truth) (lastIdentity : Value) (r : Row) :
    r.meets (l.scope written lastIdentity) criteria =
      r.meets (m.scope written lastIdentity) criteria := by
  have hvalue : ∀ q ∈ criteria.flatMap Predicate.parameters,
      (l.scope written lastIdentity).value q = (m.scope written lastIdentity).value q := by
    intro q hq
    exact (hl.valueAmong (hlc q hq)).trans (hm.valueAmong (hmc q hq)).symm
  exact Row.meets_congr (by rfl) (by rfl) r hvalue

/-! ### Assignments -/

/-- The link updates the column once, to the given value. -/
def Link.Sets (l : Link) (c : Column) (v : Value) : Prop :=
  ∃ u p, l.statement = .update u ∧
    u.assignments.filter (fun a ↦ a.column = c) = [⟨c, .parameter p⟩] ∧
    valueAmong l.parameters p = v

namespace Binding

variable {b b' : Binding} {t : Table} {values : List (String × Value)}

/-- Assignments do not depend on which columns are read. -/
theorem assignments_congr (h : b'.unread = b.unread) : b'.assignments = b.assignments := by
  have hunread (b : Binding) : b.unread.assignments = b.assignments := by
    have hany : b.unread.hasUpdates = b.hasUpdates := by
      simp [hasUpdates, unread, mapEntries, Function.comp_def]
    have hfilter : (b.unread.entries.filter (·.update)).map
        (fun e ↦ (⟨e.column, .parameter e.parameter⟩ : Assignment)) =
          (b.entries.filter (·.update)).map fun e ↦ ⟨e.column, .parameter e.parameter⟩ := by
      simp only [unread, mapEntries, List.filter_map, List.map_map]
      rfl
    rw [assignments, assignments, hany, hfilter]
    rfl
  rw [← hunread b', h, hunread]

/-- A column takes the last of the values that it is given, and is assigned once. -/
theorem Updated.assigns_iff (h : b.Updated t values) {as : List Assignment}
    (has : b.assignments = .ok as) (c : Column) (v : Value) :
    (∃ p, as.filter (fun a ↦ a.column = c) = [⟨c, .parameter p⟩] ∧ p.value = v) ↔
      t.lastFor? c values = some v := by
  rw [assignments] at has
  split at has
  · obtain rfl := Except.ok.inj has
    have hfilter : ((b.entries.filter (·.update)).map fun e ↦
        (⟨e.column, .parameter e.parameter⟩ : Assignment)).filter (fun a ↦ a.column = c) =
          ((b.entries.filter (·.update)).filter fun e ↦ e.column = c).map fun e ↦
            ⟨e.column, .parameter e.parameter⟩ := List.filter_map
    have hpairwise := List.Pairwise.filter (fun e ↦ decide (e.column = c)) h.pairwise
    have hmem (e : Entry) : e ∈ (b.entries.filter (·.update)).filter (fun e ↦ e.column = c) ↔
        e ∈ b.entries ∧ e.update ∧ e.column = c := by
      simp only [List.mem_filter, decide_eq_true_eq, and_assoc]
    rw [hfilter]
    constructor
    · rintro ⟨p, hp, hpv⟩
      obtain ⟨e, hentries, heq⟩ := List.map_eq_singleton_iff.mp hp
      obtain ⟨hentry, hupdate, rfl⟩ :=
        (hmem e).mp (by rw [hentries]; exact List.mem_singleton_self e)
      obtain ⟨w, hw, hvalue⟩ := h.value e hentry hupdate
      obtain rfl : e.parameter = p := by simpa using heq
      rw [Entry.parameter, hvalue] at hpv
      rw [hw]
      exact congrArg some hpv
    · intro hlast
      obtain ⟨e, hentry, hupdate, rfl⟩ := h.reached c v hlast
      have hin := (hmem e).mpr ⟨hentry, hupdate, rfl⟩
      obtain ⟨w, hw, hvalue⟩ := h.value e hentry hupdate
      obtain rfl : w = v := Option.some.inj (hw.symm.trans hlast)
      refine ⟨e.parameter, ?_, by rw [Entry.parameter, hvalue]; rfl⟩
      generalize (b.entries.filter (·.update)).filter (fun e' ↦ e'.column = e.column) = es
        at hpairwise hmem hin
      rcases es with _ | ⟨e₁, _ | ⟨e₂, rest⟩⟩
      · simp at hin
      · obtain rfl := List.mem_singleton.mp hin
        rfl
      · have hfirst := (List.pairwise_cons.mp hpairwise).1 e₂ List.mem_cons_self
        have h₁ := ((hmem e₁).mp List.mem_cons_self).2.2
        have h₂ := ((hmem e₂).mp (List.mem_cons_of_mem _ List.mem_cons_self)).2.2
        exact absurd (h₁.trans h₂.symm) hfirst
  · simp at has

end Binding

/-! ### Deletes under a rule -/

/-- Whether the mark is the last value that a deletion means for the marked column. -/
def Rules.KeepsMark (r : Rules) (now : Timestamp) (t : Table) (s : SoftDelete) (flag : Column) :
    Prop :=
  (r.softDeleteValues? now t).bind (t.lastFor? flag) = some s.deleted

instance (r : Rules) (now : Timestamp) (t : Table) (s : SoftDelete) (flag : Column) :
    Decidable (r.KeepsMark now t s flag) :=
  inferInstanceAs (Decidable (_ = _))

namespace Command

/-- Whether a request deletes rows of the table. -/
def DeletesFrom (t : Table) : Command → Prop
  | .delete u _ _ | .deleteKeys u _ | .deleteWhere u _ _ => u = t
  | _ => False

/-- What a delete is about, before the rules are looked at. -/
structure Deletion where
  binding : Binding
  criteria : List Predicate
  byKey : Bool
  check : RowCheck

def Deletion.prepare (d : Deletion) (env : Environment) (desired : Desired) (t : Table) :
    Except Error Chain :=
  prepareDeletion env desired t d.binding d.criteria d.byKey d.check

/-- Whatever the rules, a delete from a table is about the same rows of it. -/
theorem DeletesFrom.exists_deletion {c : Command} {t : Table} (hc : c.DeletesFrom t)
    (env : Environment) (desired : Desired) : ∃ x : Except Error Deletion,
      (∀ d, x = .ok d → d.binding.frame = (binding env t).frame ∧ d.binding.BoundOnce) ∧
      ∀ rules, Command.prepare { env with rules } desired c =
        x.bind fun d ↦ d.prepare { env with rules } desired t := by
  cases c with
  | delete u a o =>
    obtain rfl : u = t := hc
    refine ⟨((binding env u).apply (Binding.bindArgument a o.useKeyMarks)).bind fun b ↦
      b.keyCriteria.map fun criteria ↦ ⟨b, criteria, true, keyCheck o.ignoreRowsAffected⟩, ?_, ?_⟩
    · intro d hd
      obtain ⟨b, hb, hd⟩ := bind_eq_ok.mp hd
      obtain ⟨criteria, -, rfl⟩ := map_eq_ok.mp hd
      exact ⟨Binding.frame_bindArgument hb, (boundOnce_binding env u).bindArgument hb⟩
    · intro rules
      change ((binding env u).apply (Binding.bindArgument a o.useKeyMarks)).bind _ = _
      cases (binding env u).apply (Binding.bindArgument a o.useKeyMarks) with
      | error e => rfl
      | ok b =>
        change b.keyCriteria.bind _ = (b.keyCriteria.map _).bind _
        cases b.keyCriteria <;> rfl
  | deleteKeys u keys =>
    obtain rfl : u = t := hc
    refine ⟨((binding env u).keyListCriterion keys).map fun criterion ↦
      ⟨binding env u, [criterion], true, if keys.length = 1 then .exactlyOne else .ignore⟩, ?_, ?_⟩
    · intro d hd
      obtain ⟨criterion, -, rfl⟩ := map_eq_ok.mp hd
      exact ⟨rfl, boundOnce_binding env u⟩
    · intro rules
      change ((binding env u).keyListCriterion keys).bind _ = _
      cases (binding env u).keyListCriterion keys <;> rfl
  | deleteWhere u criteria allRows =>
    obtain rfl : u = t := hc
    refine ⟨if criteria.isNone && !allRows then .error (.invalidOperation (.deleteAllRows u.quoted))
      else (criteria.predicates (binding env u)).map fun criteria ↦
        ⟨binding env u, criteria, false, .ignore⟩, ?_, ?_⟩
    · intro d hd
      split at hd
      · cases hd
      · obtain ⟨predicates, -, rfl⟩ := map_eq_ok.mp hd
        exact ⟨rfl, boundOnce_binding env u⟩
    · intro rules
      rw [Command.prepare, prepareDeleteWhere_eq]
      split
      · rfl
      · change (criteria.predicates (binding env u)).bind _ = _
        cases criteria.predicates (binding env u) <;> rfl
  | query | insert | update | updateWhere | upsert | procedure | written => exact hc.elim

/-- The link updates the rows that a delete in the plain chain would meet, and every other link of
its chain reads rows. -/
def UpdatesInPlaceOf (plain chain : Chain) (write : Link) : Prop :=
  (∃ before after, chain = before ++ write :: after ∧
    ∀ l ∈ before ++ after, ∃ q, l.statement = .select q) ∧
  ∃ u, write.statement = .update u ∧ ∃ erase ∈ plain, ∃ d, erase.statement = .delete d ∧
    u.target = d.target ∧ u.criteria = d.criteria ∧
    ∀ written lastIdentity (r : Row), r.meets (write.scope written lastIdentity) u.criteria =
      r.meets (erase.scope written lastIdentity) d.criteria

variable {env : Environment} {desired : Desired} {t : Table} {b : Binding} {chain : Chain}

theorem prepareDeletion_softDelete (hframe : b.frame = (binding env t).frame) (honce : b.BoundOnce)
    {criteria : List Predicate} {byKey : Bool} {check : RowCheck} {s : SoftDelete} {flag : Column}
    (hrule : env.rules.softDelete? t = some (s, flag))
    (h : prepareDeletion env desired t b criteria byKey check = .ok chain) :
    ∃ plain write,
      prepareDeletion { env with rules := {} } desired t b criteria byKey check = .ok plain ∧
      UpdatesInPlaceOf plain chain write ∧
      (write.Sets flag s.deleted ↔ env.rules.KeepsMark env.now t s flag) := by
  obtain ⟨values, hvalues⟩ : ∃ values, env.rules.softDeleteValues? env.now t = some values :=
    ⟨_, by rw [Rules.softDeleteValues?, hrule]; rfl⟩
  rw [prepareDeletion_of_some env desired t b criteria byKey check hvalues] at h
  obtain ⟨c, hc, h⟩ := bind_eq_ok.mp h
  obtain ⟨r, hr, h⟩ := bind_eq_ok.mp h
  obtain ⟨hrframe, hrunread, -⟩ := returningFor_ok hr
  have hcframe := Binding.frame_applyUpdateValues hc
  obtain ⟨as, output, has, hwritten, before, write, after, rfl, hwrite, hreads⟩ :=
    WritePlan.updateChain_ok h
  have hwriteWritten := hwritten write (by simp)
  have hparameters : write.statement.fragment.parameters =
      (as.flatMap fun a ↦ a.value.parameters) ++ criteria.flatMap Predicate.parameters := by
    rw [hwrite, Statement.update_parameters]
  -- The plain delete has only some of the parameters that the update has.
  obtain ⟨r', hr', hreturning⟩ : ∃ r', returningFor b desired .old = .ok r' ∧ r'.2 = r.2 := by
    refine map_eq_ok.mp ?_
    rw [← returningFor_applyUpdateValues hc, hr]
    rfl
  have hdistinct : DistinctNames (criteria.flatMap Predicate.parameters) := by
    have hall := hwriteWritten.distinctNames
    rw [hparameters] at hall
    exact (List.pairwise_append.mp hall).2.1
  have hr'frame : r'.1.frame = r.1.frame := by
    rw [(returningFor_ok hr').1, hrframe, hcframe]
  have hdialect : r'.1.dialect = r.1.dialect := congrArg (·.2.1) hr'frame
  have htarget : r'.1.target = r.1.target := congrArg (·.1) hr'frame
  have hkey : WritePlan.readsByLink r'.1.dialect → r'.2 = .none ∨ byKey = true := by
    rw [hdialect, hreturning]
    exact WritePlan.updateChain_byKey h
  obtain ⟨plain, hplain⟩ := WritePlan.succeeds_deleteChain_iff
    (p := { binding := r'.1, operation := "Delete", criteria, byKey, returning := r'.2, check
            identityInsert := false }) |>.mpr ⟨hdistinct, hkey⟩
  obtain ⟨output', hplainWritten, before', erase, after', rfl, herase, -⟩ :=
    WritePlan.deleteChain_ok hplain
  have heraseWritten := hplainWritten erase (by simp)
  refine ⟨before' ++ erase :: after', write, ?_,
    ⟨⟨before, after, rfl, ?_⟩, _, hwrite, erase, by simp, _, herase, ?_, rfl, ?_⟩, ?_⟩
  · rw [prepareDeletion_of_none { env with rules := {} } desired t b criteria byKey check rfl]
    exact bind_eq_ok.mpr ⟨r', hr', hplain⟩
  · intro l hl
    exact ⟨_, hreads l hl⟩
  · exact htarget.symm
  · refine Link.meets_congr hwriteWritten heraseWritten ?_ ?_
    · intro q hq
      rw [hparameters]
      exact List.mem_append_right _ hq
    · intro q hq
      rw [herase, Statement.delete_parameters]
      exact hq
  · have hupdated := Binding.Updated.applyUpdateValues (columns_eq hframe) honce hc
    have hassigns := hupdated.assigns_iff
      ((Binding.assignments_congr hrunread).symm.trans has) flag s.deleted
    have hsets : write.Sets flag s.deleted ↔ ∃ p, as.filter (fun a ↦ a.column = flag) =
        [⟨flag, .parameter p⟩] ∧ p.value = s.deleted := by
      have hvalue {p : Parameter} (hp : as.filter (fun a ↦ a.column = flag) =
          [⟨flag, .parameter p⟩]) : valueAmong write.parameters p = p.value := by
        refine hwriteWritten.valueAmong ?_
        have hmem : (⟨flag, .parameter p⟩ : Assignment) ∈ as := by
          refine List.mem_of_mem_filter (p := fun a ↦ a.column = flag) ?_
          rw [hp]
          exact List.mem_singleton_self _
        rw [hparameters]
        refine List.mem_append_left _ (List.mem_flatMap.mpr ⟨_, hmem, ?_⟩)
        exact List.mem_singleton_self p
      constructor
      · rintro ⟨u, p, hu, hp, hpv⟩
        obtain rfl := Statement.update.inj (hwrite.symm.trans hu)
        exact ⟨p, hp, (hvalue hp).symm.trans hpv⟩
      · rintro ⟨p, hp, hpv⟩
        exact ⟨_, p, hwrite, hp, (hvalue hp).trans hpv⟩
    rw [hsets, hassigns, Rules.KeepsMark, hvalues]
    rfl

/-- Where a rule marks the rows of a table as deleted, a delete removes none of them. It updates the
rows that the delete without rules would remove, and sets the mark if and only if no other value is
meant for the marked column after it. -/
theorem prepare_softDelete {env : Environment} {desired : Desired} {c : Command} {t : Table}
    (hc : c.DeletesFrom t) {s : SoftDelete} {flag : Column}
    (hrule : env.rules.softDelete? t = some (s, flag)) {chain : Chain}
    (h : prepare env desired c = .ok chain) :
    (∀ l ∈ chain, ∀ d, l.statement ≠ .delete d) ∧
      ∃ plain write, prepare { env with rules := {} } desired c = .ok plain ∧
        UpdatesInPlaceOf plain chain write ∧
        (write.Sets flag s.deleted ↔ env.rules.KeepsMark env.now t s flag) := by
  have honce : (binding env t).BoundOnce := by
    refine .of_forall_not_isBound fun e he ↦ ?_
    obtain ⟨c, -, rfl⟩ := List.mem_map.mp he
    rfl
  have hmarks : ∃ plain write, prepare { env with rules := {} } desired c = .ok plain ∧
      UpdatesInPlaceOf plain chain write ∧
      (write.Sets flag s.deleted ↔ env.rules.KeepsMark env.now t s flag) := by
    cases c with
    | delete u a o =>
      obtain rfl : u = t := hc
      obtain ⟨b, hb, h⟩ := bind_eq_ok.mp h
      obtain ⟨criteria, hcriteria, h⟩ := bind_eq_ok.mp h
      obtain ⟨plain, write, hplain, hrest⟩ := prepareDeletion_softDelete
        (Binding.frame_bindArgument hb) (honce.bindArgument hb) hrule h
      exact ⟨plain, write, bind_eq_ok.mpr ⟨b, hb, bind_eq_ok.mpr ⟨criteria, hcriteria, hplain⟩⟩,
        hrest⟩
    | deleteKeys u keys =>
      obtain rfl : u = t := hc
      obtain ⟨criterion, hcriterion, h⟩ := bind_eq_ok.mp h
      obtain ⟨plain, write, hplain, hrest⟩ := prepareDeletion_softDelete rfl honce hrule h
      exact ⟨plain, write, bind_eq_ok.mpr ⟨criterion, hcriterion, hplain⟩, hrest⟩
    | deleteWhere u criteria allRows =>
      obtain rfl : u = t := hc
      rw [prepare, prepareDeleteWhere_eq] at h
      split at h
      · simp at h
      · rename_i hguard
        obtain ⟨predicates, hpredicates, h⟩ := bind_eq_ok.mp h
        obtain ⟨plain, write, hplain, hrest⟩ := prepareDeletion_softDelete rfl honce hrule h
        refine ⟨plain, write, ?_, hrest⟩
        rw [prepare, prepareDeleteWhere_eq, if_neg hguard]
        exact bind_eq_ok.mpr ⟨predicates, hpredicates, hplain⟩
    | query | insert | update | updateWhere | upsert | procedure | written => exact hc.elim
  refine ⟨?_, hmarks⟩
  obtain ⟨plain, write, -, ⟨⟨before, after, rfl, hreads⟩, u, hwrite, -⟩, -⟩ := hmarks
  intro l hl d
  by_cases hread : l ∈ before ++ after
  · obtain ⟨q, hq⟩ := hreads l hread
    simp [hq]
  · have hl' : l = write := by
      simp only [List.mem_append, List.mem_cons] at hl hread
      grind
    simp [hl', hwrite]

/-- Removed users are marked, though a rule for updates takes the mark away. -/
def unmarkingEnvironment (d : Dialect) : Environment where
  dialect := d
  rules :=
    { softDeletes := [⟨"Removed", .bool true⟩]
      values := [{ column := "Removed", onUpdate := true, value := .fixed (.bool false) }] }

theorem remove_user_unmarked :
    ∃ chain, prepare (unmarkingEnvironment .sqlite) .none
        (.deleteKeys (Users.table .sqlite) [.int 1]) = .ok chain ∧
      (∀ l ∈ chain, ∀ d, l.statement ≠ .delete d) ∧ ∃ plain write,
        prepare { unmarkingEnvironment .sqlite with rules := {} } .none
          (.deleteKeys (Users.table .sqlite) [.int 1]) = .ok plain ∧
        UpdatesInPlaceOf plain chain write ∧ ¬ write.Sets (Users.removed .sqlite) (.bool true) := by
  have hok : (prepare (unmarkingEnvironment .sqlite) .none
      (.deleteKeys (Users.table .sqlite) [.int 1])).toOption.isSome := by decide +kernel
  have hrule : (unmarkingEnvironment .sqlite).rules.softDelete? (Users.table .sqlite) =
      some (⟨"Removed", .bool true⟩, Users.removed .sqlite) := by decide +kernel
  have hdeletes : (deleteKeys (Users.table .sqlite) [.int 1]).DeletesFrom (Users.table .sqlite) :=
    rfl
  have hlost : ¬ (unmarkingEnvironment .sqlite).rules.KeepsMark
      (unmarkingEnvironment .sqlite).now (Users.table .sqlite) ⟨"Removed", .bool true⟩
      (Users.removed .sqlite) := by decide +kernel
  obtain ⟨chain, hchain⟩ := exists_ok_of_isSome hok
  obtain ⟨hnone, plain, write, hplain, hupdates, hsets⟩ :=
    prepare_softDelete hdeletes hrule hchain
  exact ⟨chain, hchain, hnone, plain, write, hplain, hupdates, fun h ↦ hlost (hsets.mp h)⟩

end Command

end SchemaSql
