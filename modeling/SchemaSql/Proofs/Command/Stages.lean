import SchemaSql.Command.Basic
import SchemaSql.Proofs.Binding.Bound

/-!
The stages in which commands are prepared, as sequences without side exits: an argument is bound,
roles are chosen, rules are applied, the wanted columns are marked, and a plan is written as a
chain.
-/

set_option autoImplicit false
set_option relaxedAutoImplicit false

namespace SchemaSql

namespace Binding

/-- Identity columns are inserted like others, if that is wanted. -/
def withIdentities (wanted : Bool) (b : Binding) : Binding :=
  if wanted then refreshed { b with identityInsert := true } else b

/-- Key columns are inserted even if the database would fill them, if that is wanted. -/
def withKeyInserts (wanted : Bool) (b : Binding) : Binding :=
  if wanted then refreshed { b with keyInserts := true } else b

theorem frame_withIdentities (wanted : Bool) (b : Binding) :
    (b.withIdentities wanted).frame = b.frame := by
  cases wanted with
  | true => exact frame_refreshed { b with identityInsert := true }
  | false => rfl

theorem frame_withKeyInserts (wanted : Bool) (b : Binding) :
    (b.withKeyInserts wanted).frame = b.frame := by
  cases wanted with
  | true => exact frame_refreshed { b with keyInserts := true }
  | false => rfl

end Binding

namespace Command

/-! ### The binding of a table -/

section Table

variable {env : Environment} {t : Table} {b : Binding} {name : String}

theorem frame_binding (env : Environment) (t : Table) :
    (binding env t).frame = (t.target, env.dialect, t.columns) := by
  simp [binding, Binding.ofColumns, Binding.frame, Entry.ofColumn, Function.comp_def]

theorem columns_eq (hb : b.frame = (binding env t).frame) :
    b.entries.map (·.column) = t.columns := by
  rw [frame_binding] at hb
  exact congrArg (·.2.2) hb

/-- Before an argument is bound nothing is. -/
theorem boundOnce_binding (env : Environment) (t : Table) : (binding env t).BoundOnce := by
  refine .of_forall_not_isBound fun e he ↦ ?_
  obtain ⟨c, -, rfl⟩ := List.mem_map.mp he
  rfl

theorem column?_eq (hb : b.frame = (binding env t).frame) (name : String) :
    (b.entry? name).map (·.column) = t.column? name := by
  rw [b.entry?_column, hb, frame_binding]
  rfl

theorem column?_of_entry? (hb : b.frame = (binding env t).frame) {e : Entry}
    (he : b.entry? name = some e) : t.column? name = some e.column := by
  rw [← column?_eq hb, he]
  rfl

theorem entry?_of_column?_none (hb : b.frame = (binding env t).frame)
    (h : t.column? name = none) : b.entry? name = none := by
  rw [← column?_eq hb] at h
  exact Option.map_eq_none_iff.mp h

/-- The columns to hand back are marked, and nothing else changes. -/
theorem returningFor_ok {desired : Desired} {wanted : Returning} {r : Binding × Returning}
    (h : returningFor b desired wanted = .ok r) :
    r.1.frame = b.frame ∧ r.1.unread = b.unread ∧ (b.BoundOnce → r.1.BoundOnce) := by
  rw [returningFor] at h
  split at h
  · obtain rfl := Except.ok.inj h
    exact ⟨rfl, rfl, id⟩
  · obtain ⟨c, hc, rfl⟩ := map_eq_ok.mp h
    exact ⟨Binding.frame_applyDesired hc, Binding.unread_applyDesired hc,
      fun hb ↦ hb.applyDesired hc⟩

end Table

/-! ### Stages -/

variable (env : Environment) (desired : Desired) (t : Table)

theorem prepareInsert_eq (a : Argument) (o : InsertOptions) :
    prepareInsert env desired t a o =
      ((binding env t).apply (Binding.bindArgument a false)).bind fun b ↦
        (returningFor (env.rules.bindInsert env.now (b.withIdentities o.identityInsert)) desired
          .new).bind fun r ↦
            WritePlan.insertChain
              { binding := r.1, operation := "Insert", criteria := [], byKey := false
                returning := r.2, check := .exactlyOne, identityInsert := o.identityInsert } := by
  rw [prepareInsert]
  refine congrArg (Except.bind _) (funext fun b ↦ ?_)
  rcases o with ⟨identityInsert⟩
  cases identityInsert <;> rfl

theorem prepareUpdate_eq (a : Argument) (o : UpdateOptions) :
    prepareUpdate env desired t a o =
      ((binding env t).apply (Binding.bindArgument a o.useKeyMarks)).bind fun b ↦
        (requireUpdates b).bind fun _ ↦
          b.keyCriteria.bind fun criteria ↦
            (returningFor (env.rules.bindUpdate env.now b) desired
              (oldOrNew o.returnOldValues)).bind fun r ↦
                WritePlan.updateChain
                  { binding := r.1, operation := "Update", criteria, byKey := true
                    returning := r.2, check := keyCheck o.ignoreRowsAffected
                    identityInsert := false } := rfl

theorem prepareUpdateWhere_eq (a : Argument) (c : Criteria) (allRows old : Bool) :
    prepareUpdateWhere env desired t a c allRows old =
      if c.isNone && !allRows then .error (.invalidOperation (.updateAllRows t.quoted))
      else ((binding env t).apply (Binding.bindArgument a false)).bind fun b ↦
        (requireUpdates b).bind fun _ ↦
          (c.predicates (env.rules.bindUpdate env.now b)).bind fun criteria ↦
            (returningFor (env.rules.bindUpdate env.now b) desired (oldOrNew old)).bind fun r ↦
              WritePlan.updateChain
                { binding := r.1, operation := "UpdateSet", criteria, byKey := false
                  returning := r.2, check := .ignore, identityInsert := false } := by
  rw [prepareUpdateWhere]
  split <;> rfl

/-- The check of a delete when rows are marked and not removed. -/
def markCheck (check : RowCheck) : RowCheck := if check = .exactlyOne then .atMostOne else check

theorem prepareDeletion_of_none (b : Binding) (criteria : List Predicate) (byKey : Bool)
    (check : RowCheck) (h : env.rules.softDeleteValues? env.now t = none) :
    prepareDeletion env desired t b criteria byKey check =
      (returningFor b desired .old).bind fun r ↦
        WritePlan.deleteChain
          { binding := r.1, operation := "Delete", criteria, byKey, returning := r.2, check
            identityInsert := false } := by
  rw [prepareDeletion, h]
  rfl

theorem prepareDeletion_of_some (b : Binding) (criteria : List Predicate) (byKey : Bool)
    (check : RowCheck) {values : List (String × Value)}
    (h : env.rules.softDeleteValues? env.now t = some values) :
    prepareDeletion env desired t b criteria byKey check =
      (b.apply (Binding.applyUpdateValues values .audit)).bind fun b ↦
        (returningFor b desired .old).bind fun r ↦
          WritePlan.updateChain
            { binding := r.1, operation := "SoftDelete", criteria, byKey, returning := r.2
              check := markCheck check, identityInsert := false } := by
  rw [prepareDeletion, h]
  rfl

theorem prepareDelete_eq (a : Argument) (o : DeleteOptions) :
    prepareDelete env desired t a o =
      ((binding env t).apply (Binding.bindArgument a o.useKeyMarks)).bind fun b ↦
        b.keyCriteria.bind fun criteria ↦
          prepareDeletion env desired t b criteria true (keyCheck o.ignoreRowsAffected) := rfl

theorem prepareDeleteKeys_eq (keys : List Value) :
    prepareDeleteKeys env desired t keys =
      ((binding env t).keyListCriterion keys).bind fun criterion ↦
        prepareDeletion env desired t (binding env t) [criterion] true
          (if keys.length = 1 then .exactlyOne else .ignore) := rfl

theorem prepareDeleteWhere_eq (c : Criteria) (allRows : Bool) :
    prepareDeleteWhere env desired t c allRows =
      if c.isNone && !allRows then .error (.invalidOperation (.deleteAllRows t.quoted))
      else (c.predicates (binding env t)).bind fun criteria ↦
        prepareDeletion env desired t (binding env t) criteria false .ignore := by
  rw [prepareDeleteWhere]
  split <;> rfl

/-- The binding of an upsert before its rules. -/
def upsertBase (b : Binding) (o : UpsertOptions) : Binding :=
  (b.withIdentities o.identityInsert).withKeyInserts (findsByClash env.dialect)

/-- The last two checks of an upsert before its rules, and what follows them. -/
theorem requireKeyAndInserts_eq (b : Binding) (rest : Except Error Chain) :
    (do
      if !b.hasKeyValues then throw (.mapping (.missingUpsertKey t.quoted))
      if !b.hasInserts then throw (.mapping (.nothingToInsert t.quoted))
      rest) =
      if !b.hasKeyValues then .error (.mapping (.missingUpsertKey t.quoted))
      else if !b.hasInserts then .error (.mapping (.nothingToInsert t.quoted))
      else rest := by
  cases b.hasKeyValues <;> cases b.hasInserts <;> rfl

theorem frame_upsertBase (b : Binding) (o : UpsertOptions) :
    (upsertBase env b o).frame = b.frame := by
  rw [upsertBase, Binding.frame_withKeyInserts, Binding.frame_withIdentities]

theorem prepareUpsert_eq (a : Argument) (o : UpsertOptions) :
    prepareUpsert env desired t a o =
      ((binding env t).apply (Binding.bindArgument a o.useKeyMarks)).bind fun b ↦
        if !(upsertBase env b o).hasKeyValues then .error (.mapping (.missingUpsertKey t.quoted))
        else if !(upsertBase env b o).hasInserts then
          .error (.mapping (.nothingToInsert t.quoted))
        else (returningFor (env.rules.bindUpsert env.now (upsertBase env b o)) desired
          .new).bind fun r ↦
            WritePlan.upsertChain
              { binding := r.1, operation := "Upsert", criteria := [], byKey := true
                returning := r.2, check := .ignore
                identityInsert := o.identityInsert || findsByClash env.dialect } := by
  rw [prepareUpsert]
  refine congrArg (Except.bind _) (funext fun b ↦ ?_)
  rcases o with ⟨useKeyMarks, identityInsert⟩
  cases identityInsert <;> cases hclash : findsByClash env.dialect <;>
    simp only [upsertBase, hclash] <;> exact requireKeyAndInserts_eq t _ _

end Command

/-- The condition that a list of keys stands for, if there is one. -/
def Binding.listCriteria (b : Binding) : Option (List Value) → Except Error (List Predicate)
  | some keys => (b.keyListCriterion keys).map ([·])
  | none => .ok []

namespace Query

theorem orderTerms_eq (env : Environment) (b : Binding) (q : Query) :
    q.orderTerms env b =
      (q.limits.check env.dialect (!q.sorting.isEmpty)).bind fun _ ↦
        (b.orderTerms q.sorting).bind fun terms ↦
          if q.sorting.isEmpty && q.limits.effective.hasTies then
            if env.strict then .error (.invalidOperation (.unsorted q.limits.effective))
            else match b.keyOrder? with
              | some terms => .ok terms
              | none =>
                .error (.invalidOperation (.unsortedKeyless q.limits.effective q.object))
          else .ok terms := by
  rw [orderTerms]
  refine congrArg (Except.bind _) (funext fun _ ↦ congrArg (Except.bind _) (funext fun terms ↦ ?_))
  rw [Bool.not_not]
  rfl

theorem plan_eq (env : Environment) (desired : Desired) (b : Binding) (q : Query)
    (h : q.aggregate = none) :
    q.plan env desired b =
      (readColumns b desired).bind fun b ↦
        if !b.hasReads then .error (.mapping (.nothingToRead q.object))
        else (q.orderTerms env b).map fun terms ↦ (.columns b.readColumns, terms, q.limits, b) := by
  rw [plan, h]
  refine congrArg (Except.bind _) (funext fun b ↦ ?_)
  cases b.hasReads with
  | false => rfl
  | true => cases q.orderTerms env b <;> rfl

theorem predicates_eq (env : Environment) (b : Binding) (q : Query) :
    q.predicates env b =
      (q.criteria.predicates b).bind fun criteria ↦
        (b.listCriteria q.keys).bind fun keys ↦
          .ok (criteria ++ keys ++ (if q.includeDeleted then none
            else q.source.readCriterion? env.rules).toList) := by
  rw [predicates]
  refine congrArg (Except.bind _) (funext fun criteria ↦ ?_)
  cases q.keys <;> rfl

end Query

end SchemaSql
