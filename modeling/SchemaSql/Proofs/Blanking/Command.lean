import Mathlib.Data.List.Forall2
import SchemaSql.Proofs.Blanking.Plan
import SchemaSql.Proofs.Command.Stages
import SchemaSql.Proofs.Users

/-!
Values never shape statements. Requests are blanked by replacing every value they carry: all that is
left of a filter's values is which of them are null, and nothing of any other. Requests that agree
after that are prepared alike: they fail with the same error, or give chains that differ in the
values of parameters alone. Limits are part of a request's text and stay.
-/

set_option autoImplicit false
set_option relaxedAutoImplicit false

namespace SchemaSql

/-- What a filter's condition depends on: whether the value is null. -/
def Value.nullness (v : Value) : Value := if v.isNull then .null else .bool true

/-- The argument with only the nullness of its values. -/
def Argument.nullness : Argument → Argument
  | .none => .none
  | .properties ps => .properties (ps.map fun p ↦ { p with value := p.value.nullness })
  | .parameters ps => .parameters (ps.map fun p ↦ { p with value := p.value.nullness })

def blankKeys (keys : List Value) : List Value := keys.map fun _ ↦ .null

def Criteria.blank : Criteria → Criteria
  | .none => .none
  | .filter f ignoreNulls => .filter f.nullness ignoreNulls
  | .written text a => .written text a.blank

def QuerySource.blank : QuerySource → QuerySource
  | .table t => .table t
  | .function f a => .function f a.blank

def Query.blank (q : Query) : Query :=
  { q with
    source := q.source.blank
    criteria := q.criteria.blank
    keys := q.keys.map blankKeys }

def Command.blank : Command → Command
  | .query q => .query q.blank
  | .insert t a o => .insert t a.blank o
  | .update t a o => .update t a.blank o
  | .updateWhere t a c allRows old => .updateWhere t a.blank c.blank allRows old
  | .delete t a o => .delete t a.blank o
  | .deleteKeys t keys => .deleteKeys t (blankKeys keys)
  | .deleteWhere t c allRows => .deleteWhere t c.blank allRows
  | .upsert t a o => .upsert t a.blank o
  | .procedure p a => .procedure p a.blank
  | .written text a => .written text a.blank

/-- The time of preparation is a value like those of the rules. -/
def Environment.blank (env : Environment) : Environment :=
  { env with rules := env.rules.blank, now := default }

/-- Links whose texts and ways to run are the same, and whose parameters differ in nothing but
their values. -/
structure Link.Alike (l m : Link) : Prop where
  operation : l.operation = m.operation
  text : l.text = m.text
  kind : l.kind = m.kind
  mode : l.mode = m.mode
  condition : l.condition = m.condition
  check : l.check = m.check
  parameters : l.parameters.map Parameter.blank = m.parameters.map Parameter.blank

theorem Link.alike_of_blank {l m : Link} (h : l.blank = m.blank) : l.Alike m where
  operation := (congrArg Link.operation h :)
  text := (congrArg Link.text h :)
  kind := (congrArg Link.kind h :)
  mode := (congrArg Link.mode h :)
  condition := (congrArg Link.condition h :)
  check := (congrArg Link.check h :)
  parameters := (congrArg Link.parameters h :)

/-! ### Parts of requests -/

variable {env env' : Environment}

namespace Environment

theorem dialect_congr (h : env.blank = env'.blank) : env.dialect = env'.dialect :=
  (congrArg dialect h :)

theorem strict_congr (h : env.blank = env'.blank) : env.strict = env'.strict :=
  (congrArg strict h :)

theorem rules_congr (h : env.blank = env'.blank) : env.rules.blank = env'.rules.blank :=
  (congrArg rules h :)

end Environment

theorem Value.isNull_nullness (v : Value) : v.nullness.isNull = v.isNull := by
  cases v <;> rfl

/-- A filter's condition is the same, values apart, for a property with the same nullness. -/
theorem Binding.filterCriterion_nullness (b : Binding) (ignoreNulls : Bool) (p : Property) :
    (b.filterCriterion ignoreNulls { p with value := p.value.nullness }).map
        (Option.map Predicate.blank) =
      (b.filterCriterion ignoreNulls p).map (Option.map Predicate.blank) := by
  simp only [filterCriterion, Value.isNull_nullness]
  cases b.entry? p.name with
  | none => rfl
  | some e => cases p.value.isNull <;> rfl

theorem Binding.filterEach_nullness (b : Binding) (ignoreNulls : Bool) (ps : List Property) :
    AlikeBy (List.map Predicate.blank)
      (b.filterEach ignoreNulls (ps.map fun p ↦ { p with value := p.value.nullness }))
      (b.filterEach ignoreNulls ps) := by
  induction ps with
  | nil => exact .refl _
  | cons p ps ih =>
    refine AlikeBy.bind (b.filterCriterion_nullness ignoreNulls p) fun first first' hfirst ↦ ?_
    refine ih.bind fun rest rest' hrest ↦ .ok ?_
    rw [List.map_append, List.map_append, hrest]
    congr 1
    cases first <;> cases first' <;> simp_all

theorem Argument.toProperties_nullness (a : Argument) :
    a.nullness.toProperties = a.toProperties.map fun p ↦ { p with value := p.value.nullness } := by
  cases a with
  | none => rfl
  | properties ps => rfl
  | parameters ps =>
    simp only [nullness, toProperties, List.map_map]
    rfl

theorem Binding.filterCriteria_nullness (b : Binding) (f : Argument) (ignoreNulls : Bool) :
    AlikeBy (List.map Predicate.blank) (b.filterCriteria f.nullness ignoreNulls)
      (b.filterCriteria f ignoreNulls) := by
  rw [filterCriteria, filterCriteria, f.toProperties_nullness]
  refine (b.filterEach_nullness ignoreNulls f.toProperties).bind fun ps ps' hps ↦ ?_
  cases ps <;> cases ps' <;> simp_all [AlikeBy, Except.map]

theorem Criteria.predicates_blank (c : Criteria) (b : Binding) :
    AlikeBy (List.map Predicate.blank) (c.blank.predicates b) (c.predicates b) := by
  cases c with
  | none => exact .refl _
  | filter f ignoreNulls => exact b.filterCriteria_nullness f ignoreNulls
  | written text a =>
    refine .ok ?_
    simp [Predicate.blank, a.toParameters_blank, Parameter.blank]

/-- Conditions are read off the columns of a binding, whatever its values are. -/
theorem Criteria.predicates_binding_blank (c : Criteria) (b : Binding) :
    c.predicates b.blank = c.predicates b := by
  have hcriterion (ignoreNulls : Bool) (p : Property) :
      b.blank.filterCriterion ignoreNulls p = b.filterCriterion ignoreNulls p := by
    simp only [Binding.filterCriterion, Binding.entry?_blank, Binding.blank_strict,
      Binding.blank_object]
    cases b.entry? p.name <;> rfl
  have heach (ignoreNulls : Bool) (ps : List Property) :
      b.blank.filterEach ignoreNulls ps = b.filterEach ignoreNulls ps := by
    induction ps with
    | nil => rfl
    | cons p ps ih => rw [Binding.filterEach, Binding.filterEach, hcriterion, ih]
  cases c with
  | none => rfl
  | filter f ignoreNulls =>
    rw [predicates, predicates, Binding.filterCriteria, Binding.filterCriteria, heach,
      Binding.blank_object]
  | written text a => rfl

theorem Criteria.predicates_alike {c c' : Criteria} (hc : c.blank = c'.blank) {b b' : Binding}
    (hb : b.blank = b'.blank) :
    AlikeBy (List.map Predicate.blank) (c.predicates b) (c'.predicates b') := by
  have h := c.predicates_blank b
  have h' := c'.predicates_blank b'
  rw [← predicates_binding_blank, hb, predicates_binding_blank, hc] at h
  exact h.symm.trans h'

theorem Binding.keyListCriterion_blank (b : Binding) (keys : List Value) :
    b.keyListCriterion (blankKeys keys) = (b.keyListCriterion keys).map Predicate.blank := by
  have hparameters (c : Column) :
      (blankKeys keys).mapIdx (keyParameter c) =
        (keys.mapIdx (keyParameter c)).map Parameter.blank := by
    refine List.ext_getElem? fun i ↦ ?_
    simp only [blankKeys, List.getElem?_mapIdx, List.getElem?_map, Option.map_map]
    rfl
  rw [keyListCriterion, keyListCriterion]
  match b.keyColumns with
  | [] => rfl
  | [c] =>
    match keys with
    | [] => rfl
    | [key] => rfl
    | key :: key' :: rest =>
      exact congrArg (fun ps ↦ Except.ok (Predicate.among c ps)) (hparameters c)
  | _ :: _ :: _ => rfl

theorem bindRoutine_blank (object : String) (declared : List RoutineParameter) (a : Argument)
    (strict : Bool) :
    bindRoutine object declared a.blank strict =
      (bindRoutine object declared a strict).map (List.map Parameter.blank) := by
  have hbound (ps : List Property) (p : RoutineParameter) :
      boundParameter (ps.map Property.blank) p = (boundParameter ps p).blank := by
    have hfind : (ps.map Property.blank).find? (fun q ↦ p.answersTo q.name) =
        (ps.find? fun q ↦ p.answersTo q.name).map Property.blank := by
      rw [List.find?_map]
      rfl
    rw [boundParameter, boundParameter, hfind]
    cases ps.find? fun q ↦ p.answersTo q.name <;> rfl
  have hunknown (ps : List Property) :
      (ps.map Property.blank).find?
          (fun q ↦ strict && !declared.any fun p ↦ p.answersTo q.name) =
        (ps.find? fun q ↦ strict && !declared.any fun p ↦ p.answersTo q.name).map
          Property.blank := by
    rw [List.find?_map]
    rfl
  rw [bindRoutine, bindRoutine, a.toProperties_blank, hunknown]
  cases a.toProperties.find? fun q ↦ strict && !declared.any fun p ↦ p.answersTo q.name with
  | some q => rfl
  | none => simp [Except.map, hbound]

/-! ### Queries -/

theorem QuerySource.resolve_alike (henv : env.blank = env'.blank) {s s' : QuerySource}
    (hs : s.blank = s'.blank) : AlikeBy Source.blank (s.resolve env) (s'.resolve env') := by
  have hresolve (env : Environment) (s : QuerySource) :
      s.blank.resolve env.blank = (s.resolve env).map Source.blank := by
    cases s with
    | table t => rfl
    | function f a =>
      have hstrict : env.blank.strict = env.strict := rfl
      simp only [blank, resolve, bindRoutine_blank, hstrict]
      cases bindRoutine f.quoted f.parameters a env.strict with
      | error e => rfl
      | ok ps =>
        change functionSource env.dialect f (ps.map Parameter.blank) =
          (functionSource env.dialect f ps).map Source.blank
        rw [functionSource, functionSource]
        split <;> rfl
  exact .of_blank (hresolve env s) (hresolve env' s') (by rw [henv, hs])

theorem QuerySource.readCriterion?_blank (rules : Rules) (s : QuerySource) :
    s.blank.readCriterion? rules.blank = (s.readCriterion? rules).map Predicate.blank := by
  cases s with
  | table t => exact rules.readCriterion?_blank t
  | function f a => rfl

namespace Query

theorem target_blank (q : Query) : q.blank.source.target = q.source.target := by
  cases q with
  | mk source => cases source <;> rfl

theorem columns_blank (q : Query) : q.blank.source.columns = q.source.columns := by
  cases q with
  | mk source => cases source <;> rfl

/-- What a query reads, its order and its limits do not depend on values at all. -/
theorem plan_blank (env : Environment) (desired : Desired) (b : Binding) (q : Query) :
    q.blank.plan env.blank desired b = q.plan env desired b := by
  have hobject : q.blank.object = q.object := congrArg Target.quoted q.target_blank
  have hterms (b : Binding) : q.blank.orderTerms env.blank b = q.orderTerms env b := by
    rw [orderTerms, orderTerms, hobject]
    rfl
  have haggregate : q.blank.aggregate = q.aggregate := rfl
  have hlimits : q.blank.limits = q.limits := rfl
  rw [plan, plan, haggregate, hlimits, hobject]
  cases q.aggregate with
  | some a => rfl
  | none => simp only [hterms]

theorem predicates_alike (henv : env.blank = env'.blank) {q q' : Query} (hq : q.blank = q'.blank)
    (b : Binding) :
    AlikeBy (List.map Predicate.blank) (q.predicates env b) (q'.predicates env' b) := by
  have hcriteria : q.criteria.blank = q'.criteria.blank := congrArg criteria hq
  have hkeys : q.keys.map blankKeys = q'.keys.map blankKeys := congrArg keys hq
  have hdeleted : q.includeDeleted = q'.includeDeleted := (congrArg includeDeleted hq :)
  have hsource : q.source.blank = q'.source.blank := congrArg source hq
  have hunmarked : (q.source.readCriterion? env.rules).map Predicate.blank =
      (q'.source.readCriterion? env'.rules).map Predicate.blank := by
    rw [← QuerySource.readCriterion?_blank, hsource, Environment.rules_congr henv,
      QuerySource.readCriterion?_blank]
  have hlist : AlikeBy (List.map Predicate.blank) (b.listCriteria q.keys)
      (b.listCriteria q'.keys) := by
    cases hq : q.keys <;> cases hq' : q'.keys <;> rw [hq, hq'] at hkeys
    · exact .refl _
    · simp at hkeys
    · simp at hkeys
    · refine AlikeBy.map (f := Predicate.blank) ?_ fun p p' hp ↦ by simp [hp]
      exact .of_blank (b.keyListCriterion_blank _) (b.keyListCriterion_blank _)
        (by rw [Option.some.inj hkeys])
  rw [predicates_eq, predicates_eq]
  refine (Criteria.predicates_alike hcriteria rfl).bind fun ps ps' hps ↦ ?_
  refine hlist.bind fun ks ks' hks ↦ .ok ?_
  simp only [List.map_append, hps, hks, hdeleted]
  congr 1
  cases q'.includeDeleted with
  | true => rfl
  | false =>
    cases hq : q.source.readCriterion? env.rules <;>
      cases hq' : q'.source.readCriterion? env'.rules <;> simp_all

theorem statement_alike (henv : env.blank = env'.blank) (desired : Desired) {q q' : Query}
    (hq : q.blank = q'.blank) :
    AlikeBy Statement.blank (q.statement env desired) (q'.statement env' desired) := by
  have hdialect := Environment.dialect_congr henv
  have hstrict := Environment.strict_congr henv
  have htarget : q.source.target = q'.source.target := by
    rw [← target_blank, hq, target_blank]
  have hcolumns : q.source.columns = q'.source.columns := by
    rw [← columns_blank, hq, columns_blank]
  have hsource : q.source.blank = q'.source.blank := congrArg source hq
  have hplan (b : Binding) : q.plan env desired b = q'.plan env' desired b := by
    rw [← plan_blank, hq, henv, plan_blank]
  rw [statement, statement, hplan, hdialect, hstrict, htarget, hcolumns]
  refine AlikeBy.bind (f := id) (.refl _) fun head head' hhead ↦ ?_
  obtain rfl : head = head' := hhead
  refine (QuerySource.resolve_alike henv hsource).bind fun source source' hsource ↦ ?_
  refine (predicates_alike henv hq _).bind fun criteria criteria' hcriteria ↦ .ok ?_
  simp only [Statement.blank, Select.blank, hsource, hcriteria]

theorem prepare_alike (henv : env.blank = env'.blank) (desired : Desired) {q q' : Query}
    (hq : q.blank = q'.blank) :
    AlikeBy (List.map Link.blank) (q.prepare env desired) (q'.prepare env' desired) := by
  have hoperation : q.operation = q'.operation := (congrArg operation hq :)
  refine (statement_alike henv desired hq).bind fun s s' hs ↦ ?_
  rw [hoperation, Environment.dialect_congr henv]
  exact (Link.ofStatement_alike _ _ hs).bind fun l l' hl ↦ WritePlan.ok_singleton hl

end Query

/-! ### Commands -/

namespace Command

theorem bindArgument_alike (henv : env.blank = env'.blank) (t : Table) {a a' : Argument}
    (ha : a.blank = a'.blank) (marks : Bool) :
    AlikeBy Binding.blank ((binding env t).apply (Binding.bindArgument a marks))
      ((binding env' t).apply (Binding.bindArgument a' marks)) := by
  have hbinding : binding env t = binding env' t := by
    rw [binding, binding, Environment.dialect_congr henv, Environment.strict_congr henv]
  rw [hbinding]
  exact .of_blank (Binding.bindArgument_blank marks a _).symm.symm
    (Binding.bindArgument_blank marks a' _) (by rw [ha])

theorem returningFor_alike {b b' : Binding} (hb : b.blank = b'.blank) (desired : Desired)
    (wanted : Returning) :
    AlikeBy (fun r ↦ (r.1.blank, r.2)) (returningFor b desired wanted)
      (returningFor b' desired wanted) := by
  rw [returningFor, returningFor]
  split
  · exact .ok (by rw [hb])
  · refine AlikeBy.map (f := Binding.blank) ?_ fun c c' hc ↦ by rw [hc]
    exact .of_blank (b.applyDesired_blank desired) (b'.applyDesired_blank desired) (by rw [hb])

theorem requireUpdates_alike {b b' : Binding} (hb : b.blank = b'.blank) :
    AlikeBy id (requireUpdates b) (requireUpdates b') := by
  have hobject : b.object = b'.object := (congrArg Binding.object hb :)
  rw [requireUpdates, requireUpdates, Binding.hasUpdates_congr hb, hobject]
  exact .refl _

/-- The plan made of alike parts. -/
theorem plan_congr {b b' : Binding} {returning returning' : Returning}
    (hr : (b.blank, returning) = (b'.blank, returning')) {criteria criteria' : List Predicate}
    (hcriteria : criteria.map Predicate.blank = criteria'.map Predicate.blank)
    (operation : String) (byKey : Bool) (check : RowCheck) (identityInsert : Bool) :
    (WritePlan.mk b operation criteria byKey returning check identityInsert).blank =
      (WritePlan.mk b' operation criteria' byKey returning' check identityInsert).blank := by
  obtain ⟨hb, rfl⟩ := Prod.mk.inj hr
  simp only [WritePlan.blank, hb, hcriteria]

theorem withIdentities_congr {b b' : Binding} (hb : b.blank = b'.blank) (wanted : Bool) :
    (b.withIdentities wanted).blank = (b'.withIdentities wanted).blank := by
  have hblank (b : Binding) : (b.withIdentities wanted).blank = b.blank.withIdentities wanted := by
    cases wanted with
    | true => exact (Binding.refreshed_blank { b with identityInsert := true }).symm
    | false => rfl
  rw [hblank, hb, hblank]

theorem withKeyInserts_congr {b b' : Binding} (hb : b.blank = b'.blank) (wanted : Bool) :
    (b.withKeyInserts wanted).blank = (b'.withKeyInserts wanted).blank := by
  have hblank (b : Binding) : (b.withKeyInserts wanted).blank = b.blank.withKeyInserts wanted := by
    cases wanted with
    | true => exact (Binding.refreshed_blank { b with keyInserts := true }).symm
    | false => rfl
  rw [hblank, hb, hblank]

theorem prepareInsert_alike (henv : env.blank = env'.blank) (desired : Desired) (t : Table)
    {a a' : Argument} (ha : a.blank = a'.blank) (o : InsertOptions) :
    AlikeBy (List.map Link.blank) (prepareInsert env desired t a o)
      (prepareInsert env' desired t a' o) := by
  rw [prepareInsert_eq, prepareInsert_eq]
  refine (bindArgument_alike henv t ha false).bind fun b b' hb ↦ ?_
  have hc := withIdentities_congr hb o.identityInsert
  have hrules : (env.rules.bindInsert env.now (b.withIdentities o.identityInsert)).blank =
      (env'.rules.bindInsert env'.now (b'.withIdentities o.identityInsert)).blank := by
    rw [← Rules.bindInsert_blank env.rules env.now default, Environment.rules_congr henv, hc,
      Rules.bindInsert_blank]
  refine (returningFor_alike hrules desired .new).bind fun r r' hr ↦ ?_
  exact WritePlan.insertChain_alike (plan_congr hr rfl _ _ _ _)

theorem bindUpdate_congr (henv : env.blank = env'.blank) {b b' : Binding}
    (hb : b.blank = b'.blank) :
    (env.rules.bindUpdate env.now b).blank = (env'.rules.bindUpdate env'.now b').blank := by
  rw [← Rules.bindUpdate_blank env.rules env.now default, Environment.rules_congr henv, hb,
    Rules.bindUpdate_blank]

theorem prepareUpdate_alike (henv : env.blank = env'.blank) (desired : Desired) (t : Table)
    {a a' : Argument} (ha : a.blank = a'.blank) (o : UpdateOptions) :
    AlikeBy (List.map Link.blank) (prepareUpdate env desired t a o)
      (prepareUpdate env' desired t a' o) := by
  refine (bindArgument_alike henv t ha o.useKeyMarks).bind fun b b' hb ↦ ?_
  refine (requireUpdates_alike hb).bind fun _ _ _ ↦ ?_
  refine (Binding.keyCriteria_alike hb).bind fun criteria criteria' hcriteria ↦ ?_
  refine (returningFor_alike (bindUpdate_congr henv hb) desired _).bind fun r r' hr ↦ ?_
  exact WritePlan.updateChain_alike (plan_congr hr hcriteria _ _ _ _)

theorem criteria_isNone_congr {c c' : Criteria} (hc : c.blank = c'.blank) :
    c.isNone = c'.isNone := by
  have hnone (c : Criteria) : c.blank.isNone = c.isNone := by cases c <;> rfl
  rw [← hnone c, hc, hnone c']

/-- A request is refused for want of criteria, or not, whatever its values are. -/
theorem guard_alike {c c' : Criteria} (hc : c.blank = c'.blank) (allRows : Bool) (e : Error)
    {x y : Except Error Chain} (h : AlikeBy (List.map Link.blank) x y) :
    AlikeBy (List.map Link.blank) (if c.isNone && !allRows then .error e else x)
      (if c'.isNone && !allRows then .error e else y) := by
  rw [criteria_isNone_congr hc]
  cases c'.isNone && !allRows with
  | true => exact .refl (.error e)
  | false => exact h

theorem prepareUpdateWhere_alike (henv : env.blank = env'.blank) (desired : Desired) (t : Table)
    {a a' : Argument} (ha : a.blank = a'.blank) {c c' : Criteria} (hc : c.blank = c'.blank)
    (allRows returnOldValues : Bool) :
    AlikeBy (List.map Link.blank)
      (prepareUpdateWhere env desired t a c allRows returnOldValues)
      (prepareUpdateWhere env' desired t a' c' allRows returnOldValues) := by
  rw [prepareUpdateWhere_eq, prepareUpdateWhere_eq]
  refine guard_alike hc allRows _ ?_
  refine (bindArgument_alike henv t ha false).bind fun b b' hb ↦ ?_
  refine (requireUpdates_alike hb).bind fun _ _ _ ↦ ?_
  have hrules := bindUpdate_congr henv hb
  refine (Criteria.predicates_alike hc hrules).bind fun criteria criteria' hcriteria ↦ ?_
  refine (returningFor_alike hrules desired _).bind fun r r' hr ↦ ?_
  exact WritePlan.updateChain_alike (plan_congr hr hcriteria _ _ _ _)

theorem prepareDeletion_alike (henv : env.blank = env'.blank) (desired : Desired) (t : Table)
    {b b' : Binding} (hb : b.blank = b'.blank) {criteria criteria' : List Predicate}
    (hcriteria : criteria.map Predicate.blank = criteria'.map Predicate.blank) (byKey : Bool)
    (check : RowCheck) :
    AlikeBy (List.map Link.blank) (prepareDeletion env desired t b criteria byKey check)
      (prepareDeletion env' desired t b' criteria' byKey check) := by
  have hmarks : (env.rules.softDeleteValues? env.now t).map (List.map fun v ↦ (v.1, Value.null)) =
      (env'.rules.softDeleteValues? env'.now t).map (List.map fun v ↦ (v.1, Value.null)) := by
    rw [← Rules.softDeleteValues?_blank env.rules env.now default, Environment.rules_congr henv,
      Rules.softDeleteValues?_blank]
  cases hm : env.rules.softDeleteValues? env.now t <;>
    cases hm' : env'.rules.softDeleteValues? env'.now t <;> rw [hm, hm'] at hmarks
  · rw [prepareDeletion_of_none env desired t b criteria byKey check hm,
      prepareDeletion_of_none env' desired t b' criteria' byKey check hm']
    refine (returningFor_alike hb desired .old).bind fun r r' hr ↦ ?_
    exact WritePlan.deleteChain_alike (plan_congr hr hcriteria _ _ _ _)
  · simp at hmarks
  · simp at hmarks
  · rw [prepareDeletion_of_some env desired t b criteria byKey check hm,
      prepareDeletion_of_some env' desired t b' criteria' byKey check hm']
    refine AlikeBy.bind (f := Binding.blank) ?_ fun c c' hc ↦ ?_
    · exact .of_blank (Binding.applyUpdateValues_blank .audit _ b)
        (Binding.applyUpdateValues_blank .audit _ b') (by rw [hb, Option.some.inj hmarks])
    refine (returningFor_alike hc desired .old).bind fun r r' hr ↦ ?_
    exact WritePlan.updateChain_alike (plan_congr hr hcriteria _ _ _ _)

theorem prepareDelete_alike (henv : env.blank = env'.blank) (desired : Desired) (t : Table)
    {a a' : Argument} (ha : a.blank = a'.blank) (o : DeleteOptions) :
    AlikeBy (List.map Link.blank) (prepareDelete env desired t a o)
      (prepareDelete env' desired t a' o) := by
  refine (bindArgument_alike henv t ha o.useKeyMarks).bind fun b b' hb ↦ ?_
  refine (Binding.keyCriteria_alike hb).bind fun criteria criteria' hcriteria ↦ ?_
  exact prepareDeletion_alike henv desired t hb hcriteria true _

theorem prepareDeleteKeys_alike (henv : env.blank = env'.blank) (desired : Desired) (t : Table)
    {keys keys' : List Value} (hkeys : blankKeys keys = blankKeys keys') :
    AlikeBy (List.map Link.blank) (prepareDeleteKeys env desired t keys)
      (prepareDeleteKeys env' desired t keys') := by
  have hbinding : binding env t = binding env' t := by
    rw [binding, binding, Environment.dialect_congr henv, Environment.strict_congr henv]
  have hlength : keys.length = keys'.length := by
    simpa [blankKeys] using congrArg List.length hkeys
  rw [prepareDeleteKeys, prepareDeleteKeys, hbinding, hlength]
  refine AlikeBy.bind (f := Predicate.blank) ?_ fun p p' hp ↦ ?_
  · exact .of_blank (Binding.keyListCriterion_blank _ keys) (Binding.keyListCriterion_blank _ keys')
      (by rw [hkeys])
  · exact prepareDeletion_alike henv desired t rfl (by simp [hp]) true _

theorem prepareDeleteWhere_alike (henv : env.blank = env'.blank) (desired : Desired) (t : Table)
    {c c' : Criteria} (hc : c.blank = c'.blank) (allRows : Bool) :
    AlikeBy (List.map Link.blank) (prepareDeleteWhere env desired t c allRows)
      (prepareDeleteWhere env' desired t c' allRows) := by
  have hbinding : binding env t = binding env' t := by
    rw [binding, binding, Environment.dialect_congr henv, Environment.strict_congr henv]
  rw [prepareDeleteWhere_eq, prepareDeleteWhere_eq, hbinding]
  refine guard_alike hc allRows _ ?_
  refine (Criteria.predicates_alike hc rfl).bind fun criteria criteria' hcriteria ↦ ?_
  exact prepareDeletion_alike henv desired t rfl hcriteria false .ignore

theorem prepareUpsert_alike (henv : env.blank = env'.blank) (desired : Desired) (t : Table)
    {a a' : Argument} (ha : a.blank = a'.blank) (o : UpsertOptions) :
    AlikeBy (List.map Link.blank) (prepareUpsert env desired t a o)
      (prepareUpsert env' desired t a' o) := by
  have hdialect := Environment.dialect_congr henv
  rw [prepareUpsert_eq, prepareUpsert_eq]
  refine (bindArgument_alike henv t ha o.useKeyMarks).bind fun b b' hb ↦ ?_
  have hbase : (upsertBase env b o).blank = (upsertBase env' b' o).blank := by
    rw [upsertBase, upsertBase, hdialect]
    exact withKeyInserts_congr (withIdentities_congr hb _) _
  have hrules : (env.rules.bindUpsert env.now (upsertBase env b o)).blank =
      (env'.rules.bindUpsert env'.now (upsertBase env' b' o)).blank := by
    rw [← Rules.bindUpsert_blank env.rules env.now default, Environment.rules_congr henv, hbase,
      Rules.bindUpsert_blank]
  rw [Binding.hasKeyValues_congr hbase, Binding.hasInserts_congr hbase, hdialect]
  cases (upsertBase env' b' o).hasKeyValues with
  | false => exact .refl (.error _)
  | true =>
    cases (upsertBase env' b' o).hasInserts with
    | false => exact .refl (.error _)
    | true =>
      refine (returningFor_alike hrules desired .new).bind fun r r' hr ↦ ?_
      exact WritePlan.upsertChain_alike (plan_congr hr rfl _ _ _ _)

theorem prepareProcedure_alike (henv : env.blank = env'.blank) (p : Procedure)
    {a a' : Argument} (ha : a.blank = a'.blank) :
    AlikeBy (List.map Link.blank) (prepareProcedure env p a) (prepareProcedure env' p a') := by
  have hbound : AlikeBy (List.map Parameter.blank)
      (bindRoutine p.quoted p.parameters a env.strict)
      (bindRoutine p.quoted p.parameters a' env'.strict) := by
    rw [Environment.strict_congr henv]
    exact .of_blank (bindRoutine_blank _ _ a _) (bindRoutine_blank _ _ a' _) (by rw [ha])
  refine hbound.bind fun ps ps' hps ↦ ?_
  rw [Environment.dialect_congr henv]
  have hcall : (Statement.call p.target ps).blank = (Statement.call p.target ps').blank :=
    congrArg (Statement.call p.target) hps
  have hlink : (Link.ofProcedure "ProcedureCall" p.target ps).blank =
      (Link.ofProcedure "ProcedureCall" p.target ps').blank := by
    simp only [Link.blank, Link.ofProcedure, Statement.blank, hps]
  refine AlikeBy.bind (f := Link.blank) ?_ fun l l' hl ↦ WritePlan.ok_singleton hl
  cases env'.dialect with
  | sqlServer => exact .ok hlink
  | access => exact .ok hlink
  | postgreSql => exact Link.ofStatement_alike _ _ hcall
  | mySql => exact Link.ofStatement_alike _ _ hcall
  | sqlite => exact .refl (.error _)

theorem prepareWritten_alike (henv : env.blank = env'.blank) (text : String)
    {a a' : Argument} (ha : a.blank = a'.blank) :
    AlikeBy (List.map Link.blank) (prepareWritten env text a) (prepareWritten env' text a') := by
  have hparameters : a.toParameters.map Parameter.blank = a'.toParameters.map Parameter.blank := by
    rw [← a.toParameters_blank, ha, a'.toParameters_blank]
  have hstatement : (Statement.written text a.toParameters).blank =
      (Statement.written text a'.toParameters).blank :=
    congrArg (Statement.written text) hparameters
  rw [prepareWritten, prepareWritten, Environment.dialect_congr henv]
  exact (Link.ofStatement_alike _ _ hstatement).bind fun l l' hl ↦ WritePlan.ok_singleton hl

theorem prepare_alike (henv : env.blank = env'.blank) (desired : Desired) {c c' : Command}
    (hc : c.blank = c'.blank) :
    AlikeBy (List.map Link.blank) (c.prepare env desired) (c'.prepare env' desired) := by
  cases c <;> cases c' <;> simp only [blank, reduceCtorEq, Command.query.injEq,
    Command.insert.injEq, Command.update.injEq, Command.updateWhere.injEq, Command.delete.injEq,
    Command.deleteKeys.injEq, Command.deleteWhere.injEq, Command.upsert.injEq,
    Command.procedure.injEq, Command.written.injEq] at hc
  case query.query => exact Query.prepare_alike henv desired hc
  case insert.insert =>
    obtain ⟨rfl, ha, rfl⟩ := hc
    exact prepareInsert_alike henv desired _ ha _
  case update.update =>
    obtain ⟨rfl, ha, rfl⟩ := hc
    exact prepareUpdate_alike henv desired _ ha _
  case updateWhere.updateWhere =>
    obtain ⟨rfl, ha, hcriteria, rfl, rfl⟩ := hc
    exact prepareUpdateWhere_alike henv desired _ ha hcriteria _ _
  case delete.delete =>
    obtain ⟨rfl, ha, rfl⟩ := hc
    exact prepareDelete_alike henv desired _ ha _
  case deleteKeys.deleteKeys =>
    obtain ⟨rfl, hkeys⟩ := hc
    exact prepareDeleteKeys_alike henv desired _ hkeys
  case deleteWhere.deleteWhere =>
    obtain ⟨rfl, hcriteria, rfl⟩ := hc
    exact prepareDeleteWhere_alike henv desired _ hcriteria _
  case upsert.upsert =>
    obtain ⟨rfl, ha, rfl⟩ := hc
    exact prepareUpsert_alike henv desired _ ha _
  case procedure.procedure =>
    obtain ⟨rfl, ha⟩ := hc
    exact prepareProcedure_alike henv _ ha
  case written.written =>
    obtain ⟨rfl, ha⟩ := hc
    exact prepareWritten_alike henv _ ha

/-- Two requests that differ in values alone fail with the same error, or become chains of which
corresponding links are alike. -/
theorem prepare_same_error_or_alike (henv : env.blank = env'.blank) {c c' : Command}
    (hc : c.blank = c'.blank) (desired : Desired) :
    (∃ e, c.prepare env desired = .error e ∧ c'.prepare env' desired = .error e) ∨
      ∃ chain chain', c.prepare env desired = .ok chain ∧ c'.prepare env' desired = .ok chain' ∧
        List.Forall₂ Link.Alike chain chain' := by
  obtain herror | ⟨chain, chain', hchain, hchain', hblank⟩ :=
    AlikeBy.iff_errors_or_results.mp (prepare_alike henv desired hc)
  · exact .inl herror
  · refine .inr ⟨chain, chain', hchain, hchain', ?_⟩
    have hlinks : List.Forall₂ (fun l m ↦ l.blank = m.blank) chain chain' := by
      have hforall := List.forall₂_eq_eq_eq ▸ hblank
      exact List.forall₂_map_left_iff.mp (List.forall₂_map_right_iff.mp hforall)
    exact hlinks.imp fun _ _ h ↦ Link.alike_of_blank h

theorem rename_same_error_or_alike :
    (∃ e,
      prepare (Users.environment .sqlServer (.bool true) (.text "x")) .all
        (Users.rename .sqlServer (.int 1) (.text "Ann")) = .error e ∧
      prepare (Users.environment .sqlServer (.int 1) (.text "y")) .all
        (Users.rename .sqlServer (.int 2) .null) = .error e) ∨
    ∃ chain chain',
      prepare (Users.environment .sqlServer (.bool true) (.text "x")) .all
        (Users.rename .sqlServer (.int 1) (.text "Ann")) = .ok chain ∧
      prepare (Users.environment .sqlServer (.int 1) (.text "y")) .all
        (Users.rename .sqlServer (.int 2) .null) = .ok chain' ∧
      List.Forall₂ Link.Alike chain chain' := by
  have henv : (Users.environment .sqlServer (.bool true) (.text "x")).blank =
      (Users.environment .sqlServer (.int 1) (.text "y")).blank := by decide +kernel
  have hcommand : (Users.rename .sqlServer (.int 1) (.text "Ann")).blank =
      (Users.rename .sqlServer (.int 2) .null).blank := by decide +kernel
  exact prepare_same_error_or_alike henv hcommand .all

end Command

end SchemaSql
