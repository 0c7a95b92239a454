import SchemaSql.Proofs.Command.Restriction
import SchemaSql.Proofs.Command.Selected
import SchemaSql.Proofs.Command.SoftDelete
import SchemaSql.Proofs.Statement.Conditions
import SchemaSql.Proofs.Statement.Grouping

/-!
The rows that a query is about. What is read behind WHERE is true of the rows that meet the
criteria, that have one of the wanted keys and that are not marked as deleted, and of no others:
each of these is a conjunct of its own, whatever the caller wrote into it.
-/

set_option autoImplicit false
set_option relaxedAutoImplicit false

namespace SchemaSql

/-! ### Wanted rows -/

/-- The row meets the criteria, by what texts that the caller wrote mean with their parameters. -/
def Criteria.Holds (t : Table) (written : String → List Parameter → Row → Truth) (r : Row) :
    Criteria → Prop
  | .none => True
  | .filter f ignoreNulls => ∀ p ∈ f.toProperties, ∀ c, t.column? p.name = some c →
      if p.value.isNull then ignoreNulls ∨ (r.cell c.name).isNull
      else (r.cell c.name).equal p.value = .yes
  | .written text a => written text a.toParameters r = .yes

namespace Query

/-- The row has one of the keys in the only key column. -/
def KeyWanted (t : Table) (keys : List Value) (r : Row) : Prop :=
  ∃ c, t.keyColumns = [c] ∧ ∃ key ∈ keys, (r.cell c.name).equal key = .yes

/-- A rule does not take the row to be deleted. -/
def Unmarked (rules : Rules) (t : Table) (r : Row) : Prop :=
  ∀ s c, rules.softDelete? t = some (s, c) →
    (r.cell c.name).equal s.deleted = .no ∨ (r.cell c.name).isNull

/-- The row meets all that restricts the query. -/
structure Wants (rules : Rules) (t : Table) (written : String → List Parameter → Row → Truth)
    (q : Query) (r : Row) : Prop where
  criteria : q.criteria.Holds t written r
  keys : ∀ keys, q.keys = some keys → KeyWanted t keys r
  unmarked : q.includeDeleted = false → Unmarked rules t r

/-- Nothing restricts the query. -/
def Unrestricted (rules : Rules) (t : Table) (q : Query) : Prop :=
  q.criteria = .none ∧ q.keys = none ∧ (q.includeDeleted ∨ rules.softDelete? t = none)

end Query

/-! ### Restrictions -/

namespace Table

/-- The columns are quoted for the dialect. -/
def QuotedFor (d : Dialect) (t : Table) : Prop := ∀ c ∈ t.columns, c.quoted = d.quote c.name

/-- The condition that a property of a filter stands for, if it means a column and counts. -/
def condition? (t : Table) (ignoreNulls : Bool) (p : Property) : Option Predicate :=
  (t.column? p.name).bind fun c ↦
    if p.value.isNull then if ignoreNulls then none else some (.isNull c)
    else some (.equals c (c.parameter p.value .filter))

end Table

/-- The scope has the values that the parameters of conditions were made with. -/
def Scope.Binds (sc : Scope) (criteria : List Predicate) : Prop :=
  ∀ a ∈ criteria, ∀ p ∈ a.parameters, sc.value p = p.value

namespace Command

variable {env : Environment} {t : Table} {b : Binding} {criteria : List Predicate} {sc : Scope}
  {r : Row}

/-- The conditions of a filter are those of its properties. -/
theorem filterEach_eq (hb : b.frame = (binding env t).frame) {ignoreNulls : Bool}
    {ps : List Property} (h : b.filterEach ignoreNulls ps = .ok criteria) :
    criteria = ps.filterMap (t.condition? ignoreNulls) := by
  induction ps generalizing criteria with
  | nil => exact (Except.ok.inj h).symm
  | cons p ps ih =>
    obtain ⟨first, hfirst, h⟩ := bind_eq_ok.mp h
    obtain ⟨rest, hrest, h⟩ := bind_eq_ok.mp h
    obtain rfl := Except.ok.inj h
    have hcondition : t.condition? ignoreNulls p = first := by
      rw [Table.condition?, ← column?_eq hb]
      rw [Binding.filterCriterion] at hfirst
      split at hfirst
      · rename_i hnone
        split at hfirst
        · cases hfirst
        · rw [hnone, ← Except.ok.inj hfirst]
          rfl
      · rename_i e he
        rw [he, Option.map_some, Option.bind_some]
        split at hfirst <;> simp_all
    rw [List.filterMap_cons, hcondition, ih hrest]
    cases first <;> rfl

theorem truth_equals {c : Column} {p : Parameter} (hp : sc.value p = p.value) :
    (Predicate.equals c p).truth sc r = (r.cell c.name).equal p.value := by
  rw [Predicate.truth, hp]

/-- The conditions of a filter are true of the rows that have its values. -/
theorem condition?_holds (ignoreNulls : Bool) (p : Property)
    (hsc : ∀ a, t.condition? ignoreNulls p = some a → sc.Binds [a]) :
    (∀ a, t.condition? ignoreNulls p = some a → a.truth sc r = .yes) ↔
      ∀ c, t.column? p.name = some c →
        if p.value.isNull then ignoreNulls ∨ (r.cell c.name).isNull
        else (r.cell c.name).equal p.value = .yes := by
  cases hc : t.column? p.name with
  | none => simp [Table.condition?, hc]
  | some c =>
    cases hnull : p.value.isNull with
    | true => cases ignoreNulls <;> simp [Table.condition?, hc, hnull, Predicate.truth]
    | false =>
      have hcondition : t.condition? ignoreNulls p =
          some (.equals c (c.parameter p.value .filter)) := by simp [Table.condition?, hc, hnull]
      have hequals : (Predicate.equals c (c.parameter p.value .filter)).truth sc r =
          (r.cell c.name).equal p.value :=
        truth_equals (hsc _ hcondition _ List.mem_cons_self _ List.mem_cons_self)
      simp [hcondition, hequals]

theorem predicates_hold (hb : b.frame = (binding env t).frame) {c : Criteria}
    (h : c.predicates b = .ok criteria) (hsc : sc.Binds criteria) :
    (∀ a ∈ criteria, a.truth sc r = .yes) ↔ c.Holds t sc.written r := by
  cases c with
  | none =>
    obtain rfl := Except.ok.inj h
    simp [Criteria.Holds]
  | filter f ignoreNulls =>
    obtain ⟨-, heach⟩ := Binding.filterCriteria_ok h
    obtain rfl := filterEach_eq hb heach
    have hmem {p : Property} (hp : p ∈ f.toProperties) {a : Predicate}
        (ha : t.condition? ignoreNulls p = some a) :
        a ∈ f.toProperties.filterMap (t.condition? ignoreNulls) :=
      List.mem_filterMap.mpr ⟨p, hp, ha⟩
    have hbinds {p : Property} (hp : p ∈ f.toProperties) (a : Predicate)
        (ha : t.condition? ignoreNulls p = some a) : sc.Binds [a] :=
      fun _ ha' ↦ List.mem_singleton.mp ha' ▸ hsc a (hmem hp ha)
    constructor
    · intro htrue p hp
      exact (condition?_holds ignoreNulls p (hbinds hp)).mp fun a ha ↦ htrue a (hmem hp ha)
    · intro hholds a ha
      obtain ⟨p, hp, hpa⟩ := List.mem_filterMap.mp ha
      exact (condition?_holds ignoreNulls p (hbinds hp)).mpr (hholds p hp) a hpa
  | written text a =>
    obtain rfl := Except.ok.inj h
    simp [Criteria.Holds, Predicate.truth]

/-- A list of keys is one condition on the only key column, with a parameter for each key. -/
theorem keyListCriterion_key {keys : List Value} {a : Predicate}
    (h : b.keyListCriterion keys = .ok a) :
    ∃ c, b.keyColumns = [c] ∧ keys ≠ [] ∧
      ((∃ key, keys = [key] ∧ a = .equals c (Binding.keyParameter c 0 key)) ∨
        a = .among c (keys.mapIdx (Binding.keyParameter c))) := by
  rw [Binding.keyListCriterion] at h
  split at h
  · cases h
  · rename_i c hc
    refine ⟨c, hc, ?_⟩
    split at h
    · cases h
    · exact ⟨by simp, .inl ⟨_, rfl, (Except.ok.inj h).symm⟩⟩
    · rename_i hempty _
      exact ⟨hempty, .inr (Except.ok.inj h).symm⟩
  · cases h

theorem keyListCriterion_parameters {keys : List Value} {a : Predicate}
    (h : b.keyListCriterion keys = .ok a) :
    ∃ c, b.keyColumns = [c] ∧ a.parameters = keys.mapIdx (Binding.keyParameter c) := by
  obtain ⟨c, hc, -, ⟨key, rfl, rfl⟩ | rfl⟩ := keyListCriterion_key h
  · exact ⟨c, hc, rfl⟩
  · exact ⟨c, hc, rfl⟩

theorem keyListCriterion_holds {keys : List Value} {a : Predicate}
    (h : b.keyListCriterion keys = .ok a) (hkeys : b.keyColumns = t.keyColumns)
    (hsc : sc.Binds [a]) : a.truth sc r = .yes ↔ Query.KeyWanted t keys r := by
  have hvalue : ∀ p ∈ a.parameters, sc.value p = p.value := hsc a List.mem_cons_self
  obtain ⟨c, hc, -, ⟨key, rfl, rfl⟩ | rfl⟩ := keyListCriterion_key h
  · rw [truth_equals (hvalue _ List.mem_cons_self)]
    simp [Query.KeyWanted, ← hkeys, hc, Binding.keyParameter, Parameter.make]
  · have htruth : ((keys.mapIdx (Binding.keyParameter c)).map fun p ↦
        (r.cell c.name).equal (sc.value p)) = keys.map fun key ↦ (r.cell c.name).equal key := by
      refine List.ext_getElem (by simp) fun i hi _ ↦ ?_
      have hbound : i < keys.length := by simpa using hi
      have hi := hvalue (Binding.keyParameter c i keys[i]) (List.mem_mapIdx.mpr ⟨i, hbound, rfl⟩)
      rw [List.getElem_map, List.getElem_map, List.getElem_mapIdx, hi]
      rfl
    rw [Predicate.truth, htruth, Truth.any_eq_yes]
    simp [Query.KeyWanted, ← hkeys, hc]

/-- There is a condition for a list of keys, if one is given. -/
theorem listCriteria_ok {given : Option (List Value)} (h : b.listCriteria given = .ok criteria) :
    (given = none ∧ criteria = []) ∨
      ∃ keys a, given = some keys ∧ b.keyListCriterion keys = .ok a ∧ criteria = [a] := by
  cases given with
  | none => exact .inl ⟨rfl, (Except.ok.inj h).symm⟩
  | some keys =>
    obtain ⟨a, ha, rfl⟩ := map_eq_ok.mp h
    exact .inr ⟨keys, a, rfl, ha, rfl⟩

/-- The condition of a rule is true of the rows that are not marked. -/
theorem readCriterion?_holds {rules : Rules} {a : Predicate} (h : rules.readCriterion? t = some a)
    (hsc : sc.Binds [a]) : a.truth sc r = .yes ↔ Query.Unmarked rules t r := by
  obtain ⟨⟨s, c⟩, hs, rfl⟩ := Option.map_eq_some_iff.mp h
  have hvalue := hsc _ List.mem_cons_self _ List.mem_cons_self
  rw [Predicate.truth, hvalue, Truth.or_eq_yes, Truth.not_eq_yes, Truth.ofBool_eq_yes]
  simp [Query.Unmarked, hs, Parameter.make]

/-! ### Readable conditions -/

section Readable

variable {d : Dialect} {a : Predicate}

theorem quotedFor_of_column (ht : t.QuotedFor d) {c : Column} (hc : c ∈ t.columns)
    (ha : a.column? = some c) : a.QuotedFor d := by
  intro c' hc'
  obtain rfl := Option.some.inj (ha.symm.trans hc')
  exact ht c hc

theorem readable_of_builds (ht : t.QuotedFor d) {c : Criteria}
    (hbalanced : ∀ text argument, c = .written text argument → d.balanced text)
    (h : c.Builds t a) : a.QuotedFor d ∧ a.Readable d := by
  cases c with
  | none => exact h.elim
  | filter f ignoreNulls =>
    obtain ⟨p, -, c, hc, ⟨-, rfl⟩ | ⟨-, -, rfl⟩⟩ := h
    · exact ⟨quotedFor_of_column ht (List.mem_of_find?_eq_some hc) rfl, trivial⟩
    · exact ⟨quotedFor_of_column ht (List.mem_of_find?_eq_some hc) rfl, trivial⟩
  | written text argument =>
    obtain rfl : a = .written text argument.toParameters := h
    exact ⟨fun c hc ↦ by simp [Predicate.column?] at hc, hbalanced text argument rfl⟩

theorem keyListCriterion_readable (ht : t.QuotedFor d) {keys : List Value}
    (h : b.keyListCriterion keys = .ok a) (hkeys : b.keyColumns = t.keyColumns) :
    a.QuotedFor d ∧ a.Readable d := by
  obtain ⟨c, hc, hne, hcondition⟩ := keyListCriterion_key h
  have hmem : c ∈ t.columns := by
    have hkey : c ∈ t.keyColumns := by simp [← hkeys, hc]
    exact (List.mem_filter.mp hkey).1
  rcases hcondition with ⟨key, -, rfl⟩ | rfl
  · exact ⟨quotedFor_of_column ht hmem rfl, trivial⟩
  · exact ⟨quotedFor_of_column ht hmem rfl, by simpa [Predicate.Readable] using hne⟩

theorem readCriterion?_readable (ht : t.QuotedFor d) {rules : Rules}
    (h : rules.readCriterion? t = some a) : a.QuotedFor d ∧ a.Readable d := by
  obtain ⟨⟨s, c⟩, hs, rfl⟩ := Option.map_eq_some_iff.mp h
  obtain ⟨rule, -, hrule⟩ := List.exists_of_findSome?_eq_some hs
  obtain ⟨c', hc', hpair⟩ := Option.map_eq_some_iff.mp hrule
  obtain rfl : c' = c := congrArg (·.2) hpair
  exact ⟨quotedFor_of_column ht (List.mem_of_find?_eq_some hc') rfl, trivial⟩

end Readable

end Command

/-- Only where parameters have names may one of them stand in front of the conditions. -/
theorem Limits.parameters_top {d : Dialect} (l : Limits) (h : d.placeholderStyle ≠ .named) :
    (topClause (l.top d)).parameters = [] := by
  cases d with
  | sqlServer => exact absurd rfl h
  | access =>
    have hliteral (n : Int64) (percent : Bool) :
        (topClause (some ⟨.literal n, percent, false⟩)).parameters = [] := by
      simp [topClause, Amount.fragment]
    rw [top]
    cases l.effective <;> cases l.take <;> first | rfl | exact hliteral _ _
  | postgreSql | mySql | sqlite => simp [top, topClause]

namespace Query

open Command

variable {env : Environment} {t : Table} {q : Query} {b : Binding} {criteria : List Predicate}
  {sc : Scope} {r : Row}

/-- The restrictions of a query, one after another. -/
theorem predicates_ok (hq : q.source = .table t) (h : q.predicates env b = .ok criteria) :
    ∃ own keys, q.criteria.predicates b = .ok own ∧ b.listCriteria q.keys = .ok keys ∧
      criteria = own ++ keys ++
        (if q.includeDeleted then none else env.rules.readCriterion? t).toList := by
  rw [predicates_eq] at h
  obtain ⟨own, hown, h⟩ := bind_eq_ok.mp h
  obtain ⟨keys, hkeys, h⟩ := bind_eq_ok.mp h
  rw [hq] at h
  exact ⟨own, keys, hown, hkeys, (Except.ok.inj h).symm⟩

/-- All restrictions are true of the rows that the query wants, and of no others. -/
theorem predicates_wanted (hq : q.source = .table t) (hb : b.frame = (binding env t).frame)
    (hkeys : b.keyColumns = t.keyColumns) (h : q.predicates env b = .ok criteria)
    (hsc : sc.Binds criteria) :
    (∀ a ∈ criteria, a.truth sc r = .yes) ↔ q.Wants env.rules t sc.written r := by
  obtain ⟨own, keyed, hown, hkeyed, rfl⟩ := predicates_ok hq h
  have hbinds {part : List Predicate} (hpart : ∀ a ∈ part, a ∈ own ++ keyed ++
      (if q.includeDeleted then none else env.rules.readCriterion? t).toList) : sc.Binds part :=
    fun a ha ↦ hsc a (hpart a ha)
  have hcriteria := predicates_hold (r := r) hb hown (hbinds fun a ha ↦ by simp [ha])
  -- Each restriction is a part of the conditions, and is the condition on the row that it asks for.
  have hlisted : (∀ a ∈ keyed, a.truth sc r = .yes) ↔
      ∀ keys, q.keys = some keys → KeyWanted t keys r := by
    rcases listCriteria_ok hkeyed with ⟨hnone, rfl⟩ | ⟨keys, a, hgiven, ha, rfl⟩
    · simp [hnone]
    · have hholds := keyListCriterion_holds (r := r) ha hkeys (hbinds fun a ha ↦ by
        simp [List.mem_singleton.mp ha])
      simpa [hgiven] using hholds
  have hmarked : (∀ a ∈ (if q.includeDeleted then none else env.rules.readCriterion? t).toList,
      a.truth sc r = .yes) ↔ (q.includeDeleted = false → Unmarked env.rules t r) := by
    cases hdeleted : q.includeDeleted with
    | true => simp
    | false =>
      cases hread : env.rules.readCriterion? t with
      | none =>
        have hrule : env.rules.softDelete? t = none := Option.map_eq_none_iff.mp hread
        simp [Unmarked, hrule]
      | some a =>
        have hholds := readCriterion?_holds (r := r) hread (hbinds fun a' ha' ↦ by
          simp [List.mem_singleton.mp ha', hdeleted, hread])
        simpa using hholds
  simp only [List.forall_mem_append, hcriteria, hlisted, hmarked]
  exact ⟨fun ⟨⟨hcriteria, hkeys⟩, hmarked⟩ ↦ ⟨hcriteria, hkeys, hmarked⟩,
    fun hwants ↦ ⟨⟨hwants.criteria, hwants.keys⟩, hwants.unmarked⟩⟩

theorem predicates_eq_nil_iff (hq : q.source = .table t)
    (hb : b.frame = (binding env t).frame) (h : q.predicates env b = .ok criteria) :
    criteria = [] ↔ q.Unrestricted env.rules t := by
  obtain ⟨own, keyed, hown, hkeyed, rfl⟩ := predicates_ok hq h
  have hcriteria : own = [] ↔ q.criteria = .none := by
    rcases Criteria.predicates_built hb hown with ⟨hnone, rfl⟩ | ⟨hne, hbuilt⟩
    · simp [hnone]
    · refine ⟨fun hnil ↦ absurd hnil hne, fun hnone ↦ ?_⟩
      rw [hnone] at hown
      exact (Except.ok.inj hown).symm
  have hlisted : keyed = [] ↔ q.keys = none := by
    rcases listCriteria_ok hkeyed with ⟨hnone, rfl⟩ | ⟨keys, a, hgiven, -, rfl⟩
    · simp [hnone]
    · simp [hgiven]
  have hmarked : (if q.includeDeleted then none else env.rules.readCriterion? t).toList = [] ↔
      q.includeDeleted ∨ env.rules.softDelete? t = none := by
    cases q.includeDeleted <;> simp [Rules.readCriterion?]
  rw [List.append_eq_nil_iff, List.append_eq_nil_iff, hcriteria, hlisted, hmarked, and_assoc]
  rfl

/-- Every restriction can be read, if the columns are quoted for the dialect and the parentheses of
a text that the caller wrote match. -/
theorem predicates_readable (hq : q.source = .table t) (hb : b.frame = (binding env t).frame)
    (hkeys : b.keyColumns = t.keyColumns) (h : q.predicates env b = .ok criteria) {d : Dialect}
    (ht : t.QuotedFor d)
    (hbalanced : ∀ text argument, q.criteria = .written text argument → d.balanced text) :
    ∀ a ∈ criteria, a.QuotedFor d ∧ a.Readable d := by
  obtain ⟨own, keyed, hown, hkeyed, rfl⟩ := predicates_ok hq h
  intro a ha
  rw [List.mem_append, List.mem_append] at ha
  rcases ha with (ha | ha) | ha
  · rcases Criteria.predicates_built hb hown with ⟨-, rfl⟩ | ⟨-, hbuilt⟩
    · cases ha
    · exact readable_of_builds ht hbalanced (hbuilt a ha)
  · rcases listCriteria_ok hkeyed with ⟨-, rfl⟩ | ⟨keys, a', -, ha', rfl⟩
    · cases ha
    · obtain rfl := List.mem_singleton.mp ha
      exact keyListCriterion_readable ht ha' hkeys
  · cases hdeleted : q.includeDeleted with
    | true => simp [hdeleted] at ha
    | false => exact readCriterion?_readable ht (by simpa [hdeleted] using ha)

/-! ### Queries of tables -/

theorem exists_textAfter_whereClause (style : PlaceholderStyle) (count : Nat) (a : Predicate)
    (as : List Predicate) : ∃ rest, (whereClause (a :: as)).textAfter style count =
      " WHERE " ++ a.fragment.textAfter style count ++ rest := by
  cases as with
  | nil => exact ⟨"", by simp [whereClause, conjunction, Fragment.join]⟩
  | cons a' as =>
    refine ⟨" AND " ++ (conjunction (a' :: as)).textAfter style (count + a.parameters.length), ?_⟩
    have hjoin : conjunction (a :: a' :: as) =
        a.fragment ++ Fragment.text " AND " ++ conjunction (a' :: as) := rfl
    simp [whereClause, hjoin, String.append_assoc]

/-- In front of no numbered placeholder a text is written as the caller wrote it. -/
theorem textAfter_written {style : PlaceholderStyle} {count : Nat}
    (h : style = .numbered → count = 0) (text : String) (ps : List Parameter) :
    (Predicate.written text ps).fragment.textAfter style count = "(" ++ text ++ ")" := by
  have hraw : Fragment.pieceText style count (.raw text ps) = text := by
    cases style with
    | named | positional => rfl
    | numbered => simp [Fragment.pieceText, Fragment.shiftPlaceholders, h rfl]
  simp [Predicate.fragment, hraw]

theorem predicates_of_written (hq : q.source = .table t) (h : q.predicates env b = .ok criteria)
    {text : String} {argument : Argument} (hcriteria : q.criteria = .written text argument) :
    ∃ others, criteria = .written text argument.toParameters :: others := by
  obtain ⟨own, keyed, hown, -, rfl⟩ := predicates_ok hq h
  rw [hcriteria] at hown
  obtain rfl := Except.ok.inj hown
  exact ⟨_, rfl⟩

/-- Each key has a parameter of its own, in order. -/
theorem parameters_of_keys (hq : q.source = .table t) (h : q.predicates env b = .ok criteria)
    {keys : List Value} (hkeys : q.keys = some keys) :
    ∃ c before after, b.keyColumns = [c] ∧ criteria.flatMap Predicate.parameters =
      before ++ keys.mapIdx (Binding.keyParameter c) ++ after := by
  obtain ⟨own, keyed, -, hkeyed, rfl⟩ := predicates_ok hq h
  rw [hkeys] at hkeyed
  obtain ⟨a, ha, rfl⟩ := map_eq_ok.mp hkeyed
  obtain ⟨c, hc, hlisted⟩ := keyListCriterion_parameters ha
  exact ⟨c, own.flatMap Predicate.parameters,
    (if q.includeDeleted then none else env.rules.readCriterion? t).toList.flatMap
      Predicate.parameters, hc, by simp [hlisted]⟩

/-- The link is a select of the rows that a query wants. The condition that is read behind WHERE is
true of them with the parameters of the call, each of its parts is written where the parameters that
it was made with are counted, and there is one unless nothing restricts the query. Each key has a
parameter of its own, and a text that the caller wrote stands there as it was written. -/
structure RestrictedBy (env : Environment) (t : Table) (q : Query) (l : Link) (s : Select) :
    Prop where
  statement : l.statement = .select s
  source : s.source = .table t.target
  text : l.text = s.textIn env.dialect.placeholderStyle
  condition : ∃ a, readWhere env.dialect ((whereClause s.criteria).signs env.dialect) = some a ∧
    (a = none ↔ q.Unrestricted env.rules t) ∧ ∀ written lastIdentity r,
      (a.map (Formula.truth (l.scope written lastIdentity) r)).getD .yes = .yes ↔
        q.Wants env.rules t written r
  said : ∃ texts, (whereClause s.criteria).textAfter env.dialect.placeholderStyle
      (topClause s.top).parameters.length = whereText texts ∧
    (texts = [] ↔ q.Unrestricted env.rules t) ∧
    ConditionsSaid env.dialect.placeholderStyle l.parameters (topClause s.top).parameters.length
      s.criteria texts
  keys : ∀ keys, q.keys = some keys → ∃ c before after, t.keyColumns = [c] ∧
    l.parameters = before ++ keys.mapIdx (Binding.keyParameter c) ++ after
  verbatim : ∀ text argument, q.criteria = .written text argument → ∃ rest after,
    (whereClause s.criteria).textAfter env.dialect.placeholderStyle
        (topClause s.top).parameters.length = " WHERE (" ++ text ++ ")" ++ rest ∧
      l.parameters = (topClause s.top).parameters ++ argument.toParameters ++ after ∧
      (env.dialect.placeholderStyle ≠ .named → (topClause s.top).parameters = [])

namespace Selects

variable {desired : Desired} {terms : List OrderTerm} {limits : Limits} {s : Select} {l : Link}
  (h : q.Selects env desired b terms limits s) (hq : q.source = .table t)
  (hwritten : l.WrittenIn env.dialect) (hstatement : l.statement = .select s)

include h hq

theorem source_table : s.source = .table t.target := by
  have hresolved := h.source
  rw [hq] at hresolved
  exact (Except.ok.inj hresolved).symm

theorem frame_table : b.frame = (binding env t).frame := by
  rw [h.frame_eq, base, hq]
  rfl

theorem keyColumns_table : b.keyColumns = t.keyColumns := by
  rw [h.keyColumns_eq, hq]
  rfl

include hwritten hstatement

theorem parameters_eq : l.parameters = (topClause s.top).parameters ++
    s.criteria.flatMap Predicate.parameters ++ s.window.clause.parameters := by
  rw [(Fragment.render_ok hwritten).1, hstatement, Statement.query_parameters, h.source_table hq]
  simp [Source.fragment]

/-- A call of the link finds the values that the conditions were made with. -/
theorem binds (written : String → List Parameter → Row → Truth) (lastIdentity : Value) :
    (l.scope written lastIdentity).Binds s.criteria := by
  intro a ha p hp
  refine hwritten.valueAmong ?_
  rw [← (Fragment.render_ok hwritten).1, h.parameters_eq hq hwritten hstatement]
  exact List.mem_append_left _ (List.mem_append_right _ (List.mem_flatMap.mpr ⟨a, ha, hp⟩))

theorem reads_wanted (ht : t.QuotedFor env.dialect)
    (hbalanced : ∀ text argument, q.criteria = .written text argument → env.dialect.balanced text) :
    ∃ a, readWhere env.dialect ((whereClause s.criteria).signs env.dialect) = some a ∧
      (a = none ↔ q.Unrestricted env.rules t) ∧ ∀ written lastIdentity r,
        (a.map (Formula.truth (l.scope written lastIdentity) r)).getD .yes = .yes ↔
          q.Wants env.rules t written r := by
  have hb := h.frame_table hq
  have hkeys := h.keyColumns_table hq
  have hreadable := predicates_readable hq hb hkeys h.criteria ht hbalanced
  obtain ⟨a, ha, hnone, htruth⟩ := readWhere_whereClause (fun a ha ↦ (hreadable a ha).1)
    fun a ha ↦ (hreadable a ha).2
  refine ⟨a, ha, hnone.trans (predicates_eq_nil_iff hq hb h.criteria),
    fun written lastIdentity r ↦ ?_⟩
  rw [htruth, Truth.all_eq_yes, List.forall_mem_map]
  exact predicates_wanted hq hb hkeys h.criteria (h.binds hq hwritten hstatement written lastIdentity)

theorem said : ∃ texts, (whereClause s.criteria).textAfter env.dialect.placeholderStyle
      (topClause s.top).parameters.length = whereText texts ∧
    (texts = [] ↔ q.Unrestricted env.rules t) ∧
    ConditionsSaid env.dialect.placeholderStyle l.parameters (topClause s.top).parameters.length
      s.criteria texts := by
  obtain ⟨-, hdistinct⟩ := Fragment.render_ok hwritten
  refine ⟨_, textAfter_whereClause _ _, ?_, ?_⟩
  · rw [← predicates_eq_nil_iff hq (h.frame_table hq) h.criteria]
    cases s.criteria <;> simp [Fragment.textsAfter]
  · rw [h.parameters_eq hq hwritten hstatement] at hdistinct ⊢
    exact conditionsSaid hdistinct

theorem parameters_keys {keys : List Value} (hkeys : q.keys = some keys) :
    ∃ c before after, t.keyColumns = [c] ∧
      l.parameters = before ++ keys.mapIdx (Binding.keyParameter c) ++ after := by
  obtain ⟨c, before, after, hc, hlisted⟩ := parameters_of_keys hq h.criteria hkeys
  refine ⟨c, (topClause s.top).parameters ++ before, after ++ s.window.clause.parameters,
    h.keyColumns_table hq ▸ hc, ?_⟩
  rw [h.parameters_eq hq hwritten hstatement, hlisted]
  simp only [List.append_assoc]

theorem verbatim {text : String} {argument : Argument}
    (hcriteria : q.criteria = .written text argument) : ∃ rest after,
    (whereClause s.criteria).textAfter env.dialect.placeholderStyle
        (topClause s.top).parameters.length = " WHERE (" ++ text ++ ")" ++ rest ∧
      l.parameters = (topClause s.top).parameters ++ argument.toParameters ++ after ∧
      (env.dialect.placeholderStyle ≠ .named → (topClause s.top).parameters = []) := by
  obtain ⟨others, hothers⟩ := predicates_of_written hq h.criteria hcriteria
  -- Where placeholders are numbered or counted, nothing stands in front of the criteria.
  have hhead (hstyle : env.dialect.placeholderStyle ≠ .named) :
      (topClause s.top).parameters = [] := by
    rw [h.top]
    exact limits.parameters_top hstyle
  have hcount (hstyle : env.dialect.placeholderStyle = .numbered) :
      (topClause s.top).parameters.length = 0 := by
    rw [hhead (by simp [hstyle]), List.length_nil]
  obtain ⟨rest, hrest⟩ := exists_textAfter_whereClause env.dialect.placeholderStyle
    (topClause s.top).parameters.length (.written text argument.toParameters) others
  refine ⟨rest, others.flatMap Predicate.parameters ++ s.window.clause.parameters, ?_, ?_, hhead⟩
  · rw [hothers, hrest, textAfter_written hcount]
    simp only [String.append_assoc]
    rfl
  · rw [h.parameters_eq hq hwritten hstatement, hothers, List.flatMap_cons]
    simp only [List.append_assoc]
    rfl

theorem restrictedBy (ht : t.QuotedFor env.dialect)
    (hbalanced : ∀ text argument, q.criteria = .written text argument → env.dialect.balanced text) :
    q.RestrictedBy env t l s where
  statement := hstatement
  source := h.source_table hq
  text := by rw [Fragment.render_text hwritten, hstatement, Statement.select_text]
  condition := h.reads_wanted hq hwritten hstatement ht hbalanced
  said := h.said hq hwritten hstatement
  keys _ hkeys := h.parameters_keys hq hwritten hstatement hkeys
  verbatim _ _ hcriteria := h.verbatim hq hwritten hstatement hcriteria

end Selects

end Query

namespace Command

variable {env : Environment} {desired : Desired} {t : Table} {q : Query} {chain : Chain}

/-- The rows for which the clause behind WHERE is true are those that meet everything which
restricts the query, and no restriction touches another. -/
theorem prepare_wanted (hq : q.source = .table t) (ht : t.QuotedFor env.dialect)
    (hbalanced : ∀ text argument, q.criteria = .written text argument → env.dialect.balanced text)
    (h : prepare env desired (.query q) = .ok chain) :
    ∃ l s, chain = [l] ∧ q.RestrictedBy env t l s := by
  obtain ⟨l, s, b, terms, limits, rfl, hwritten, hstatement, hselects⟩ := Query.prepare_ok h
  exact ⟨l, s, rfl, hselects.restrictedBy hq hwritten hstatement ht hbalanced⟩

/-- The users with one of two keys of whom the caller says one of two things. -/
def eitherUsers (d : Dialect) : Query where
  source := .table (Users.table d)
  criteria := .written "Name = $1 OR (Name IS NULL)" (.properties [⟨"who", .text "Ada", false⟩])
  keys := some [.int 1, .int 2]

theorem eitherUsers_wanted :
    (Users.table .postgreSql).QuotedFor .postgreSql ∧
      Dialect.postgreSql.balanced "Name = $1 OR (Name IS NULL)" ∧
      ∃ l s, prepare (Users.environment .postgreSql (.bool true) (.text "x")) .all
          (.query (eitherUsers .postgreSql)) = .ok [l] ∧
        (eitherUsers .postgreSql).RestrictedBy
          (Users.environment .postgreSql (.bool true) (.text "x")) (Users.table .postgreSql) l s := by
  have hquoted : (Users.table .postgreSql).QuotedFor .postgreSql := by
    unfold Table.QuotedFor
    decide +kernel
  have hbalanced : Dialect.postgreSql.balanced "Name = $1 OR (Name IS NULL)" := by
    decide +kernel
  have hok : (prepare (Users.environment .postgreSql (.bool true) (.text "x")) .all
      (.query (eitherUsers .postgreSql))).toOption.isSome := by decide +kernel
  refine ⟨hquoted, hbalanced, ?_⟩
  obtain ⟨chain, hchain⟩ := exists_ok_of_isSome hok
  obtain ⟨l, s, rfl, hrestricted⟩ := prepare_wanted rfl hquoted
    (fun text argument htext ↦ by cases htext; exact hbalanced) hchain
  exact ⟨l, s, hchain, hrestricted⟩

end Command

end SchemaSql
