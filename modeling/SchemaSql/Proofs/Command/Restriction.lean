import SchemaSql.Proofs.Binding.Clauses
import SchemaSql.Proofs.Command.Chains
import SchemaSql.Proofs.Command.Stages

/-!
The rows that updates and deletes meet. Every statement of a chain that updates or deletes rows has
the conditions of the plan that it carries out, and the conditions of a filter or of a text come
from the request.
-/

set_option autoImplicit false
set_option relaxedAutoImplicit false

namespace SchemaSql

/-! ### Conditions that come from a request -/

/-- The condition says of a property of the filter what the filter says of it. -/
def Criteria.Builds (t : Table) : Criteria → Predicate → Prop
  | .none, _ => False
  | .filter f ignoreNulls, p => ∃ q ∈ f.toProperties, ∃ c, t.column? q.name = some c ∧
      (q.value.isNull = false ∧ p = .equals c (c.parameter q.value .filter) ∨
        q.value.isNull = true ∧ ignoreNulls = false ∧ p = .isNull c)
  | .written text a, p => p = .written text a.toParameters

theorem Criteria.predicates_built {env : Environment} {t : Table} {b : Binding}
    (hb : b.frame = (Command.binding env t).frame) {c : Criteria} {criteria : List Predicate}
    (h : c.predicates b = .ok criteria) :
    (c = .none ∧ criteria = []) ∨ criteria ≠ [] ∧ ∀ p ∈ criteria, c.Builds t p := by
  cases c with
  | none => exact .inl ⟨rfl, (Except.ok.inj h).symm⟩
  | filter f ignoreNulls =>
    obtain ⟨hnonempty, heach⟩ := Binding.filterCriteria_ok h
    refine .inr ⟨hnonempty, ?_⟩
    intro p hp
    obtain ⟨q, hq, e, he, hcondition⟩ := Binding.filterEach_ok heach p hp
    exact ⟨q, hq, e.column, Command.column?_of_entry? hb he, hcondition⟩
  | written text a =>
    obtain rfl := Except.ok.inj h
    exact .inr ⟨by simp, by simp [Builds]⟩

/-- The conditions on the rows that an update or delete meets. -/
def Statement.restriction? : Statement → Option (List Predicate)
  | .update s => some s.criteria
  | .delete s => some s.criteria
  | _ => none

/-! ### Conditions of chains -/

/-- Every update and delete of the chain is written in the dialect and meets the rows of certain
conditions. -/
def Chain.RestrictedTo (d : Dialect) (IsRestriction : List Predicate → Prop) (chain : Chain) :
    Prop :=
  ∀ l ∈ chain, ∀ criteria, l.statement.restriction? = some criteria →
    l.WrittenIn d ∧ IsRestriction criteria

namespace Chain.RestrictedTo

variable {d : Dialect} {chain : Chain} {IsRestriction : List Predicate → Prop}

theorem of_unrestricted (h : ∀ l ∈ chain, l.statement.restriction? = none) :
    chain.RestrictedTo d IsRestriction := by
  intro l hl criteria hcriteria
  rw [h l hl] at hcriteria
  simp at hcriteria

theorem of_singleton {l : Link} (h : l.statement.restriction? = none) :
    Chain.RestrictedTo d IsRestriction [l] :=
  .of_unrestricted fun _ hl ↦ List.mem_singleton.mp hl ▸ h

theorem of_carriedOutBy {p : WritePlan} {s : Statement} (h : p.CarriedOutBy s chain)
    (hd : p.dialect = d) (hs : s.restriction? = some p.criteria) (hp : IsRestriction p.criteria) :
    chain.RestrictedTo d IsRestriction := by
  obtain ⟨hwritten, before, write, after, rfl, hwrite, hreads⟩ := h
  intro l hl criteria hcriteria
  refine ⟨hd ▸ hwritten l hl, ?_⟩
  by_cases hread : l ∈ before ++ after
  · rw [hreads l hread] at hcriteria
    cases hcriteria
  · have hl' : l = write := by
      simp only [List.mem_append, List.mem_cons] at hl hread
      grind
    rw [hl', hwrite, hs] at hcriteria
    exact Option.some.inj hcriteria ▸ hp

end Chain.RestrictedTo

namespace Command

variable {env : Environment} {desired : Desired} {t : Table} {chain : Chain} {b : Binding}
  {criteria : List Predicate} {IsRestriction : List Predicate → Prop}

theorem dialect_eq (hb : b.frame = (binding env t).frame) : b.dialect = env.dialect := by
  rw [frame_binding] at hb
  exact congrArg (·.2.1) hb

theorem frame_bindUpdate (hb : b.frame = (binding env t).frame) :
    (env.rules.bindUpdate env.now b).frame = (binding env t).frame :=
  (Binding.frame_bindWhere _ _ _ b).trans hb

theorem prepareDeletion_restrictedTo (hb : b.frame = (binding env t).frame) {byKey : Bool}
    {check : RowCheck} (hcriteria : IsRestriction criteria)
    (h : prepareDeletion env desired t b criteria byKey check = .ok chain) :
    chain.RestrictedTo env.dialect IsRestriction := by
  cases hmarks : env.rules.softDeleteValues? env.now t with
  | none =>
    rw [prepareDeletion_of_none env desired t b criteria byKey check hmarks] at h
    obtain ⟨r, hr, h⟩ := bind_eq_ok.mp h
    obtain ⟨output, hcarried⟩ := WritePlan.deleteChain_ok h
    refine .of_carriedOutBy hcarried ?_ rfl hcriteria
    exact dialect_eq ((returningFor_ok hr).1.trans hb)
  | some values =>
    rw [prepareDeletion_of_some env desired t b criteria byKey check hmarks] at h
    obtain ⟨c, hc, h⟩ := bind_eq_ok.mp h
    obtain ⟨r, hr, h⟩ := bind_eq_ok.mp h
    obtain ⟨as, output, -, hcarried⟩ := WritePlan.updateChain_ok h
    refine .of_carriedOutBy hcarried ?_ rfl hcriteria
    exact dialect_eq ((returningFor_ok hr).1.trans
      ((Binding.frame_applyUpdateValues hc).trans hb))

/-- Requests that only add or read rows, or run what the caller wrote, update and delete nothing. -/
theorem restriction?_none {l : Link} (h : (∃ s, l.statement = .insert s) ∨
    (∃ s, l.statement = .select s) ∨ l.statement = .lastIdentity) :
    l.statement.restriction? = none := by
  rcases h with ⟨s, hs⟩ | ⟨s, hs⟩ | hs <;> rw [hs] <;> rfl

theorem procedureLink_restriction? {d : Dialect} {p : Procedure} {ps : List Parameter} {l : Link}
    (h : procedureLink d p ps = .ok l) : l.statement.restriction? = none := by
  cases d with
  | sqlServer | access =>
    obtain rfl := Except.ok.inj h
    rfl
  | postgreSql | mySql =>
    rw [(Link.ofStatement_ok h).2.2.1]
    rfl
  | sqlite => cases h

end Command

end SchemaSql
