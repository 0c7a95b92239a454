import SchemaSql.Proofs.Command.Upsert
import SchemaSql.Proofs.Statement.Composition

/-!
What a query is prepared to: one link, whose select has the clauses that the parts of the query
stand for, each written behind the parameters of the clauses in front of it.
-/

set_option autoImplicit false
set_option relaxedAutoImplicit false

namespace SchemaSql

/-- The text of a select, clause by clause. -/
def Select.textIn (style : PlaceholderStyle) (s : Select) : String :=
  "SELECT " ++ (topClause s.top).textAfter style 0 ++ s.projection.text ++ " FROM " ++
    s.source.fragment.textAfter style (topClause s.top).parameters.length ++
    sampleClause s.sample ++
    (whereClause s.criteria).textAfter style
      ((topClause s.top).parameters ++ s.source.fragment.parameters).length ++
    s.order.clause ++
    s.window.clause.textAfter style ((topClause s.top).parameters ++
      s.source.fragment.parameters ++ s.criteria.flatMap Predicate.parameters).length ++ ";"

open Fragment in
theorem Statement.select_text (style : PlaceholderStyle) (s : Select) :
    (select s).fragment.textAfter style 0 = s.textIn style := by
  unfold Select.textIn
  simp only [fragment, Select.fragment, textAfter_append, textAfter_text,
    parameters_append, parameters_text, whereClause_parameters, List.append_nil, List.nil_append,
    List.length_nil, Nat.zero_add, String.append_assoc]

namespace Query

variable {env : Environment} {desired : Desired} {q : Query}

/-- The columns of the source, as a query starts with them. -/
def base (env : Environment) (q : Query) : Binding :=
  .ofColumns q.source.target q.source.columns env.dialect env.strict

theorem keyColumns_base (env : Environment) (q : Query) :
    (q.base env).keyColumns = q.source.columns.filter (·.isKey) := by
  simp [base, Binding.keyColumns, Binding.ofColumns, List.filter_map, Function.comp_def,
    Entry.ofColumn]

/-- The select has the clauses that a plan says, in a dialect that they are written for. -/
structure Selects (env : Environment) (desired : Desired) (q : Query) (b : Binding)
    (terms : List OrderTerm) (limits : Limits) (s : Select) : Prop where
  plan : q.plan env desired (q.base env) = .ok (s.projection, terms, limits, b)
  source : q.source.resolve env = .ok s.source
  criteria : q.predicates env b = .ok s.criteria
  top : s.top = limits.top env.dialect
  sample : s.sample = limits.sample env.dialect
  order : s.order = limits.order env.dialect terms
  window : s.window = limits.window env.dialect

theorem prepare_ok {chain : Chain} (h : q.prepare env desired = .ok chain) :
    ∃ l s b terms limits, chain = [l] ∧ l.WrittenIn env.dialect ∧ l.statement = .select s ∧
      q.Selects env desired b terms limits s := by
  obtain ⟨statement, hstatement, h⟩ := bind_eq_ok.mp h
  obtain ⟨l, hl, h⟩ := bind_eq_ok.mp h
  obtain rfl := Except.ok.inj h
  obtain ⟨hwritten, -, hselect, -⟩ := Link.ofStatement_ok hl
  obtain ⟨⟨projection, terms, limits, b⟩, hplan, h⟩ := bind_eq_ok.mp hstatement
  obtain ⟨source, hsource, h⟩ := bind_eq_ok.mp h
  obtain ⟨criteria, hcriteria, h⟩ := bind_eq_ok.mp h
  obtain rfl := Except.ok.inj h
  exact ⟨l, _, b, terms, limits, rfl, hwritten, hselect, hplan, hsource, hcriteria, rfl, rfl, rfl,
    rfl⟩

/-- A plan only chooses which columns are read. -/
theorem unread_plan {b : Binding} {projection : Projection} {terms : List OrderTerm}
    {limits : Limits} (h : q.plan env desired (q.base env) = .ok (projection, terms, limits, b)) :
    b.unread = (q.base env).unread := by
  cases haggregate : q.aggregate with
  | none =>
    rw [plan_eq _ _ _ _ haggregate] at h
    obtain ⟨c, hc, h⟩ := bind_eq_ok.mp h
    split at h
    · cases h
    · obtain ⟨_, -, hrest⟩ := map_eq_ok.mp h
      cases hrest
      exact Binding.unread_applyDesired hc
  | some a =>
    rw [plan, haggregate] at h
    obtain ⟨_, -, hrest⟩ := map_eq_ok.mp h
    cases hrest
    rfl

section Selects

variable {b : Binding} {terms : List OrderTerm} {limits : Limits} {s : Select}

theorem Selects.keyColumns_eq (h : q.Selects env desired b terms limits s) :
    b.keyColumns = q.source.columns.filter (·.isKey) :=
  (Binding.keyColumns_of_keyMarks (Binding.keyMarks_unread (unread_plan h.plan))).trans
    (keyColumns_base env q)

theorem Selects.frame_eq (h : q.Selects env desired b terms limits s) :
    b.frame = (q.base env).frame := by
  have hunread (c : Binding) : c.unread.frame = c.frame := Binding.frame_mapEntries fun _ ↦ rfl
  rw [← hunread b, unread_plan h.plan, hunread]

end Selects

end Query

end SchemaSql
