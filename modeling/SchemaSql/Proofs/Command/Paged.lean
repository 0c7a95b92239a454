import SchemaSql.Catalog.Introspection
import SchemaSql.Proofs.Command.Limits
import SchemaSql.Proofs.Command.Selected

/-!
The paging of queries. The clauses of a query that is prepared are read as the rows that were asked
for, in the order that was asked for, and its placeholders stand for the numbers that were given. A
query that its dialect has no clauses for is not prepared.
-/

set_option autoImplicit false
set_option relaxedAutoImplicit false

namespace SchemaSql

/-- The columns are quoted for the dialect. -/
def QuerySource.QuotedFor (d : Dialect) (source : QuerySource) : Prop :=
  ∀ c ∈ source.columns, c.quoted = d.quote c.name

theorem RowSet.quoted_of_mem_toColumns {d : Dialect} {rs : RowSet} {c : Column}
    (hc : c ∈ rs.toColumns d) : c.quoted = d.quote c.name := by
  obtain ⟨r, -, hr⟩ := List.mem_filterMap.mp hc
  obtain ⟨name, -, rfl⟩ := Option.map_eq_some_iff.mp hr
  rfl

/-- Tables and functions are quoted for the dialect of the database that has described them. -/
theorem QuerySource.quotedFor_described (d : Dialect) (rs : RowSet) (name : ObjectName) :
    (∀ isTable, (table (.make d name isTable (rs.toColumns d))).QuotedFor d) ∧
      ∀ ps a, (function (.make d name ps (rs.toColumns d)) a).QuotedFor d :=
  ⟨fun _ _ ↦ RowSet.quoted_of_mem_toColumns, fun _ _ _ ↦ RowSet.quoted_of_mem_toColumns⟩

/-! ### Order -/

namespace Binding

variable {b : Binding} {terms : List OrderTerm}

/-- Each term that a query is sorted by means a column. -/
theorem orderTerms_ok {sorting : List SortTerm} (h : b.orderTerms sorting = .ok terms) :
    List.Forall₂ (fun x t ↦ ∃ e, b.entry? x.column = some e ∧ t = ⟨e.column, x.descending⟩)
      sorting terms := by
  induction sorting generalizing terms with
  | nil =>
    obtain rfl := Except.ok.inj h
    exact .nil
  | cons x rest ih =>
    rw [Binding.orderTerms] at h
    split at h
    · cases h
    · rename_i e he
      obtain ⟨others, hothers, rfl⟩ := map_eq_ok.mp h
      exact .cons ⟨e, he, rfl⟩ (ih hothers)

theorem keyOrder?_some (h : b.keyOrder? = some terms) :
    terms ≠ [] ∧ b.keyColumns ≠ [] ∧ ∀ t ∈ terms, t.column ∈ b.keyColumns := by
  rw [keyOrder?] at h
  split at h
  · cases h
  · rename_i hkeys
    obtain rfl := Option.some.inj h
    exact ⟨by simpa using hkeys, hkeys, by simp⟩

end Binding

namespace Query

variable {env : Environment} {desired : Desired} {q : Query} {b : Binding} {terms : List OrderTerm}
  {limits : Limits} {s : Select}

/-- A limit with ties in a query that is not sorted falls back on the key. -/
def FallsBack (q : Query) : Prop := q.sorting = [] ∧ q.limits.effective.hasTies

/-- The query is sorted by the terms that were given or, for a limit with ties, by the key. -/
inductive OrderedBy (env : Environment) (b : Binding) (q : Query) (terms : List OrderTerm) : Prop
  | given (plain : ¬ q.FallsBack) (ordered : b.orderTerms q.sorting = .ok terms)
  | key (fallsBack : q.FallsBack) (lenient : env.strict = false)
      (ordered : b.keyOrder? = some terms)

theorem orderTerms_ok (h : q.orderTerms env b = .ok terms) :
    q.limits.Expressible env.dialect (!q.sorting.isEmpty) ∧ q.OrderedBy env b terms := by
  rw [orderTerms_eq] at h
  obtain ⟨_, hcheck, h⟩ := bind_eq_ok.mp h
  obtain ⟨given, hgiven, h⟩ := bind_eq_ok.mp h
  refine ⟨Limits.check_eq_ok_iff.mp hcheck, ?_⟩
  split at h
  · rename_i hties
    rw [Bool.and_eq_true, List.isEmpty_iff] at hties
    split at h
    · cases h
    · rename_i hstrict
      cases hkey : b.keyOrder? with
      | none => simp [hkey] at h
      | some key =>
        simp only [hkey] at h
        obtain rfl := Except.ok.inj h
        exact .key hties (Bool.not_eq_true _ ▸ hstrict) hkey
  · rename_i hplain
    obtain rfl := Except.ok.inj h
    rw [Bool.and_eq_true, List.isEmpty_iff] at hplain
    exact .given hplain hgiven

namespace OrderedBy

theorem eq_nil_iff (h : q.OrderedBy env b terms) :
    terms = [] ↔ q.sorting = [] ∧ ¬ q.FallsBack := by
  cases h with
  | given hplain hordered =>
    have hlength := (Binding.orderTerms_ok hordered).length_eq
    rw [← List.length_eq_zero_iff, ← hlength, List.length_eq_zero_iff]
    exact ⟨fun hsorting ↦ ⟨hsorting, hplain⟩, And.left⟩
  | key hfalls _ hordered =>
    have hterms := (Binding.keyOrder?_some hordered).1
    exact ⟨fun hnone ↦ absurd hnone hterms, fun hplain ↦ absurd hfalls hplain.2⟩

theorem column_mem (h : q.OrderedBy env b terms) :
    ∀ t ∈ terms, t.column ∈ b.entries.map (·.column) := by
  intro t ht
  cases h with
  | given _ hordered =>
    obtain ⟨x, -, e, he, rfl⟩ := forall₂_exists_of_mem (Binding.orderTerms_ok hordered) ht
    exact List.mem_map_of_mem (List.mem_of_find?_eq_some he)
  | key _ _ hordered =>
    have hkey := (Binding.keyOrder?_some hordered).2.2 t ht
    exact (List.filter_sublist.map _).subset hkey

end OrderedBy

/-- A query for rows has the limits that were given, and they make sense. -/
theorem Selects.rows (h : q.Selects env desired b terms limits s)
    (haggregate : q.aggregate = none) :
    limits = q.limits ∧ q.limits.Expressible env.dialect (!q.sorting.isEmpty) ∧
      q.OrderedBy env b terms := by
  have hplan := h.plan
  rw [plan_eq _ _ _ _ haggregate] at hplan
  obtain ⟨c, -, hplan⟩ := bind_eq_ok.mp hplan
  split at hplan
  · cases hplan
  · obtain ⟨given, hgiven, hrest⟩ := map_eq_ok.mp hplan
    simp only [Prod.mk.injEq] at hrest
    obtain ⟨-, rfl, rfl, rfl⟩ := hrest
    exact ⟨rfl, orderTerms_ok hgiven⟩

theorem Selects.columns_eq (h : q.Selects env desired b terms limits s) :
    b.entries.map (·.column) = q.source.columns := by
  have hframe := congrArg (·.2.2) h.frame_eq
  simpa [Binding.frame, base, Binding.ofColumns, Entry.ofColumn, Function.comp_def] using hframe

/-- A name means the same column of the source, whatever a query reads. -/
theorem Selects.column?_eq (h : q.Selects env desired b terms limits s) (name : String) :
    (b.entry? name).map (·.column) = q.source.columns.find? (·.answersTo name) := by
  rw [b.entry?_column]
  exact congrArg (List.find? _) h.columns_eq

theorem Selects.quoted (h : q.Selects env desired b terms limits s)
    (hquoted : q.source.QuotedFor env.dialect) (hordered : q.OrderedBy env b terms) :
    ∀ t ∈ terms, t.column.quoted = env.dialect.quote t.column.name := by
  intro t ht
  exact hquoted _ (h.columns_eq ▸ hordered.column_mem t ht)

end Query

/-! ### Paging -/

/-- The text wants rows that tie with the last one, too. -/
def Select.WithTies (d : Dialect) (s : Select) : Prop :=
  .word "TIES" ∈ (topClause s.top).signs d ∨ .word "TIES" ∈ s.window.clause.signs d

/-- The text skips rows by a clause of their own. -/
def Select.HasOffset (d : Dialect) (s : Select) : Prop := .word "OFFSET" ∈ s.window.clause.signs d

namespace Limits

variable {d : Dialect} {l : Limits}

theorem hasSkip_of_skipParameter {p : Parameter} (h : l.skipParameter = some p) : l.hasSkip := by
  rw [skipParameter] at h
  split at h
  · assumption
  · cases h

/-- The clauses want ties only where they were asked for. -/
theorem hasTies_of_withTies {s : Select} (htop : s.top = l.top d) (hwindow : s.window = l.window d)
    (h : s.WithTies d) : l.effective.hasTies := by
  rw [Select.WithTies, signs_topClause, signs_windowClause] at h
  rcases h with hhead | hend
  · obtain ⟨t, ht, hties⟩ := ties_of_mem_topSigns hhead
    rw [htop] at ht
    cases d <;> cases heffective : l.effective <;>
      simp [top, heffective, LimitOption.hasTies] at ht ⊢ <;> grind
  · obtain ⟨skip, take, hfetch⟩ := Window.ties_of_mem_signs hend
    rw [hwindow] at hfetch
    cases d <;> cases heffective : l.effective <;>
      simp [window, heffective, LimitOption.hasTies] at hfetch ⊢; grind

/-- The clauses skip rows only where some were to be skipped. -/
theorem hasSkip_of_hasOffset {s : Select} (hwindow : s.window = l.window d)
    (h : s.HasOffset d) : l.hasSkip := by
  rw [Select.HasOffset, signs_windowClause] at h
  have hskip : ∃ p, l.skipParameter = some p := by
    have hclause := Window.skip_of_mem_signs h
    rw [hwindow] at hclause
    cases d <;> cases heffective : l.effective <;> simp [window, heffective] at hclause <;> grind
  obtain ⟨p, hp⟩ := hskip
  exact hasSkip_of_skipParameter hp

theorem not_isRandomSample_of_pageable (h : pageable d l.effective) :
    l.effective.isRandomSample = false := by
  cases heffective : l.effective <;>
    simp [heffective, pageable, LimitOption.isRandomSample] at h ⊢

theorem not_isRandomSample_of_hasTies (h : l.effective.hasTies) :
    l.effective.isRandomSample = false := by
  cases heffective : l.effective <;>
    simp [heffective, LimitOption.hasTies, LimitOption.isRandomSample] at h ⊢

end Limits

namespace Query

variable {env : Environment} {desired : Desired} {q : Query} {b : Binding} {terms : List OrderTerm}
  {limits : Limits} {l : Link} {s : Select}

/-- The columns, which are descending or not, are those that the query is sorted by. -/
def SortsBy (q : Query) (read : List (String × Bool)) : Prop :=
  List.Forall₂ (fun x t ↦ ∃ c, q.source.columns.find? (·.answersTo x.column) = some c ∧
    t = (c.name, x.descending)) q.sorting read

/-- The link is a select whose clauses, with the numbers in the text or among the parameters, are
read as the rows that a query asks for. The caller's order is read as it was given, clauses that
need an order have one, and rows are not sorted where they are drawn at random. -/
structure PagedBy (env : Environment) (q : Query) (l : Link) (s : Select) : Prop where
  statement : l.statement = .select s
  text : l.text = s.textIn env.dialect.placeholderStyle
  parameters : l.parameters = s.fragment.parameters
  places : s.fragment.PlacesParameters env.dialect.placeholderStyle 0 l.text
  paging : s.paging? env.dialect (valueAmong l.parameters) = some q.limits.asked
  exclusive : (topClause s.top).signs env.dialect = [] ∨ s.window.clause.signs env.dialect = []
  sorted : q.sorting ≠ [] → ∃ terms, s.order? env.dialect = some (.sorted terms) ∧ q.SortsBy terms
  ordered : (env.dialect = .sqlServer ∨ env.dialect = .postgreSql) ∧ s.HasOffset env.dialect ∨
    s.WithTies env.dialect → ∃ terms, terms ≠ [] ∧ s.order? env.dialect = some (.sorted terms)
  shuffled : q.limits.effective.isRandomSample → ∀ terms,
    s.order? env.dialect ≠ some (.sorted terms)

/-- No statement means what the limits of a query say: they make no sense, the dialect has no
clauses for them, or ties are wanted without an order and a key. -/
def Unpageable (env : Environment) (q : Query) : Prop :=
  (∃ n, q.limits.take = some n ∧ n ≤ 0) ∨ (∃ n, q.limits.skip = some n ∧ n < 0) ∨
    ¬ q.limits.Expressible env.dialect (!q.sorting.isEmpty) ∨
    (q.FallsBack ∧ (env.strict ∨ ∀ c ∈ q.source.columns, c.isKey = false)) ∨
    ∀ s value, Select.paging? env.dialect value s ≠ some q.limits.asked

section Selects

variable (h : q.Selects env desired b terms limits s) (haggregate : q.aggregate = none)

include h haggregate

theorem Selects.clauses (hquoted : q.source.QuotedFor env.dialect)
    (hwritten : l.WrittenIn env.dialect) (hstatement : l.statement = .select s) :
    q.limits.Clauses env.dialect terms (valueAmong l.parameters) s := by
  obtain ⟨rfl, -, hordered⟩ := h.rows haggregate
  refine ⟨h.top, h.sample, h.order, h.window, fun p hp ↦ ?_, h.quoted hquoted hordered⟩
  refine hwritten.valueAmong ?_
  rw [hstatement, Statement.query_parameters]
  simp only [List.mem_append] at hp ⊢
  tauto

/-- The terms that a query is sorted by are read, unless rows are drawn at random. -/
theorem Selects.order?_eq (hquoted : q.source.QuotedFor env.dialect) (hterms : terms ≠ [])
    (hoption : q.limits.effective.isRandomSample = false) : s.order? env.dialect =
      some (.sorted (terms.map fun t ↦ (t.column.name, t.descending))) := by
  obtain ⟨rfl, -, hordered⟩ := h.rows haggregate
  rw [Select.order?, h.order, Limits.order_eq_by hterms hoption]
  exact Dialect.readOrder_by hterms (h.quoted hquoted hordered)

theorem Selects.sorted (hquoted : q.source.QuotedFor env.dialect) (hsorting : q.sorting ≠ []) :
    ∃ terms, s.order? env.dialect = some (.sorted terms) ∧ q.SortsBy terms := by
  obtain ⟨-, hexpressible, hordered⟩ := h.rows haggregate
  have hterms : terms ≠ [] := fun hnone ↦ hsorting (hordered.eq_nil_iff.mp hnone).1
  have hoption : q.limits.effective.isRandomSample = false := by
    cases hsample : q.limits.effective.isRandomSample with
    | false => rfl
    | true => exact absurd (by simpa using hexpressible.sampled hsample) hsorting
  refine ⟨_, h.order?_eq haggregate hquoted hterms hoption, ?_⟩
  cases hordered with
  | key hfalls => exact absurd hfalls.1 hsorting
  | given _ hgiven =>
    rw [SortsBy, List.forall₂_map_right_iff]
    refine (Binding.orderTerms_ok hgiven).imp fun x t ⟨e, he, ht⟩ ↦ ⟨e.column, ?_, by rw [ht]⟩
    rw [← h.column?_eq, he]
    rfl

/-- A clause that needs an order has the caller's, or that of the key. -/
theorem Selects.ordered (hquoted : q.source.QuotedFor env.dialect)
    (hneeds : (env.dialect = .sqlServer ∨ env.dialect = .postgreSql) ∧ s.HasOffset env.dialect ∨
      s.WithTies env.dialect) :
    ∃ terms, terms ≠ [] ∧ s.order? env.dialect = some (.sorted terms) := by
  obtain ⟨rfl, hexpressible, hordered⟩ := h.rows haggregate
  have hread (hterms : terms ≠ []) (hoption : q.limits.effective.isRandomSample = false) :
      ∃ terms, terms ≠ [] ∧ s.order? env.dialect = some (.sorted terms) :=
    ⟨_, by simpa using hterms, h.order?_eq haggregate hquoted hterms hoption⟩
  rcases hneeds with ⟨hd, hoffset⟩ | hties
  · obtain ⟨-, hpageable, hsorted⟩ :=
      hexpressible.skipped (Limits.hasSkip_of_hasOffset h.window hoffset)
    refine hread (fun hunsorted ↦ ?_) (Limits.not_isRandomSample_of_pageable hpageable)
    have hneeds : env.dialect.orderedPagination := by rcases hd with hd | hd <;> rw [hd] <;> rfl
    simpa [(hordered.eq_nil_iff.mp hunsorted).1] using hsorted hneeds
  · have hwanted := Limits.hasTies_of_withTies h.top h.window hties
    -- A query that is not sorted would have fallen back on the key.
    refine hread (fun hunsorted ↦ ?_) (Limits.not_isRandomSample_of_hasTies hwanted)
    exact (hordered.eq_nil_iff.mp hunsorted).2 ⟨(hordered.eq_nil_iff.mp hunsorted).1, hwanted⟩

theorem Selects.shuffled (hrandom : q.limits.effective.isRandomSample)
    (terms' : List (String × Bool)) : s.order? env.dialect ≠ some (.sorted terms') := by
  obtain ⟨rfl, hexpressible, hordered⟩ := h.rows haggregate
  have hsorting : q.sorting = [] := by simpa using hexpressible.sampled hrandom
  -- A sample has no ties, so that the query does not fall back on the key.
  have hterms : terms = [] := hordered.eq_nil_iff.mpr ⟨hsorting, fun hfalls ↦ by
    simp [Limits.not_isRandomSample_of_hasTies hfalls.2] at hrandom⟩
  rw [Select.order?, h.order, hterms]
  exact Limits.readOrder_ne_sorted env.dialect q.limits terms'

theorem Selects.pagedBy (hquoted : q.source.QuotedFor env.dialect)
    (hwritten : l.WrittenIn env.dialect) (hstatement : l.statement = .select s) :
    q.PagedBy env l s := by
  obtain ⟨rfl, hexpressible, -⟩ := h.rows haggregate
  obtain ⟨hparameters, -⟩ := Fragment.render_ok hwritten
  have htext := Fragment.render_text hwritten
  rw [hstatement] at hparameters htext
  have hclauses := h.clauses haggregate hquoted hwritten hstatement
  refine ⟨hstatement, ?_, hparameters, ?_, hclauses.paging?_eq hexpressible, ?_,
    h.sorted haggregate hquoted, h.ordered haggregate hquoted, h.shuffled haggregate⟩
  · rw [htext, Statement.select_text]
  · rw [htext]
    exact Fragment.placesParameters _ 0 s.fragment
  · rw [h.top, h.window]
    exact (Limits.top_or_window env.dialect q.limits).imp (fun hnone ↦ by rw [hnone]; rfl)
      fun hnone ↦ by rw [hnone]; rfl

theorem Selects.not_unpageable : ¬ q.Unpageable env := by
  obtain ⟨rfl, hexpressible, hordered⟩ := h.rows haggregate
  rintro (⟨n, hn, hle⟩ | ⟨n, hn, hlt⟩ | hinexpressible | ⟨hfalls, hreason⟩ | hunread)
  · exact Int64.not_le.mpr (hexpressible.takes n hn) hle
  · exact Int64.not_le.mpr hlt (hexpressible.skips n hn)
  · exact hinexpressible hexpressible
  · cases hordered with
    | given hplain => exact hplain hfalls
    | key _ hlenient hkey =>
      rcases hreason with hstrict | hkeyless
      · simp [hlenient] at hstrict
      · have hkeys := (Binding.keyOrder?_some hkey).2.1
        rw [h.keyColumns_eq] at hkeys
        exact hkeys (List.filter_eq_nil_iff.mpr fun c hc ↦ by simp [hkeyless c hc])
  · -- The rows are asked for whether or not they are sorted.
    have hclauses : q.limits.Clauses env.dialect [] Parameter.value
        { s with order := q.limits.order env.dialect [] } :=
      ⟨h.top, h.sample, rfl, h.window, fun _ _ ↦ rfl, by simp⟩
    exact hunread _ _ (hclauses.paging?_eq hexpressible)

end Selects

end Query

namespace Command

variable {env : Environment} {desired : Desired} {q : Query}

/-- A query for rows that is prepared is read as what it asks for, and one whose limits no statement
has is not prepared. -/
theorem prepare_paged (haggregate : q.aggregate = none) :
    (q.source.QuotedFor env.dialect → ∀ chain, prepare env desired (.query q) = .ok chain →
      ∃ l s, chain = [l] ∧ q.PagedBy env l s) ∧
      (q.Unpageable env → ∃ e, prepare env desired (.query q) = .error e) := by
  constructor
  · intro hquoted chain h
    obtain ⟨l, s, b, terms, limits, rfl, hwritten, hstatement, hselects⟩ := Query.prepare_ok h
    exact ⟨l, s, rfl, hselects.pagedBy haggregate hquoted hwritten hstatement⟩
  · intro hunpageable
    cases h : prepare env desired (.query q) with
    | error e => exact ⟨e, rfl⟩
    | ok chain =>
      obtain ⟨l, s, b, terms, limits, rfl, -, -, hselects⟩ := Query.prepare_ok h
      exact absurd hunpageable (hselects.not_unpageable haggregate)

/-- The third page of five users by name. -/
def pageOfUsers (d : Dialect) : Query where
  source := .table (Users.table d)
  sorting := [⟨"Name", false⟩]
  limits := { take := some 5, skip := some 10 }

theorem page_of_users_read :
    (pageOfUsers .sqlServer).aggregate = none ∧
      (pageOfUsers .sqlServer).source.QuotedFor .sqlServer ∧
      ∃ l s, prepare { dialect := .sqlServer } .all (.query (pageOfUsers .sqlServer)) = .ok [l] ∧
        (pageOfUsers .sqlServer).PagedBy { dialect := .sqlServer } l s ∧
        s.paging? .sqlServer (valueAmong l.parameters) =
          some { option := .rows, take := some 5, skip := some 10 } ∧
        ∃ terms, s.order? .sqlServer = some (.sorted terms) ∧ terms ≠ [] := by
  have hok : (prepare { dialect := .sqlServer } .all
      (.query (pageOfUsers .sqlServer))).toOption.isSome := by decide +kernel
  have hquoted : (pageOfUsers .sqlServer).source.QuotedFor .sqlServer := by
    unfold QuerySource.QuotedFor
    decide +kernel
  refine ⟨rfl, hquoted, ?_⟩
  obtain ⟨chain, hchain⟩ := exists_ok_of_isSome hok
  obtain ⟨l, s, rfl, hpaged⟩ := (prepare_paged rfl).1 hquoted chain hchain
  obtain ⟨terms, hterms, hsorts⟩ := hpaged.sorted (by simp [pageOfUsers])
  refine ⟨l, s, hchain, hpaged, hpaged.paging, terms, hterms, ?_⟩
  rintro rfl
  cases hsorts

end Command

end SchemaSql
