import SchemaSql.Proofs.Command.Stages
import SchemaSql.Proofs.Statement.Paging

/-!
The clauses of limits. A request that makes sense, and that its dialect can express, is read in the
clauses as it was asked for: the number of rows, of which kind, behind how many others and from
which seed. Each dialect has its own clauses for the same request, and one lemma for each way to
write it.
-/

set_option autoImplicit false
set_option relaxedAutoImplicit false

namespace SchemaSql

namespace Limits

/-- The rows that a request asks for. To skip no rows is not to skip. -/
def asked (l : Limits) : Paging where
  option := if l.take.isSome then l.effective else .none
  take := l.take.map Int64.toInt
  skip := if l.hasSkip then l.skip.map Int64.toInt else none
  seed := l.seed.map Int64.toInt

/-- The limits make sense, and the dialect has clauses for them in a query that is sorted or not. -/
structure Expressible (d : Dialect) (sorted : Bool) (l : Limits) : Prop where
  takes : ∀ n, l.take = some n → 0 < n
  skips : ∀ n, l.skip = some n → 0 ≤ n
  supported : d.supportsLimit l.effective
  counted : l.effective ≠ .none → l.effective ≠ .rows → l.take.isSome
  skipped : l.hasSkip → d.supportsSkip ∧ pageable d l.effective ∧ (d.orderedPagination → sorted)
  seeded : l.seed.isSome → l.effective.isRandomSample ∧ d.supportsSeed
  sampled : l.effective.isRandomSample → sorted = false

variable {d : Dialect} {sorted : Bool} {l : Limits} {terms : List OrderTerm}

theorem checkCounts_eq_ok_iff : l.checkCounts = .ok () ↔
    (∀ n, l.take = some n → 0 < n) ∧ ∀ n, l.skip = some n → 0 ≤ n := by
  have htake : l.take.any (· ≤ 0) = false ↔ ∀ n, l.take = some n → 0 < n := by
    cases l.take <;> simp [Int64.not_le]
  have hskip : l.skip.any (· < 0) = false ↔ ∀ n, l.skip = some n → 0 ≤ n := by
    cases l.skip <;> simp [Int64.not_lt]
  rw [checkCounts, ← htake, ← hskip]
  cases l.take.any (· ≤ 0) <;> cases l.skip.any (· < 0) <;> simp

theorem checkOption_eq_ok_iff : l.checkOption d = .ok () ↔ d.supportsLimit l.effective ∧
    (l.effective ≠ .none → l.effective ≠ .rows → l.take.isSome) := by
  simp only [checkOption]
  cases d.supportsLimit l.effective <;> cases l.take <;> simp

theorem checkSkip_eq_ok_iff : l.checkSkip d sorted = .ok () ↔
    (l.hasSkip → d.supportsSkip ∧ pageable d l.effective ∧ (d.orderedPagination → sorted)) := by
  rw [checkSkip]
  cases l.hasSkip <;> cases d.supportsSkip <;> cases pageable d l.effective <;>
    cases d.orderedPagination <;> cases sorted <;> simp

theorem checkSeed_eq_ok_iff : l.checkSeed d = .ok () ↔
    (l.seed.isSome → l.effective.isRandomSample ∧ d.supportsSeed) := by
  rw [checkSeed]
  cases l.seed <;> cases l.effective.isRandomSample <;> cases d.supportsSeed <;> simp

theorem checkSample_eq_ok_iff : l.checkSample sorted = .ok () ↔
    (l.effective.isRandomSample → sorted = false) := by
  rw [checkSample]
  cases l.effective.isRandomSample <;> cases sorted <;> simp

theorem check_eq_ok_iff : l.check d sorted = .ok () ↔ l.Expressible d sorted := by
  have hcheck : l.check d sorted = l.checkCounts.bind fun _ ↦ (l.checkOption d).bind fun _ ↦
      (l.checkSkip d sorted).bind fun _ ↦ (l.checkSeed d).bind fun _ ↦ l.checkSample sorted := rfl
  constructor
  · intro h
    rw [hcheck] at h
    obtain ⟨_, hcounts, h⟩ := bind_eq_ok.mp h
    obtain ⟨_, hoption, h⟩ := bind_eq_ok.mp h
    obtain ⟨_, hskip, h⟩ := bind_eq_ok.mp h
    obtain ⟨_, hseed, hsample⟩ := bind_eq_ok.mp h
    obtain ⟨htakes, hskips⟩ := checkCounts_eq_ok_iff.mp hcounts
    obtain ⟨hsupported, hcounted⟩ := checkOption_eq_ok_iff.mp hoption
    exact ⟨htakes, hskips, hsupported, hcounted, checkSkip_eq_ok_iff.mp hskip,
      checkSeed_eq_ok_iff.mp hseed, checkSample_eq_ok_iff.mp hsample⟩
  · intro h
    rw [hcheck, checkCounts_eq_ok_iff.mpr ⟨h.takes, h.skips⟩, Except.bind,
      checkOption_eq_ok_iff.mpr ⟨h.supported, h.counted⟩, Except.bind,
      checkSkip_eq_ok_iff.mpr h.skipped, Except.bind, checkSeed_eq_ok_iff.mpr h.seeded, Except.bind]
    exact checkSample_eq_ok_iff.mpr h.sampled

/-- Without an option nothing is counted. -/
theorem counts_of_effective_none (h : l.effective = .none) : l.take = none ∧ l.skip = none := by
  rw [effective] at h
  split at h
  · cases h
  · rename_i hplain
    simp only [h, true_and, not_or, Option.isSome_iff_ne_none, ne_eq, Decidable.not_not] at hplain
    exact ⟨hplain.2, hplain.1⟩

theorem hasSkip_of_skip_none (h : l.skip = none) : l.hasSkip = false := by
  rw [hasSkip, h]

theorem takeParameter_of_some {n : Int64} (h : l.take = some n) :
    l.takeParameter = some (.make "@fetch_row_count" (.int n) .paging) := by
  rw [takeParameter, h, Option.map_some]

theorem takeParameter_of_none (h : l.take = none) : l.takeParameter = none := by
  rw [takeParameter, h, Option.map_none]

theorem skipParameter_of_false (h : l.hasSkip = false) : l.skipParameter = none := by
  rw [skipParameter, h]
  rfl

theorem exists_skipParameter (h : l.hasSkip) : ∃ n, l.skip = some n ∧
    l.skipParameter = some (.make "@offset_row_count" (.int n) .paging) := by
  cases hskip : l.skip with
  | none => simp [hasSkip, hskip] at h
  | some n => exact ⟨n, rfl, by rw [skipParameter, if_pos h, hskip, Option.map_some]⟩

/-! ### The clauses of limits -/

section

variable {s : Select} {value : Parameter → Value}

/-- Only a sample has a seed. -/
theorem Expressible.seed_eq_none (h : l.Expressible d sorted)
    (hoption : l.effective.isRandomSample = false) : l.seed = none := by
  cases hseed : l.seed with
  | none => rfl
  | some n =>
    have hsample := (h.seeded (by rw [hseed]; rfl)).1
    exact absurd hsample (by simp [hoption])

theorem Expressible.seed_eq_none_of_unsupported (h : l.Expressible d sorted)
    (hd : d.supportsSeed = false) : l.seed = none := by
  cases hseed : l.seed with
  | none => rfl
  | some n =>
    have hsupported := (h.seeded (by rw [hseed]; rfl)).2
    exact absurd hsupported (by simp [hd])

theorem Expressible.hasSkip_eq_false (h : l.Expressible d sorted)
    (hoption : pageable d l.effective = false) : l.hasSkip = false := by
  cases hskip : l.hasSkip with
  | false => rfl
  | true => exact absurd (h.skipped hskip).2.1 (by simp [hoption])

theorem Expressible.exists_take (h : l.Expressible d sorted) (hnone : l.effective ≠ .none)
    (hrows : l.effective ≠ .rows) : ∃ n, l.take = some n :=
  Option.isSome_iff_exists.mp (h.counted hnone hrows)

theorem Expressible.exists_take_of_sample (h : l.Expressible d sorted)
    (hoption : l.effective.isRandomSample) : ∃ n, l.take = some n ∧ l.hasSkip = false := by
  have hnone : l.effective ≠ .none := fun heq ↦ by simp [heq, LimitOption.isRandomSample] at hoption
  have hrows : l.effective ≠ .rows := fun heq ↦ by simp [heq, LimitOption.isRandomSample] at hoption
  obtain ⟨n, hn⟩ := h.exists_take hnone hrows
  refine ⟨n, hn, h.hasSkip_eq_false ?_⟩
  cases heffective : l.effective <;> simp_all [pageable, LimitOption.isRandomSample]

/-- Where nothing is taken, no part of the rows is asked for. -/
theorem asked_of_take_none (h : l.take = none) (hseed : l.seed = none) :
    l.asked = { skip := if l.hasSkip then l.skip.map Int64.toInt else none } := by
  simp [asked, h, hseed]

theorem asked_of_take {n : Int64} (h : l.take = some n) (hskip : l.hasSkip = false) :
    l.asked = { option := l.effective, take := some n.toInt, seed := l.seed.map Int64.toInt } := by
  simp [asked, h, hskip]

/-- The parameter of a number of rows. -/
def takeOf (n : Int64) : Parameter := .make "@fetch_row_count" (.int n) .paging

def skipOf (n : Int64) : Parameter := .make "@offset_row_count" (.int n) .paging

/-- The select has the clauses by which a dialect expresses limits, its parameters have their
values, and the columns that it sorts by are quoted for the dialect. -/
structure Clauses (d : Dialect) (terms : List OrderTerm) (l : Limits) (value : Parameter → Value)
    (s : Select) : Prop where
  top : s.top = l.top d
  sample : s.sample = l.sample d
  order : s.order = l.order d terms
  window : s.window = l.window d
  value : ∀ p ∈ (topClause s.top).parameters ++ s.window.clause.parameters, value p = p.value
  quoted : ∀ t ∈ terms, t.column.quoted = d.quote t.column.name

theorem plain_order (h : ∀ t ∈ terms, t.column.quoted = d.quote t.column.name) :
    (if terms.isEmpty then Order.none else .by terms).Plain d := by
  split
  · trivial
  · rename_i hterms
    exact ⟨by simpa using hterms, h⟩

namespace Clauses

theorem order_plain (hs : l.Clauses d terms value s) (hd : d ≠ .mySql) (hd' : d ≠ .sqlite) :
    s.order.Plain d := by
  rw [hs.order, Limits.order]
  · exact plain_order hs.quoted
  · exact fun h _ ↦ hd h
  · exact fun h _ ↦ hd' h

/-- Rows are drawn by a clause of their own only where a sample was asked for. -/
theorem no_sample (hs : l.Clauses d terms value s) (hoption : l.effective.isRandomSample = false) :
    s.sample = none := by
  rw [hs.sample]
  cases d <;> cases heffective : l.effective <;>
    simp_all [Limits.sample, LimitOption.isRandomSample]

theorem take_integer (hs : l.Clauses d terms value s) {n : Int64}
    (hn : takeOf n ∈ (topClause s.top).parameters ++ s.window.clause.parameters) :
    (value (takeOf n)).integer? = some n.toInt := by
  rw [hs.value _ hn]
  rfl

theorem skip_integer (hs : l.Clauses d terms value s) {n : Int64}
    (hn : skipOf n ∈ (topClause s.top).parameters ++ s.window.clause.parameters) :
    (value (skipOf n)).integer? = some n.toInt := by
  rw [hs.value _ hn]
  rfl

/-- A select without any clause of this kind is read as a request for all rows. -/
theorem paging?_all (horder : s.order.Plain d)
    (htop : s.top = none) (hsample : s.sample = none) (hwindow : s.window = .none)
    (htake : l.take = none) (hskip : l.hasSkip = false) (hseed : l.seed = none) :
    s.paging? d value = some l.asked := by
  rw [Select.paging?_of_window horder htop hsample (Select.readWindow_none hwindow),
    asked_of_take_none htake hseed, hskip]
  rfl

/-! ### Limits at the head -/

theorem paging?_top (hs : l.Clauses .sqlServer terms value s) {n : Int64}
    (htake : l.take = some n) (hskip : l.hasSkip = false) (hseed : l.seed = none)
    (hnone : l.effective ≠ .none) (hoption : l.effective.isRandomSample = false) :
    s.paging? .sqlServer value = some l.asked := by
  have htop : s.top = some ⟨.bound (takeOf n), l.effective.isPercentage, l.effective.hasTies⟩ := by
    rw [hs.top, Limits.top]
    cases heffective : l.effective <;>
      simp_all [takeParameter_of_some htake, LimitOption.isRandomSample, LimitOption.isPercentage,
        LimitOption.hasTies, takeOf]
  have hkind : Top.option ⟨.bound (takeOf n), l.effective.isPercentage, l.effective.hasTies⟩ =
      l.effective := by
    cases heffective : l.effective <;>
      simp_all [LimitOption.isRandomSample, LimitOption.isPercentage, LimitOption.hasTies, Top.option]
  have hsample := hs.no_sample hoption
  have hwindow : s.window = .none := by
    rw [hs.window]
    cases heffective : l.effective <;> simp_all [Limits.window]
  have hvalue := hs.take_integer (n := n) (by simp [htop, topClause, Amount.fragment])
  rw [Select.paging?_of_top (hs.order_plain (by simp) (by simp)) hsample hwindow
    (htop ▸ Dialect.readTop_bound hvalue _ _), hkind, asked_of_take htake hskip, hseed]
  rfl

theorem paging?_access (hs : l.Clauses .access terms value s) (h : l.Expressible .access sorted) :
    s.paging? .access value = some l.asked := by
  have horder := hs.order_plain (by simp) (by simp)
  have hskip : l.hasSkip = false := by
    cases hskip : l.hasSkip with
    | false => rfl
    | true => exact absurd (h.skipped hskip).1 (by decide)
  have hseed := h.seed_eq_none_of_unsupported rfl
  have hsample : s.sample = none := by simp [hs.sample, Limits.sample]
  have hwindow : s.window = .none := by simp [hs.window, Limits.window]
  have hsupported := h.supported
  cases htake : l.take with
  | none =>
    have htop : s.top = none := by
      rw [hs.top, Limits.top, htake]
      cases l.effective <;> rfl
    exact paging?_all horder htop hsample hwindow htake hskip hseed
  | some n =>
    have hnone : l.effective ≠ .none := fun hnone ↦ by
      simp [(counts_of_effective_none hnone).1] at htake
    have htop : s.top = some ⟨.literal n, l.effective.isPercentage, false⟩ := by
      rw [hs.top, Limits.top, htake]
      cases heffective : l.effective <;>
        simp_all [Dialect.supportsLimit, LimitOption.isPercentage]
    have hkind : Top.option ⟨.literal n, l.effective.isPercentage, false⟩ = l.effective := by
      cases heffective : l.effective <;>
        simp_all [Dialect.supportsLimit, LimitOption.isPercentage, Top.option]
    rw [Select.paging?_of_top horder hsample hwindow (htop ▸ Dialect.readTop_literal n _), hkind,
      asked_of_take htake hskip, hseed]
    rfl

/-! ### Samples -/

theorem paging?_sample (hs : l.Clauses d terms value s) (h : l.Expressible d sorted)
    (hd : d = .sqlServer ∨ d = .postgreSql) (hoption : l.effective.isRandomSample) :
    s.paging? d value = some l.asked := by
  obtain ⟨n, hn, hskip⟩ := h.exists_take_of_sample hoption
  have horder : s.order.Plain d := by
    rcases hd with rfl | rfl <;> exact hs.order_plain (by simp) (by simp)
  have htop : s.top = none := by
    rw [hs.top]
    rcases hd with rfl | rfl <;> cases heffective : l.effective <;>
      simp_all [Limits.top, LimitOption.isRandomSample]
  have hwindow : s.window = .none := by
    rw [hs.window]
    rcases hd with rfl | rfl <;> cases heffective : l.effective <;>
      simp_all [Limits.window, LimitOption.isRandomSample]
  obtain ⟨u, hu, hsample, hkind⟩ : ∃ u, (u ≠ none → d = .sqlServer) ∧
      s.sample = some ⟨n, u, l.seed⟩ ∧
        (u.map SampleUnit.option).getD .randomSamplePercentage = l.effective := by
    rw [hs.sample]
    have hsupported := h.supported
    rcases hd with rfl | rfl <;> cases heffective : l.effective <;>
      simp_all [Limits.sample, LimitOption.isRandomSample, Dialect.supportsLimit, SampleUnit.option]
  rw [Select.paging?_of_sample horder htop hwindow
    (hsample ▸ Dialect.readSample_clause hd n hu l.seed), hkind, asked_of_take hn hskip]

/-! ### Limits at the end -/

/-- What is read of the number of rows to skip. -/
theorem integers?_skip (hs : l.Clauses d terms value s)
    (hbound : ∀ p, l.skipParameter = some p → p ∈ s.window.clause.parameters) :
    Dialect.integers? value l.skipParameter = some l.asked.skip := by
  cases hskip : l.hasSkip with
  | false => simp [skipParameter_of_false hskip, Dialect.integers?, asked, hskip]
  | true =>
    obtain ⟨m, hm, hparameter⟩ := exists_skipParameter hskip
    have hvalue := hs.skip_integer (n := m) (List.mem_append_right _ (hbound _ hparameter))
    rw [skipOf] at hvalue
    simp [hparameter, Dialect.integers?, hvalue, asked, hskip, hm]

theorem integers?_take (hs : l.Clauses d terms value s)
    (hbound : ∀ p, l.takeParameter = some p → p ∈ s.window.clause.parameters) :
    Dialect.integers? value l.takeParameter = some l.asked.take := by
  cases htake : l.take with
  | none => simp [takeParameter_of_none htake, Dialect.integers?, asked, htake]
  | some n =>
    have hparameter := takeParameter_of_some htake
    have hvalue := hs.take_integer (n := n) (List.mem_append_right _ (hbound _ hparameter))
    rw [takeOf] at hvalue
    simp [hparameter, Dialect.integers?, hvalue, asked, htake]

/-- Rows are taken, and maybe skipped before. -/
theorem paging?_limit (hs : l.Clauses d terms value s)
    (hd : d = .postgreSql ∨ d = .mySql ∨ d = .sqlite)
    (horder : s.order.Plain d) (htop : s.top = none)
    (hsample : s.sample = none) (hoption : l.effective = .rows) {n : Int64} (htake : l.take = some n)
    (hseed : l.seed = none) (hwindow : s.window = .limit (.bound (takeOf n)) l.skipParameter) :
    s.paging? d value = some l.asked := by
  have htaken := hs.take_integer (n := n) (by simp [hwindow, Window.clause, Take.clause])
  have hskipped := hs.integers?_skip fun p hp ↦ by
    simp [hwindow, Window.clause, hp, parameterBetween]
  have hread := Dialect.readWindow_limit hd htaken l.skipParameter
  rw [← hwindow, hskipped, Option.map_some] at hread
  rw [Select.paging?_of_window horder htop hsample hread]
  simp [asked, htake, hoption, hseed]

theorem paging?_postgreSql (hs : l.Clauses .postgreSql terms value s)
    (h : l.Expressible .postgreSql sorted) (hoption : l.effective.isRandomSample = false) :
    s.paging? .postgreSql value = some l.asked := by
  have horder := hs.order_plain (by simp) (by simp)
  have hseed := h.seed_eq_none hoption
  have htop : s.top = none := by simp [hs.top, Limits.top]
  have hsample := hs.no_sample hoption
  have hsupported := h.supported
  cases heffective : l.effective with
  | none =>
    obtain ⟨htake, hskip⟩ := counts_of_effective_none heffective
    have hwindow : s.window = .none := by simp [hs.window, Limits.window, heffective]
    exact paging?_all horder htop hsample hwindow htake (hasSkip_of_skip_none hskip) hseed
  | rows =>
    cases htake : l.take with
    | some n =>
      refine hs.paging?_limit (.inl rfl) horder htop hsample heffective htake hseed ?_
      simp [hs.window, Limits.window, heffective, takeParameter_of_some htake, takeOf]
    | none =>
      have hwindow : s.window = .limit .none l.skipParameter := by
        simp [hs.window, Limits.window, heffective, takeParameter_of_none htake]
      have hskipped := hs.integers?_skip fun p hp ↦ by
        simp [hwindow, Window.clause, hp, parameterBetween]
      have hread : Dialect.postgreSql.readWindow value (s.window.clause.signs .postgreSql) =
          (Dialect.integers? value l.skipParameter).map fun skip ↦ { skip } :=
        hwindow ▸ Dialect.readWindow_offset fun _ ↦ rfl
      rw [hskipped, Option.map_some] at hread
      rw [Select.paging?_of_window horder htop hsample hread]
      simp [asked, htake, hseed]
  | rowsWithTies =>
    obtain ⟨n, hn⟩ := h.exists_take (by simp [heffective]) (by simp [heffective])
    have hwindow : s.window = .fetch l.skipParameter (some (takeOf n)) true := by
      simp [hs.window, Limits.window, heffective, takeParameter_of_some hn, takeOf]
    have htaken := hs.take_integer (n := n) (by simp [hwindow, Window.clause, parameterBetween])
    have hskipped := hs.integers?_skip fun p hp ↦ by
      simp [hwindow, Window.clause, hp, parameterBetween]
    have hread := Dialect.readWindow_ties htaken l.skipParameter
    rw [← hwindow, hskipped, Option.map_some] at hread
    rw [Select.paging?_of_window horder htop hsample hread]
    simp [asked, hn, heffective, hseed]
  | _ => simp_all [Dialect.supportsLimit, LimitOption.isRandomSample]

theorem paging?_sqlServer (hs : l.Clauses .sqlServer terms value s)
    (h : l.Expressible .sqlServer sorted) (hoption : l.effective.isRandomSample = false) :
    s.paging? .sqlServer value = some l.asked := by
  have horder := hs.order_plain (by simp) (by simp)
  have hseed := h.seed_eq_none hoption
  have hsample := hs.no_sample hoption
  -- Rows can only be skipped at the end, and those that are taken are counted at the head otherwise.
  cases hskip : l.hasSkip with
  | true =>
    have heffective : l.effective = .rows := by simpa [pageable] using (h.skipped hskip).2.1
    have htop : s.top = none := by simp [hs.top, Limits.top, heffective, hskip]
    obtain ⟨m, hm, hparameter⟩ := exists_skipParameter hskip
    have hwindow : s.window = .fetch (some (skipOf m)) l.takeParameter false := by
      simp [hs.window, Limits.window, heffective, hskip, hparameter, skipOf]
    have hskipped := hs.skip_integer (n := m) (by simp [hwindow, Window.clause, parameterBetween])
    have hread := Dialect.readWindow_next hskipped l.takeParameter
    have htaken := hs.integers?_take fun p hp ↦ by
      simp [hwindow, Window.clause, hp, parameterBetween]
    rw [← hwindow, htaken, Option.map_some] at hread
    rw [Select.paging?_of_window horder htop hsample hread]
    simp [asked, heffective, hskip, hm, hseed]
  | false =>
    cases htake : l.take with
    | some n =>
      refine hs.paging?_top htake hskip hseed (fun hnone ↦ ?_) hoption
      simp [(counts_of_effective_none hnone).1] at htake
    | none =>
      have htop : s.top = none := by
        rw [hs.top]
        cases heffective : l.effective <;>
          simp_all [Limits.top, takeParameter_of_none htake]
      have hwindow : s.window = .none := by
        rw [hs.window]
        cases heffective : l.effective <;> simp_all [Limits.window]
      exact paging?_all horder htop hsample hwindow htake hskip hseed

/-! ### MySQL and SQLite -/

section

variable (hs : l.Clauses d terms value s) (h : l.Expressible d sorted) (hd : d = .mySql ∨ d = .sqlite)

include hs hd

theorem top_eq_none : s.top = none := by
  rw [hs.top]
  rcases hd with rfl | rfl <;> simp [Limits.top]

theorem sample_eq_none : s.sample = none := by
  rw [hs.sample]
  rcases hd with rfl | rfl <;> simp [Limits.sample]

theorem order_plain_of_rows (hoption : l.effective ≠ .randomSampleRows) : s.order.Plain d := by
  have horder : s.order = if terms.isEmpty then Order.none else .by terms := by
    rw [hs.order]
    rcases hd with rfl | rfl <;> simp [Limits.order, hoption]
  rw [horder]
  exact plain_order hs.quoted

include h

theorem paging?_rows (hoption : l.effective = .rows) : s.paging? d value = some l.asked := by
  have htop := hs.top_eq_none hd
  have hsample := hs.sample_eq_none hd
  have horder := hs.order_plain_of_rows hd (by simp [hoption])
  have hseed := h.seed_eq_none (by rw [hoption]; rfl)
  obtain ⟨all, hall, hwindow⟩ : ∃ all, d.takesAll all ∧
      s.window = .limit (l.takeOrAll all) l.skipParameter := by
    rw [hs.window]
    rcases hd with rfl | rfl
    · exact ⟨18446744073709551615, by decide, by simp [Limits.window, hoption]⟩
    · exact ⟨-1, by decide, by simp [Limits.window, hoption]⟩
  cases htake : l.take with
  | some n =>
    rw [takeOrAll, takeParameter_of_some htake] at hwindow
    exact hs.paging?_limit (.inr hd) horder htop hsample hoption htake hseed hwindow
  -- Rows cannot be skipped unless some are taken, so that a number stands there that takes all.
  | none =>
    rw [takeOrAll, takeParameter_of_none htake] at hwindow
    have hread : d.readWindow value (s.window.clause.signs d) = some l.asked := by
      rw [asked_of_take_none htake hseed]
      cases hskip : l.hasSkip with
      | true =>
        obtain ⟨m, hm, hparameter⟩ := exists_skipParameter hskip
        simp only [hskip, if_true, hparameter] at hwindow
        have hskipped := hs.skip_integer (n := m)
          (by simp [hwindow, Window.clause, parameterBetween, skipOf])
        rw [hwindow, hm]
        exact Dialect.readWindow_unlimited hd hall hskipped
      | false =>
        rw [hwindow, hskip, skipParameter_of_false hskip]
        rfl
    exact Select.paging?_of_window horder htop hsample hread

theorem paging?_random (hoption : l.effective = .randomSampleRows) :
    s.paging? d value = some l.asked := by
  obtain ⟨n, hn, hskip⟩ := h.exists_take_of_sample (by rw [hoption]; rfl)
  have hwindow : s.window = .limit (.bound (takeOf n)) none := by
    rw [hs.window]
    rcases hd with rfl | rfl <;>
      simp [Limits.window, hoption, takeOrAll, takeParameter_of_some hn,
        skipParameter_of_false hskip, takeOf]
  have horder : s.order? d = some (.random (l.seed.map Int64.toInt)) := by
    rw [Select.order?, hs.order]
    rcases hd with rfl | rfl
    · simp only [Limits.order, hoption]
      exact Dialect.readOrder_rand l.seed
    · have hseed := h.seed_eq_none_of_unsupported rfl
      simp only [Limits.order, hoption, hseed]
      exact Dialect.readOrder_random
  have htaken := hs.take_integer (n := n) (by simp [hwindow, Window.clause, Take.clause])
  have hread := Dialect.readWindow_limit (.inr hd) htaken none
  rw [← hwindow] at hread
  rw [Select.paging?_of_random horder (hs.top_eq_none hd) (hs.sample_eq_none hd) hread,
    asked_of_take hn hskip, hoption]

theorem paging?_mySql_or_sqlite : s.paging? d value = some l.asked := by
  cases heffective : l.effective with
  | none =>
    obtain ⟨htake, hskip⟩ := counts_of_effective_none heffective
    have hseed := h.seed_eq_none (by rw [heffective]; rfl)
    have hwindow : s.window = .none := by
      rw [hs.window]
      rcases hd with rfl | rfl <;> simp [Limits.window, heffective]
    exact paging?_all (hs.order_plain_of_rows hd (by simp [heffective])) (hs.top_eq_none hd)
      (hs.sample_eq_none hd) hwindow htake (hasSkip_of_skip_none hskip) hseed
  | rows => exact hs.paging?_rows h hd heffective
  | randomSampleRows => exact hs.paging?_random h hd heffective
  | _ =>
    have hsupported := h.supported
    rcases hd with rfl | rfl <;> simp [heffective, Dialect.supportsLimit] at hsupported

end

/-- What a dialect reads in the clauses is what was asked for. -/
theorem paging?_eq (hs : l.Clauses d terms value s) (h : l.Expressible d sorted) :
    s.paging? d value = some l.asked := by
  cases d with
  | access => exact hs.paging?_access h
  | mySql => exact hs.paging?_mySql_or_sqlite h (.inl rfl)
  | sqlite => exact hs.paging?_mySql_or_sqlite h (.inr rfl)
  | sqlServer =>
    cases hoption : l.effective.isRandomSample with
    | true => exact hs.paging?_sample h (.inl rfl) hoption
    | false => exact hs.paging?_sqlServer h hoption
  | postgreSql =>
    cases hoption : l.effective.isRandomSample with
    | true => exact hs.paging?_sample h (.inr rfl) hoption
    | false => exact hs.paging?_postgreSql h hoption

end Clauses

end

theorem top_or_window (d : Dialect) (l : Limits) : l.top d = none ∨ l.window d = .none := by
  cases d with
  | sqlServer =>
    cases heffective : l.effective <;> cases hskip : l.hasSkip <;>
      simp [top, window, heffective, hskip]
  | access => exact .inr (by simp [window])
  | postgreSql | mySql | sqlite => exact .inl (by simp [top])

theorem order_eq_by (hterms : terms ≠ []) (hoption : l.effective.isRandomSample = false) :
    l.order d terms = .by terms := by
  have hrandom : l.effective ≠ .randomSampleRows := fun heq ↦ by
    simp [heq, LimitOption.isRandomSample] at hoption
  simp [order, hrandom, hterms]

/-- An order that nobody gave is not read as one that sorts rows. -/
theorem readOrder_ne_sorted (d : Dialect) (l : Limits) (terms : List (String × Bool)) :
    d.readOrder ((Fragment.text (l.order d []).clause).signs d) ≠ some (.sorted terms) := by
  have hnone : d.readOrder ((Fragment.text Order.none.clause).signs d) = some .unordered := rfl
  cases d with
  | mySql =>
    cases heffective : l.effective <;>
      simp [order, heffective, hnone, Dialect.readOrder_rand]
  | sqlite =>
    cases heffective : l.effective <;>
      simp [order, heffective, hnone, Dialect.readOrder_random]
  | sqlServer | postgreSql | access => simp [order, hnone]

end Limits

end SchemaSql
