import SchemaSql.Proofs.Statement.Signs

/-!
The signs of the clauses that say how many rows a query has, and in which order. A dialect finds the
same words and parameters in a clause as any other, so that the signs of a clause are said once;
only the names of columns have to be quoted for the dialect.
-/

set_option autoImplicit false
set_option relaxedAutoImplicit false

namespace SchemaSql

open Fragment

/-! ### Words of clauses -/

def Amount.signs : Amount → List Sign
  | .bound p => [.symbol '(', .param p, .symbol ')']
  | .literal n => integerSigns n.toInt

/-- The signs behind SELECT. -/
def topSigns : Option Top → List Sign
  | none => []
  | some t => .word "TOP" :: (t.amount.signs ++ ((if t.percent then [.word "PERCENT"] else []) ++
      if t.ties then [.word "WITH", .word "TIES"] else []))

def Take.signs : Take → List Sign
  | .none => []
  | .bound p => [.word "LIMIT", .param p]
  | .unlimited n => .word "LIMIT" :: integerSigns n

/-- The signs at the end of a query. -/
def Window.signs : Window → List Sign
  | .none => []
  | .limit take skip => take.signs ++ (skip.map fun q ↦ [.word "OFFSET", .param q]).getD []
  | .fetch skip take ties =>
    (skip.map fun q ↦ [.word "OFFSET", .param q, .word "ROWS"]).getD [] ++
      (take.map fun p ↦ if ties
        then [.word "FETCH", .word "FIRST", .param p, .word "ROWS", .word "WITH", .word "TIES"]
        else [.word "FETCH", .word "NEXT", .param p, .word "ROWS", .word "ONLY"]).getD []

def OrderTerm.signs (t : OrderTerm) : List Sign :=
  .name t.column.name :: if t.descending then [.word "DESC"] else []

/-- The signs of terms with a comma between each two. -/
def termSigns : List OrderTerm → List Sign
  | [] => []
  | [t] => t.signs
  | t :: ts => t.signs ++ .symbol ',' :: termSigns ts

/-! ### What words are there for -/

theorem ties_of_mem_topSigns {t : Option Top} (h : Sign.word "TIES" ∈ topSigns t) :
    ∃ u, t = some u ∧ u.ties := by
  cases t with
  | none => simp [topSigns] at h
  | some u =>
    refine ⟨u, rfl, ?_⟩
    have hamount : Sign.word "TIES" ∉ u.amount.signs := by
      cases u.amount with
      | bound p => simp [Amount.signs]
      | literal n => exact word_not_mem_integerSigns (by decide) _
    rw [topSigns] at h
    cases hpercent : u.percent <;> cases hties : u.ties <;> simp_all

/-- No word but LIMIT and a number is among the signs of how many rows to take. -/
theorem Take.word_not_mem_signs {word : String} (hlimit : word ≠ "LIMIT")
    (hdigits : word.toList.all Char.isDigit = false) (take : Take) :
    Sign.word word ∉ take.signs := by
  cases take with
  | none | bound p => simp [signs, hlimit]
  | unlimited n => simpa [signs, hlimit] using word_not_mem_integerSigns hdigits n

namespace Window

theorem ties_of_mem_signs {w : Window} (h : Sign.word "TIES" ∈ w.signs) :
    ∃ skip take, w = .fetch skip take true := by
  cases w with
  | none => simp [signs] at h
  | limit take skip =>
    have htake : Sign.word "TIES" ∉ take.signs :=
      Take.word_not_mem_signs (by decide) (by decide) take
    cases skip <;> simp [signs, htake] at h
  | fetch skip take ties =>
    cases ties with
    | true => exact ⟨skip, take, rfl⟩
    | false => cases skip <;> cases take <;> simp [signs] at h

/-- Rows are skipped by a clause of their own. -/
theorem skip_of_mem_signs {w : Window} (h : Sign.word "OFFSET" ∈ w.signs) :
    (∃ take p, w = .limit take (some p)) ∨ ∃ p take ties, w = .fetch (some p) take ties := by
  cases w with
  | none => simp [signs] at h
  | limit take skip =>
    have htake : Sign.word "OFFSET" ∉ take.signs :=
      Take.word_not_mem_signs (by decide) (by decide) take
    cases skip with
    | none => simp [signs, htake] at h
    | some p => exact .inl ⟨take, p, rfl⟩
  | fetch skip take ties =>
    cases skip with
    | none => cases take <;> cases ties <;> simp [signs] at h
    | some p => exact .inr ⟨p, take, ties, rfl⟩

end Window

/-! ### Clauses as they are read -/

variable {d : Dialect} {terms : List OrderTerm}

theorem signs_topClause (d : Dialect) (t : Option Top) : (topClause t).signs d = topSigns t := by
  cases t with
  | none => rfl
  | some t =>
    obtain ⟨amount, percent, ties⟩ := t
    have htop (ms : List Mark) : signsFrom d .nothing (characters "TOP " ++ ms) =
        .word "TOP" :: signsFrom d .nothing ms := by cases d <;> rfl
    -- What stands behind the amount is read alike, whichever amount it is.
    generalize hsuffix : characters ((if percent then " PERCENT" else "") ++
      (if ties then " WITH TIES" else "") ++ " ") = suffix
    have hends : EndsWord suffix := by
      rw [← hsuffix]
      cases percent <;> cases ties <;> exact endsWord_of_head? rfl rfl
    have hread : signsFrom d .nothing suffix = (if percent then [.word "PERCENT"] else []) ++
        if ties then [.word "WITH", .word "TIES"] else [] := by
      rw [← hsuffix]
      cases percent <;> cases ties <;> cases d <;> rfl
    cases amount with
    | bound p =>
      have hamount (ms : List Mark) :
          signsFrom d .nothing (characters "(" ++ .param p :: (characters ")" ++ ms)) =
            .symbol '(' :: .param p :: .symbol ')' :: signsFrom d .nothing ms := by cases d <;> rfl
      simp only [topClause, Fragment.signs, marks_append, marks_text, marks_param, Amount.fragment,
        List.append_assoc, List.cons_append, List.nil_append, htop, hsuffix, hamount, hread]
      rfl
    | literal n =>
      simp only [topClause, Fragment.signs, marks_append, marks_text, Amount.fragment, integerText,
        List.append_assoc, htop, hsuffix]
      rw [signsFrom_integer _ hends, hread]
      rfl

theorem signs_windowClause (d : Dialect) (w : Window) : w.clause.signs d = w.signs := by
  have hoffset (q : Option Parameter) :
      signsFrom d .nothing (parameterBetween " OFFSET " q "").marks =
        (q.map fun q ↦ [.word "OFFSET", .param q]).getD [] := by cases q <;> cases d <;> rfl
  cases w with
  | none => rfl
  | limit take skip =>
    cases take with
    | none => exact hoffset skip
    | bound p =>
      have hlimit (ms : List Mark) : signsFrom d .nothing (characters " LIMIT " ++ .param p :: ms) =
          .word "LIMIT" :: .param p :: signsFrom d .nothing ms := by cases d <;> rfl
      simp only [Window.clause, Take.clause, Fragment.signs, marks_append, marks_text, marks_param,
        List.append_assoc, List.singleton_append, hlimit, hoffset]
      rfl
    | unlimited n =>
      have hlimit (ms : List Mark) : signsFrom d .nothing (characters " LIMIT " ++ ms) =
          .word "LIMIT" :: signsFrom d .nothing ms := by cases d <;> rfl
      have hends : EndsWord (parameterBetween " OFFSET " skip "").marks := by
        cases skip with
        | none => exact fun _ h ↦ by cases h
        | some q => exact endsWord_of_head? rfl rfl
      simp only [Window.clause, Take.clause, Fragment.signs, marks_append, marks_text,
        characters_append, List.append_assoc, hlimit]
      rw [signsFrom_integer _ hends, hoffset]
      rfl
  | fetch skip take ties => cases skip <;> cases take <;> cases ties <;> cases d <;> rfl

/-- A comma behind a term is no part of it. -/
theorem signsFrom_term {t : OrderTerm} (h : t.column.quoted = d.quote t.column.name)
    {ms : List Mark} (hword : EndsWord ms) (hname : EndsName d ms) :
    signsFrom d .nothing (characters t.text ++ ms) = t.signs ++ signsFrom d .nothing ms := by
  have hdesc : signsFrom d .nothing (characters " DESC" ++ ms) =
      signsFrom d (.word "DESC".toList) ms := by cases d <;> rfl
  cases hdescending : t.descending with
  | false =>
    simp only [OrderTerm.text, OrderTerm.signs, hdescending, if_false, Bool.false_eq_true, h,
      signsFrom_quoted _ hname]
    rfl
  | true =>
    have hends : EndsName d (characters " DESC" ++ ms) :=
      endsName_of_head? rfl (by cases d <;> decide)
    simp only [OrderTerm.text, OrderTerm.signs, hdescending, if_true, h, characters_append,
      List.append_assoc, signsFrom_quoted _ hends, hdesc, signsFrom_word_end _ hword]
    rfl

theorem signsFrom_terms (h : ∀ t ∈ terms, t.column.quoted = d.quote t.column.name) :
    signsFrom d .nothing (characters (commaSeparated (terms.map OrderTerm.text))) =
      termSigns terms := by
  have hcomma (ms : List Mark) : signsFrom d .nothing (characters ", " ++ ms) =
      .symbol ',' :: signsFrom d .nothing ms := by cases d <;> rfl
  induction terms using termSigns.induct with
  | case1 => rfl
  | case2 t =>
    have hends (c : Char) : ([] : List Mark).head? ≠ some (.char c) := nofun
    have hlast : signsFrom d .nothing (characters t.text ++ []) =
        t.signs ++ signsFrom d .nothing [] :=
      signsFrom_term (h t (List.mem_singleton_self t)) (fun c hc ↦ absurd hc (hends c))
        fun c hc ↦ absurd hc (hends c)
    simpa [commaSeparated, termSigns, signsFrom, Pending.signs] using hlast
  | case3 t ts hts ih =>
    obtain ⟨ht, hrest⟩ := List.forall_mem_cons.mp h
    have htexts : ts.map OrderTerm.text ≠ [] := by simpa using hts
    have hjoin : commaSeparated ((t :: ts).map OrderTerm.text) =
        t.text ++ ", " ++ commaSeparated (ts.map OrderTerm.text) :=
      String.intercalate_cons_of_ne_nil htexts
    rw [hjoin, characters_append, characters_append, List.append_assoc,
      signsFrom_term ht (endsWord_of_head? rfl rfl) (endsName_of_head? rfl (by cases d <;> decide)),
      hcomma, ih hrest, termSigns]
    exact hts

theorem signs_orderClause (h : ∀ t ∈ terms, t.column.quoted = d.quote t.column.name) :
    (text (Order.by terms).clause).signs d = .word "ORDER" :: .word "BY" :: termSigns terms := by
  have horder (ms : List Mark) : signsFrom d .nothing (characters " " ++
      (characters "ORDER BY " ++ ms)) = .word "ORDER" :: .word "BY" :: signsFrom d .nothing ms := by
    cases d <;> rfl
  rw [Fragment.signs, marks_text, Order.clause, orderText, characters_append, characters_append,
    horder, signsFrom_terms h]

end SchemaSql
