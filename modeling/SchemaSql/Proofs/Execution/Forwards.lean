import SchemaSql.Proofs.Execution.Awaited

/-!
Chains whose forwarded values always arrive. If every link that forwards has a link right behind it
that always runs and has exactly one parameter of the name, then a run is refused by nothing but the
database and the checks of rows, whatever the database answers.
-/

set_option autoImplicit false
set_option relaxedAutoImplicit false

namespace SchemaSql

/-- Every link that forwards names a parameter that the link right behind it has exactly once, and
that link always runs. -/
def Chain.HandsOn (chain : Chain) : Prop :=
  ∀ before l after target, chain = before ++ l :: after → l.mode = .forward target →
    ∃ name next rest, target = some name ∧ after = next :: rest ∧ next.condition = .always ∧
      (next.parameters.filter fun p ↦ Text.sameAscii p.name name).length = 1

namespace Link

variable {name : String} {ps : List Parameter}

/-- A parameter of the name is found, wherever it stands. -/
theorem bindForwarded_of_mem {p : Parameter} (hp : p ∈ ps) (hname : Text.sameAscii p.name name)
    (value : Value) : ∃ qs, bindForwarded name value ps = .ok qs := by
  induction ps with
  | nil => simp at hp
  | cons q ps ih =>
    rw [bindForwarded]
    split
    · exact ⟨_, rfl⟩
    · rename_i hne
      rcases List.mem_cons.mp hp with rfl | hmem
      · exact absurd hname hne
      · obtain ⟨qs, hqs⟩ := ih hmem
        exact ⟨q :: qs, by rw [hqs]; rfl⟩

theorem bindForwarded_of_unique
    (h : (ps.filter fun p ↦ Text.sameAscii p.name name).length = 1) (value : Value) :
    ∃ qs, bindForwarded name value ps = .ok qs := by
  obtain ⟨p, hp⟩ := List.length_eq_one_iff.mp h
  obtain ⟨hmem, hname⟩ := List.mem_filter.mp (hp ▸ List.mem_singleton_self p)
  exact bindForwarded_of_mem hmem hname value

end Link

namespace Chain.HandsOn

variable {chain : Chain}

theorem of_modes (h : ∀ l ∈ chain, ∀ target, l.mode ≠ .forward target) : chain.HandsOn := by
  rintro before l after target rfl hmode
  exact absurd hmode (h l (by simp) target)

theorem cons {l : Link} (hmode : ∀ target, l.mode ≠ .forward target) (h : chain.HandsOn) :
    Chain.HandsOn (l :: chain) := by
  intro before m after target hchain hm
  rcases List.cons_eq_append_iff.mp hchain with ⟨rfl, hfirst⟩ | ⟨before', rfl, hrest⟩
  · obtain ⟨rfl, -⟩ := List.cons.inj hfirst
    exact absurd hm (hmode target)
  · exact h before' m after target hrest hm

theorem cons_forward {l next : Link} {name : String} (hmode : l.mode = .forward (some name))
    (halways : next.condition = .always)
    (hunique : (next.parameters.filter fun p ↦ Text.sameAscii p.name name).length = 1)
    (h : Chain.HandsOn (next :: chain)) : Chain.HandsOn (l :: next :: chain) := by
  intro before m after target hchain hm
  rcases List.cons_eq_append_iff.mp hchain with ⟨rfl, hfirst⟩ | ⟨before', rfl, hrest⟩
  · obtain ⟨rfl, rfl⟩ := List.cons.inj hfirst
    obtain rfl := LinkMode.forward.inj (hmode.symm.trans hm)
    exact ⟨name, next, chain, rfl, rfl, halways, hunique⟩
  · exact h before' m after target hrest hm

theorem not_forwardsNowhere (h : chain.HandsOn) (i : Nat) (l : Link) :
    ¬ chain.ForwardsNowhere i l := by
  rintro ⟨hl, target, hmode, hnowhere⟩
  obtain ⟨hi, rfl⟩ := List.getElem?_eq_some_iff.mp hl
  have hsplit : chain = chain.take i ++ chain[i] :: chain.drop (i + 1) := by
    rw [← List.drop_eq_getElem_cons hi, List.take_append_drop]
  obtain ⟨name, next, rest, rfl, hafter, -⟩ := h _ _ _ target hsplit hmode
  have hbehind : (chain.drop (i + 1)).length = rest.length + 1 := by rw [hafter]; rfl
  rw [List.length_drop] at hbehind
  rcases hnowhere with hnone | hlast
  · simp at hnone
  · omega

theorem checkForwards (h : chain.HandsOn) : chain.checkForwards 0 = .ok () := by
  rcases chain.checkForwards_cases 0 with ⟨i, l, hl, -⟩ | ⟨-, hok⟩
  · exact absurd hl (h.not_forwardsNowhere i l)
  · exact hok

variable {σ α : Type} {perform : ReadMode → Call → Action σ Outcome} {s : Settings} {r : Reader α}
  {x y : σ} {e : Error}

/-- A run fails with an error of the database, with a rejected number of rows, or because the reader
makes nothing of the outcome. -/
theorem error_cases (h : chain.HandsOn)
    (hrun : Walked perform Link.bindForwarded s chain r x (.error e y)) :
    (∃ mode call z, perform mode call z = .error e y) ∨
      (∃ l ∈ chain, ∃ n, l.check.accepts n = false ∧ e = .rowCount l.operation l.check n) ∨
      ∃ o, r.finish o = .error e := by
  rcases hrun with ⟨i, l, hl, -⟩ |
    ⟨-, v, z, -, -, ⟨-, hend⟩ | ⟨l, ps, rest, e', z', hlinks, -, -, hfails, hend⟩⟩
  · exact absurd hl (h.not_forwardsNowhere i l)
  · rw [Reader.returns] at hend
    split at hend
    · cases hend
    · rename_i e' hfinish
      obtain ⟨rfl, -⟩ := EStateM.Result.error.inj hend
      exact .inr (.inr ⟨_, hfinish⟩)
  · obtain ⟨rfl, rfl⟩ := EStateM.Result.error.inj hend
    cases hfails with
    | call hcall => exact .inl ⟨_, _, _, hcall⟩
    | check _ hrejected =>
      refine .inr (.inl ⟨l, ?_, _, hrejected, rfl⟩)
      rw [hlinks]
      exact List.mem_append_right _ List.mem_cons_self
    | @forward o _ next _ _ _ hbehind hrefused =>
      rw [History.parametersOf_last, Visit.handsOver] at hrefused
      split at hrefused
      · rename_i o' name _ hmode
        -- The link behind has the parameter, so its value is bound.
        obtain ⟨name', next', rest', hname, rfl, -, hunique⟩ := h _ l rest _ hlinks hmode
        obtain rfl := Option.some.inj hname
        obtain rfl := Option.some.inj hbehind
        obtain ⟨qs, hqs⟩ := Link.bindForwarded_of_unique hunique o'.forwarded
        rw [hqs] at hrefused
        cases hrefused
      · cases hrefused

end Chain.HandsOn

/-- An error of the database, or of a link that has affected a number of rows that its check does
not accept. -/
def Chain.Blames {σ : Type} (perform : ReadMode → Call → Action σ Outcome) (chain : Chain)
    (e : Error) (y : σ) : Prop :=
  (∃ mode call z, perform mode call z = .error e y) ∨
    ∃ l ∈ chain, ∃ n, l.check.accepts n = false ∧ e = .rowCount l.operation l.check n

namespace Chain.HandsOn

variable {σ : Type} {chain : Chain} {s : Settings} {m : Materializer} {x y : σ} {e : Error}

theorem blames {perform : ReadMode → Call → Action σ Outcome} (h : chain.HandsOn)
    (hrun : Walked perform Link.bindForwarded s chain m.reader x (.error e y)) :
    chain.Blames perform e y := by
  rcases h.error_cases hrun with hcall | hcheck | ⟨o, ho⟩
  · exact .inl hcall
  · exact .inr hcheck
  · cases ho

theorem runChain_blames (h : chain.HandsOn) {c : Connection σ}
    (hrun : c.runChain s chain m x = .error e y) : chain.Blames c.run e y := by
  have hwalked := c.walk_walked Link.bindForwarded s chain m.reader x
  rw [← Connection.runChain, hrun] at hwalked
  exact h.blames hwalked

theorem await_runChain_blames (h : chain.HandsOn) {c : AsyncConnection σ}
    (hrun : (c.runChain s chain m).await x = .error e y) :
    chain.Blames (fun mode call ↦ (c.run mode call).await) e y := by
  have hwalked := c.walk_walked Link.bindForwarded s chain m.reader x
  rw [← AsyncConnection.runChain, hrun] at hwalked
  exact h.blames hwalked

end Chain.HandsOn

end SchemaSql
