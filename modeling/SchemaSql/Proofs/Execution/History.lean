import SchemaSql.Execution.Run

/-!
What running a chain comes to, whatever the database answers. A history tells which links have been
visited, and how; whether a link runs and with which parameters is read off the history before it.
`Walked` says of a run that its calls are those of such a history, and how it ends: with the chain,
or with the first link whose call, check or forwarder fails. `Connection.walk_walked` shows it of
every run, by what one link adds to the history.
-/

set_option autoImplicit false
set_option relaxedAutoImplicit false

namespace SchemaSql

/-! ### Links without a forwarder -/

/-- The link at a position hands a value on, but it does not say to which parameter or has no link
behind it. -/
def Chain.ForwardsNowhere (chain : Chain) (i : Nat) (l : Link) : Prop :=
  chain[i]? = some l ∧
    ∃ target, l.mode = .forward target ∧ (target = none ∨ i + 1 = chain.length)

namespace Chain

variable {l m : Link} {rest : Chain} {i : Nat}

theorem forwardsNowhere_zero :
    ForwardsNowhere (l :: rest) 0 m ↔
      l = m ∧ ∃ target, l.mode = .forward target ∧ (target = none ∨ rest = []) := by
  simp only [ForwardsNowhere, List.getElem?_cons_zero, Option.some.injEq, List.length_cons,
    Nat.zero_add, Nat.right_eq_add, List.length_eq_zero_iff]
  exact and_congr_right fun hlm ↦ by rw [hlm]

theorem forwardsNowhere_succ :
    ForwardsNowhere (l :: rest) (i + 1) m ↔ ForwardsNowhere rest i m := by
  simp [ForwardsNowhere]

/-- A chain is refused for its first link that forwards nowhere, and only for one. -/
theorem checkForwards_cases (chain : Chain) (start : Nat) :
    (∃ i l, chain.ForwardsNowhere i l ∧ (∀ j < i, ∀ m, ¬ chain.ForwardsNowhere j m) ∧
        chain.checkForwards start = .error (.missingForwarder (start + i) l.operation)) ∨
      (∀ i l, ¬ chain.ForwardsNowhere i l) ∧ chain.checkForwards start = .ok () := by
  induction chain generalizing start with
  | nil => exact .inr ⟨by simp [ForwardsNowhere], rfl⟩
  | cons l rest ih =>
    by_cases hfirst : ForwardsNowhere (l :: rest) 0 l
    · refine .inl ⟨0, l, hfirst, by simp, ?_⟩
      obtain ⟨-, target, hmode, htarget⟩ := forwardsNowhere_zero.mp hfirst
      rcases htarget with rfl | rfl <;> simp [checkForwards, hmode]
    · have hpass : checkForwards start (l :: rest) = checkForwards (start + 1) rest := by
        rw [checkForwards]
        split
        · rename_i target hmode
          rw [if_neg]
          intro hnowhere
          exact hfirst (forwardsNowhere_zero.mpr ⟨rfl, target, hmode, by simpa using hnowhere⟩)
        · rfl
      have hnone (m : Link) : ¬ ForwardsNowhere (l :: rest) 0 m := fun hm ↦ by
        obtain ⟨rfl, -⟩ := forwardsNowhere_zero.mp hm
        exact hfirst hm
      rcases ih (start + 1) with ⟨i, m, hm, hbefore, herror⟩ | ⟨hall, hok⟩
      · refine .inl ⟨i + 1, m, forwardsNowhere_succ.mpr hm, fun j hj k ↦ ?_, ?_⟩
        · cases j with
          | zero => exact hnone k
          | succ j => exact fun hk ↦ hbefore j (by omega) k (forwardsNowhere_succ.mp hk)
        · rw [hpass, herror, Nat.add_right_comm, Nat.add_assoc]
      · refine .inr ⟨fun i m ↦ ?_, hpass.trans hok⟩
        cases i with
        | zero => exact hnone m
        | succ i => exact fun hm ↦ hall i m (forwardsNowhere_succ.mp hm)

end Chain

/-! ### Histories -/

/-- What has come of a link: the parameters that it was to run with, and its outcome if it ran. -/
structure Visit where
  link : Link
  parameters : List Parameter
  outcome : Option Outcome

abbrev History := List Visit

namespace Visit

def call (v : Visit) (s : Settings) : Call :=
  Call.ofLink { v.link with parameters := v.parameters } s

/-- What a link makes of the parameters of the link behind it. -/
def handsOver (f : Forwarders) (v : Visit) (ps : List Parameter) : Except Error (List Parameter) :=
  match v.outcome, v.link.mode with
  | some o, .forward (some name) => f name o.forwarded ps
  | _, _ => .ok ps

end Visit

namespace History

def links (h : History) : Chain := h.map (·.link)

def outcomes (h : History) : List Outcome := h.filterMap (·.outcome)

/-- How many rows the last link to run has affected. -/
def affected? (h : History) : Option Nat := h.outcomes.getLast?.map Outcome.affectedRows

/-- The outcome of the last link to run whose result the caller asked for. -/
def result? (h : History) : Option Outcome :=
  (History.outcomes (h.filter (·.link.mode = .result))).getLast?

/-- What the caller is answered with: such a result, or else the last count. -/
def answer (h : History) : Outcome := h.result?.getD (.affected (h.affected?.getD 0))

/-- Whether a link behind these runs. -/
def Runs (h : History) (l : Link) : Prop := l.condition = .always ∨ h.affected? = some 0

/-- The parameters of a link behind these, as the link right before it leaves them. -/
def parametersOf (f : Forwarders) (h : History) (l : Link) : Except Error (List Parameter) :=
  match h.getLast? with
  | some v => v.handsOver f l.parameters
  | none => .ok l.parameters

/-- The calls of the links that have run, how each was read, and its outcome. -/
def calls (h : History) (s : Settings) (wanted : ReadMode) : List (ReadMode × Call × Outcome) :=
  h.filterMap fun v ↦ v.outcome.map fun o ↦ (v.link.readMode wanted, v.call s, o)

/-- Every visit is what those before it make of its link, and every outcome has passed its check. -/
structure Lawful (f : Forwarders) (h : History) : Prop where
  runs : ∀ before v after, h = before ++ v :: after →
    (v.outcome.isSome ↔ History.Runs before v.link)
  parameters : ∀ before v after, h = before ++ v :: after →
    History.parametersOf f before v.link = .ok v.parameters
  accepted : ∀ v ∈ h, ∀ o, v.outcome = some o → v.link.check.accepts o.affectedRows

section Last

variable {f : Forwarders} {h : History} {l : Link} {ps : List Parameter} {o : Option Outcome}

@[simp] theorem links_append_singleton (v : Visit) : (h ++ [v]).links = h.links ++ [v.link] := by
  simp [links]

theorem affected?_skipped : (h ++ [Visit.mk l ps none]).affected? = h.affected? := by
  simp [affected?, outcomes]

theorem affected?_run (o : Outcome) :
    (h ++ [Visit.mk l ps (some o)]).affected? = some o.affectedRows := by
  simp [affected?, outcomes]

theorem result?_skipped : (h ++ [Visit.mk l ps none]).result? = h.result? := by
  by_cases hmode : l.mode = .result <;> simp [result?, outcomes, hmode]

theorem result?_run (o : Outcome) :
    (h ++ [Visit.mk l ps (some o)]).result? = if l.mode = .result then some o else h.result? := by
  by_cases hmode : l.mode = .result <;> simp [result?, outcomes, hmode]

theorem parametersOf_last (v : Visit) :
    (h ++ [v]).parametersOf f l = v.handsOver f l.parameters := by
  simp [parametersOf]

theorem calls_skipped (s : Settings) (wanted : ReadMode) :
    (h ++ [Visit.mk l ps none]).calls s wanted = h.calls s wanted := by
  simp [calls]

theorem calls_run (o : Outcome) (s : Settings) (wanted : ReadMode) :
    (h ++ [Visit.mk l ps (some o)]).calls s wanted =
      h.calls s wanted ++ [(l.readMode wanted, Call.ofLink { l with parameters := ps } s, o)] := by
  simp [calls, Visit.call]

theorem Lawful.nil : Lawful f [] where
  runs before v after h := by simp at h
  parameters before v after h := by simp at h
  accepted := by simp

/-- A lawful history goes on with what it makes of the next link. -/
theorem Lawful.concat (hh : Lawful f h) (hruns : o.isSome ↔ h.Runs l)
    (hparameters : h.parametersOf f l = .ok ps)
    (haccepted : ∀ x, o = some x → l.check.accepts x.affectedRows) :
    Lawful f (h ++ [Visit.mk l ps o]) := by
  have hsplit {before : History} {v : Visit} {after : History}
      (heq : h ++ [Visit.mk l ps o] = before ++ v :: after) :
      (before = h ∧ v = ⟨l, ps, o⟩) ∨ ∃ after', h = before ++ v :: after' := by
    rcases List.eq_nil_or_concat after with rfl | ⟨after', w, rfl⟩
    · obtain ⟨rfl, hv⟩ := List.append_inj' heq rfl
      exact .inl ⟨rfl, (List.singleton_inj.mp hv).symm⟩
    · refine .inr ⟨after', ?_⟩
      rw [List.concat_eq_append, ← List.cons_append, ← List.append_assoc] at heq
      exact (List.append_inj' heq rfl).1
  constructor
  · intro before v after heq
    rcases hsplit heq with ⟨rfl, rfl⟩ | ⟨after', heq⟩
    · exact hruns
    · exact hh.runs before v after' heq
  · intro before v after heq
    rcases hsplit heq with ⟨rfl, rfl⟩ | ⟨after', heq⟩
    · exact hparameters
    · exact hh.parameters before v after' heq
  · intro v hv x hx
    rcases List.mem_append.mp hv with hv | hv
    · exact hh.accepted v hv x hx
    · obtain rfl := List.mem_singleton.mp hv
      exact haccepted x hx

end Last

end History

/-! ### Runs -/

section Runs

variable {σ α : Type}

/-- The calls have had these outcomes, one after another, and led from one state to the other. -/
inductive Answered (perform : ReadMode → Call → Action σ Outcome) :
    List (ReadMode × Call × Outcome) → σ → σ → Prop
  | nil (x : σ) : Answered perform [] x x
  | concat {calls : List (ReadMode × Call × Outcome)} {mode : ReadMode} {call : Call} {o : Outcome}
      {x y z : σ} (before : Answered perform calls x y) (last : perform mode call y = .ok o z) :
      Answered perform (calls ++ [(mode, call, o)]) x z

/-- A link that runs behind a history with certain parameters fails, with an error and the state
that its call has left: the call fails, its outcome does not pass the check, or the link behind it
does not take what is forwarded. -/
inductive Fails (perform : ReadMode → Call → Action σ Outcome) (f : Forwarders) (s : Settings)
    (wanted : ReadMode) (h : History) (l : Link) (ps : List Parameter) (rest : Chain) (y : σ) :
    Error → σ → Prop
  | call {e : Error} {z : σ}
      (fails : perform (l.readMode wanted) (Call.ofLink { l with parameters := ps } s) y =
        .error e z) :
      Fails perform f s wanted h l ps rest y e z
  | check {o : Outcome} {z : σ}
      (answers : perform (l.readMode wanted) (Call.ofLink { l with parameters := ps } s) y = .ok o z)
      (rejected : l.check.accepts o.affectedRows = false) :
      Fails perform f s wanted h l ps rest y (.rowCount l.operation l.check o.affectedRows) z
  | forward {o : Outcome} {z : σ} {next : Link} {e : Error}
      (answers : perform (l.readMode wanted) (Call.ofLink { l with parameters := ps } s) y = .ok o z)
      (accepted : l.check.accepts o.affectedRows = true) (behind : rest.head? = some next)
      (refused : History.parametersOf f (h ++ [Visit.mk l ps (some o)]) next = .error e) :
      Fails perform f s wanted h l ps rest y e z

/-- What a reader makes of an answer. -/
def Reader.returns (r : Reader α) (o : Outcome) (y : σ) : EStateM.Result Error σ α :=
  match r.finish o with
  | .ok a => .ok a y
  | .error e => .error e y

/-- How a run of a chain from a state ends. A chain with a link that forwards nowhere is refused as
it is. Otherwise the calls made are those of a lawful history of the first links: of all of them, or
of those before the first link that fails. -/
def Walked (perform : ReadMode → Call → Action σ Outcome) (f : Forwarders) (s : Settings)
    (chain : Chain) (r : Reader α) (x : σ) (result : EStateM.Result Error σ α) : Prop :=
  (∃ i l, chain.ForwardsNowhere i l ∧ (∀ j < i, ∀ m, ¬ chain.ForwardsNowhere j m) ∧
      result = .error (.missingForwarder i l.operation) x) ∨
    (∀ i l, ¬ chain.ForwardsNowhere i l) ∧ ∃ (h : History) (y : σ),
      h.Lawful f ∧ Answered perform (h.calls s r.mode) x y ∧
        (h.links = chain ∧ result = r.returns h.answer y ∨
          ∃ l ps rest e z, chain = h.links ++ l :: rest ∧ h.Runs l ∧ h.parametersOf f l = .ok ps ∧
            Fails perform f s r.mode h l ps rest y e z ∧ result = .error e z)

end Runs

/-! ### What a run keeps of its history -/

theorem Link.runsAfter_iff (l : Link) (h : History) :
    l.runsAfter h.affected? = true ↔ h.Runs l := by
  cases hcondition : l.condition <;> simp [Link.runsAfter, History.Runs, hcondition]

/-- What a link that ran makes of the parameters of the next one, it hands over. -/
theorem Link.handOver_cases (f : Forwarders) {l : Link} {rest : Chain} (ps : List Parameter)
    (index : Nat) (o : Outcome) (hforwards : ¬ Chain.ForwardsNowhere (l :: rest) 0 l) :
    (∃ next e, rest.head? = some next ∧
        (Visit.mk l ps (some o)).handsOver f next.parameters = .error e ∧
        l.handOver f index o rest.head? = .error e) ∨
      ∃ handed, l.handOver f index o rest.head? = .ok handed ∧ ∀ next, rest.head? = some next →
        (Visit.mk l ps (some o)).handsOver f next.parameters =
          .ok (handed.getD next.parameters) := by
  simp only [Link.handOver, Visit.handsOver]
  cases hmode : l.mode with
  | result | count => exact .inr ⟨none, rfl, fun _ _ ↦ rfl⟩
  | forward target =>
    rw [Chain.forwardsNowhere_zero] at hforwards
    cases target with
    | none => exact absurd ⟨rfl, none, hmode, .inl rfl⟩ hforwards
    | some name =>
      cases rest with
      | nil => exact absurd ⟨rfl, some name, hmode, .inr rfl⟩ hforwards
      | cons next behind =>
        simp only [List.head?_cons]
        cases hvalue : f name o.forwarded next.parameters with
        | error e => exact .inl ⟨next, e, rfl, hvalue, rfl⟩
        | ok qs =>
          refine .inr ⟨some qs, rfl, fun other hother ↦ ?_⟩
          obtain rfl := Option.some.inj hother
          exact hvalue

/-- A run has of its history what the links behind it need. -/
structure Progress.Keeps (p : Progress) (f : Forwarders) (h : History) (rest : Chain) : Prop where
  previous : p.previous = h.affected?
  outcome : p.outcome = h.result?
  handed : ∀ next, rest.head? = some next →
    h.parametersOf f next = .ok (p.handed.getD next.parameters)

namespace Progress.Keeps

variable {f : Forwarders} {h : History} {rest : Chain} {l : Link} {p : Progress}
  {ps : List Parameter}

theorem start (f : Forwarders) (chain : Chain) : Progress.Keeps {} f [] chain :=
  ⟨rfl, rfl, fun _ _ ↦ rfl⟩

theorem finish (hp : p.Keeps f h rest) : p.finish = h.answer := by
  rw [Progress.finish, History.answer, hp.previous, hp.outcome]

theorem skip (hp : p.Keeps f h (l :: rest)) :
    p.skip.Keeps f (h ++ [Visit.mk l ps none]) rest where
  previous := hp.previous.trans History.affected?_skipped.symm
  outcome := hp.outcome.trans History.result?_skipped.symm
  handed _ _ := History.parametersOf_last _

theorem record (hp : p.Keeps f h (l :: rest)) {o : Outcome} {handed : Option (List Parameter)}
    (hhanded : ∀ next, rest.head? = some next →
      (Visit.mk l ps (some o)).handsOver f next.parameters = .ok (handed.getD next.parameters)) :
    (p.record { l with parameters := ps } o handed).Keeps f (h ++ [Visit.mk l ps (some o)]) rest
    where
  previous := (History.affected?_run o).symm
  outcome := by rw [History.result?_run, ← hp.outcome, Progress.record]
  handed next hnext := (History.parametersOf_last _).trans (hhanded next hnext)

/-- What one link that ran adds to a run: an error of its check, one of its forwarder, or the
visit. -/
theorem after_cases (hp : p.Keeps f h (l :: rest))
    (hforwards : ¬ Chain.ForwardsNowhere (l :: rest) 0 l) (ps : List Parameter) (o : Outcome) :
    (l.check.accepts o.affectedRows = false ∧
        p.after f { l with parameters := ps } o rest.head? =
          .error (.rowCount l.operation l.check o.affectedRows)) ∨
      l.check.accepts o.affectedRows = true ∧
        ((∃ next e, rest.head? = some next ∧
            History.parametersOf f (h ++ [Visit.mk l ps (some o)]) next = .error e ∧
            p.after f { l with parameters := ps } o rest.head? = .error e) ∨
          ∃ p', p.after f { l with parameters := ps } o rest.head? = .ok p' ∧
            p'.Keeps f (h ++ [Visit.mk l ps (some o)]) rest) := by
  cases haccepts : l.check.accepts o.affectedRows with
  | false =>
    exact .inl ⟨rfl, by simp [Progress.after, RowCheck.verify, haccepts, bind, Except.bind]⟩
  | true =>
    have hafter : p.after f { l with parameters := ps } o rest.head? =
        (l.handOver f p.index o rest.head?).map (p.record { l with parameters := ps } o) := by
      rw [Progress.after, RowCheck.verify, if_pos haccepts]
      rfl
    refine .inr ⟨rfl, ?_⟩
    rcases Link.handOver_cases f ps p.index o hforwards with
      ⟨next, e, hnext, hvisit, hrefused⟩ | ⟨handed, hhanded, hvisit⟩
    · refine .inl ⟨next, e, hnext, (History.parametersOf_last _).trans hvisit, ?_⟩
      rw [hafter, hrefused]
      rfl
    · refine .inr ⟨_, ?_, hp.record hvisit⟩
      rw [hafter, hhanded]
      rfl

end Progress.Keeps

namespace Connection

variable {σ α β : Type}

theorem bind_of_ok {a : Action σ α} (k : α → Action σ β) {v : α} {x y : σ} (h : a x = .ok v y) :
    (a >>= k) x = k v y := by
  simp [bind, EStateM.bind, h]

theorem bind_of_error {a : Action σ α} (k : α → Action σ β) {e : Error} {x y : σ}
    (h : a x = .error e y) : (a >>= k) x = .error e y := by
  simp [bind, EStateM.bind, h]

end Connection

namespace Action

variable {σ α β : Type}

/-- The state that an action leaves, whether it succeeds or fails. -/
def left (a : Action σ α) (x : σ) : σ :=
  match a x with
  | .ok _ y | .error _ y => y

theorem left_of_ok {a : Action σ α} {v : α} {x y : σ} (h : a x = .ok v y) : a.left x = y := by
  rw [left, h]

theorem left_of_error {a : Action σ α} {e : Error} {x y : σ} (h : a x = .error e y) :
    a.left x = y := by
  rw [left, h]

theorem left_map (g : α → β) (a : Action σ α) (x : σ) : left (g <$> a) x = a.left x := by
  simp only [left, Functor.map, EStateM.map]
  cases a x <;> rfl

theorem left_bind (a : Action σ α) (k : α → Action σ β) (hk : ∀ v y, (k v).left y = y) (x : σ) :
    left (a >>= k) x = a.left x := by
  cases h : a x with
  | ok v y => rw [left_of_ok h, left, Connection.bind_of_ok k h, ← left, hk]
  | error e y => rw [left_of_error h, left, Connection.bind_of_error k h]

end Action

namespace Connection

variable {σ α β : Type}

section OneLink

variable {c : Connection σ} {f : Forwarders} {s : Settings} {wanted : ReadMode} {p : Progress}
  {l : Link} {next : Option Link} {x y : σ}

theorem runLink_of_ok {o : Outcome}
    (h : c.run (l.readMode wanted) (Call.ofLink l s) x = .ok o y) :
    c.runLink f s wanted p l next x = liftExcept (p.after f l o next) y :=
  bind_of_ok _ h

theorem runLink_of_error {e : Error}
    (h : c.run (l.readMode wanted) (Call.ofLink l s) x = .error e y) :
    c.runLink f s wanted p l next x = .error e y :=
  bind_of_error _ h

end OneLink

/-- Running the links behind a history extends it, to the end of the chain or to the first link that
fails. -/
theorem runLinks_walked (c : Connection σ) (f : Forwarders) (s : Settings) (wanted : ReadMode)
    {x : σ} (rest : Chain) {h : History} {p : Progress} {y : σ} (hp : p.Keeps f h rest)
    (hforwards : ∀ i l, ¬ rest.ForwardsNowhere i l) (hlawful : h.Lawful f)
    (hcalls : Answered c.run (h.calls s wanted) x y) :
    ∃ (h' : History) (z : σ), h'.Lawful f ∧ Answered c.run (h'.calls s wanted) x z ∧
      ((h'.links = h.links ++ rest ∧ ∃ p' : Progress, p'.finish = h'.answer ∧
          c.runLinks f s wanted p rest y = .ok p' z) ∨
        ∃ l ps behind e w, h.links ++ rest = h'.links ++ l :: behind ∧ h'.Runs l ∧
          h'.parametersOf f l = .ok ps ∧ Fails c.run f s wanted h' l ps behind z e w ∧
          c.runLinks f s wanted p rest y = .error e w) := by
  induction rest generalizing h p y with
  | nil => exact ⟨h, y, hlawful, hcalls, .inl ⟨(List.append_nil _).symm, p, hp.finish, rfl⟩⟩
  | cons l rest ih =>
    have hbehind (i : Nat) (m : Link) : ¬ Chain.ForwardsNowhere rest i m := fun hm ↦
      hforwards (i + 1) m (Chain.forwardsNowhere_succ.mpr hm)
    let ps := p.handed.getD l.parameters
    have hps : h.parametersOf f l = .ok ps := hp.handed l rfl
    have hruns : Link.runsAfter { l with parameters := ps } p.previous = true ↔ h.Runs l := by
      rw [hp.previous]
      exact Link.runsAfter_iff l h
    -- What the rest of the run does to a longer history, it does to this one.
    have hextend {v : Visit} (hv : v.link = l) {p' : Progress} {y' : σ}
        (hrun : c.runLinks f s wanted p (l :: rest) y = c.runLinks f s wanted p' rest y')
        (hp' : p'.Keeps f (h ++ [v]) rest) (hlawful' : History.Lawful f (h ++ [v]))
        (hcalls' : Answered c.run (History.calls (h ++ [v]) s wanted) x y') := by
      have hrest := ih hp' hbehind hlawful' hcalls'
      rwa [History.links_append_singleton, hv, List.append_assoc, List.singleton_append,
        ← hrun] at hrest
    by_cases hdue : h.Runs l
    · have hstep : c.runLinks f s wanted p (l :: rest) y =
          (c.runLink f s wanted p { l with parameters := ps } rest.head? >>= fun p ↦
            c.runLinks f s wanted p rest) y := by
        rw [runLinks, if_pos (hruns.mpr hdue)]
      cases hcall : c.run (l.readMode wanted) (Call.ofLink { l with parameters := ps } s) y with
      | error e z =>
        refine ⟨h, y, hlawful, hcalls, .inr ⟨l, ps, rest, e, z, rfl, hdue, hps, .call hcall, ?_⟩⟩
        rw [hstep]
        exact bind_of_error _ (runLink_of_error (l := { l with parameters := ps }) hcall)
      | ok o z =>
        have hlink : c.runLink f s wanted p { l with parameters := ps } rest.head? y =
            liftExcept (p.after f { l with parameters := ps } o rest.head?) z := runLink_of_ok hcall
        rcases hp.after_cases (hforwards 0 l) ps o with
          ⟨hrejected, hafter⟩ | ⟨hkept, ⟨next, e, hnext, hrefused, hafter⟩ | ⟨p', hafter, hp'⟩⟩
        · refine ⟨h, y, hlawful, hcalls,
            .inr ⟨l, ps, rest, _, z, rfl, hdue, hps, .check hcall hrejected, ?_⟩⟩
          rw [hafter] at hlink
          rw [hstep]
          exact bind_of_error _ hlink
        · refine ⟨h, y, hlawful, hcalls,
            .inr ⟨l, ps, rest, e, z, rfl, hdue, hps, .forward hcall hkept hnext hrefused, ?_⟩⟩
          rw [hafter] at hlink
          rw [hstep]
          exact bind_of_error _ hlink
        · rw [hafter] at hlink
          refine hextend (v := ⟨l, ps, some o⟩) rfl (hstep.trans (bind_of_ok _ hlink)) hp'
            (hlawful.concat (by simpa using hdue) hps (by simpa using hkept)) ?_
          rw [History.calls_run]
          exact hcalls.concat hcall
    · have hstep : c.runLinks f s wanted p (l :: rest) y = c.runLinks f s wanted p.skip rest y := by
        rw [runLinks, if_neg (hdue ∘ hruns.mp)]
        rfl
      exact hextend (v := ⟨l, ps, none⟩) rfl hstep hp.skip
        (hlawful.concat (by simpa using hdue) hps (by simp))
        (by rwa [History.calls_skipped])

/-- Every run walks its chain as a lawful history does. -/
theorem walk_walked (c : Connection σ) (f : Forwarders) (s : Settings) (chain : Chain)
    (r : Reader α) (x : σ) : Walked c.run f s chain r x (c.walk f s chain r x) := by
  rcases chain.checkForwards_cases 0 with ⟨i, l, hl, hfirst, hrefused⟩ | ⟨hforwards, hok⟩
  · refine .inl ⟨i, l, hl, hfirst, ?_⟩
    rw [walk, hrefused, Nat.zero_add]
    rfl
  · have hstart : c.walk f s chain r x =
        (c.runLinks f s r.mode {} chain >>= fun p ↦ liftExcept (r.finish p.finish)) x := by
      rw [walk, hok]
      rfl
    obtain ⟨h, y, hlawful, hcalls, hend⟩ := c.runLinks_walked f s r.mode chain
      (Progress.Keeps.start f chain) hforwards History.Lawful.nil (.nil x)
    refine .inr ⟨hforwards, h, y, hlawful, hcalls, ?_⟩
    rcases hend with ⟨hlinks, p, hp, hrun⟩ | ⟨l, ps, behind, e, z, hlinks, hruns, hps, hfails, hrun⟩
    · refine .inl ⟨hlinks, ?_⟩
      rw [hstart, bind_of_ok _ hrun, hp, Reader.returns]
      cases r.finish h.answer <;> rfl
    · refine .inr ⟨l, ps, behind, e, z, hlinks, hruns, hps, hfails, ?_⟩
      rw [hstart, bind_of_error _ hrun]

end Connection

end SchemaSql
