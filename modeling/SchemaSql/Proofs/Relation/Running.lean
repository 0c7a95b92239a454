import SchemaSql.Proofs.Command.Chains
import SchemaSql.Proofs.Relation.Basic

/-!
Running chains on a relation. A statement reads only the parameters it is written with, for which a
call finds the values that the statement was made with; so a chain does to the rows what its steps
do, one after another.
-/

set_option autoImplicit false
set_option relaxedAutoImplicit false

namespace SchemaSql

/-! ### Parameters that statements read -/

theorem Conflict.clause_parameters (c : Conflict) :
    c.clause.parameters = c.assignments.flatMap fun a ↦ a.value.parameters := by
  cases c with
  | fail | ignore => rfl
  | onDuplicate as => simp [clause, assignments]
  | onKeys keys as => cases as <;> simp [clause, assignments]

section Congruence

variable {f g : Parameter → Value}

theorem cellValues_congr {cells : List Cell} (h : ∀ p ∈ rowParameters cells, f p = g p) :
    cellValues f cells = cellValues g cells := by
  refine List.map_congr_left fun c hc ↦ ?_
  rw [h c.parameter (List.mem_map_of_mem hc)]

theorem Tuple.assign_congr {as : List Assignment}
    (h : ∀ p ∈ as.flatMap fun a ↦ a.value.parameters, f p = g p) (supplied v : Tuple) :
    Tuple.assign f supplied as v = Tuple.assign g supplied as v := by
  have hvalue : ∀ a ∈ as, a.newValue f supplied v = a.newValue g supplied v := by
    intro a ha
    have hread : ∀ p ∈ a.value.parameters, f p = g p := fun p hp ↦
      h p (List.mem_flatMap.mpr ⟨a, ha, hp⟩)
    cases hnew : a.value with
    | parameter p =>
      rw [Assignment.newValue, Assignment.newValue, hnew]
      exact hread p (by simp [hnew, NewValue.parameters])
    | supplied | unchanged => rw [Assignment.newValue, Assignment.newValue, hnew]
  rw [assign, assign, List.map_congr_left fun a ha ↦ by rw [hvalue a ha]]

theorem Tuple.satisfies_congr {criteria : List Predicate}
    (h : ∀ p ∈ criteria.flatMap Predicate.parameters, f p = g p) (v : Tuple) :
    criteria.all (v.satisfies f) = criteria.all (v.satisfies g) := by
  have hcriterion : ∀ q ∈ criteria, v.satisfies f q = v.satisfies g q := by
    intro q hq
    have hread : ∀ p ∈ q.parameters, f p = g p := fun p hp ↦
      h p (List.mem_flatMap.mpr ⟨q, hq, hp⟩)
    cases q with
    | isNull | lastInserted | written => rfl
    | equals c p | unmarked c p =>
      simp only [satisfies, hread p (by simp [Predicate.parameters])]
    | among c ps =>
      rw [satisfies, satisfies, Bool.eq_iff_iff, List.any_eq_true, List.any_eq_true]
      refine exists_congr fun p ↦ and_congr_right fun hp ↦ ?_
      rw [hread p hp]
  rw [Bool.eq_iff_iff, List.all_eq_true, List.all_eq_true]
  exact forall₂_congr fun q hq ↦ by rw [hcriterion q hq]

namespace Relation

variable {R : Relation} {rows : List Tuple}

/-- A statement reads only the parameters that it is written with. -/
theorem exec_congr {s : Statement} (h : ∀ p ∈ s.fragment.parameters, f p = g p) :
    R.exec f rows s = R.exec g rows s := by
  cases s with
  | insert s =>
    rw [Statement.insert_parameters, Conflict.clause_parameters, List.forall_mem_append] at h
    have hassign : ∀ supplied : Tuple, Tuple.assign f supplied s.conflict.assignments =
        Tuple.assign g supplied s.conflict.assignments :=
      fun supplied ↦ funext (Tuple.assign_congr h.2 supplied)
    simp only [exec, insert, cellValues_congr h.1, hassign]
  | update s =>
    rw [Statement.update_parameters, List.forall_mem_append] at h
    simp only [exec, update, Tuple.satisfies_congr h.2, Tuple.assign_congr h.1]
  | merge s =>
    rw [Statement.merge_parameters] at h
    have hassign (supplied : Tuple) :
        Tuple.assign f supplied (s.updates.map fun c ↦ ⟨c, .supplied⟩) =
          Tuple.assign g supplied (s.updates.map fun c ↦ ⟨c, .supplied⟩) := by
      refine funext (Tuple.assign_congr ?_ supplied)
      simp [NewValue.parameters]
    simp only [exec, merge, cellValues_congr h, hassign]
  | select s =>
    simp only [exec, select]
    split
    · rename_i hplain
      rw [hplain, Statement.select_parameters] at h
      simp only [Tuple.satisfies_congr h]
    · rfl
  | delete | lastIdentity | call | procedure | written | discover => rfl

end Relation

end Congruence

/-! ### Steps and chains -/

/-- Whether a step runs, as far as this is known, after so many rows have been touched. -/
def ChainStep.runsAfter? (step : ChainStep) (counted : Option Nat) : Option Bool :=
  match step.condition with
  | .always => some true
  | .previousAffectedNone => counted.map (· == 0)

theorem Link.Runs.runsAfter {d : Dialect} {step : ChainStep} {l : Link} (hl : l.Runs d step)
    {counted previous : Option Nat} (hcounted : ∀ n, counted = some n → previous = some n)
    {runs : Bool} (h : step.runsAfter? counted = some runs) : l.runsAfter previous = runs := by
  rw [Link.runsAfter, hl.condition]
  rw [ChainStep.runsAfter?] at h
  cases hcondition : step.condition with
  | always =>
    rw [hcondition] at h
    exact Option.some.inj h
  | previousAffectedNone =>
    rw [hcondition] at h
    obtain ⟨n, hn, rfl⟩ := Option.map_eq_some_iff.mp h
    simp [hcounted n hn]

namespace Relation

/-- Runs steps with the values that their statements were made with. `counted` says how many rows
the last step to run has touched, if they were counted. -/
def runSteps (R : Relation) : Option Nat → List ChainStep → List Tuple → Refusable (List Tuple)
  | _, [], rows => .ok rows
  | counted, step :: rest, rows =>
    match step.runsAfter? counted with
    | none => .error .notUnderstood
    | some false => R.runSteps counted rest rows
    | some true =>
      (R.exec Parameter.value rows step.statement).bind fun e ↦
        R.runSteps (if step.counted then some e.touched.length else none) rest e.rows

variable {R : Relation} {rows rows' : List Tuple} {d : Dialect} {e : Effect}

theorem runSteps_cons {step : ChainStep} {counted : Option Nat}
    (hruns : step.runsAfter? counted = some true)
    (h : R.exec Parameter.value rows step.statement = .ok e) (rest : List ChainStep) :
    R.runSteps counted (step :: rest) rows =
      R.runSteps (if step.counted then some e.touched.length else none) rest e.rows := by
  rw [runSteps, hruns, h]
  rfl

theorem runSteps_skip {step : ChainStep} {counted : Option Nat}
    (hruns : step.runsAfter? counted = some false) (rest : List ChainStep) :
    R.runSteps counted (step :: rest) rows = R.runSteps counted rest rows := by
  rw [runSteps, hruns]

/-- What is read of a call that has touched rows. -/
def outcome (mode : ReadMode) (call : Call) (touched : List Tuple) : Outcome :=
  match mode with
  | .rows => .rows (answer call touched)
  | .scalar => .scalar (answer call touched).firstValue
  | .count => .affected touched.length

theorem connection_run {call : Call}
    (h : R.exec (valueAmong call.parameters) rows call.statement = .ok e) (mode : ReadMode) :
    R.connection.run mode call rows = .ok (outcome mode call e.touched) e.rows := by
  have hrun : R.run call rows = .ok e.touched e.rows := by rw [run, h]
  cases mode <;> simp [Connection.run, connection, outcome, Functor.map, EStateM.map, hrun]

/-- A link does to the rows what its step does, reads what the step touches, and hands nothing
on. -/
theorem runLink_ok {step : ChainStep} {l : Link} (hl : l.Runs d step)
    (h : R.exec Parameter.value rows step.statement = .ok e) (f : Forwarders) (s : Settings)
    (wanted : ReadMode) (p : Progress) (next : Option Link) :
    R.connection.runLink f s wanted p l next rows =
      .ok (p.record l (outcome (l.readMode wanted) (Call.ofLink l s) e.touched) none) e.rows := by
  have hexec : R.exec (valueAmong (Call.ofLink l s).parameters) rows
      (Call.ofLink l s).statement = .ok e := by
    change R.exec (valueAmong l.parameters) rows l.statement = .ok e
    rw [exec_congr fun q hq ↦ hl.written.valueAmong hq, hl.statement]
    exact h
  have hrun := connection_run hexec (l.readMode wanted)
  have hcheck (n : Nat) : l.check.verify l.operation n = .ok () := by
    rw [hl.check]
    rfl
  have hhanded (o : Outcome) : l.handOver f p.index o next = .ok none := by
    rcases hl.mode with hmode | ⟨hmode, -⟩ <;> simp [Link.handOver, hmode]
  have hafter (o : Outcome) : p.after f l o next = .ok (p.record l o none) := by
    rw [Progress.after, hcheck, hhanded]
    rfl
  simp [Connection.runLink, bind, EStateM.bind, hrun, hafter, liftExcept, pure, EStateM.pure]

/-- A step whose rows are counted is run by a link that counts them. -/
theorem previous_record {step : ChainStep} {l : Link} (hl : l.Runs d step) (hcounted : step.counted)
    (s : Settings) (wanted : ReadMode) (p : Progress) (touched : List Tuple) :
    (p.record l (outcome (l.readMode wanted) (Call.ofLink l s) touched) none).previous =
      some touched.length := by
  have hmode : l.mode = .count := by
    refine hl.mode.resolve_right ?_
    rintro ⟨-, huncounted⟩
    rw [hcounted] at huncounted
    simp at huncounted
  rw [Progress.record, Link.readMode, hmode]
  rfl

/-- Links do to the rows what their steps do, whatever follows them. What the steps know of the
affected rows, the progress of the run knows too. -/
theorem runLinks_append {steps : List ChainStep} {chain : Chain} (h : chain.Runs d steps)
    (f : Forwarders) (s : Settings) (wanted : ReadMode) {counted : Option Nat} {p : Progress}
    (hsteps : R.runSteps counted steps rows = .ok rows') (hhanded : p.handed = none)
    (hcounted : ∀ n, counted = some n → p.previous = some n) (rest : Chain) :
    ∃ p', p'.handed = none ∧ R.connection.runLinks f s wanted p (chain ++ rest) rows =
      R.connection.runLinks f s wanted p' rest rows' := by
  induction h generalizing counted p rows with
  | nil =>
    obtain rfl := Except.ok.inj hsteps
    exact ⟨p, hhanded, rfl⟩
  | @cons step l steps chain hl hrest ih =>
    have hlink : { l with parameters := p.handed.getD l.parameters } = l := by rw [hhanded]; rfl
    rw [runSteps] at hsteps
    cases hruns : step.runsAfter? counted with
    | none =>
      rw [hruns] at hsteps
      simp at hsteps
    | some runs =>
      have hafter := hl.runsAfter hcounted hruns
      cases runs with
      | false =>
        rw [hruns] at hsteps
        obtain ⟨p', hp', hrun⟩ := ih (p := p.skip) hsteps rfl hcounted
        refine ⟨p', hp', ?_⟩
        simp only [List.cons_append, Connection.runLinks, hlink, hafter, Bool.false_eq_true,
          if_false, bind, EStateM.bind, pure, EStateM.pure]
        exact hrun
      | true =>
        rw [hruns] at hsteps
        obtain ⟨e, he, hsteps⟩ := bind_eq_ok.mp hsteps
        have hfirst := runLink_ok hl he f s wanted p (chain ++ rest).head?
        have hknown : ∀ n, (if step.counted then some e.touched.length else none) = some n →
            (p.record l (outcome (l.readMode wanted) (Call.ofLink l s) e.touched) none).previous =
              some n := by
          intro n hn
          split at hn
          · rw [← hn]
            exact previous_record hl ‹_› s wanted p e.touched
          · simp at hn
        obtain ⟨p', hp', hrun⟩ := ih hsteps rfl hknown
        refine ⟨p', hp', ?_⟩
        simp only [List.cons_append, Connection.runLinks, hlink, hafter, if_true, bind,
          EStateM.bind, hfirst]
        exact hrun

/-- No link of a chain that carries out steps forwards a value. -/
theorem checkForwards_ok {steps : List ChainStep} {chain : Chain} (h : chain.Runs d steps)
    (i : Nat) : chain.checkForwards i = .ok () := by
  induction h generalizing i with
  | nil => rfl
  | @cons step l steps chain hl hrest ih =>
    rw [Chain.checkForwards]
    rcases hl.mode with hmode | ⟨hmode, -⟩ <;> simp only [hmode] <;> exact ih (i + 1)

/-- A chain leaves the rows that its steps leave. -/
theorem runChain_ok {steps : List ChainStep} {chain : Chain} (h : chain.Runs d steps)
    (hsteps : R.runSteps none steps rows = .ok rows') (s : Settings) (m : Materializer) :
    ∃ answer, R.connection.runChain s chain m rows = .ok answer rows' := by
  obtain ⟨p, -, hp⟩ :=
    runLinks_append h Link.bindForwarded s m.readMode hsteps (p := {}) rfl (by simp) []
  rw [List.append_nil] at hp
  refine ⟨m.finish p.finish, ?_⟩
  simp only [Connection.runChain, Connection.walk, Materializer.reader, checkForwards_ok h,
    liftExcept, bind, EStateM.bind, pure, EStateM.pure, hp, Connection.runLinks]

/-! ### Answers -/

/-- Steps whose last one always runs leave rows and answer with those that this one touches. -/
def AnswersWith (R : Relation) (steps : List ChainStep) (rows : List Tuple) (e : Effect)
    (wanted : List Column) : Prop :=
  ∃ front last rows', steps = front ++ [last] ∧ last.condition = .always ∧
    columns last.statement = wanted ∧ R.runSteps none front rows = .ok rows' ∧
      R.exec Parameter.value rows' last.statement = .ok e

/-- Some columns of rows. -/
def project (wanted : List Column) (rows : List Tuple) : RowSet where
  columns := wanted.map (·.name)
  rows := rows.map fun v ↦ wanted.map v

/-- A chain whose last link reads what the caller asks for answers with what its last step
touches. -/
theorem runChain_answer {steps : List ChainStep} {chain : Chain} (h : chain.Runs d steps)
    (hanswers : chain.Answers) {wanted : List Column} (hsteps : R.AnswersWith steps rows e wanted)
    (s : Settings) (desired : Desired) :
    R.connection.runChain s chain (.rows desired) rows =
      .ok (.rows (project wanted e.touched)) e.rows := by
  obtain ⟨front, step, rows', rfl, halways, rfl, hfront, hstep⟩ := hsteps
  obtain ⟨links, last, rfl, hmode⟩ := hanswers
  obtain ⟨hlinks, hlast⟩ := Chain.Runs.of_concat h
  obtain ⟨p, hp, hrun⟩ :=
    runLinks_append hlinks Link.bindForwarded s .rows hfront (p := {}) rfl (by simp) [last]
  have hlink : { last with parameters := p.handed.getD last.parameters } = last := by rw [hp]; rfl
  have hafter : last.runsAfter p.previous = true := by
    rw [Link.runsAfter, hlast.condition, halways]
  have hread := runLink_ok hlast hstep Link.bindForwarded s .rows p none
  have hrows : last.readMode .rows = .rows := by rw [Link.readMode, hmode]
  simp only [Connection.runChain, Connection.walk, Materializer.reader, checkForwards_ok h,
    liftExcept, bind, EStateM.bind, pure, EStateM.pure, Materializer.readMode, hrun,
    Connection.runLinks, hlink, hafter, if_true, List.head?_nil, hread]
  simp [Materializer.finish, Progress.finish, Progress.record, hmode, hrows, outcome,
    Materializer.rowsOf, answer, project, Call.ofLink, hlast.statement]

end Relation

end SchemaSql
