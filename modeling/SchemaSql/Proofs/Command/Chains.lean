import Mathlib.Data.List.Forall2
import SchemaSql.Command.Upsert
import SchemaSql.Command.Write
import SchemaSql.Proofs.Statement.Rendering

/-!
Which links the chain of a plan has. A write other than an insert is one link, next to which at most
one reads rows by the criteria of the plan; a dialect without upserts of its own has an update that
an insert follows.
-/

set_option autoImplicit false
set_option relaxedAutoImplicit false

namespace SchemaSql

/-- A statement to run, and how a chain runs it. -/
structure ChainStep where
  statement : Statement
  condition : Condition := .always
  /-- Whether the affected rows are counted, whatever the caller wants to read. -/
  counted : Bool := false

/-- A link that carries out a step in a dialect, and does not mind how many rows it affects. -/
structure Link.Runs (d : Dialect) (step : ChainStep) (l : Link) : Prop where
  statement : l.statement = step.statement
  written : l.WrittenIn d
  condition : l.condition = step.condition
  check : l.check = .ignore
  mode : l.mode = .count ∨ l.mode = .result ∧ step.counted = false

namespace Link.Runs

variable {d : Dialect} {step : ChainStep} {l : Link}

theorem ofStatement {operation : String} {s : Statement}
    (h : Link.ofStatement d operation s = .ok l) : l.Runs d { statement := s } := by
  obtain ⟨hwritten, -, hstatement, hmode, hcondition, hcheck, -⟩ := ofStatement_ok h
  exact ⟨hstatement, hwritten, hcondition, hcheck, .inr ⟨hmode, rfl⟩⟩

theorem counting (h : l.Runs d step) (counted : Bool) :
    l.counting.Runs d { step with counted } :=
  ⟨h.statement, h.written, h.condition, h.check, .inl rfl⟩

theorem withoutResult (h : l.Runs d step) : l.withoutResult.Runs d step := by
  rw [Link.withoutResult]
  split
  · exact h.counting step.counted
  · exact h

theorem under (h : l.Runs d step) (condition : Condition) :
    ({ l with condition } : Link).Runs d { step with condition } :=
  ⟨h.statement, h.written, rfl, h.check, h.mode⟩

end Link.Runs

/-- The links of a chain carry out the given steps. -/
def Chain.Runs (d : Dialect) (steps : List ChainStep) (chain : Chain) : Prop :=
  List.Forall₂ (Link.Runs d) steps chain

theorem Chain.Runs.withoutResult {d : Dialect} {steps : List ChainStep} {chain : Chain}
    (h : chain.Runs d steps) : chain.withoutResult.Runs d steps :=
  List.forall₂_map_right_iff.mpr (h.imp fun _ _ hl ↦ hl.withoutResult)

/-- The last link of a chain reads what the caller asks for. -/
def Chain.Answers (chain : Chain) : Prop :=
  ∃ front last, chain = front ++ [last] ∧ last.mode = .result

theorem forall₂_exists_of_mem {α β : Type} {R : α → β → Prop} {as : List α} {bs : List β}
    (h : List.Forall₂ R as bs) {b : β} (hb : b ∈ bs) : ∃ a ∈ as, R a b := by
  induction h with
  | nil => simp at hb
  | @cons a b' as bs hab hrest ih =>
    rcases List.mem_cons.mp hb with rfl | hmem
    · exact ⟨a, List.mem_cons_self, hab⟩
    · obtain ⟨a', ha', hab'⟩ := ih hmem
      exact ⟨a', List.mem_cons_of_mem _ ha', hab'⟩

theorem Chain.Runs.exists_step {d : Dialect} {steps : List ChainStep} {chain : Chain}
    (h : chain.Runs d steps) {l : Link} (hl : l ∈ chain) : ∃ step ∈ steps, l.Runs d step :=
  forall₂_exists_of_mem h hl

theorem Chain.Runs.exists_link {d : Dialect} {steps : List ChainStep} {chain : Chain}
    (h : chain.Runs d steps) {step : ChainStep} (hstep : step ∈ steps) :
    ∃ l ∈ chain, l.Runs d step := by
  have hflipped : List.Forall₂ (flip (Link.Runs d)) chain steps := List.Forall₂.flip h
  exact forall₂_exists_of_mem hflipped hstep

theorem Chain.Runs.of_concat {d : Dialect} {steps : List ChainStep} {step : ChainStep}
    {chain : Chain} {l : Link} (h : Chain.Runs d (steps ++ [step]) (chain ++ [l])) :
    chain.Runs d steps ∧ l.Runs d step := by
  have hreversed := List.rel_reverse h
  rw [List.reverse_concat, List.reverse_concat] at hreversed
  obtain ⟨hlast, hfront⟩ := List.forall₂_cons.mp hreversed
  refine ⟨?_, hlast⟩
  have hstraight := List.rel_reverse hfront
  rwa [List.reverse_reverse, List.reverse_reverse] at hstraight

namespace WritePlan

variable {p : WritePlan} {chain : Chain}

theorem writeLink_ok {s : Statement} {l : Link} (h : p.writeLink s = .ok l) :
    l.statement = s ∧ l.WrittenIn p.dialect := by
  rw [writeLink] at h
  obtain ⟨l, hl, rfl⟩ := map_eq_ok.mp h
  obtain ⟨hwritten, -, hstatement, -⟩ := Link.ofStatement_ok hl
  exact ⟨hstatement, hwritten⟩

theorem readLink_ok {operation : String} {criteria : List Predicate} {l : Link}
    (h : p.readLink operation criteria = .ok l) :
    l.statement = p.readStatement criteria ∧ l.WrittenIn p.dialect := by
  obtain ⟨hwritten, -, hstatement, -⟩ := Link.ofStatement_ok h
  exact ⟨hstatement, hwritten⟩

/-! ### Updates and deletes -/

/-- One link of the chain carries out a write, and all others read rows by the plan's criteria. -/
def CarriedOutBy (p : WritePlan) (s : Statement) (chain : Chain) : Prop :=
  (∀ l ∈ chain, l.WrittenIn p.dialect) ∧
    ∃ before write after, chain = before ++ write :: after ∧ write.statement = s ∧
      ∀ l ∈ before ++ after, l.statement = p.readStatement p.criteria

namespace CarriedOutBy

variable {s : Statement} {write read : Link}

theorem single (hwrite : write.statement = s ∧ write.WrittenIn p.dialect) :
    p.CarriedOutBy s [write] :=
  ⟨by simpa using hwrite.2, [], write, [], rfl, hwrite.1, by simp⟩

theorem thenRead (hwrite : write.statement = s ∧ write.WrittenIn p.dialect)
    (hread : read.statement = p.readStatement p.criteria ∧ read.WrittenIn p.dialect) :
    p.CarriedOutBy s [write.counting, read] := by
  refine ⟨?_, [], write.counting, [read], rfl, hwrite.1, by simpa using hread.1⟩
  simp only [List.forall_mem_cons, List.not_mem_nil, false_implies, implies_true, and_true]
  exact ⟨hwrite.2.counting, hread.2⟩

theorem afterRead (hwrite : write.statement = s ∧ write.WrittenIn p.dialect)
    (hread : read.statement = p.readStatement p.criteria ∧ read.WrittenIn p.dialect) :
    p.CarriedOutBy s [read, write.counting] := by
  refine ⟨?_, [read], write.counting, [], rfl, hwrite.1, by simpa using hread.1⟩
  simp only [List.forall_mem_cons, List.not_mem_nil, false_implies, implies_true, and_true]
  exact ⟨hread.2, hwrite.2.counting⟩

theorem finish (h : p.CarriedOutBy s chain) : p.CarriedOutBy s (p.finish chain) := by
  obtain ⟨hwritten, before, write, after, rfl, hwrite, hreads⟩ := h
  rw [WritePlan.finish]
  split
  · refine ⟨?_, before.map Link.withoutResult, write.withoutResult,
      after.map Link.withoutResult, by simp [Chain.withoutResult], ?_, ?_⟩
    · intro l hl
      obtain ⟨m, hm, rfl⟩ := List.mem_map.mp hl
      exact (hwritten m hm).withoutResult
    · rw [Link.withoutResult_statement, hwrite]
    · intro l hl
      rw [← List.map_append] at hl
      obtain ⟨m, hm, rfl⟩ := List.mem_map.mp hl
      rw [Link.withoutResult_statement, hreads m hm]
  · exact ⟨hwritten, before, write, after, rfl, hwrite, hreads⟩

end CarriedOutBy

theorem readingChain_ok {s : Statement} {write : Link} {verb : String}
    (hwrite : write.statement = s ∧ write.WrittenIn p.dialect)
    (h : p.readingChain write verb = .ok chain) : p.CarriedOutBy s chain := by
  rw [readingChain] at h
  split at h
  · obtain rfl := Except.ok.inj h
    exact .single hwrite
  · split at h
    · obtain ⟨read, hread, h⟩ := bind_eq_ok.mp h
      obtain rfl := Except.ok.inj h
      exact .thenRead hwrite (readLink_ok hread)
    · simp at h
  · split at h
    · obtain ⟨read, hread, h⟩ := bind_eq_ok.mp h
      obtain rfl := Except.ok.inj h
      exact .afterRead hwrite (readLink_ok hread)
    · simp at h

theorem update_ok {output : Output} {s : Statement} (h : p.update output = .ok s) :
    ∃ as, p.binding.assignments = .ok as ∧ s = .update ⟨p.target, as, p.criteria, output⟩ := by
  obtain ⟨as, has, h⟩ := bind_eq_ok.mp h
  exact ⟨as, has, (Except.ok.inj h).symm⟩

/-- The chain updates the rows that meet the plan's criteria by the binding's assignments. -/
def Updates (p : WritePlan) (chain : Chain) : Prop :=
  ∃ as output, p.binding.assignments = .ok as ∧
    p.CarriedOutBy (.update ⟨p.target, as, p.criteria, output⟩) chain

theorem outputUpdate_ok (h : p.outputUpdate = .ok chain) : p.Updates chain := by
  obtain ⟨s, hs, h⟩ := bind_eq_ok.mp h
  obtain ⟨as, has, rfl⟩ := update_ok hs
  obtain ⟨write, hwrite, h⟩ := bind_eq_ok.mp h
  obtain rfl := Except.ok.inj h
  exact ⟨as, _, has, .single (writeLink_ok hwrite)⟩

theorem returningUpdate_ok (h : p.returningUpdate = .ok chain) : p.Updates chain := by
  rw [returningUpdate] at h
  split at h
  · obtain ⟨s, hs, h⟩ := bind_eq_ok.mp h
    obtain ⟨as, has, rfl⟩ := update_ok hs
    obtain ⟨read, hread, h⟩ := bind_eq_ok.mp h
    obtain ⟨write, hwrite, h⟩ := bind_eq_ok.mp h
    obtain rfl := Except.ok.inj h
    exact ⟨as, _, has, .afterRead (writeLink_ok hwrite) (readLink_ok hread)⟩
  · obtain ⟨s, hs, h⟩ := bind_eq_ok.mp h
    obtain ⟨as, has, rfl⟩ := update_ok hs
    obtain ⟨write, hwrite, h⟩ := bind_eq_ok.mp h
    obtain rfl := Except.ok.inj h
    exact ⟨as, _, has, .single (writeLink_ok hwrite)⟩

theorem readingUpdate_ok (h : p.readingUpdate = .ok chain) : p.Updates chain := by
  obtain ⟨s, hs, h⟩ := bind_eq_ok.mp h
  obtain ⟨as, has, rfl⟩ := update_ok hs
  obtain ⟨write, hwrite, h⟩ := bind_eq_ok.mp h
  exact ⟨as, _, has, readingChain_ok (writeLink_ok hwrite) h⟩

theorem updateChain_ok (h : p.updateChain = .ok chain) : p.Updates chain := by
  obtain ⟨c, hc, rfl⟩ := map_eq_ok.mp h
  have hupdates : p.Updates c := by
    cases hd : p.dialect <;> rw [hd] at hc
    · exact outputUpdate_ok hc
    · exact returningUpdate_ok hc
    · exact readingUpdate_ok hc
    · exact returningUpdate_ok hc
    · exact readingUpdate_ok hc
  obtain ⟨as, output, has, hcarried⟩ := hupdates
  exact ⟨as, output, has, hcarried.finish⟩

/-- The chain deletes the rows that meet the plan's criteria. -/
def Deletes (p : WritePlan) (chain : Chain) : Prop :=
  ∃ output, p.CarriedOutBy (.delete ⟨p.target, p.criteria, output⟩) chain

theorem outputDelete_ok (h : p.outputDelete = .ok chain) : p.Deletes chain := by
  obtain ⟨write, hwrite, h⟩ := bind_eq_ok.mp h
  obtain rfl := Except.ok.inj h
  exact ⟨_, .single (writeLink_ok hwrite)⟩

theorem returningDelete_ok (h : p.returningDelete = .ok chain) : p.Deletes chain := by
  obtain ⟨write, hwrite, h⟩ := bind_eq_ok.mp h
  obtain rfl := Except.ok.inj h
  exact ⟨_, .single (writeLink_ok hwrite)⟩

theorem readingDelete_ok (h : p.readingDelete = .ok chain) : p.Deletes chain := by
  obtain ⟨write, hwrite, h⟩ := bind_eq_ok.mp h
  exact ⟨_, readingChain_ok (writeLink_ok hwrite) h⟩

theorem deleteChain_ok (h : p.deleteChain = .ok chain) : p.Deletes chain := by
  obtain ⟨c, hc, rfl⟩ := map_eq_ok.mp h
  have hdeletes : p.Deletes c := by
    cases hd : p.dialect <;> rw [hd] at hc
    · exact outputDelete_ok hc
    · exact returningDelete_ok hc
    · exact readingDelete_ok hc
    · exact returningDelete_ok hc
    · exact readingDelete_ok hc
  obtain ⟨output, hcarried⟩ := hdeletes
  exact ⟨output, hcarried.finish⟩

/-! ### Inserts -/

/-- What follows the link that adds a row: nothing, or a link that reads the row back, by the
identity that the database made up, which a link of its own may forward, or else by the key. -/
inductive ReadsInserted (p : WritePlan) : Chain → Prop
  | nothing : ReadsInserted p []
  | byIdentity {identity : Column} {read : Link}
    (hidentity : p.binding.generatedIdentity? = some identity)
    (hread : read.statement = p.readStatement [.lastInserted identity]) : ReadsInserted p [read]
  | byForwarded {identity : Column} {fetch read : Link}
    (hidentity : p.binding.generatedIdentity? = some identity)
    (hfetch : fetch.statement = .lastIdentity ∧ fetch.mode = .forward (some "@Identity"))
    (hread : read.statement = p.readStatement [.equals identity (identityParameter identity)]) :
    ReadsInserted p [fetch, read]
  | byKey {criteria : List Predicate} {read : Link}
    (hidentity : p.binding.generatedIdentity? = none)
    (hcriteria : p.binding.keyCriteria = .ok criteria)
    (hread : read.statement = p.readStatement criteria) : ReadsInserted p [read]

namespace ReadsInserted

variable {after : Chain}

theorem withoutResult (h : p.ReadsInserted after) :
    p.ReadsInserted (Chain.withoutResult after) := by
  cases h with
  | nothing => exact .nothing
  | byIdentity hidentity hread =>
    exact .byIdentity hidentity (by rw [Link.withoutResult_statement, hread])
  | byForwarded hidentity hfetch hread =>
    refine .byForwarded hidentity ⟨?_, ?_⟩ (by rw [Link.withoutResult_statement, hread])
    · rw [Link.withoutResult_statement, hfetch.1]
    · rw [Link.withoutResult, hfetch.2]
      exact hfetch.2
  | byKey hidentity hcriteria hread =>
    exact .byKey hidentity hcriteria (by rw [Link.withoutResult_statement, hread])

theorem reads (h : p.ReadsInserted after) :
    ∀ l ∈ after, (∃ q, l.statement = .select q) ∨ l.statement = .lastIdentity := by
  cases h with
  | nothing => simp
  | byIdentity _ hread | byKey _ _ hread => simp [hread, readStatement]
  | byForwarded _ hfetch hread => simp [hfetch.1, hread, readStatement]

end ReadsInserted

/-- The first link of the chain adds the binding's row to the target, and the others read it
back. -/
def AddsRow (p : WritePlan) (chain : Chain) : Prop :=
  (∀ l ∈ chain, l.WrittenIn p.dialect) ∧
    ∃ write after s, chain = write :: after ∧ write.statement = .insert s ∧ s.target = p.target ∧
      s.conflict = .fail ∧ p.binding.insertRow = .ok s.row ∧ p.ReadsInserted after

theorem AddsRow.finish (h : p.AddsRow chain) : p.AddsRow (p.finish chain) := by
  obtain ⟨hwritten, write, after, s, rfl, hwrite, hs⟩ := h
  rw [WritePlan.finish]
  split
  · refine ⟨?_, write.withoutResult, Chain.withoutResult after, s, rfl, ?_, hs.1, hs.2.1, hs.2.2.1,
      hs.2.2.2.withoutResult⟩
    · intro l hl
      obtain ⟨m, hm, rfl⟩ := List.mem_map.mp hl
      exact (hwritten m hm).withoutResult
    · rw [Link.withoutResult_statement, hwrite]
  · exact ⟨hwritten, write, after, s, rfl, hwrite, hs⟩

theorem outputInsert_ok (h : p.outputInsert = .ok chain) : p.AddsRow chain := by
  obtain ⟨row, hrow, h⟩ := bind_eq_ok.mp h
  obtain ⟨write, hwrite, h⟩ := bind_eq_ok.mp h
  obtain rfl := Except.ok.inj h
  obtain ⟨hstatement, hwritten⟩ := writeLink_ok hwrite
  exact ⟨by simpa using hwritten, write, [], _, rfl, hstatement, rfl, rfl, hrow, .nothing⟩

theorem returningInsert_ok (h : p.returningInsert = .ok chain) : p.AddsRow chain := by
  obtain ⟨row, hrow, h⟩ := bind_eq_ok.mp h
  obtain ⟨write, hwrite, h⟩ := bind_eq_ok.mp h
  obtain rfl := Except.ok.inj h
  obtain ⟨hstatement, hwritten⟩ := writeLink_ok hwrite
  exact ⟨by simpa using hwritten, write, [], _, rfl, hstatement, rfl, rfl, hrow, .nothing⟩

/-- The row inserted last has the identity that the database made up, or else the key. -/
theorem insertedCriteria_reads {criteria : List Predicate} {read : Link}
    (hcriteria : p.insertedCriteria = .ok criteria)
    (hread : read.statement = p.readStatement criteria) : p.ReadsInserted [read] := by
  rw [insertedCriteria] at hcriteria
  split at hcriteria
  · rename_i identity hidentity
    obtain rfl := Except.ok.inj hcriteria
    exact .byIdentity hidentity hread
  · rename_i hidentity
    exact .byKey hidentity hcriteria hread

theorem readBackInsert_ok (h : p.readBackInsert = .ok chain) : p.AddsRow chain := by
  obtain ⟨row, hrow, h⟩ := bind_eq_ok.mp h
  split at h
  · obtain ⟨write, hwrite, h⟩ := bind_eq_ok.mp h
    obtain rfl := Except.ok.inj h
    obtain ⟨hstatement, hwritten⟩ := writeLink_ok hwrite
    exact ⟨by simpa using hwritten, write, [], _, rfl, hstatement, rfl, rfl, hrow, .nothing⟩
  · obtain ⟨criteria, hcriteria, h⟩ := bind_eq_ok.mp h
    obtain ⟨write, hwrite, h⟩ := bind_eq_ok.mp h
    obtain ⟨read, hread, h⟩ := bind_eq_ok.mp h
    obtain rfl := Except.ok.inj h
    obtain ⟨hstatement, hwritten⟩ := writeLink_ok hwrite
    obtain ⟨hselect, hwritten'⟩ := readLink_ok hread
    refine ⟨?_, write.counting, [read], _, rfl, hstatement, rfl, rfl, hrow,
      insertedCriteria_reads hcriteria hselect⟩
    simp only [List.forall_mem_cons, List.not_mem_nil, false_implies, implies_true, and_true]
    exact ⟨hwritten.counting, hwritten'⟩

theorem forwardingInsert_ok (h : p.forwardingInsert = .ok chain) : p.AddsRow chain := by
  obtain ⟨row, hrow, h⟩ := bind_eq_ok.mp h
  obtain ⟨write, hwrite, h⟩ := bind_eq_ok.mp h
  obtain ⟨hstatement, hwritten⟩ := writeLink_ok hwrite
  split at h
  · obtain rfl := Except.ok.inj h
    exact ⟨by simpa using hwritten, write, [], _, rfl, hstatement, rfl, rfl, hrow, .nothing⟩
  · split at h
    · rename_i identity hidentity
      obtain ⟨fetch, hfetch, h⟩ := bind_eq_ok.mp h
      obtain ⟨read, hread, h⟩ := bind_eq_ok.mp h
      obtain rfl := Except.ok.inj h
      obtain ⟨hfetched, -, hlast, -⟩ := Link.ofStatement_ok hfetch
      obtain ⟨hselect, hwritten'⟩ := readLink_ok hread
      refine ⟨?_, write.counting, _, _, rfl, hstatement, rfl, rfl, hrow,
        .byForwarded hidentity ⟨hlast, rfl⟩ hselect⟩
      simp only [List.forall_mem_cons, List.not_mem_nil, false_implies, implies_true, and_true]
      exact ⟨hwritten.counting, hfetched, hwritten'⟩
    · rename_i hidentity
      obtain ⟨criteria, hcriteria, h⟩ := bind_eq_ok.mp h
      obtain ⟨read, hread, h⟩ := bind_eq_ok.mp h
      obtain rfl := Except.ok.inj h
      obtain ⟨hselect, hwritten'⟩ := readLink_ok hread
      refine ⟨?_, write.counting, [read], _, rfl, hstatement, rfl, rfl, hrow,
        .byKey hidentity hcriteria hselect⟩
      simp only [List.forall_mem_cons, List.not_mem_nil, false_implies, implies_true, and_true]
      exact ⟨hwritten.counting, hwritten'⟩

theorem insertChain_addsRow (h : p.insertChain = .ok chain) : p.AddsRow chain := by
  obtain ⟨c, hc, rfl⟩ := map_eq_ok.mp h
  have hadds : p.AddsRow c := by
    cases hd : p.dialect <;> rw [hd] at hc
    · exact outputInsert_ok hc
    · exact returningInsert_ok hc
    · exact readBackInsert_ok hc
    · exact returningInsert_ok hc
    · exact forwardingInsert_ok hc
  exact hadds.finish

/-- Every link adds a row, reads rows, or reads the identity of the row that was added. -/
def Inserts (chain : Chain) : Prop :=
  ∀ l ∈ chain, (∃ s, l.statement = .insert s) ∨ (∃ s, l.statement = .select s) ∨
    l.statement = .lastIdentity

theorem insertChain_ok (h : p.insertChain = .ok chain) : Inserts chain := by
  obtain ⟨-, write, after, s, rfl, hwrite, -, -, -, hreads⟩ := insertChain_addsRow h
  exact List.forall_mem_cons.mpr ⟨.inl ⟨s, hwrite⟩, fun l hl ↦ .inr (hreads.reads l hl)⟩

/-! ### Upserts -/

/-- The steps by which rows are read back: none, or the rows with the binding's key. -/
def ReadsBack (p : WritePlan) (steps : List ChainStep) : Prop :=
  steps = [] ∨ ∃ criteria, p.binding.keyCriteria = .ok criteria ∧
    steps = [{ statement := p.readStatement criteria }]

/-- The steps of an upsert by each strategy. Where rows are wanted, they are those that the only
statement touches, or those that a last step reads. -/
inductive UpsertSteps (p : WritePlan) : List ChainStep → Prop
  | merge (announced : Bool) (output : Output) (hd : p.dialect.upsertStrategy = .merge)
    (houtput : output = p.output .inserted) :
    UpsertSteps p
      [{ statement := .merge ⟨p.target, p.binding.boundCells, p.binding.keyColumns,
          p.binding.updateColumns, p.binding.insertColumns, announced, output⟩ }]
  | onConflict (overriding : Bool) (output : Output) {row : List Cell}
    (hd : p.dialect.upsertStrategy = .onConflict) (hrow : p.binding.insertRow = .ok row)
    (houtput : output = p.returned) :
    UpsertSteps p
      [{ statement := .insert ⟨p.target, row,
          .onKeys p.binding.keyColumns (p.upsertColumns.map fun c ↦ ⟨c, .supplied⟩), false,
          overriding, output⟩ }]
  | onDuplicateKey {row : List Cell} {reads : List ChainStep}
    (hd : p.dialect.upsertStrategy = .onDuplicateKey) (hrow : p.binding.insertRow = .ok row)
    (hreads : p.ReadsBack reads) (hwanted : p.returning ≠ .none → reads ≠ []) :
    UpsertSteps p
      ({ statement := .insert ⟨p.target, row, p.duplicateConflict, false, false, .none⟩ } :: reads)
  | updateThenInsert {criteria : List Predicate} {as : List Assignment} {row : List Cell}
    {reads : List ChainStep} (hd : p.dialect.upsertStrategy = .updateThenInsert)
    (hcriteria : p.binding.keyCriteria = .ok criteria) (has : p.presenceAssignments = .ok as)
    (hrow : p.binding.insertRow = .ok row) (hreads : p.ReadsBack reads)
    (hwanted : p.returning ≠ .none → reads ≠ []) :
    UpsertSteps p
      ({ statement := .update ⟨p.target, as, criteria, .none⟩, counted := true } ::
        { statement := .insert ⟨p.target, row, .fail, false, false, .none⟩
          condition := .previousAffectedNone } :: reads)

section Upserts

variable {c : Chain}

/-- The chain carries out the steps of an upsert, and its last link reads what the caller asks
for. -/
def Upserts (p : WritePlan) (c : Chain) : Prop :=
  ∃ steps, p.UpsertSteps steps ∧ c.Runs p.dialect steps ∧ c.Answers

theorem writeLink_runs (hcheck : p.check = .ignore) {s : Statement} {l : Link}
    (h : p.writeLink s = .ok l) : l.Runs p.dialect { statement := s } ∧ l.mode = .result := by
  rw [writeLink] at h
  obtain ⟨l, hl, rfl⟩ := map_eq_ok.mp h
  obtain ⟨-, -, -, hmode, -⟩ := Link.ofStatement_ok hl
  have hruns := Link.Runs.ofStatement hl
  exact ⟨⟨hruns.statement, hruns.written, hruns.condition, hcheck, hruns.mode⟩, hmode⟩

theorem readLink_runs {operation : String} {criteria : List Predicate} {l : Link}
    (h : p.readLink operation criteria = .ok l) :
    l.Runs p.dialect { statement := p.readStatement criteria } ∧ l.mode = .result := by
  obtain ⟨-, -, -, hmode, -⟩ := Link.ofStatement_ok h
  exact ⟨.ofStatement h, hmode⟩

theorem mergeUpsert_ok (hcheck : p.check = .ignore) (hd : p.dialect.upsertStrategy = .merge)
    (h : p.mergeUpsert = .ok c) : p.Upserts c := by
  obtain ⟨write, hwrite, h⟩ := bind_eq_ok.mp h
  obtain rfl := Except.ok.inj h
  obtain ⟨hwrites, hmode⟩ := writeLink_runs hcheck hwrite
  exact ⟨_, .merge _ _ hd rfl, .cons hwrites .nil, [], write, rfl, hmode⟩

theorem onConflictUpsert_ok (hcheck : p.check = .ignore)
    (hd : p.dialect.upsertStrategy = .onConflict) (h : p.onConflictUpsert = .ok c) :
    p.Upserts c := by
  obtain ⟨row, hrow, h⟩ := bind_eq_ok.mp h
  obtain ⟨write, hwrite, h⟩ := bind_eq_ok.mp h
  obtain rfl := Except.ok.inj h
  obtain ⟨hwrites, hmode⟩ := writeLink_runs hcheck hwrite
  exact ⟨_, .onConflict _ _ hd hrow rfl, .cons hwrites .nil, [], write, rfl, hmode⟩

theorem onDuplicateUpsert_ok (hcheck : p.check = .ignore)
    (hd : p.dialect.upsertStrategy = .onDuplicateKey) (h : p.onDuplicateUpsert = .ok c) :
    p.Upserts c := by
  obtain ⟨row, hrow, h⟩ := bind_eq_ok.mp h
  split at h
  · rename_i hnone
    obtain ⟨write, hwrite, h⟩ := bind_eq_ok.mp h
    obtain rfl := Except.ok.inj h
    obtain ⟨hwrites, hmode⟩ := writeLink_runs hcheck hwrite
    exact ⟨_, .onDuplicateKey hd hrow (.inl rfl) fun hwanted ↦ absurd hnone hwanted,
      .cons hwrites .nil, [], write, rfl, hmode⟩
  · split at h
    · obtain ⟨criteria, hcriteria, h⟩ := bind_eq_ok.mp h
      obtain ⟨write, hwrite, h⟩ := bind_eq_ok.mp h
      obtain ⟨read, hread, h⟩ := bind_eq_ok.mp h
      obtain rfl := Except.ok.inj h
      obtain ⟨hreads, hmode⟩ := readLink_runs hread
      exact ⟨_, .onDuplicateKey hd hrow (.inr ⟨criteria, hcriteria, rfl⟩) (by simp),
        .cons ((writeLink_runs hcheck hwrite).1.counting false) (.cons hreads .nil),
        [write.counting], read, rfl, hmode⟩
    · simp at h

theorem updateThenInsertUpsert_ok (hd : p.dialect.upsertStrategy = .updateThenInsert)
    (h : p.updateThenInsertUpsert = .ok c) : p.Upserts c := by
  obtain ⟨criteria, hcriteria, h⟩ := bind_eq_ok.mp h
  obtain ⟨as, has, h⟩ := bind_eq_ok.mp h
  obtain ⟨update, hupdate, h⟩ := bind_eq_ok.mp h
  obtain ⟨row, hrow, h⟩ := bind_eq_ok.mp h
  obtain ⟨insert, hinsert, h⟩ := bind_eq_ok.mp h
  have hupdates := (Link.Runs.ofStatement hupdate).counting true
  have hinserts := (Link.Runs.ofStatement hinsert).under .previousAffectedNone
  obtain ⟨-, -, -, hinsertMode, -⟩ := Link.ofStatement_ok hinsert
  split at h
  · rename_i hnone
    obtain rfl := Except.ok.inj h
    exact ⟨_, .updateThenInsert hd hcriteria has hrow (.inl rfl) fun hwanted ↦ absurd hnone hwanted,
      .cons hupdates (.cons hinserts .nil), [update.counting], _, rfl, hinsertMode⟩
  · split at h
    · obtain ⟨read, hread, h⟩ := bind_eq_ok.mp h
      obtain rfl := Except.ok.inj h
      obtain ⟨hreads, hmode⟩ := readLink_runs hread
      exact ⟨_, .updateThenInsert hd hcriteria has hrow (.inr ⟨criteria, hcriteria, rfl⟩) (by simp),
        .cons hupdates (.cons (hinserts.counting false) (.cons hreads .nil)),
        [update.counting, _], read, rfl, hmode⟩
    · simp at h

/-- The chain of an upsert carries out its steps. If rows are wanted, they are what its last link
reads. -/
theorem upsertChain_answers (hcheck : p.check = .ignore) (h : p.upsertChain = .ok chain) :
    ∃ steps, p.UpsertSteps steps ∧ chain.Runs p.dialect steps ∧
      (p.returning ≠ .none → chain.Answers) := by
  obtain ⟨c, hc, rfl⟩ := map_eq_ok.mp h
  have hupserts : p.Upserts c := by
    cases hd : p.dialect.upsertStrategy <;> rw [hd] at hc
    case merge => exact mergeUpsert_ok hcheck hd hc
    case onConflict => exact onConflictUpsert_ok hcheck hd hc
    case onDuplicateKey => exact onDuplicateUpsert_ok hcheck hd hc
    case updateThenInsert => exact updateThenInsertUpsert_ok hd hc
  obtain ⟨steps, hsteps, hruns, hanswers⟩ := hupserts
  refine ⟨steps, hsteps, ?_⟩
  rw [finish]
  split
  · rename_i hnone
    exact ⟨hruns.withoutResult, fun hwanted ↦ absurd hnone hwanted⟩
  · exact ⟨hruns, fun _ ↦ hanswers⟩

theorem upsertChain_ok (hcheck : p.check = .ignore) (h : p.upsertChain = .ok chain) :
    ∃ steps, p.UpsertSteps steps ∧ chain.Runs p.dialect steps := by
  obtain ⟨steps, hsteps, hruns, -⟩ := upsertChain_answers hcheck h
  exact ⟨steps, hsteps, hruns⟩

end Upserts

end WritePlan

end SchemaSql
