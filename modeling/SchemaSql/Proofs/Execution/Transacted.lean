import SchemaSql.Proofs.Execution.Awaited
import SchemaSql.Proofs.Users
import SchemaSql.Store.Basic

/-!
Running a command all or nothing. `Transactions.Committed` says how a run succeeds: every link of
the chain has been visited, every call made has been answered and has passed its check, the reader
has finished, and only then has the commit succeeded. `Transactions.Abandoned` says how one fails:
no commit has succeeded before the transaction is dropped. What a driver promises of its
transactions is `Transactions.RollsBack`; with it a run that fails leaves the content of the
database as it found it, as `Transactions.execute_all_or_nothing` shows.
-/

set_option autoImplicit false
set_option relaxedAutoImplicit false

namespace SchemaSql

/-! ### What calls lead to -/

section Calls

variable {σ α : Type} {perform : ReadMode → Call → Action σ Outcome}

/-- Calls lead from one state to the other, whatever comes of them. -/
inductive Reached (perform : ReadMode → Call → Action σ Outcome) (x : σ) : σ → Prop
  | start : Reached perform x x
  | call {y : σ} (before : Reached perform x y) (mode : ReadMode) (call : Call) :
      Reached perform x ((perform mode call).left y)

theorem Answered.reached {calls : List (ReadMode × Call × Outcome)} {x y : σ}
    (h : Answered perform calls x y) : Reached perform x y := by
  induction h with
  | nil x => exact .start
  | concat before last ih => exact Action.left_of_ok last ▸ ih.call _ _

variable {f : Forwarders} {s : Settings} {chain : Chain} {r : Reader α} {x y : σ}

theorem Fails.reached {wanted : ReadMode} {h : History} {l : Link} {ps : List Parameter}
    {rest : Chain} {e : Error} {z : σ} (hfails : Fails perform f s wanted h l ps rest y e z)
    (hbefore : Reached perform x y) : Reached perform x z := by
  cases hfails with
  | call fails => exact Action.left_of_error fails ▸ hbefore.call _ _
  | check answers _ => exact Action.left_of_ok answers ▸ hbefore.call _ _
  | forward answers _ _ _ => exact Action.left_of_ok answers ▸ hbefore.call _ _

/-- A run that fails has done nothing but make calls. -/
theorem Walked.reached_of_error {e : Error} {z : σ}
    (h : Walked perform f s chain r x (.error e z)) : Reached perform x z := by
  rcases h with ⟨i, l, -, -, hresult⟩ | ⟨-, h, y, -, hcalls, ⟨-, hresult⟩ | hfailed⟩
  · cases hresult
    exact .start
  · rw [Reader.returns] at hresult
    split at hresult
    · cases hresult
    · cases hresult
      exact hcalls.reached
  · obtain ⟨l, ps, rest, e', z', -, -, -, hfails, hresult⟩ := hfailed
    cases hresult
    exact hfails.reached hcalls.reached

/-- A run that succeeds has visited every link of its chain, and its reader has finished. -/
theorem Walked.history_of_ok {a : α} {z : σ} (h : Walked perform f s chain r x (.ok a z)) :
    ∃ h : History, h.Lawful f ∧ h.links = chain ∧ Answered perform (h.calls s r.mode) x z ∧
      r.finish h.answer = .ok a := by
  rcases h with ⟨i, l, -, -, hresult⟩ | ⟨-, h, y, hlawful, hcalls, ⟨hlinks, hresult⟩ | hfailed⟩
  · cases hresult
  · rw [Reader.returns] at hresult
    split at hresult
    · rename_i a' hfinish
      cases hresult
      exact ⟨h, hlawful, hlinks, hcalls, hfinish⟩
    · cases hresult
  · obtain ⟨l, ps, rest, e, z', -, -, -, -, hresult⟩ := hfailed
    cases hresult

end Calls

namespace Transactions

variable {σ α δ : Type} {t : Transactions σ}

/-! ### How a transaction ends -/

section Enclosed

variable {a : Action σ α} {e : Error} {x y z w : σ}

theorem enclose_of_unstarted (hstart : t.start x = .error e w) : t.enclose a x = .error e w :=
  Connection.bind_of_error _ hstart

/-- A transaction that has begun ends with a commit of what the action left, or is undone. -/
theorem enclose_of_started (hstart : t.start x = .ok () y) :
    t.enclose a x = match (a >>= fun v ↦ t.commit >>= fun _ ↦ pure v) y with
      | .ok v w => .ok v w
      | .error e z => .error e (t.undo z) := by
  rw [enclose, Connection.bind_of_ok _ hstart]
  change EStateM.tryCatch (a >>= fun v ↦ t.commit >>= fun _ ↦ pure v) _ y = _
  delta EStateM.tryCatch
  cases (a >>= fun v ↦ t.commit >>= fun _ ↦ pure v) y <;> rfl

theorem enclose_of_failed (hstart : t.start x = .ok () y) (ha : a y = .error e z) :
    t.enclose a x = .error e (t.undo z) := by
  rw [enclose_of_started hstart, Connection.bind_of_error _ ha]

variable {v : α}

theorem enclose_of_uncommitted (hstart : t.start x = .ok () y) (ha : a y = .ok v z)
    (hcommit : t.commit z = .error e w) : t.enclose a x = .error e (t.undo w) := by
  rw [enclose_of_started hstart, Connection.bind_of_ok _ ha, Connection.bind_of_error _ hcommit]

theorem enclose_of_committed (hstart : t.start x = .ok () y) (ha : a y = .ok v z)
    (hcommit : t.commit z = .ok () w) : t.enclose a x = .ok v w := by
  rw [enclose_of_started hstart, Connection.bind_of_ok _ ha, Connection.bind_of_ok _ hcommit]
  rfl

end Enclosed

/-! ### All or nothing -/

section Run

variable (t : Transactions σ) (c : AsyncConnection σ)

/-- What a driver promises of its transactions, where `content` is what a state holds: one that does
not begin changes nothing, and one that is dropped is rolled back, whatever calls were made in it,
also when its commit has failed. -/
structure RollsBack (content : σ → δ) : Prop where
  unstarted : ∀ {x y : σ} {e : Error}, t.start x = .error e y → content y = content x
  dropped : ∀ {x y z : σ}, t.start x = .ok () y → Reached c.awaited.run y z →
    content (t.undo z) = content x
  uncommitted : ∀ {x y z w : σ} {e : Error}, t.start x = .ok () y → Reached c.awaited.run y z →
    t.commit z = .error e w → content (t.undo w) = content x

variable (f : Forwarders) (s : Settings) (prepared : Except Error Chain) (r : Reader α) (x : σ)

/-- How a run succeeds: the transaction has begun, every link of the chain has been visited, each
call has been answered and passed its check, the reader has finished, and then the commit has
succeeded. -/
inductive Committed (a : α) (w : σ) : Prop
  | commit {chain : Chain} {h : History} {y z : σ} (prepares : prepared = .ok chain)
      (starts : t.start x = .ok () y) (lawful : h.Lawful f) (links : h.links = chain)
      (calls : Answered c.awaited.run (h.calls s r.mode) y z)
      (finishes : r.finish h.answer = .ok a) (commits : t.commit z = .ok () w)

/-- How a run fails: the command is not prepared, the transaction does not begin, a link or the
reader fails and the transaction is dropped, or it is dropped when the commit has failed. -/
inductive Abandoned : Error → σ → Prop
  | unprepared {e : Error} (refused : prepared = .error e) : Abandoned e x
  | unstarted {chain : Chain} {e : Error} {w : σ} (prepares : prepared = .ok chain)
      (refused : t.start x = .error e w) : Abandoned e w
  | failed {chain : Chain} {e : Error} {y z : σ} (prepares : prepared = .ok chain)
      (starts : t.start x = .ok () y) (fails : Walked c.awaited.run f s chain r y (.error e z)) :
      Abandoned e (t.undo z)
  | uncommitted {chain : Chain} {h : History} {e : Error} {y z w : σ}
      (prepares : prepared = .ok chain) (starts : t.start x = .ok () y)
      (calls : Answered c.awaited.run (h.calls s r.mode) y z) (refused : t.commit z = .error e w) :
      Abandoned e (t.undo w)

variable {t c f s prepared r x}

theorem Abandoned.content_eq {content : σ → δ} (ht : t.RollsBack c content) {e : Error} {w : σ}
    (h : t.Abandoned c f s prepared r x e w) : content w = content x := by
  cases h with
  | unprepared _ => rfl
  | unstarted _ refused => exact ht.unstarted refused
  | failed _ starts fails => exact ht.dropped starts fails.reached_of_error
  | uncommitted _ starts calls refused => exact ht.uncommitted starts calls.reached refused

variable (t c f s prepared r x)

/-- A run succeeds with a commit at its end, or is abandoned without one. -/
theorem execute_ended :
    (∃ a w, t.execute c f s prepared r x = .ok a w ∧ t.Committed c f s prepared r x a w) ∨
      ∃ e w, t.execute c f s prepared r x = .error e w ∧ t.Abandoned c f s prepared r x e w := by
  cases prepared with
  | error e => exact .inr ⟨e, x, rfl, .unprepared rfl⟩
  | ok chain =>
    have hrun : t.execute c f s (.ok chain) r x = t.enclose (c.awaited.walk f s chain r) x := by
      rw [← c.await_walk]
      rfl
    rw [hrun]
    cases hstart : t.start x with
    | error e w =>
      exact .inr ⟨e, w, enclose_of_unstarted hstart, .unstarted rfl hstart⟩
    | ok _ y =>
      have hwalked := c.awaited.walk_walked f s chain r y
      cases hwalk : c.awaited.walk f s chain r y with
      | error e z =>
        rw [hwalk] at hwalked
        exact .inr ⟨e, _, enclose_of_failed hstart hwalk, .failed rfl hstart hwalked⟩
      | ok a z =>
        rw [hwalk] at hwalked
        obtain ⟨h, hlawful, hlinks, hcalls, hfinish⟩ := hwalked.history_of_ok
        cases hcommit : t.commit z with
        | error e w =>
          exact .inr ⟨e, _, enclose_of_uncommitted hstart hwalk hcommit,
            .uncommitted rfl hstart hcalls hcommit⟩
        | ok _ w =>
          exact .inl ⟨a, w, enclose_of_committed hstart hwalk hcommit,
            .commit rfl hstart hlawful hlinks hcalls hfinish hcommit⟩

end Run

end Transactions

/-! ### The transactions of a store -/

theorem Future.await_ofAction {σ α : Type} (a : Action σ α) : (Future.ofAction a).await = a := by
  funext x
  simp only [ofAction, await]
  cases a x <;> rfl

theorem Connection.async_awaited {σ : Type} (c : Connection σ) : c.async.awaited = c := by
  simp [async, AsyncConnection.awaited, Future.await_ofAction]

namespace Store

theorem run_left (call : Call) (x : Store) : ((run call).left x).kept = x.kept := by
  rw [Action.left, run]
  by_cases hkind : call.kind = .storedProcedure
  · rw [if_pos hkind]
  · rw [if_neg hkind]
    cases x.database.run (x.scope call.parameters) call.statement with
    | ok e => rfl
    | error r =>
      simp only [afterRefusal]
      split <;> rfl

/-- A call leaves the content alone to which an open transaction goes back. -/
theorem connection_left (mode : ReadMode) (call : Call) (x : Store) :
    ((connection.run mode call).left x).kept = x.kept := by
  have hleft : (connection.run mode call).left x = (run call).left x := by
    cases mode with
    | rows => exact (Action.left_map _ _ x).trans (Action.left_bind _ _ (fun _ _ ↦ rfl) x)
    | scalar => exact (Action.left_map _ _ x).trans (Action.left_map _ _ x)
    | count =>
      exact (Action.left_map _ _ x).trans
        ((Action.left_bind _ _ (fun _ _ ↦ rfl) x).trans (Action.left_map _ _ x))
  rw [hleft, run_left]

theorem kept_of_reached {x y : Store} (h : Reached connection.run x y) : y.kept = x.kept := by
  induction h with
  | start => rfl
  | call before mode call ih => exact (connection_left mode call _).trans ih

/-- A store keeps its database when a transaction begins and goes back to it. -/
theorem transactions_rollsBack : transactions.RollsBack connection.async database where
  unstarted h := by cases h
  dropped {x y z} hstart hreached := by
    rw [Connection.async_awaited] at hreached
    cases hstart
    have hkept : z.kept = some x.database := kept_of_reached hreached
    change z.kept.getD z.database = x.database
    rw [hkept, Option.getD_some]
  uncommitted _ _ h := by cases h

end Store

/-! ### Commands in transactions -/

/-- A command that is run in a transaction succeeds only by a commit after everything else has
succeeded. When it fails, no commit has succeeded, and the content of the database is that before
the run. -/
theorem Transactions.execute_all_or_nothing {σ α δ : Type} {t : Transactions σ}
    {c : AsyncConnection σ} {content : σ → δ} (ht : t.RollsBack c content) (f : Forwarders)
    (s : Settings) (prepared : Except Error Chain) (r : Reader α) (x : σ) :
    (∀ a w, t.execute c f s prepared r x = .ok a w → t.Committed c f s prepared r x a w) ∧
      ∀ e w, t.execute c f s prepared r x = .error e w →
        t.Abandoned c f s prepared r x e w ∧ content w = content x := by
  rcases t.execute_ended c f s prepared r x with ⟨a, w, hrun, hcommitted⟩ | ⟨e, w, hrun, habandoned⟩
  · rw [hrun]
    refine ⟨fun a' w' hresult ↦ ?_, fun e w' hresult ↦ by cases hresult⟩
    cases hresult
    exact hcommitted
  · rw [hrun]
    refine ⟨fun a w' hresult ↦ by (cases hresult), fun e' w' hresult ↦ ?_⟩
    cases hresult
    exact ⟨habandoned, habandoned.content_eq ht⟩

namespace Store

/-- Two users that have the same key. -/
def twins : Store where
  database :=
    { tables :=
        [{ name := ⟨none, "Users"⟩
           columns := [{ name := "Id" }, { name := "Name" }, { name := "Removed" }]
           rows := [[.int 1, .text "Ann", .null], [.int 1, .text "Eve", .null]] }] }

/-- Removes the user with the key of the twins in a transaction. -/
def removal : Action Store Answer :=
  (DataSource.make .sqlite {} (Schema.source {})).executeInTransaction connection transactions
    ⟨2024, 2, 29, 0, 0, 0, 0⟩
    (.delete (Users.table .sqlite) (.properties [⟨"Id", .int 1, false⟩]) {}) .count

/-- Two rows are removed where there is to be one, so they come back. -/
theorem removal_twins :
    ∃ y, removal twins = .error (.rowCount "Delete" .exactlyOne 2) y ∧
      y.database = twins.database := by
  have hfails : (match removal twins with
      | .ok _ _ => false
      | .error e _ => e = .rowCount "Delete" .exactlyOne 2) = true := by decide +kernel
  cases hrun : removal twins with
  | ok a y => simp [hrun] at hfails
  | error e y =>
    rw [hrun] at hfails
    obtain rfl := of_decide_eq_true hfails
    obtain ⟨-, hcontent⟩ :=
      (Transactions.execute_all_or_nothing transactions_rollsBack _ _ _ _ _).2 _ y hrun
    exact ⟨y, rfl, hcontent⟩

end Store

end SchemaSql
