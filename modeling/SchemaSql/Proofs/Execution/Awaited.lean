import SchemaSql.Execution.Async
import SchemaSql.Proofs.Execution.History

/-!
Connections whose calls are suspended. Awaiting an operation step by step is awaiting each of its
steps, so an awaited run makes the calls of the run over the connection that awaits each call, and
both walk their chain in the same way.
-/

set_option autoImplicit false
set_option relaxedAutoImplicit false

namespace SchemaSql

namespace Future

variable {σ α β : Type}

theorem await_ready (r : Except Error α) : (Future.ready r : Future σ α).await = liftExcept r := rfl

theorem await_pure (a : α) : (pure a : Future σ α).await = pure a := rfl

theorem await_bind (t : Future σ α) (k : α → Future σ β) :
    (t >>= k).await = t.await >>= fun a ↦ (k a).await := by
  change (t.bind k).await = _
  induction t with
  | ready r => cases r <;> rfl
  | waiting change resume ih =>
    funext x
    exact congrFun (ih x) (change x)

theorem await_map (g : α → β) (t : Future σ α) : (g <$> t).await = g <$> t.await := by
  change (t >>= fun a ↦ pure (g a)).await = _
  rw [await_bind]
  rfl

end Future

namespace AsyncConnection

variable {σ α : Type}

/-- The connection that waits for the result of every call. -/
def awaited (c : AsyncConnection σ) : Connection σ where
  count call := (c.count call).await
  scalar call := (c.scalar call).await
  rows call := (c.rows call).await

variable (c : AsyncConnection σ)

theorem await_run (mode : ReadMode) (call : Call) :
    (c.run mode call).await = c.awaited.run mode call := by
  cases mode <;> exact Future.await_map _ _

variable (f : Forwarders) (s : Settings)

theorem await_runLink (wanted : ReadMode) (p : Progress) (l : Link) (next : Option Link) :
    (c.runLink f s wanted p l next).await = c.awaited.runLink f s wanted p l next := by
  rw [runLink, Future.await_bind, await_run]
  rfl

theorem await_runLinks (wanted : ReadMode) (p : Progress) (chain : Chain) :
    (c.runLinks f s wanted p chain).await = c.awaited.runLinks f s wanted p chain := by
  induction chain generalizing p with
  | nil => rfl
  | cons l rest ih =>
    rw [runLinks, Connection.runLinks]
    simp only
    split
    · rw [Future.await_bind, await_runLink]
      simp only [ih]
    · rw [Future.await_bind, Future.await_pure]
      simp only [ih]

theorem await_walk (chain : Chain) (r : Reader α) :
    (c.walk f s chain r).await = c.awaited.walk f s chain r := by
  rw [walk, Connection.walk, Future.await_bind, Future.await_ready]
  simp only [Future.await_bind, await_runLinks, Future.await_ready]

/-- Every awaited run walks its chain as a lawful history does. -/
theorem walk_walked (chain : Chain) (r : Reader α) (x : σ) :
    Walked (fun mode call ↦ (c.run mode call).await) f s chain r x ((c.walk f s chain r).await x) := by
  have hrun : (fun mode call ↦ (c.run mode call).await) = c.awaited.run := by
    funext mode call
    exact c.await_run mode call
  rw [hrun, c.await_walk]
  exact c.awaited.walk_walked f s chain r x

end AsyncConnection

end SchemaSql
