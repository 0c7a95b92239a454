import SchemaSql.Execution.Async

/-!
Running a chain all or nothing. Whatever fails after the transaction has begun, a failing commit
included, is answered by undoing it.
-/

set_option autoImplicit false
set_option relaxedAutoImplicit false

namespace SchemaSql

/-- How a connection begins and ends transactions. -/
structure Transactions (σ : Type) where
  start : Action σ Unit
  commit : Action σ Unit
  undo : σ → σ

namespace Transactions

variable {σ α : Type}

/-- Carries out an action and commits it, or undoes what it did. -/
def enclose (t : Transactions σ) (a : Action σ α) : Action σ α := do
  t.start
  tryCatch (do
    let x ← a
    t.commit
    return x) fun e ↦ do
      modify t.undo
      throw e

/-- Runs the chain of a command that has been prepared, all or nothing, over an open connection
whose calls may be suspended. -/
def execute (t : Transactions σ) (c : AsyncConnection σ) (f : Forwarders) (s : Settings)
    (prepared : Except Error Chain) (r : Reader α) : Action σ α := do
  let chain ← liftExcept prepared
  t.enclose (c.walk f s chain r).await

end Transactions

end SchemaSql
