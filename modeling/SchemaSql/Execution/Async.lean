import SchemaSql.Execution.Run

/-!
Connections whose operations may be suspended, and running a chain over one. Only the calls of the
connection wait; between them a run goes on as it does over a connection that blocks.
-/

set_option autoImplicit false
set_option relaxedAutoImplicit false

namespace SchemaSql

/-- An operation that may be suspended. A waiting one is resumed on a state, which it changes before
it goes on. -/
inductive Future (σ α : Type)
  | ready (result : Except Error α)
  | waiting (change : σ → σ) (resume : σ → Future σ α)

namespace Future

variable {σ α β : Type}

def bind (t : Future σ α) (f : α → Future σ β) : Future σ β :=
  match t with
  | .ready (.ok a) => f a
  | .ready (.error e) => .ready (.error e)
  | .waiting change resume => .waiting change fun x ↦ (resume x).bind f

instance : Monad (Future σ) where
  pure a := .ready (.ok a)
  bind := bind

/-- Resumes an operation until it has its result. -/
def await : Future σ α → Action σ α
  | .ready r => liftExcept r
  | .waiting change resume => fun x ↦ (resume x).await (change x)

/-- The operation that is suspended once and then carries an action out. -/
def ofAction (a : Action σ α) : Future σ α :=
  .waiting
    (fun x ↦ match a x with
      | .ok _ y | .error _ y => y)
    fun x ↦ match a x with
      | .ok v _ => .ready (.ok v)
      | .error e _ => .ready (.error e)

end Future

/-- A connection whose calls may be suspended. -/
structure AsyncConnection (σ : Type) where
  count : Call → Future σ Nat
  scalar : Call → Future σ Value
  rows : Call → Future σ RowSet

/-- The connection whose calls are each suspended once. -/
def Connection.async {σ : Type} (c : Connection σ) : AsyncConnection σ where
  count call := .ofAction (c.count call)
  scalar call := .ofAction (c.scalar call)
  rows call := .ofAction (c.rows call)

namespace AsyncConnection

variable {σ : Type}

def run (c : AsyncConnection σ) (mode : ReadMode) (call : Call) : Future σ Outcome :=
  match mode with
  | .rows => Outcome.rows <$> c.rows call
  | .scalar => Outcome.scalar <$> c.scalar call
  | .count => Outcome.affected <$> c.count call

def runLink (c : AsyncConnection σ) (f : Forwarders) (s : Settings) (wanted : ReadMode)
    (p : Progress) (l : Link) (next : Option Link) : Future σ Progress := do
  let o ← c.run (l.readMode wanted) (Call.ofLink l s)
  .ready (p.after f l o next)

def runLinks (c : AsyncConnection σ) (f : Forwarders) (s : Settings) (wanted : ReadMode) :
    Progress → Chain → Future σ Progress
  | p, [] => pure p
  | p, l :: rest => do
    let l := { l with parameters := p.handed.getD l.parameters }
    let p ← if l.runsAfter p.previous then c.runLink f s wanted p l rest.head? else pure p.skip
    runLinks c f s wanted p rest

/-- Runs a chain with certain forwarders and makes of its outcome what a reader wants. -/
def walk {α : Type} (c : AsyncConnection σ) (f : Forwarders) (s : Settings) (chain : Chain)
    (r : Reader α) : Future σ α := do
  .ready (chain.checkForwards 0)
  let p ← c.runLinks f s r.mode {} chain
  .ready (r.finish p.finish)

/-- Runs a chain whose links forward to the parameters that they name. -/
def runChain (c : AsyncConnection σ) (s : Settings) (chain : Chain) (m : Materializer) :
    Future σ Answer :=
  c.walk Link.bindForwarded s chain m.reader

end AsyncConnection

end SchemaSql
