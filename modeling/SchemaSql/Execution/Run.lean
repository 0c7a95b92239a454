import SchemaSql.Execution.Connection

/-!
Running a chain. The links run in order, each if its condition holds; the number of rows a link
affects must pass its check, and a value that it forwards is given to the next link's parameter. The
outcome is that of the last link whose result the caller asked for, or else the last count.
-/

set_option autoImplicit false
set_option relaxedAutoImplicit false

namespace SchemaSql

/-- Changes the parameters of a link, given the value that the link before has read. -/
abbrev Forwarder := Value → List Parameter → Except Error (List Parameter)

/-- What the names that links forward to stand for. -/
abbrev Forwarders := String → Forwarder

/-- The value that a link hands on; only a value that was read as such is one. -/
def Outcome.forwarded : Outcome → Value
  | .scalar v => v
  | _ => .null

namespace Chain

/-- Every link that forwards must say to which parameter and have a link behind it. -/
def checkForwards : Nat → Chain → Except Error Unit
  | _, [] => .ok ()
  | i, l :: rest =>
    match l.mode with
    | .forward target =>
      if target.isNone || rest.isEmpty then .error (.missingForwarder i l.operation)
      else checkForwards (i + 1) rest
    | _ => checkForwards (i + 1) rest

end Chain

namespace Link

def readMode (l : Link) (wanted : ReadMode) : ReadMode :=
  match l.mode with
  | .result => wanted
  | .count => .count
  | .forward _ => .scalar

def runsAfter (l : Link) (previous : Option Nat) : Bool :=
  match l.condition with
  | .always => true
  | .previousAffectedNone => previous == some 0

/-- Gives the first parameter with a name, in any letter case, a value. -/
def bindForwarded (name : String) (value : Value) :
    List Parameter → Except Error (List Parameter)
  | [] => .error (.invalidOperation (.noForwardTarget name))
  | p :: ps =>
    if Text.sameAscii p.name name then .ok ({ p with value } :: ps)
    else (bindForwarded name value ps).map (p :: ·)

/-- The parameters of the next link after this one had the outcome, if it changes them. -/
def handOver (f : Forwarders) (l : Link) (index : Nat) (o : Outcome) (next : Option Link) :
    Except Error (Option (List Parameter)) :=
  match l.mode with
  | .forward target =>
    match target, next with
    | some name, some next => (f name o.forwarded next.parameters).map some
    | _, _ => .error (.missingForwarder index l.operation)
  | _ => .ok none

end Link

/-- How far a run has come. -/
structure Progress where
  index : Nat := 0
  previous : Option Nat := none
  outcome : Option Outcome := none
  /-- Parameters that the link before has given the next one. -/
  handed : Option (List Parameter) := none

namespace Progress

def finish (p : Progress) : Outcome := p.outcome.getD (.affected (p.previous.getD 0))

def skip (p : Progress) : Progress := { p with index := p.index + 1, handed := none }

/-- The progress after a link had an outcome that passed its check. -/
def record (p : Progress) (l : Link) (o : Outcome) (handed : Option (List Parameter)) : Progress where
  index := p.index + 1
  previous := some o.affectedRows
  outcome := if l.mode = .result then some o else p.outcome
  handed

/-- The progress after a link had an outcome, which must pass its check. What it forwards goes to
`next`, the link behind it. -/
def after (f : Forwarders) (p : Progress) (l : Link) (o : Outcome) (next : Option Link) :
    Except Error Progress := do
  l.check.verify l.operation o.affectedRows
  let handed ← l.handOver f p.index o next
  return p.record l o handed

end Progress

def liftExcept {σ α : Type} : Except Error α → Action σ α
  | .ok a => pure a
  | .error e => throw e

namespace Connection

variable {σ : Type}

/-- Runs one link and records what came of it; `next` is the link behind it. -/
def runLink (c : Connection σ) (f : Forwarders) (s : Settings) (wanted : ReadMode) (p : Progress)
    (l : Link) (next : Option Link) : Action σ Progress := do
  let o ← c.run (l.readMode wanted) (Call.ofLink l s)
  liftExcept (p.after f l o next)

def runLinks (c : Connection σ) (f : Forwarders) (s : Settings) (wanted : ReadMode) :
    Progress → Chain → Action σ Progress
  | p, [] => pure p
  | p, l :: rest => do
    let l := { l with parameters := p.handed.getD l.parameters }
    let p ← if l.runsAfter p.previous then c.runLink f s wanted p l rest.head? else pure p.skip
    runLinks c f s wanted p rest

/-- Runs a chain with certain forwarders and makes of its outcome what a reader wants. -/
def walk {α : Type} (c : Connection σ) (f : Forwarders) (s : Settings) (chain : Chain)
    (r : Reader α) : Action σ α := do
  liftExcept (chain.checkForwards 0)
  let p ← c.runLinks f s r.mode {} chain
  liftExcept (r.finish p.finish)

/-- Runs a chain whose links forward to the parameters that they name. -/
def runChain (c : Connection σ) (s : Settings) (chain : Chain) (m : Materializer) :
    Action σ Answer :=
  c.walk Link.bindForwarded s chain m.reader

end Connection

end SchemaSql
