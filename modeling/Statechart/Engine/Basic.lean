import Statechart.Hierarchy
import Statechart.Holding
import Statechart.RuleIndex
import Statechart.History
import Statechart.Engine.Handler
/-!
The engine (`EventHandler` with the three managers that it works on): states, live values, rules and
triggers, and the mailboxes between its workers.

A stop waits for the workers to end, but not for one that asks for the stop itself, from a handler.
Such a worker ends when it next finds the mailbox closed; if the engine is started again before
that, two workers share the mailbox from then on, and neither waits for the other.
-/

namespace Statechart

/-- What a worker has still to do for an event that it has taken up, from one of the points at which
another worker may come in between. -/
inductive Errand
  | present (current : String) (event : Event)
  | resolve (current : String) (event : Event)
  | commit (current : String) (rule : Rule) (event : Event)
  | leave (current : String) (rule : Rule) (event : Event) (path : Path)
  | move (current : String) (rule : Rule) (event : Event) (path : Path)
  | greet (current : String) (rule : Rule) (event : Event) (path : Path)
  | record (current : String) (rule : Rule) (event : Event) (path : Path)
  | finish (event : Event) (handled : Bool)

structure Pending (σ : Type) where
  errand : Errand
  handler : Handler σ

structure Engine (σ : Type) where
  states : Hierarchy := {}
  values : Holding := {}
  rules : RuleIndex := {}
  triggers : List Trigger := []
  events : Mailbox Event := {}
  changes : Mailbox Change := {}
  handler : Handler σ := .quiet
  history : History := .ofCapacity History.defaultCapacity
  running : Bool := false
  /-- The worker for events that was started last broke down. -/
  broken : Bool := false
  /-- How many workers for events there are that a stop did not wait for. -/
  strays : Nat := 0
  /-- The events in the middle of which workers are. -/
  pending : List (Pending σ) := []
  clock : Nat := 0

namespace Engine
variable {σ : Type}

/-! Registration. -/

def addState (e : Engine σ) (s : State) : Except Error (Engine σ) :=
  (e.states.add s).map fun states => { e with states }

def enterState (e : Engine σ) (name : String) : Ending (Engine σ) :=
  (e.states.enter name e.clock).map fun states => { e with states }

def addCondition (e : Engine σ) (c : Condition) : Except Error (Engine σ) :=
  (e.values.add c e.clock).map fun values => { e with values }

def addRule (e : Engine σ) (r : Rule) : Except Error (Engine σ) :=
  (e.rules.add r).map fun rules => { e with rules }

def addTrigger (e : Engine σ) (t : Trigger) : Except Error (Engine σ) :=
  if e.running then .error .registrationClosed
  else if isReserved t.name then .error (.reservedEventName t.name)
  else if e.triggers.any (·.name == t.name) then .error (.duplicateTrigger t.name)
  else
    let values :=
      if e.values.signals.contains t.name then e.values else e.values.store t.name 0 e.clock
    .ok { e with triggers := e.triggers ++ [t], values }

theorem add_trigger_cases {e e' : Engine σ} {t : Trigger} (added : e.addTrigger t = .ok e') :
    e.running = false ∧ isReserved t.name = false ∧ (∀ k ∈ e.triggers, k.name ≠ t.name) ∧
      e' = { e with
        triggers := e.triggers ++ [t]
        values := if e.values.signals.contains t.name then e.values
          else e.values.store t.name 0 e.clock } := by
  unfold addTrigger at added
  split at added
  · cases added
  next idle =>
  split at added
  · cases added
  next free =>
  split at added
  · cases added
  next new =>
  cases added
  exact ⟨Bool.eq_false_iff.mpr idle, Bool.eq_false_iff.mpr free, by simpa using new, rfl⟩

def setHandler (e : Engine σ) (handler : Handler σ) : Except Error (Engine σ) :=
  if e.running then .error .registrationClosed else .ok { e with handler }

/-! Submission, at any time. -/

def submit (e : Engine σ) (event : Event) : Engine σ := { e with events := e.events.push event }

def assign (e : Engine σ) (name : String) (value : Int64) : Engine σ :=
  { e with values := e.values.submit name value e.clock }

def report (e : Engine σ) : Option Change → Engine σ
  | none => e
  | some change => { e with changes := e.changes.push change }

theorem report_frame (e : Engine σ) (change : Option Change) :
    e.report change = { e with changes := (e.report change).changes } := by
  cases change <;> rfl

/-! Starting and stopping the parts. Starting a part that runs changes nothing. -/

def startStates (e : Engine σ) : Ending (Engine σ) :=
  (e.states.start e.clock).map fun states => { e with states }

def startValues (e : Engine σ) : Engine σ := { e with values := e.values.start }

def startEvents (e : Engine σ) : Engine σ :=
  if e.running then e
  else { e with
    running := true
    broken := false
    events := e.events.openUp
    changes := e.changes.openUp }

def stopStates (e : Engine σ) : Engine σ := { e with states := e.states.stop }

def stopValues (e : Engine σ) : Engine σ := { e with values := e.values.stop }

/-- Of the workers for events only those outlast a stop that are in the middle of an event. -/
def stopEvents (e : Engine σ) : Engine σ :=
  { e with
    running := false
    strays := max e.strays e.pending.length
    events := e.events.close
    changes := e.changes.close }

/-- Starts every part; from now on no rule is taken. If the watchdog cannot be armed the other parts
are not started. -/
def start (e : Engine σ) : Ending (Engine σ) :=
  (startStates { e with rules := e.rules.close }).andThen fun e => .done e.startValues.startEvents

def stop (e : Engine σ) : Engine σ :=
  let e := stopStates (stopValues (stopEvents e))
  { e with rules := e.rules.reopen }

/-! The workers for events. -/

def workers (e : Engine σ) : Nat := e.strays + if e.running && !e.broken then 1 else 0

/-- Two workers take events from the mailbox. -/
def isShared (e : Engine σ) : Bool := 2 ≤ e.workers

def fall (e : Engine σ) : Engine σ :=
  { e with strays := e.strays - 1, broken := e.broken || !e.running || e.strays == 0 }

/-- A worker goes its way after it has found the mailbox closed. -/
def dismiss (e : Engine σ) : Engine σ := { e with strays := e.strays - 1 }

/-- Does what a handler asks for. The worker that called the handler is not waited for by a stop. -/
def perform (e : Engine σ) : Request → Ending (Engine σ)
  | .submit event => .done (e.submit event)
  | .assign name value => .done (e.assign name value)
  | .stop =>
    if e.running then .done { e.stop with strays := max e.strays (e.pending.length + 1) }
    else .done e
  | .start => if e.running then .refused .alreadyRunning else e.start

/-- Does all that a handler asks for, one after the other. A request that breaks down leaves the
rest undone; with what there is in the end, whether that was so. -/
def heed (e : Engine σ) : List Request → Bool × Engine σ
  | [] => (false, e)
  | q :: rest =>
    match e.perform q with
    | .done e => e.heed rest
    | .refused _ => e.heed rest
    | .broken e => (true, e)

end Engine
end Statechart
