import Statechart.Engine.Triggers
import Statechart.Engine.Process
/-!
The workers, each of which does one piece of work at a time, and one order in which they may run:
changes first, then timers that are due, then values, and events once the values have come to rest.
-/

namespace Statechart

/-- A piece of work that some worker can do now. -/
inductive Work
  | derive
  | apply
  | take
  | fire
  | wake
  | process
  /-- Go on with one of the events in the middle of which workers are. -/
  | carry (index : Nat)
  /-- Leave a closed mailbox for events for good. -/
  | leave
  deriving DecidableEq

namespace Run
variable {σ : Type}

def work? (r : Run σ) : Work → Option (Run σ)
  | .derive =>
    r.engine.changes.pop?.map fun (change, changes) =>
      r.withEngine fun e => { e with changes }.derive change
  | .apply =>
    match r.engine.values.batch with
    | [] => none
    | update :: batch =>
      some <| r.withEngine fun e =>
        let (values, change) := { e.values with batch }.apply update
        { e with values }.report change
  | .take =>
    if r.engine.values.updates.hasWork && r.engine.values.batch.isEmpty &&
        !r.engine.values.broken then
      some <| r.withEngine fun e => { e with values := e.values.take }
    else none
  | .fire =>
    (r.engine.values.timers.release? r.engine.clock).map fun (timer, timers) =>
      r.withEngine fun e =>
        let (values, change) := { e.values with timers }.fire timer e.clock
        { e with values }.report change
  | .wake =>
    (r.engine.states.wake? r.engine.clock).map fun (spoken, states) =>
      r.withEngine fun e =>
        spoken.elim { e with states } fun a => { e with states }.submit (.stateTimeout a.state)
  | .process =>
    if r.engine.pending.length < r.engine.workers then
      r.engine.events.pop?.map fun (event, events) =>
        (r.withEngine fun e => { e with events }).process event
    else none
  | .carry index =>
    r.engine.pending[index]?.map fun p =>
      (r.withEngine fun e => { e with pending := e.pending.eraseIdx index }).carryOn p
  | .leave =>
    if !r.engine.events.isOpen && r.engine.pending.length < r.engine.strays then
      some (r.withEngine Engine.dismiss)
    else none

def priorities : List Work :=
  [.derive, .fire, .apply, .take, .wake, .carry 0, .leave, .process]

def next? (r : Run σ) : Option (Run σ) := priorities.findSome? r.work?

/-- An application that always asks for more would keep the workers busy for ever. -/
def settle : (limit : Nat) → Run σ → Run σ
  | 0, r => r
  | limit + 1, r =>
    match r.next? with
    | none => r
    | some r => settle limit r

def nextTime? (r : Run σ) : Option Nat :=
  match r.engine.values.nextTime?, r.engine.states.nextTime? with
  | some a, some b => some (min a b)
  | some a, none => some a
  | none, b => b

def moveTo (r : Run σ) (time : Nat) : Run σ :=
  r.withEngine fun e => { e with clock := max e.clock time }

/-- Lets time pass until `time`, with the engine at rest whenever nothing is due. -/
def passUntil (limit : Nat) (time : Nat) : (stops : Nat) → Run σ → Run σ
  | 0, r => r.moveTo time
  | stops + 1, r =>
    match r.nextTime? with
    | none => r.moveTo time
    | some due =>
      if due ≤ time then passUntil limit time stops ((r.moveTo due).settle limit)
      else r.moveTo time

def advance (limit : Nat) (span : Nat) (r : Run σ) : Run σ :=
  passUntil limit (r.engine.clock + span) limit r

end Run
end Statechart
