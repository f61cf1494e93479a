import Statechart.Stage
import Statechart.Validation
import Statechart.Engine.Schedule
/-!
Machines (`FiniteStateMachine`): an engine under a name that is set up from a definition as a whole
and then started and stopped as a whole. A definition is taken only if nothing is wrong with it. The
callbacks in force are those that were installed when the machine was last started.
-/

namespace Statechart

inductive Registration
  | state (s : State)
  | condition (c : Condition)
  | rule (r : Rule)
  | trigger (t : Trigger)
  | initial (name : String)

def Registration.perform {σ : Type} (e : Engine σ) : Registration → Ending (Engine σ)
  | .state s => e.addState s
  | .condition c => e.addCondition c
  | .rule r => e.addRule r
  | .trigger t => e.addTrigger t
  | .initial name => e.enterState name

/-- All that a definition asks to be registered: states parents first, then conditions, rules and
triggers; the initial state is entered last. -/
def Definition.registrations (d : Definition) : List Registration :=
  d.parentsFirst.map .state ++ d.conditions.map .condition ++ d.rules.map .rule ++
    d.triggers.map .trigger ++ [.initial d.initial]

structure Machine (σ : Type) where
  name : String
  stage : Stage := .created
  callbacks : Callbacks σ := {}
  engine : Engine σ := {}

namespace Machine
variable {σ : Type}

/-- One registration after the other; the first that is not made ends the matter, and what was
registered before it stays. -/
def registerAll : List Registration → Engine σ → Ending Unit × Engine σ
  | [], e => (.done (), e)
  | r :: rest, e =>
    match r.perform e with
    | .done e => registerAll rest e
    | .refused cause => (.refused cause, e)
    | .broken e => (.broken (), e)

def init (m : Machine σ) (d : Definition) : Ending Unit × Machine σ :=
  if m.stage ≠ .created then (.refused .alreadyInitialized, m)
  else if d.violations ≠ [] then (.refused (.invalidDefinition d.violations), m)
  else
    match registerAll d.registrations m.engine with
    | (.done (), engine) => (.done (), { m with engine, stage := .initialized })
    | (.refused cause, engine) => (.refused cause, { m with engine })
    | (.broken (), engine) => (.broken (), { m with engine })

def initFrom (m : Machine σ) (loaded : Except LoadError Definition) : Ending Unit × Machine σ :=
  match loaded with
  | .error cause => (.refused (.configuration cause), m)
  | .ok d => m.init d

/-- Starts the engine with the callbacks as they are now. A start that breaks down leaves the
machine in its stage. -/
def start (m : Machine σ) : Ending (Machine σ) :=
  match m.stage with
  | .created => .refused .notInitialized
  | .running => .refused .alreadyRunning
  | .initialized | .stopped =>
    match m.engine.setHandler m.callbacks.handler with
    | .error cause => .refused cause
    | .ok engine =>
      match engine.start with
      | .done engine => .done { m with engine, stage := .running }
      | .refused cause => .refused cause
      | .broken engine => .broken { m with engine }

def stop (m : Machine σ) : Machine σ :=
  if m.stage = .running then { m with engine := m.engine.stop, stage := .stopped } else m

def submit (m : Machine σ) (event : Event) : Machine σ := { m with engine := m.engine.submit event }

def assign (m : Machine σ) (name : String) (value : Int64) : Machine σ :=
  { m with engine := m.engine.assign name value }

def current (m : Machine σ) : Option String := m.engine.states.current

def history (m : Machine σ) : History := m.engine.history

def isRunning (m : Machine σ) : Bool := m.stage.isRunning

def install (m : Machine σ) (change : Callbacks σ → Callbacks σ) : Except Error (Machine σ) :=
  if m.stage = .running then .error .callbacksLocked
  else .ok { m with callbacks := change m.callbacks }

/-- Takes over what became of the engine in a run. A handler may have stopped it, or started it
again with the callbacks as they are now. -/
def resume (m : Machine σ) (engine : Engine σ) : Machine σ :=
  match m.stage, engine.running with
  | .running, false => { m with engine, stage := .stopped }
  | .stopped, true =>
    { m with engine := { engine with handler := m.callbacks.handler }, stage := .running }
  | stage, _ => { m with engine, stage }

def settle (limit : Nat) (m : Machine σ) (client : σ) : Machine σ × σ :=
  let r := ({ engine := m.engine, client } : Run σ).settle limit
  (m.resume r.engine, r.client)

def advance (limit span : Nat) (m : Machine σ) (client : σ) : Machine σ × σ :=
  let r := ({ engine := m.engine, client } : Run σ).advance limit span
  (m.resume r.engine, r.client)

end Machine
end Statechart
