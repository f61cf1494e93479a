import Statechart.Machine
import Statechart.Text.Quoted
import Statechart.Form.History
/-!
One-line summaries of the parts of a machine, for diagnostics.
-/

namespace Statechart

def optionText : Option String → String
  | none => "None"
  | some s => s!"Some({Text.quoted s})"

def Hierarchy.describe (h : Hierarchy) : String :=
  "StateManager \x7b current: " ++ optionText h.current ++ s!", running: {h.running}, .. \x7d"

def Holding.describe (h : Holding) : String :=
  "ConditionManager \x7b " ++ s!"conditions: {h.signals.size}, running: {h.running}, .. \x7d"

def Engine.describe {σ : Type} (e : Engine σ) : String :=
  "EventHandler \x7b " ++ s!"pending_events: {e.events.size}, " ++
    s!"definitions: {e.triggers.length}, running: {e.running}, .. \x7d"

def Machine.describe {σ : Type} (m : Machine σ) : String :=
  "FiniteStateMachine \x7b name: " ++ Text.quoted m.name ++ s!", lifecycle: {m.stage.title}, " ++
    "current_state: " ++ optionText m.engine.states.current ++ ", .. \x7d"

def Callbacks.describe {σ : Type} (c : Callbacks σ) : String :=
  let isFilled (r : Role) := (c.slot r).isSome
  "Callbacks \x7b " ++ s!"pre_event: {isFilled .pre}, transition: {isFilled .transition}, " ++
    s!"exit_state: {isFilled .exit}, enter_state: {isFilled .enter}, " ++
    s!"post_event: {isFilled .post}, delegate: {c.delegate.isSome} \x7d"

end Statechart
