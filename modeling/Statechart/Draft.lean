import Statechart.Definition
/-!
Definitions, rules and triggers written down step by step. A draft may lack what it needs for as
long as it is a draft; turning it into the finished thing says what is missing.
-/

namespace Statechart

inductive DraftError
  | missingInitialState
  | noStates
  | missingSource
  | missingTarget
  | missingEventName
  | noEventConditions (name : String)
  deriving DecidableEq

def DraftError.message : DraftError → String
  | .missingInitialState =>
    "Initial state not specified. Call .initial(state) before .build()"
  | .noStates => "No states defined. Add at least one state"
  | .missingSource => "Transition source state not specified. Call .from(state)"
  | .missingTarget => "Transition target state not specified. Call .to(state)"
  | .missingEventName => "Event name not specified. Pass a non-empty name to EventBuilder::new"
  | .noEventConditions name => s!"Event '{name}' has no conditions. Call .when(condition)"

structure RuleDraft where
  source : Option String := none
  target : Option String := none
  events : List String := []
  conditions : List Condition := []
  connective : Connective := .and

namespace RuleDraft

def startingFrom (d : RuleDraft) (source : String) : RuleDraft := { d with source := some source }

def leadingTo (d : RuleDraft) (target : String) : RuleDraft := { d with target := some target }

def on (d : RuleDraft) (event : String) : RuleDraft := { d with events := d.events ++ [event] }

def whenever (d : RuleDraft) (c : Condition) : RuleDraft :=
  { d with conditions := d.conditions ++ [c] }

def joinedBy (d : RuleDraft) (connective : Connective) : RuleDraft := { d with connective }

/-- A rule needs both its ends. -/
def build (d : RuleDraft) : Except DraftError Rule :=
  match d.source, d.target with
  | none, _ => .error .missingSource
  | some _, none => .error .missingTarget
  | some source, some target =>
    .ok { source, target, events := d.events, conditions := d.conditions,
          connective := d.connective }

end RuleDraft

structure TriggerDraft where
  name : String
  mode : TriggerMode := .edge
  conditions : List Condition := []
  connective : Connective := .and

namespace TriggerDraft

def inMode (d : TriggerDraft) (mode : TriggerMode) : TriggerDraft := { d with mode }

def whenever (d : TriggerDraft) (c : Condition) : TriggerDraft :=
  { d with conditions := d.conditions ++ [c] }

def joinedBy (d : TriggerDraft) (connective : Connective) : TriggerDraft := { d with connective }

/-- A trigger needs a name and something to wait for. -/
def build (d : TriggerDraft) : Except DraftError Trigger :=
  if d.name = "" then .error .missingEventName
  else if d.conditions.isEmpty then .error (.noEventConditions d.name)
  else
    .ok { name := d.name, mode := d.mode, conditions := d.conditions, connective := d.connective }

end TriggerDraft

structure DefinitionDraft where
  states : List State := []
  initial : Option String := none
  rules : List Rule := []
  triggers : List Trigger := []

namespace DefinitionDraft

def startingIn (d : DefinitionDraft) (state : String) : DefinitionDraft :=
  { d with initial := some state }

def addState (d : DefinitionDraft) (s : State) : DefinitionDraft :=
  { d with states := d.states ++ [s] }

def addRule (d : DefinitionDraft) (r : Rule) : DefinitionDraft := { d with rules := d.rules ++ [r] }

def addTrigger (d : DefinitionDraft) (t : Trigger) : DefinitionDraft :=
  { d with triggers := d.triggers ++ [t] }

def draftRule (d : DefinitionDraft) (r : RuleDraft) : Except DraftError DefinitionDraft :=
  r.build.map d.addRule

def draftTrigger (d : DefinitionDraft) (t : TriggerDraft) : Except DraftError DefinitionDraft :=
  t.build.map d.addTrigger

/-- A definition needs a state and the name of the initial one. -/
def build (d : DefinitionDraft) : Except DraftError Definition :=
  if d.states.isEmpty then .error .noStates
  else
    match d.initial with
    | none => .error .missingInitialState
    | some initial => .ok { states := d.states, initial, rules := d.rules, triggers := d.triggers }

end DefinitionDraft
end Statechart
