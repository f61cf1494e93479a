import Statechart.Form.Definition
/-!
Configuration documents: the files in which states, triggers and rules are written down by hand, and
what they mean. They are terser than written definitions: a condition names one range or several,
a rule one event, several or none, and an empty parent is no parent.
-/

namespace Statechart
open Json

/-- A state as a document has it. -/
structure StateEntry where
  name : String
  parent : String := ""
  timeout : UInt64 := 0
  deriving DecidableEq

structure StateDocument where
  states : List StateEntry
  initial : String
  deriving DecidableEq

abbrev Pair := Int64 × Int64

/-- One range, or a list of ranges; the two forms are told apart when the document is written. -/
inductive RangeField
  | single (range : Pair)
  | several (ranges : List Pair)
  deriving DecidableEq

structure ConditionEntry where
  name : String
  range : RangeField
  duration : UInt64 := 0
  deriving DecidableEq

structure TriggerDocument where
  name : String
  mode : TriggerMode := .edge
  connective : Connective := .and
  conditions : List ConditionEntry := []
  deriving DecidableEq

inductive EventField
  | one (name : String)
  | many (names : List String)
  deriving DecidableEq

structure RuleDocument where
  source : String
  target : String
  event : Option EventField := none
  connective : Connective := .and
  conditions : List ConditionEntry := []
  deriving DecidableEq

/-! What the documents mean. -/

def StateEntry.toState (s : StateEntry) : State :=
  { ({ name := s.name } : State).under s.parent with timeout := Clock.ofMillis s.timeout.toNat }

def RangeField.pairs : RangeField → List Pair
  | .single range => [range]
  | .several ranges => ranges

def ConditionEntry.toCondition (c : ConditionEntry) : Condition where
  name := c.name
  intervals := c.range.pairs.map fun (min, max) => ⟨min, max⟩
  duration := Clock.ofMillis c.duration.toNat

def TriggerDocument.toTrigger (t : TriggerDocument) : Trigger where
  name := t.name
  mode := t.mode
  conditions := t.conditions.map ConditionEntry.toCondition
  connective := t.connective

/-- The event names of a rule document that are not empty; with none left, the internal event. -/
def EventField.events (field : Option EventField) : List String :=
  let names :=
    match field with
    | none => []
    | some (.one name) => [name]
    | some (.many names) => names
  match names.filter (· != "") with
  | [] => [internalEvent]
  | names => names

def RuleDocument.toRule (r : RuleDocument) : Rule where
  source := r.source
  target := r.target
  events := EventField.events r.event
  conditions := r.conditions.map ConditionEntry.toCondition
  connective := r.connective

def StateDocument.toDefinition (s : StateDocument) (rules : List RuleDocument)
    (triggers : List TriggerDocument) : Definition where
  states := s.states.map StateEntry.toState
  initial := s.initial
  rules := rules.map RuleDocument.toRule
  triggers := triggers.map TriggerDocument.toTrigger

end Statechart
