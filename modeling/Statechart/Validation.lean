import Statechart.Definition
import Statechart.Violation
/-!
Validation of machine definitions. Every check looks at the whole definition and reports all that it
finds, in the order of declaration, so that one pass shows every problem at once.
-/

namespace Statechart.Definition

def repeated : List String → List String → List String
  | _, [] => []
  | seen, name :: rest =>
    if name ∈ seen then name :: repeated seen rest else repeated (name :: seen) rest

def parentAmong? (states : List State) (name : String) : Option String :=
  (states.find? (·.name == name)).bind (·.namedParent)

/-- Of several declarations the last one counts. -/
def parentOf? (d : Definition) (name : String) : Option String := parentAmong? d.states.reverse name

def declares (d : Definition) (name : String) : Bool := d.states.any (·.name == name)

/-- Whether following parents from `start` leads back to it. The walk ends at a root, at `start`, or
at a name that it has met before; `fuel` bounds the names that it can meet. -/
def cycleFrom (parent : String → Option String) (start : String) :
    (fuel : Nat) → (met : List String) → (current : String) → Bool
  | 0, _, _ => false
  | fuel + 1, met, current =>
    match parent current with
    | none => false
    | some next =>
      if next = start then true
      else if next ∈ met then false
      else cycleFrom parent start fuel (next :: met) next

/-- A walk meets each declared name at most once, and perhaps one that is not declared. -/
def inCycle (d : Definition) (start : String) : Bool :=
  cycleFrom (parentAmong? d.states.reverse) start (d.states.length + 1) [] start

def parentViolation (d : Definition) (name : String) : Option Violation :=
  match d.parentOf? name with
  | none => none
  | some parent =>
    if !d.declares parent then some (.unknownParent name parent)
    else if d.inCycle name then some (.parentCycle name)
    else none

def stateViolations (d : Definition) : List Violation :=
  if d.states.isEmpty then [.noStates]
  else (repeated [] (d.states.map (·.name))).map .duplicateState ++
    d.states.filterMap fun s => d.parentViolation s.name

def initialViolations (d : Definition) : List Violation :=
  if d.initial = "" then [.missingInitialState]
  else if (d.state? d.initial).isNone then [.unknownInitialState d.initial]
  else []

def endpointViolations (d : Definition) (r : Rule) : List Violation :=
  (if d.declares r.source then [] else [.unknownRuleSource r.source r.target]) ++
  (if d.declares r.target then [] else [.unknownRuleTarget r.source r.target])

def ruleViolations (d : Definition) : List Violation := d.rules.flatMap d.endpointViolations

def intervalViolations (c : Condition) : List Violation :=
  if c.intervals.isEmpty then [.emptyRanges c.name]
  else (c.intervals.filter (!·.isProper)).map fun i => .invalidRange c.name i.min i.max

def conditionViolations (d : Definition) : List Violation := d.conditions.flatMap intervalViolations

def namingViolations : List String → List Trigger → List Violation
  | _, [] => []
  | seen, t :: rest =>
    (if isReserved t.name then [.reservedEventName t.name] else []) ++
    (if t.name ∈ seen then [.duplicateTrigger t.name] else []) ++
    namingViolations (t.name :: seen) rest

def triggerViolations (d : Definition) : List Violation := namingViolations [] d.triggers

def violations (d : Definition) : List Violation :=
  d.stateViolations ++ d.initialViolations ++ d.ruleViolations ++ d.conditionViolations ++
    d.triggerViolations

def isValid (d : Definition) : Bool := d.violations.isEmpty

end Statechart.Definition
