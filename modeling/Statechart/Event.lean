import Statechart.Condition
/-!
Events, and triggers (`EventDefinition`), which raise them when conditions on live values start or
go on to hold. Two names are the engine's own.
-/

namespace Statechart

def internalEvent : String := "__INTERNAL_EVENT__"

def timeoutEvent : String := "__STATE_TIMEOUT_EVENT__"

def isReserved (name : String) : Bool := name == internalEvent || name == timeoutEvent

structure Event where
  name : String
  conditions : List Reading := []
  origin : Option String := none
  deriving DecidableEq

namespace Event

def internal (change : Reading) : Event := { name := internalEvent, conditions := [change] }

def stateTimeout (state : String) : Event := { name := timeoutEvent, origin := some state }

def isInternal (e : Event) : Bool := e.name == internalEvent

def isTimeout (e : Event) : Bool := e.name == timeoutEvent

def value? (e : Event) (name : String) : Option Int64 :=
  (e.conditions.find? (·.name == name)).map (·.value)

def readingText (r : Reading) : String :=
  s!"{r.name}={r.value}" ++ if r.elapsed = 0 then "" else s!" (sustain {r.elapsed / 1000} ms)"

def text (e : Event) : String :=
  if e.conditions.isEmpty then e.name
  else s!"{e.name} [" ++ ", ".intercalate (e.conditions.map readingText) ++ "]"

end Event

inductive TriggerMode
  | edge
  | level
  deriving DecidableEq

def TriggerMode.text : TriggerMode → String
  | .edge => "edge"
  | .level => "level"

structure Trigger where
  /-- Also the name of the value that remembers the outcome of the last check. -/
  name : String
  mode : TriggerMode := .edge
  conditions : List Condition := []
  connective : Connective := .and
  deriving DecidableEq

def Trigger.resetName (t : Trigger) : String := t.name ++ "_RESET"

end Statechart
