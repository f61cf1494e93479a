import Statechart.Event
import Statechart.Form.Condition
/-!
Events and triggers as JSON. An event that carries nothing, or has no origin, has no such member.
-/

namespace Statechart
open Json

namespace Event

structure Draft where
  name : Option String := none
  conditions : Option (List Reading) := none
  origin : Option (Option String) := none

def toJson (e : Event) : Json :=
  .object ([("name", .text e.name)] ++
    (if e.conditions.isEmpty then []
      else [("conditions", .array (e.conditions.map Reading.toJson))]) ++
    (e.origin.map fun o => ("origin_state", .text o)).toList)

def fields : List (RecordField Draft) :=
  [.of "name" Reader.text (·.name) fun d a => { d with name := some a },
   .of "conditions" (Reader.list Reading.reader) (·.conditions)
     fun d a => { d with conditions := some a },
   .of "origin_state" (Reader.optional Reader.text) (·.origin)
     fun d a => { d with origin := some a }]

def finish (d : Draft) : Option Event := do
  return { name := ← d.name, conditions := d.conditions.getD [], origin := d.origin.getD none }

def reader : Reader Event := Reader.record fields {} finish

end Event

namespace TriggerMode

def toJson (m : TriggerMode) : Json := .text m.text

def reader : Reader TriggerMode := Reader.oneOf [("edge", .edge), ("level", .level)]

end TriggerMode

namespace Trigger

structure Draft where
  name : Option String := none
  mode : Option TriggerMode := none
  conditions : Option (List Condition) := none
  connective : Option Connective := none

def toJson (t : Trigger) : Json :=
  .object [("name", .text t.name), ("trigger_mode", t.mode.toJson),
    ("conditions", .array (t.conditions.map Condition.toJson)), ("operator", t.connective.toJson)]

def fields : List (RecordField Draft) :=
  [.of "name" Reader.text (·.name) fun d a => { d with name := some a },
   .of "trigger_mode" TriggerMode.reader (·.mode) fun d a => { d with mode := some a },
   .of "conditions" (Reader.list Condition.reader) (·.conditions)
     fun d a => { d with conditions := some a },
   .of "operator" Connective.reader (·.connective) fun d a => { d with connective := some a }]

def finish (d : Draft) : Option Trigger := do
  return {
    name := ← d.name
    mode := d.mode.getD .edge
    conditions := d.conditions.getD []
    connective := d.connective.getD .and }

def reader : Reader Trigger := Reader.record fields {} finish

end Trigger
end Statechart
