import Statechart.Definition
import Statechart.Form.State
import Statechart.Form.Event
/-!
Rules and whole machine definitions as JSON.
-/

namespace Statechart
open Json

namespace Rule

structure Draft where
  source : Option String := none
  target : Option String := none
  events : Option (List String) := none
  conditions : Option (List Condition) := none
  connective : Option Connective := none

def toJson (r : Rule) : Json :=
  .object [("from", .text r.source), ("to", .text r.target), ("events", .texts r.events),
    ("conditions", .array (r.conditions.map Condition.toJson)), ("operator", r.connective.toJson)]

def fields : List (RecordField Draft) :=
  [.of "from" Reader.text (·.source) fun d a => { d with source := some a },
   .of "to" Reader.text (·.target) fun d a => { d with target := some a },
   .of "events" (Reader.list Reader.text) (·.events) fun d a => { d with events := some a },
   .of "conditions" (Reader.list Condition.reader) (·.conditions)
     fun d a => { d with conditions := some a },
   .of "operator" Connective.reader (·.connective) fun d a => { d with connective := some a }]

def finish (d : Draft) : Option Rule := do
  return {
    source := ← d.source
    target := ← d.target
    events := d.events.getD []
    conditions := d.conditions.getD []
    connective := d.connective.getD .and }

def reader : Reader Rule := Reader.record fields {} finish

end Rule

namespace Definition

structure Draft where
  states : Option (List State) := none
  initial : Option String := none
  rules : Option (List Rule) := none
  triggers : Option (List Trigger) := none

def toJson (d : Definition) : Json :=
  .object [("states", .array (d.states.map State.toJson)), ("initial_state", .text d.initial),
    ("transitions", .array (d.rules.map Rule.toJson)),
    ("events", .array (d.triggers.map Trigger.toJson))]

def fields : List (RecordField Draft) :=
  [.of "states" (Reader.list State.reader) (·.states) fun d a => { d with states := some a },
   .of "initial_state" Reader.text (·.initial) fun d a => { d with initial := some a },
   .of "transitions" (Reader.list Rule.reader) (·.rules) fun d a => { d with rules := some a },
   .of "events" (Reader.list Trigger.reader) (·.triggers) fun d a => { d with triggers := some a }]

def finish (d : Draft) : Option Definition := do
  return {
    states := ← d.states
    initial := ← d.initial
    rules := d.rules.getD []
    triggers := d.triggers.getD [] }

def reader : Reader Definition := Reader.record fields {} finish

def ofText (cs : List Char) : Except Problem Definition := reader.run cs

def write (d : Definition) : List Char := d.toJson.write

end Definition
end Statechart
