import Statechart.Document
/-!
Configuration documents as JSON. They are written with every field, whatever was left out when they
were read. A range or an event may take one of several forms; such a field is first read as whatever
JSON it is, and then compared with each form in turn.
-/

namespace Statechart
open Json

namespace StateEntry

structure Draft where
  name : Option String := none
  parent : Option String := none
  timeout : Option UInt64 := none

def toJson (s : StateEntry) : Json :=
  .object [("name", .text s.name), ("parent", .text s.parent),
    ("timeout", .natural s.timeout.toNat)]

def fields : List (RecordField Draft) :=
  [.of "name" Reader.text (·.name) fun d a => { d with name := some a },
   .of "parent" Reader.text (·.parent) fun d a => { d with parent := some a },
   .of "timeout" Reader.uint64 (·.timeout) fun d a => { d with timeout := some a }]

def finish (d : Draft) : Option StateEntry := do
  return { name := ← d.name, parent := d.parent.getD "", timeout := d.timeout.getD 0 }

def reader : Reader StateEntry := Reader.record fields {} finish

end StateEntry

namespace StateDocument

structure Draft where
  states : Option (List StateEntry) := none
  initial : Option String := none

def toJson (s : StateDocument) : Json :=
  .object [("states", .array (s.states.map StateEntry.toJson)), ("initial_state", .text s.initial)]

def fields : List (RecordField Draft) :=
  [.of "states" (Reader.list StateEntry.reader) (·.states) fun d a => { d with states := some a },
   .of "initial_state" Reader.text (·.initial) fun d a => { d with initial := some a }]

def finish (d : Draft) : Option StateDocument := do
  return { states := ← d.states, initial := ← d.initial }

def reader : Reader StateDocument := Reader.record fields {} finish

end StateDocument

namespace RangeField

def pairJson (p : Pair) : Json := .array [.integer p.1.toInt, .integer p.2.toInt]

def toJson : RangeField → Json
  | .single range => pairJson range
  | .several ranges => .array (ranges.map pairJson)

def pair? : Json → Option Pair
  | .array [a, b] => do return (← a.int64?, ← b.int64?)
  | _ => none

def ofJson (j : Json) : Option RangeField :=
  match pair? j with
  | some range => some (.single range)
  | none =>
    match j with
    | .array items => (items.mapM pair?).map .several
    | _ => none

end RangeField

namespace ConditionEntry

structure Draft where
  name : Option String := none
  range : Option RangeField := none
  duration : Option UInt64 := none

def toJson (c : ConditionEntry) : Json :=
  .object [("name", .text c.name), ("range", c.range.toJson),
    ("duration", .natural c.duration.toNat)]

/-- The fields of an entry that stands within so many containers, itself included. -/
def fields (within : Nat) : List (RecordField Draft) :=
  [.of "name" Reader.text (·.name) fun d a => { d with name := some a },
   .of "range" (Reader.filterMap RangeField.ofJson (Reader.any (Reader.depthLimit - within)))
     (·.range) fun d a => { d with range := some a },
   .of "duration" Reader.uint64 (·.duration) fun d a => { d with duration := some a }]

def finish (d : Draft) : Option ConditionEntry := do
  return { name := ← d.name, range := ← d.range, duration := d.duration.getD 0 }

def reader (within : Nat) : Reader ConditionEntry := Reader.record (fields within) {} finish

end ConditionEntry

namespace TriggerDocument

structure Draft where
  name : Option String := none
  mode : Option TriggerMode := none
  connective : Option Connective := none
  conditions : Option (List ConditionEntry) := none

def toJson (t : TriggerDocument) : Json :=
  .object [("name", .text t.name), ("trigger_mode", t.mode.toJson),
    ("conditions_operator", t.connective.toJson),
    ("conditions", .array (t.conditions.map ConditionEntry.toJson))]

def fields : List (RecordField Draft) :=
  [.of "name" Reader.text (·.name) fun d a => { d with name := some a },
   .of "trigger_mode" TriggerMode.reader (·.mode) fun d a => { d with mode := some a },
   .of "conditions_operator" Connective.reader (·.connective)
     fun d a => { d with connective := some a },
   .of "conditions" (Reader.list (ConditionEntry.reader 3)) (·.conditions)
     fun d a => { d with conditions := some a }]

def finish (d : Draft) : Option TriggerDocument := do
  return {
    name := ← d.name
    mode := d.mode.getD .edge
    connective := d.connective.getD .and
    conditions := d.conditions.getD [] }

def reader : Reader TriggerDocument := Reader.record fields {} finish

end TriggerDocument

namespace EventField

def toJson : Option EventField → Json
  | none => .null
  | some (.one name) => .text name
  | some (.many names) => .texts names

def ofJson : Json → Option EventField
  | .text name => some (.one name)
  | .array items => (items.mapM Json.text?).map .many
  | _ => none

def reader : Reader (Option EventField) :=
  Reader.optional (Reader.filterMap ofJson (Reader.any (Reader.depthLimit - 1)))

end EventField

namespace RuleDocument

structure Draft where
  source : Option String := none
  target : Option String := none
  event : Option (Option EventField) := none
  connective : Option Connective := none
  conditions : Option (List ConditionEntry) := none

def toJson (r : RuleDocument) : Json :=
  .object [("from", .text r.source), ("to", .text r.target), ("event", EventField.toJson r.event),
    ("conditions_operator", r.connective.toJson),
    ("conditions", .array (r.conditions.map ConditionEntry.toJson))]

def fields : List (RecordField Draft) :=
  [.of "from" Reader.text (·.source) fun d a => { d with source := some a },
   .of "to" Reader.text (·.target) fun d a => { d with target := some a },
   .of "event" EventField.reader (·.event) fun d a => { d with event := some a },
   .of "conditions_operator" Connective.reader (·.connective)
     fun d a => { d with connective := some a },
   .of "conditions" (Reader.list (ConditionEntry.reader 3)) (·.conditions)
     fun d a => { d with conditions := some a }]

def finish (d : Draft) : Option RuleDocument := do
  return {
    source := ← d.source
    target := ← d.target
    event := d.event.getD none
    connective := d.connective.getD .and
    conditions := d.conditions.getD [] }

def reader : Reader RuleDocument := Reader.record fields {} finish

end RuleDocument
end Statechart
