import Statechart.Clock
import Statechart.Condition
import Statechart.Json.Record
/-!
Conditions and readings as JSON. Lengths of time are whole milliseconds.
-/

namespace Statechart
open Json

def millisJson (span : Nat) : Json := .natural (Clock.toMillis span)

namespace Interval

structure Draft where
  min : Option Int64 := none
  max : Option Int64 := none

def toJson (i : Interval) : Json :=
  .object [("min", .integer i.min.toInt), ("max", .integer i.max.toInt)]

def fields : List (RecordField Draft) :=
  [.of "min" Reader.int64 (·.min) fun d a => { d with min := some a },
   .of "max" Reader.int64 (·.max) fun d a => { d with max := some a }]

def finish (d : Draft) : Option Interval := do return { min := ← d.min, max := ← d.max }

def reader : Reader Interval := Reader.record fields {} finish

end Interval

namespace Connective

def toJson (c : Connective) : Json := .text c.text

def reader : Reader Connective := Reader.oneOf [("AND", .and), ("OR", .or)]

end Connective

namespace Condition

structure Draft where
  name : Option String := none
  intervals : Option (List Interval) := none
  duration : Option Nat := none

def toJson (c : Condition) : Json :=
  .object [("name", .text c.name), ("ranges", .array (c.intervals.map Interval.toJson)),
    ("duration", millisJson c.duration)]

def fields : List (RecordField Draft) :=
  [.of "name" Reader.text (·.name) fun d a => { d with name := some a },
   .of "ranges" (Reader.list Interval.reader) (·.intervals)
     fun d a => { d with intervals := some a },
   .of "duration" Reader.millis (·.duration) fun d a => { d with duration := some a }]

def finish (d : Draft) : Option Condition := do
  return { name := ← d.name, intervals := ← d.intervals, duration := d.duration.getD 0 }

def reader : Reader Condition := Reader.record fields {} finish

end Condition

namespace Reading

structure Draft where
  name : Option String := none
  value : Option Int64 := none
  elapsed : Option Nat := none

def toJson (r : Reading) : Json :=
  .object [("name", .text r.name), ("value", .integer r.value.toInt),
    ("elapsed", millisJson r.elapsed)]

def fields : List (RecordField Draft) :=
  [.of "name" Reader.text (·.name) fun d a => { d with name := some a },
   .of "value" Reader.int64 (·.value) fun d a => { d with value := some a },
   .of "elapsed" Reader.millis (·.elapsed) fun d a => { d with elapsed := some a }]

def finish (d : Draft) : Option Reading := do
  return { name := ← d.name, value := ← d.value, elapsed := ← d.elapsed }

def reader : Reader Reading := Reader.record fields {} finish

end Reading
end Statechart
