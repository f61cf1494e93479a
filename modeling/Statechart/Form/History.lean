import Statechart.History
import Statechart.Stage
import Statechart.Timestamp.Format
import Statechart.Json.Record
/-!
Histories, and the stages of a machine, as JSON. Instants are written as text.
-/

namespace Statechart
open Json

namespace Timestamp

def toJson (t : Timestamp) : Json := .text (String.ofList t.write)

def reader : Reader Timestamp := Reader.filterMap (fun s => read s.toList) Reader.text

end Timestamp

namespace Passage

structure Draft where
  source : Option String := none
  target : Option String := none
  event : Option String := none
  exited : Option (List String) := none
  entered : Option (List String) := none
  time : Option Timestamp := none

def toJson (p : Passage) : Json :=
  .object [("from", .text p.source), ("to", .text p.target), ("event", .text p.event),
    ("exited", .texts p.exited), ("entered", .texts p.entered), ("timestamp", p.time.toJson)]

def fields : List (RecordField Draft) :=
  [.of "from" Reader.text (·.source) fun d a => { d with source := some a },
   .of "to" Reader.text (·.target) fun d a => { d with target := some a },
   .of "event" Reader.text (·.event) fun d a => { d with event := some a },
   .of "exited" (Reader.list Reader.text) (·.exited) fun d a => { d with exited := some a },
   .of "entered" (Reader.list Reader.text) (·.entered) fun d a => { d with entered := some a },
   .of "timestamp" Timestamp.reader (·.time) fun d a => { d with time := some a }]

def finish (d : Draft) : Option Passage := do
  return {
    source := ← d.source
    target := ← d.target
    event := ← d.event
    exited := ← d.exited
    entered := ← d.entered
    time := ← d.time }

def reader : Reader Passage := Reader.record fields {} finish

end Passage

namespace History

structure Draft where
  capacity : Option UInt64 := none
  passages : Option (List Passage) := none

def toJson (h : History) : Json :=
  .object [("capacity", .natural h.capacity.toNat),
    ("records", .array (h.passages.map Passage.toJson))]

def fields : List (RecordField Draft) :=
  [.of "capacity" Reader.uint64 (·.capacity) fun d a => { d with capacity := some a },
   .of "records" (Reader.list Passage.reader) (·.passages) fun d a => { d with passages := some a }]

/-- Capacity and records are taken as written, whether or not they go together. -/
def finish (d : Draft) : Option History := do
  return { capacity := ← d.capacity, passages := ← d.passages }

def reader : Reader History := Reader.record fields {} finish

def ofText (cs : List Char) : Except Problem History := reader.run cs

def write (h : History) : List Char := h.toJson.write

end History

namespace Stage

def all : List (String × Stage) :=
  [("Created", .created), ("Initialized", .initialized), ("Running", .running),
   ("Stopped", .stopped)]

def title : Stage → String
  | .created => "Created"
  | .initialized => "Initialized"
  | .running => "Running"
  | .stopped => "Stopped"

def toJson (s : Stage) : Json := .text s.title

def reader : Reader Stage := Reader.oneOf all

end Stage
end Statechart
