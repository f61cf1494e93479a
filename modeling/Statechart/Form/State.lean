import Statechart.State
import Statechart.Form.Condition
/-!
States and paths as JSON. A state without a parent or without children has no such member.
-/

namespace Statechart
open Json

namespace State

structure Draft where
  name : Option String := none
  parent : Option (Option String) := none
  children : Option (List String) := none
  timeout : Option Nat := none

def toJson (s : State) : Json :=
  .object ([("name", .text s.name)] ++ (s.parent.map fun p => ("parent", .text p)).toList ++
    (if s.children.isEmpty then [] else [("children", .texts s.children)]) ++
    [("timeout", millisJson s.timeout)])

def fields : List (RecordField Draft) :=
  [.of "name" Reader.text (·.name) fun d a => { d with name := some a },
   .of "parent" (Reader.optional Reader.text) (·.parent) fun d a => { d with parent := some a },
   .of "children" (Reader.list Reader.text) (·.children) fun d a => { d with children := some a },
   .of "timeout" Reader.millis (·.timeout) fun d a => { d with timeout := some a }]

def finish (d : Draft) : Option State := do
  return {
    name := ← d.name
    parent := d.parent.getD none
    children := d.children.getD []
    timeout := d.timeout.getD 0 }

def reader : Reader State := Reader.record fields {} finish

end State

namespace Path

structure Draft where
  exit : Option (List String) := none
  enter : Option (List String) := none

def toJson (p : Path) : Json := .object [("exit", .texts p.exit), ("enter", .texts p.enter)]

def fields : List (RecordField Draft) :=
  [.of "exit" (Reader.list Reader.text) (·.exit) fun d a => { d with exit := some a },
   .of "enter" (Reader.list Reader.text) (·.enter) fun d a => { d with enter := some a }]

def finish (d : Draft) : Option Path := do return { exit := ← d.exit, enter := ← d.enter }

def reader : Reader Path := Reader.record fields {} finish

end Path
end Statechart
