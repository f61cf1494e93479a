import Statechart.Timestamp
/-!
The last transitions that a machine has made (`TransitionRecord`, `TransitionHistory`).
-/

namespace Statechart

structure Passage where
  source : String
  target : String
  event : String
  exited : List String
  entered : List String
  time : Timestamp
  deriving DecidableEq

def Passage.isLoop (p : Passage) : Bool := p.source == p.target

structure History where
  capacity : UInt64
  /-- Oldest first. -/
  passages : List Passage := []
  deriving DecidableEq

namespace History

def defaultCapacity : UInt64 := 256

def ofCapacity (capacity : UInt64) : History := { capacity := max capacity 1 }

/-- Adds a transition, in place of the oldest one when there are exactly as many as fit. -/
def record (h : History) (p : Passage) : History :=
  let kept := if h.passages.length = h.capacity.toNat then h.passages.drop 1 else h.passages
  { h with passages := kept ++ [p] }

def clear (h : History) : History := { h with passages := [] }

def last? (h : History) : Option Passage := h.passages.getLast?

def size (h : History) : Nat := h.passages.length

def path (h : History) : List String :=
  match h.passages with
  | [] => []
  | first :: rest => first.source :: (first :: rest).map (·.target)

/-- Nanoseconds from the first kept transition to the last; none if there is no transition, or if
the clock went back in between. -/
def duration? (h : History) : Option Nat :=
  match h.passages.head?, h.passages.getLast? with
  | some first, some last =>
    let nanos := Timestamp.nanosBetween first.time last.time
    if 0 ≤ nanos then some nanos.toNat else none
  | _, _ => none

end History
end Statechart
