/-!
Conditions on named integer values. A condition lists the intervals that satisfy it and how long the
value must have stood unchanged before the condition counts as met.
-/

namespace Statechart

/-- A closed interval, kept as written: its ends may stand the wrong way round. -/
structure Interval where
  min : Int64
  max : Int64
  deriving DecidableEq

namespace Interval

def exactly (value : Int64) : Interval := ⟨value, value⟩

def holds (i : Interval) (value : Int64) : Bool := i.min ≤ value && value ≤ i.max

def isProper (i : Interval) : Bool := i.min ≤ i.max

def text (i : Interval) : String := s!"[{i.min}, {i.max}]"

theorem holds_iff (i : Interval) (value : Int64) :
    i.holds value = true ↔ i.min ≤ value ∧ value ≤ i.max := by
  simp [holds]

end Interval

inductive Connective
  | and
  | or
  deriving DecidableEq

def Connective.text : Connective → String
  | .and => "AND"
  | .or => "OR"

structure Condition where
  name : String
  intervals : List Interval
  duration : Nat := 0
  deriving DecidableEq

namespace Condition

def between (name : String) (min max : Int64) : Condition := { name, intervals := [⟨min, max⟩] }

def equals (name : String) (value : Int64) : Condition := between name value value

def orBetween (c : Condition) (min max : Int64) : Condition :=
  { c with intervals := c.intervals ++ [⟨min, max⟩] }

def sustained (c : Condition) (duration : Nat) : Condition := { c with duration }

def accepts (c : Condition) (value : Int64) : Bool := c.intervals.any (·.holds value)

def isTimed (c : Condition) : Bool := c.duration != 0

end Condition

/-- What a check saw of one condition that it found met: the value, and how long it had stood. -/
structure Reading where
  name : String
  value : Int64
  elapsed : Nat
  deriving DecidableEq

end Statechart
