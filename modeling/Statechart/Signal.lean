import Statechart.Condition
/-!
The live value behind a condition name (`ConditionValue`): when it was last written, when it last
changed and how often, and whether it has been confirmed to have stood for a duration.
-/

namespace Statechart

structure Signal where
  value : Int64
  updated : Nat
  changed : Nat
  confirmed : Bool := false
  generation : Nat := 0
  deriving DecidableEq

namespace Signal

def create (value : Int64) (time : Nat) : Signal := { value, updated := time, changed := time }

/-- Writing the present value again only moves `updated`. -/
def write (s : Signal) (value : Int64) (time : Nat) : Signal :=
  if s.value = value then { s with updated := time }
  else { value, updated := time, changed := time, generation := s.generation + 1 }

def differs (s : Signal) (value : Int64) : Bool := s.value != value

def confirm (s : Signal) : Signal := { s with confirmed := true }

/-- How long the present value has stood at `now`; nothing if it was written later than that. -/
def heldFor (s : Signal) (now : Nat) : Nat := now - s.changed

def satisfies (s : Signal) (c : Condition) (now : Nat) : Bool :=
  c.accepts s.value && c.duration ≤ s.heldFor now

theorem value_write (s : Signal) (value : Int64) (time : Nat) :
    (s.write value time).value = value := by
  unfold write
  split
  · assumption
  · rfl

theorem generation_write (s : Signal) (value : Int64) (time : Nat) :
    (s.write value time).generation = s.generation + if s.differs value then 1 else 0 := by
  by_cases same : s.value = value <;> simp [write, differs, same]

theorem changed_write (s : Signal) (value : Int64) (time : Nat) :
    (s.write value time).changed = if s.differs value then time else s.changed := by
  by_cases same : s.value = value <;> simp [write, differs, same]

theorem confirmed_write (s : Signal) (value : Int64) (time : Nat) :
    (s.write value time).confirmed = (s.confirmed && !s.differs value) := by
  by_cases same : s.value = value <;> simp [write, differs, same]

end Signal
end Statechart
