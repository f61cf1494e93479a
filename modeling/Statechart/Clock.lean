/-!
Time as the engine counts it, in microseconds from some fixed start of its clock. The clock counts
seconds in signed 64-bit numbers; an instant beyond them cannot be had, and asking for it is fatal.
-/

namespace Statechart.Clock

/-- The first instant that the clock has no number for. -/
def horizon : Nat := UInt64.size / 2 * 1000000

/-- The instant some time from now, if the clock has a number for it. -/
def after? (now span : Nat) : Option Nat :=
  if now + span < horizon then some (now + span) else none

theorem after_eq {now span time : Nat} (told : after? now span = some time) :
    time = now + span := by
  unfold after? at told
  split at told
  · exact (Option.some.inj told).symm
  · cases told

def ofMillis (ms : Nat) : Nat := ms * 1000

/-- The whole milliseconds in a length of time. What does not fit into 64 bits is written as the
largest number that does. -/
def toMillis (span : Nat) : Nat :=
  if span / 1000 < UInt64.size then span / 1000 else UInt64.size - 1

theorem of_millis_to_millis (span : Nat) (whole : span % 1000 = 0)
    (fits : span / 1000 < UInt64.size) : ofMillis (toMillis span) = span := by
  simp only [toMillis, ofMillis, fits, if_true]
  omega

theorem to_millis_lt (span : Nat) : toMillis span < UInt64.size := by
  unfold toMillis
  by_cases fits : span / 1000 < UInt64.size
  · simp only [fits, if_true]
  · simp only [fits, if_false]
    decide

end Statechart.Clock
