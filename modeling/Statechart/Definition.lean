import Statechart.State
import Statechart.Rule
/-!
Definitions of machines. A definition is inert data and may be wrong in any way.
-/

namespace Statechart

structure Definition where
  states : List State
  initial : String
  rules : List Rule := []
  triggers : List Trigger := []
  deriving DecidableEq

namespace Definition

def state? (d : Definition) (name : String) : Option State := d.states.find? (·.name == name)

def isReady (placed : List String) (s : State) : Bool :=
  match s.namedParent with
  | none => true
  | some parent => placed.contains parent

/-- A state placed early in a pass makes its children ready later in the same pass. -/
def sweep (placed : List String) : List State → List State × List State
  | [] => ([], [])
  | s :: rest =>
    if isReady placed s then
      let (ready, left) := sweep (s.name :: placed) rest
      (s :: ready, left)
    else
      let (ready, left) := sweep placed rest
      (ready, s :: left)

theorem length_sweep (placed : List String) (states : List State) :
    (sweep placed states).1.length + (sweep placed states).2.length = states.length := by
  induction states generalizing placed with
  | nil => rfl
  | cons s rest ih =>
    by_cases ready : isReady placed s = true
    · have := ih (s.name :: placed)
      simp only [sweep, ready, if_true, List.length_cons]
      omega
    · have := ih placed
      simp only [sweep, ready, List.length_cons]
      simp only [Bool.false_eq_true, if_false, List.length_cons]
      omega

/-- As many passes as states are enough, for every pass but the last places a state. -/
def arrange : (passes : Nat) → (placed : List String) → List State → List State × List State
  | 0, _, pending => ([], pending)
  | passes + 1, placed, pending =>
    match sweep placed pending with
    | ([], left) => ([], left)
    | (first :: ready, left) =>
      let (later, tail) := arrange passes ((first :: ready).map (·.name) ++ placed) left
      (first :: ready ++ later, tail)

/-- States whose parents never turn up come last, as declared. -/
def parentsFirst (d : Definition) : List State :=
  let (placed, tail) := arrange d.states.length [] d.states
  placed ++ tail

def conditions (d : Definition) : List Condition :=
  d.rules.flatMap (·.conditions) ++ d.triggers.flatMap (·.conditions)

end Definition
end Statechart
