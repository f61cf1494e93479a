/-!
States and the way between two of them. A lineage is a state followed by its ancestors up to the
root; the way leaves what only the first lineage has and enters what only the second has.
-/

namespace Statechart

structure State where
  name : String
  parent : Option String := none
  children : List String := []
  /-- Zero for ever. -/
  timeout : Nat := 0
  deriving DecidableEq

namespace State

def under (s : State) (parent : String) : State :=
  { s with parent := if parent = "" then none else some parent }

def namedParent (s : State) : Option String := s.parent.filter (· != "")

def isRoot (s : State) : Bool := s.parent.isNone

def hasTimeout (s : State) : Bool := s.timeout != 0

end State

structure Path where
  exit : List String := []
  enter : List String := []
  deriving DecidableEq

namespace Path

def isEmpty (p : Path) : Bool := p.exit.isEmpty && p.enter.isEmpty

def sharedTail (source target : List String) : Nat :=
  ((source.reverse.zip target.reverse).takeWhile fun pair => pair.1 == pair.2).length

def between (source target : List String) : Path where
  exit := source.take (source.length - sharedTail source target)
  enter := (target.take (target.length - sharedTail source target)).reverse

theorem shared_tail_le (source target : List String) :
    sharedTail source target ≤ source.length ∧ sharedTail source target ≤ target.length := by
  have kept := (List.takeWhile_sublist (l := source.reverse.zip target.reverse)
    fun pair => pair.1 == pair.2).length_le
  simp only [List.length_zip, List.length_reverse] at kept
  simp only [sharedTail]
  omega

end Path
end Statechart
