import Statechart.Signal
import Statechart.Error
/-!
Checking a list of conditions against the live values. The list is read from the front, and the
first condition that settles the matter ends the check: one whose name has no value, one that is
unmet under `and`, one that is met under `or`.
-/

namespace Statechart

structure Verdict where
  met : Bool
  matched : List Reading := []
  deriving DecidableEq

namespace Verdict

def unmet : Verdict := { met := false }

end Verdict

namespace Condition

def reading (c : Condition) (s : Signal) (now : Nat) : Reading :=
  { name := c.name, value := s.value, elapsed := s.heldFor now }

def checkFrom (signal? : String → Option Signal) (now : Nat) (connective : Connective)
    (matched : List Reading) : List Condition → Except Error Verdict
  | [] => .ok { met := connective == .and, matched }
  | c :: rest =>
    match signal? c.name with
    | none => .error (.unknownCondition c.name)
    | some s =>
      if s.satisfies c now then
        match connective with
        | .or => .ok { met := true, matched := matched ++ [c.reading s now] }
        | .and => checkFrom signal? now connective (matched ++ [c.reading s now]) rest
      else
        match connective with
        | .and => .ok .unmet
        | .or => checkFrom signal? now connective matched rest

/-- Checks conditions at an instant. An empty list is met under either connective. -/
def check (signal? : String → Option Signal) (now : Nat) (connective : Connective) :
    List Condition → Except Error Verdict
  | [] => .ok { met := true }
  | conditions => checkFrom signal? now connective [] conditions

end Condition
end Statechart
