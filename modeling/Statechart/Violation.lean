/-!
What can be wrong with a machine definition.
-/

namespace Statechart

inductive Violation
  | noStates
  | duplicateState (state : String)
  | unknownParent (state parent : String)
  | parentCycle (state : String)
  | missingInitialState
  | unknownInitialState (state : String)
  | unknownRuleSource (source target : String)
  | unknownRuleTarget (source target : String)
  | emptyRanges (condition : String)
  | invalidRange (condition : String) (min max : Int64)
  | reservedEventName (name : String)
  | duplicateTrigger (name : String)
  deriving DecidableEq

def Violation.message : Violation → String
  | .noStates => "No states defined"
  | .duplicateState state => s!"State '{state}' is defined more than once"
  | .unknownParent state parent => s!"State '{state}' names unknown parent '{parent}'"
  | .parentCycle state => s!"State '{state}' is part of a parent cycle"
  | .missingInitialState => "Initial state not specified"
  | .unknownInitialState state => s!"Initial state '{state}' is not defined"
  | .unknownRuleSource source target =>
    s!"Rule {source} -> {target} starts from unknown state '{source}'"
  | .unknownRuleTarget source target =>
    s!"Rule {source} -> {target} targets unknown state '{target}'"
  | .emptyRanges condition => s!"Condition '{condition}' lists no accepted range"
  | .invalidRange condition min max =>
    s!"Condition '{condition}' has inverted range [{min}, {max}]"
  | .reservedEventName name => s!"Event definition '{name}' uses a reserved event name"
  | .duplicateTrigger name => s!"Event definition '{name}' is defined more than once"

end Statechart
