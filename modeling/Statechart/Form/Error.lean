import Statechart.Error
import Statechart.Draft
import Statechart.Json.Value
/-!
Problems as JSON, for programs that have to tell them apart: the word for the kind of problem comes
with the message that people read. A text that could not be read has no message of its own.
-/

namespace Statechart
open Json

def problemJson (kind message : String) (more : List (String × Json)) : Json :=
  .object ([("error", .text kind), ("message", .text message)] ++ more)

namespace Violation

def kind : Violation → String
  | .noStates => "NoStates"
  | .duplicateState .. => "DuplicateState"
  | .unknownParent .. => "UnknownParent"
  | .parentCycle .. => "ParentCycle"
  | .missingInitialState => "MissingInitialState"
  | .unknownInitialState .. => "UnknownInitialState"
  | .unknownRuleSource .. => "UnknownRuleSource"
  | .unknownRuleTarget .. => "UnknownRuleTarget"
  | .emptyRanges .. => "EmptyRanges"
  | .invalidRange .. => "InvalidRange"
  | .reservedEventName .. => "ReservedEventName"
  | .duplicateTrigger .. => "DuplicateEventDefinition"

def toJson (v : Violation) : Json := .object [("kind", .text v.kind), ("message", .text v.message)]

end Violation

namespace Json.Problem

def kind : Problem → String
  | .malformed => "Syntax"
  | .truncated => "Eof"
  | .mismatched => "Data"

def toJson (p : Problem) (place : Option String) : Json :=
  .object ([("error", .text "Json"), ("category", .text p.kind)] ++
    (place.map fun path => ("path", .text path)).toList)

end Json.Problem

def FileFault.kind : FileFault → String
  | .missing => "NotFound"
  | .isDirectory => "IsADirectory"
  | .notText => "InvalidData"

def LoadError.toJson (e : LoadError) : Json :=
  let message := e.message?.getD ""
  match e with
  | .unreadable path fault =>
    .object [("error", .text "Io"), ("path", .text path), ("io", .text fault.kind)]
  | .invalid path problem => problem.toJson path
  | .notFound path => problemJson "NotFound" message [("path", .text path)]
  | .noRules path => problemJson "NoTransitions" message [("path", .text path)]

namespace Error

def kind : Error → String
  | .duplicateState .. => "DuplicateState"
  | .unknownParent .. => "UnknownParent"
  | .unknownState .. => "UnknownState"
  | .unknownCondition .. => "UnknownCondition"
  | .invalidRange .. => "InvalidRange"
  | .missingRanges .. => "MissingRanges"
  | .reservedEventName .. => "ReservedEventName"
  | .duplicateTrigger .. => "DuplicateEventDefinition"
  | .invalidDefinition .. => "InvalidDefinition"
  | .configuration .. => "Configuration"
  | .notInitialized => "NotInitialized"
  | .alreadyInitialized => "AlreadyInitialized"
  | .alreadyRunning => "AlreadyRunning"
  | .callbacksLocked => "CallbacksLocked"
  | .registrationClosed => "RegistrationClosed"

/-- A problem with a configuration is shown as what it is. -/
def toJson (e : Error) : Json :=
  match e with
  | .configuration cause => cause.toJson
  | .invalidDefinition violations =>
    problemJson e.kind e.message [("violations", .array (violations.map Violation.toJson))]
  | _ => problemJson e.kind e.message []

end Error

namespace DraftError

def kind : DraftError → String
  | .missingInitialState => "MissingInitialState"
  | .noStates => "NoStates"
  | .missingSource => "MissingFromState"
  | .missingTarget => "MissingToState"
  | .missingEventName => "MissingEventName"
  | .noEventConditions .. => "NoEventConditions"

def toJson (e : DraftError) : Json := problemJson e.kind e.message []

end DraftError
end Statechart
