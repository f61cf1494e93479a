import Statechart.Violation
import Statechart.Json.Problem
/-!
Why a configuration could not be loaded, why the engine or a machine refuses a call, and how a call
ends.
-/

namespace Statechart

inductive FileFault
  | missing
  | isDirectory
  /-- The bytes are not UTF-8. -/
  | notText
  deriving DecidableEq

inductive LoadError
  | unreadable (path : String) (fault : FileFault)
  | invalid (path : String) (problem : Json.Problem)
  | notFound (path : String)
  | noRules (path : String)
  deriving DecidableEq

def LoadError.mapPath (f : String → String) : LoadError → LoadError
  | .unreadable path fault => .unreadable (f path) fault
  | .invalid path problem => .invalid (f path) problem
  | .notFound path => .notFound (f path)
  | .noRules path => .noRules (f path)

/-- The wording of the problems that are not a file's. -/
def LoadError.message? : LoadError → Option String
  | .notFound path => some s!"Configuration path not found: {path}"
  | .noRules path => some s!"No transition files in {path}"
  | .unreadable .. | .invalid .. => none

inductive Error
  | duplicateState (state : String)
  | unknownParent (state parent : String)
  | unknownState (state : String)
  | unknownCondition (name : String)
  | invalidRange (name : String) (min max : Int64)
  | missingRanges (name : String)
  | reservedEventName (name : String)
  | duplicateTrigger (name : String)
  | invalidDefinition (violations : List Violation)
  | configuration (cause : LoadError)
  | notInitialized
  | alreadyInitialized
  | alreadyRunning
  | callbacksLocked
  | registrationClosed
  deriving DecidableEq

def Error.message : Error → String
  | .duplicateState state => s!"State '{state}' is already registered"
  | .unknownParent state parent => s!"State '{state}' names unregistered parent '{parent}'"
  | .unknownState state => s!"Unknown state '{state}'"
  | .unknownCondition name => s!"Unknown condition '{name}'"
  | .invalidRange name min max => s!"Condition '{name}' has invalid range [{min}, {max}]"
  | .missingRanges name => s!"Condition '{name}' lists no accepted range"
  | .reservedEventName name => s!"Event name '{name}' is reserved by the engine"
  | .duplicateTrigger name => s!"Event definition '{name}' is already registered"
  | .invalidDefinition violations =>
    s!"Machine definition has {violations.length} violation(s): " ++
      "; ".intercalate (violations.map Violation.message)
  | .configuration cause => cause.message?.getD ""
  | .notInitialized => "Machine is not initialized. Call init() before start()"
  | .alreadyInitialized => "Machine is already initialized"
  | .alreadyRunning => "Machine is already running"
  | .callbacksLocked => "Callbacks cannot be changed while the machine is running"
  | .registrationClosed => "Registration is closed once the component has started"

/-- A call comes back with what it made, or it is refused, or it breaks down on the way and leaves
behind what it had done by then. -/
inductive Ending (α : Type)
  | done (made : α)
  | refused (cause : Error)
  | broken (left : α)
  deriving DecidableEq

namespace Ending
variable {α β : Type}

def ofExcept : Except Error α → Ending α
  | .ok a => .done a
  | .error cause => .refused cause

instance : Coe (Except Error α) (Ending α) := ⟨ofExcept⟩

def map (f : α → β) : Ending α → Ending β
  | .done a => .done (f a)
  | .refused cause => .refused cause
  | .broken a => .broken (f a)

/-- Goes on with what a call has made. -/
def andThen (x : Ending α) (next : α → Ending α) : Ending α :=
  match x with
  | .done a => next a
  | .refused cause => .refused cause
  | .broken a => .broken a

/-- What there is after a call, given what there was before. -/
def left (before : α) : Ending α → α
  | .done a | .broken a => a
  | .refused _ => before

/-- What a call leaves behind that is not refused. -/
def Leaves (x : Ending α) (a : α) : Prop := x = .done a ∨ x = .broken a

end Ending
end Statechart
