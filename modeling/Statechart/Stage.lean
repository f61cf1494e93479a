/-!
The life of a machine: created, initialized from a definition, then running and stopped by turns.
-/

namespace Statechart

inductive Stage
  | created
  | initialized
  | running
  | stopped
  deriving DecidableEq

namespace Stage

def text : Stage → String
  | .created => "created"
  | .initialized => "initialized"
  | .running => "running"
  | .stopped => "stopped"

def canStart : Stage → Bool
  | .initialized | .stopped => true
  | .created | .running => false

def isRunning (s : Stage) : Bool := s == .running

end Stage
end Statechart
