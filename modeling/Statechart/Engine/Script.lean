import Statechart.Engine.Handler
/-!
Handlers written down as data. A script is a list of cues; each says on which notices it is taken,
how often, and what the application then does.
-/

namespace Statechart

def Notice.event? : Notice → Option Event
  | .pre _ event | .transition _ event _ | .post event _ => some event
  | .exit _ | .enter _ => none

def Notice.states : Notice → List String
  | .pre state _ => [state]
  | .exit states | .enter states => states
  | .transition .. | .post .. => []

inductive Act
  | reject
  | ask (request : Request)
  | fail
  deriving DecidableEq

structure Cue where
  role : Role
  act : Act
  event : Option String := none
  state : Option String := none
  /-- How many more times the cue is taken; for ever if there is no number. -/
  times : Option Nat := none
  deriving DecidableEq

namespace Cue

def applies (c : Cue) (n : Notice) : Bool :=
  c.role == n.role && c.times != some 0 &&
    c.event.all (fun name => n.event?.any (·.name == name)) && c.state.all n.states.contains

def taken (c : Cue) : Cue := { c with times := c.times.map (· - 1) }

end Cue

def Reply.doing (r : Reply) : Act → Reply
  | .reject => { r with accepts := false }
  | .ask request => { r with requests := r.requests ++ [request] }
  | .fail => { r with fails := true }

/-- A breakdown leaves the later cues for another time. -/
def followFrom (n : Notice) : Reply → List Cue → Reply × List Cue
  | reply, [] => (reply, [])
  | reply, c :: rest =>
    if c.applies n && !reply.fails then
      let (reply, rest) := followFrom n (reply.doing c.act) rest
      (reply, c.taken :: rest)
    else
      let (reply, rest) := followFrom n reply rest
      (reply, c :: rest)

def Handler.scripted : Handler (List Cue) := fun n script => followFrom n {} script

end Statechart
