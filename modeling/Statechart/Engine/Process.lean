import Statechart.Engine.Basic
/-!
From events to transitions. One event at a time is shown to the application, matched with the rules
of the current state and its ancestors, and, when a rule applies, turned into a transition that the
application follows step by step. As long as there is one worker for events it goes through with
each of them. Where two share the mailbox, each may come in between any two steps of the other.
-/

namespace Statechart

namespace Engine
variable {σ : Type}

/-- The first of some rules whose conditions are met, with what was seen of them. A rule that cannot
be checked is passed over. -/
def firstMet (e : Engine σ) : List Rule → Option (Rule × List Reading)
  | [] => none
  | r :: rest =>
    match e.values.check r.conditions r.connective e.clock with
    | .ok v => if v.met then some (r, v.matched) else e.firstMet rest
    | .error _ => e.firstMet rest

/-- The rules on an event from a state or its ancestors, the nearest first. -/
def candidates (e : Engine σ) (current event : String) : List Rule :=
  (e.states.lineageOrSelf current).flatMap fun state => e.rules.find state event

def resolve (e : Engine σ) (current event : String) : Option (Rule × List Reading) :=
  e.firstMet (e.candidates current event)

/-- A timeout that was raised for a state other than the current one. -/
def isStale (current : String) (event : Event) : Bool :=
  event.isTimeout && event.origin.any (· != current)

end Engine

/-- An engine together with its application and all that the application has been told. -/
structure Run (σ : Type) where
  engine : Engine σ
  client : σ
  notices : List Notice := []

namespace Run
variable {σ : Type}

def withEngine (r : Run σ) (change : Engine σ → Engine σ) : Run σ :=
  { r with engine := change r.engine }

/-- Tells the application something and does what it asks for. The handler breaks down with a
request that does. -/
def tell (r : Run σ) (n : Notice) : Reply × Run σ :=
  let (reply, client) := r.engine.handler n r.client
  let (breaks, engine) := r.engine.heed reply.requests
  let fails := reply.fails || breaks
  ({ reply with fails }, {
    engine := if fails then engine.fall else engine
    client
    notices := r.notices ++ [n] })

/-- Leaves the rest of an event for later. -/
def park (r : Run σ) (errand : Errand) : Run σ :=
  r.withEngine fun e => { e with pending := e.pending ++ [⟨errand, e.handler⟩] }

/-- Goes on with an event at once, unless another worker may come in between. -/
def onward (r : Run σ) (errand : Errand) (next : Run σ → Run σ) : Run σ :=
  if r.engine.isShared then r.park errand else next r

def finish (event : Event) (handled : Bool) (r : Run σ) : Run σ := (r.tell (.post event handled)).2

def record (current : String) (rule : Rule) (event : Event) (path : Path) (r : Run σ) : Run σ :=
  (r.withEngine fun e => { e with
    history := e.history.record {
      source := current
      target := rule.target
      event := event.name
      exited := path.exit
      entered := path.enter
      time := .ofMicros e.clock } }).onward (.finish event true) (finish event true)

def greet (current : String) (rule : Rule) (event : Event) (path : Path) (r : Run σ) : Run σ :=
  let (reply, r) := r.tell (.enter path.enter)
  if reply.fails then r
  else r.onward (.record current rule event path) (record current rule event path)

/-- Makes the target of a rule the current state. A target that is not registered undoes nothing,
but ends the matter. The worker breaks down with an entry that does, and nothing is told of it. -/
def move (current : String) (rule : Rule) (event : Event) (path : Path) (r : Run σ) : Run σ :=
  match r.engine.states.enter rule.target r.engine.clock with
  | .refused _ => r.onward (.finish event false) (finish event false)
  | .broken states => r.withEngine fun e => { e with states }.fall
  | .done states =>
    (r.withEngine fun e => { e with states }).onward (.greet current rule event path)
      (greet current rule event path)

def leave (current : String) (rule : Rule) (event : Event) (path : Path) (r : Run σ) : Run σ :=
  let (reply, r) := r.tell (.exit path.exit)
  if reply.fails then r
  else r.onward (.move current rule event path) (move current rule event path)

/-- Makes a transition. Until the states have been left the old state is current; the new one is
before its entry is told. -/
def commit (current : String) (rule : Rule) (event : Event) (r : Run σ) : Run σ :=
  let path := r.engine.states.path current rule.target
  let (reply, r) := r.tell (.transition path.exit event path.enter)
  if reply.fails then r
  else r.onward (.leave current rule event path) (leave current rule event path)

def resolve (current : String) (event : Event) (r : Run σ) : Run σ :=
  match r.engine.resolve current event.name with
  | none => r.onward (.finish event false) (finish event false)
  | some (rule, _) => r.onward (.commit current rule event) (commit current rule event)

def present (current : String) (event : Event) (r : Run σ) : Run σ :=
  let (reply, r) := r.tell (.pre current event)
  if reply.fails then r
  else if reply.accepts then r.onward (.resolve current event) (resolve current event)
  else r.onward (.finish event false) (finish event false)

def process (r : Run σ) (event : Event) : Run σ :=
  match r.engine.states.current with
  | none => r.onward (.finish event false) (finish event false)
  | some current =>
    if Engine.isStale current event then r
    else r.onward (.present current event) (present current event)

/-- Goes on with an event from where it was left. -/
def goOn : Errand → Run σ → Run σ
  | .present current event => present current event
  | .resolve current event => resolve current event
  | .commit current rule event => commit current rule event
  | .leave current rule event path => leave current rule event path
  | .move current rule event path => move current rule event path
  | .greet current rule event path => greet current rule event path
  | .record current rule event path => record current rule event path
  | .finish event handled => finish event handled

/-- Goes on with an event that was left, with the handler that was in force when it was taken up. -/
def carryOn (r : Run σ) (p : Pending σ) : Run σ :=
  ((r.withEngine fun e => { e with handler := p.handler }).goOn p.errand).withEngine
    fun e => { e with handler := r.engine.handler }

end Run
end Statechart
