import Statechart.Event
/-!
What an engine tells its application, and what the application may say in return. A handler answers
every notice; it has a state of its own, which it may change as it answers.
-/

namespace Statechart

inductive Role
  | pre
  | transition
  | exit
  | enter
  | post
  deriving DecidableEq

namespace Role

def text : Role → String
  | .pre => "pre"
  | .transition => "transition"
  | .exit => "exit"
  | .enter => "enter"
  | .post => "post"

def all : List Role := [.pre, .transition, .exit, .enter, .post]

def named? (name : String) : Option Role := all.find? (·.text == name)

end Role

inductive Notice
  | pre (state : String) (event : Event)
  | transition (exited : List String) (event : Event) (entered : List String)
  | exit (states : List String)
  | enter (states : List String)
  | post (event : Event) (handled : Bool)
  deriving DecidableEq

def Notice.role : Notice → Role
  | .pre .. => .pre
  | .transition .. => .transition
  | .exit .. => .exit
  | .enter .. => .enter
  | .post .. => .post

inductive Request
  | submit (event : Event)
  | assign (name : String) (value : Int64)
  | stop
  | start
  deriving DecidableEq

structure Reply where
  /-- Only the answer to `pre` counts. -/
  accepts : Bool := true
  requests : List Request := []
  /-- The handler broke down, which ends the worker that called it. -/
  fails : Bool := false

abbrev Handler (σ : Type) := Notice → σ → Reply × σ

def Handler.quiet {σ : Type} : Handler σ := fun _ s => ({}, s)

/-- A handler put together from one slot for each role. A role whose slot is empty falls to the
delegate, and without a delegate to the quiet handler. -/
structure Callbacks (σ : Type) where
  slot : Role → Option (Handler σ) := fun _ => none
  delegate : Option (Handler σ) := none

namespace Callbacks
variable {σ : Type}

def answering (c : Callbacks σ) (r : Role) : Handler σ :=
  match c.slot r with
  | some h => h
  | none => c.delegate.getD .quiet

def handler (c : Callbacks σ) : Handler σ := fun n => c.answering n.role n

def fill (c : Callbacks σ) (r : Role) (h : Handler σ) : Callbacks σ :=
  { c with slot := fun other => if other = r then some h else c.slot other }

def delegateTo (c : Callbacks σ) (h : Handler σ) : Callbacks σ := { c with delegate := some h }

end Callbacks
end Statechart
