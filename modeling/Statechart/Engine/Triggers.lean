import Statechart.Engine.Basic
/-!
From changes to events. After a reported change every trigger is checked, in order of registration;
at last the internal event carries the change itself.
-/

namespace Statechart.Engine
variable {σ : Type}

def track (e : Engine σ) (t : Trigger) (outcome : Int64) : Engine σ :=
  { e with values := e.values.store t.name outcome e.clock }

def raised (t : Trigger) (matched : List Reading) : Event :=
  { name := t.name, conditions := matched }

def isArmed (e : Engine σ) (t : Trigger) : Bool := e.values.value t.name != 0

def settleTrigger (e : Engine σ) (t : Trigger) (v : Verdict) : Engine σ :=
  match v.met, e.isArmed t with
  | true, false => (e.track t 1).submit (raised t v.matched)
  | true, true => if t.mode = .level then e.submit (raised t v.matched) else e
  | false, true =>
    let e := e.track t 0
    if t.mode = .edge then e.submit { name := t.resetName } else e
  | false, false => e

def checkTrigger (e : Engine σ) (t : Trigger) : Engine σ :=
  match e.values.check t.conditions t.connective e.clock with
  | .error _ => e
  | .ok v => e.settleTrigger t v

def derive (e : Engine σ) (c : Change) : Engine σ :=
  (e.triggers.foldl checkTrigger e).submit (.internal c.reading)

end Statechart.Engine
