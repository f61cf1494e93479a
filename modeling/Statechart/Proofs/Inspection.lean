import Statechart.Proofs.Derivation
/-!
Checks of triggers, one by one. How a check comes out depends on the mode of the trigger, on what
is found and on what the trigger's own value says; `Checked` lists the ways. A pass checks every
trigger once, in the order of registration, and adds to the queue of events what the single checks
raise, in that order, and then the internal event.
-/

namespace Statechart

/-- A check of a trigger: how it came out, and what it raised. -/
structure Inspection where
  trigger : Trigger
  outcome : Except Error Verdict
  raised : List Event

namespace Inspection

/-- The check came out, and the conditions were met. -/
def met (i : Inspection) : Bool :=
  match i.outcome with
  | .ok v => v.met
  | .error _ => false

/-- What is known after the check, when this was known before. A check that does not come out tells
nothing new. -/
def after (known : Bool) (i : Inspection) : Bool :=
  match i.outcome with
  | .ok v => v.met
  | .error _ => known

end Inspection

/-- The value by which a trigger remembers whether its conditions were met. -/
def mark (met : Bool) : Int64 := if met then 1 else 0

theorem mark_ne_zero (met : Bool) : (mark met != 0) = met := by
  cases met <;> decide

theorem Trigger.reset_ne_name (t : Trigger) : t.resetName ≠ t.name := by
  intro same
  have lengths := congrArg String.length same
  simp [resetName] at lengths

theorem Trigger.reset_ne_internal (t : Trigger) : t.resetName ≠ internalEvent := by
  intro same
  have ends := congrArg (fun name : String => name.toList.getLast?) same
  simp [resetName, internalEvent, List.getLast?_append] at ends

/-- The names of the events that an edge trigger raises as its conditions turn from `before` to
`now`. -/
def Trigger.turning (t : Trigger) (before now : Bool) : List String :=
  match before, now with
  | false, true => [t.name]
  | true, false => [t.resetName]
  | false, false | true, true => []

namespace Engine
variable {σ : Type}

/-- All that a check of a trigger can do: how it comes out, what it raises, what it leaves. -/
inductive Checked (e : Engine σ) (t : Trigger) :
    Except Error Verdict → List Event → Engine σ → Prop
  | failed {cause : Error} : Checked e t (.error cause) [] e
  | rise {v : Verdict} : v.met = true → e.isArmed t = false →
    Checked e t (.ok v) [raised t v.matched] ((e.track t 1).submit (raised t v.matched))
  | again {v : Verdict} : v.met = true → e.isArmed t = true → t.mode = .level →
    Checked e t (.ok v) [raised t v.matched] (e.submit (raised t v.matched))
  | silent {v : Verdict} : v.met = true → e.isArmed t = true → t.mode = .edge →
    Checked e t (.ok v) [] e
  | fall {v : Verdict} : v.met = false → e.isArmed t = true → t.mode = .edge →
    Checked e t (.ok v) [{ name := t.resetName }] ((e.track t 0).submit { name := t.resetName })
  | lapse {v : Verdict} : v.met = false → e.isArmed t = true → t.mode = .level →
    Checked e t (.ok v) [] (e.track t 0)
  | idle {v : Verdict} : v.met = false → e.isArmed t = false → Checked e t (.ok v) [] e

/-- What a check of the trigger adds to the queue of events. -/
def emitted (e : Engine σ) (t : Trigger) : List Event :=
  (e.checkTrigger t).events.items.drop e.events.items.length

def inspect (e : Engine σ) (t : Trigger) : Inspection where
  trigger := t
  outcome := e.values.check t.conditions t.connective e.clock
  raised := e.emitted t

/-- The checks of a pass, each made on what those before it left. -/
def inspections (e : Engine σ) : List Trigger → List Inspection
  | [] => []
  | t :: rest => e.inspect t :: (e.checkTrigger t).inspections rest

theorem Checked.events {e e' : Engine σ} {t : Trigger} {outcome : Except Error Verdict}
    {raised : List Event} (checked : Checked e t outcome raised e') :
    e'.events.items = e.events.items ++ raised := by
  cases checked with
  | failed => simp
  | rise => rfl
  | again => rfl
  | silent => simp
  | fall => rfl
  | lapse => simp [track]
  | idle => simp

theorem check_trigger_checked (e : Engine σ) (t : Trigger) :
    ∃ raised, Checked e t (e.inspect t).outcome raised (e.checkTrigger t) := by
  simp only [inspect, checkTrigger]
  cases e.values.check t.conditions t.connective e.clock with
  | error cause => exact ⟨_, .failed⟩
  | ok v =>
    simp only [settleTrigger]
    cases met : v.met <;> cases armed : e.isArmed t <;> cases mode : t.mode
    · exact ⟨_, .idle met armed⟩
    · exact ⟨_, .idle met armed⟩
    · exact ⟨_, .fall met armed mode⟩
    · exact ⟨_, .lapse met armed mode⟩
    · exact ⟨_, .rise met armed⟩
    · exact ⟨_, .rise met armed⟩
    · exact ⟨_, .silent met armed mode⟩
    · exact ⟨_, .again met armed mode⟩

theorem checked (e : Engine σ) (t : Trigger) :
    Checked e t (e.inspect t).outcome (e.inspect t).raised (e.checkTrigger t) := by
  obtain ⟨raised, checked⟩ := e.check_trigger_checked t
  have same : (e.inspect t).raised = raised := by
    simp only [inspect, emitted, checked.events, List.drop_left]
  exact same ▸ checked

namespace Checked
variable {e e' : Engine σ} {t : Trigger} {outcome : Except Error Verdict} {raised : List Event}

/-- What the trigger's value says afterwards, if it was 0 or 1 before. -/
theorem value (checked : Checked e t outcome raised e') {armed : Bool}
    (before : e.values.value t.name = mark armed) :
    e'.values.value t.name = mark (Inspection.after armed ⟨t, outcome, raised⟩) := by
  have known : e.isArmed t = armed := by rw [isArmed, before, mark_ne_zero]
  cases checked with
  | failed => exact before
  | rise met _ => exact (value_track e t 1).trans (by simp [Inspection.after, met, mark])
  | again met busy _ =>
    rw [← known, busy] at before
    exact before.trans (by simp [Inspection.after, met])
  | silent met busy _ =>
    rw [← known, busy] at before
    exact before.trans (by simp [Inspection.after, met])
  | fall unmet _ _ => exact (value_track e t 0).trans (by simp [Inspection.after, unmet, mark])
  | lapse unmet _ _ => exact (value_track e t 0).trans (by simp [Inspection.after, unmet, mark])
  | idle unmet free =>
    rw [← known, free] at before
    exact before.trans (by simp [Inspection.after, unmet])

/-- A level trigger raises its event if the check finds its conditions met, and nothing else. -/
theorem level (checked : Checked e t outcome raised e') (mode : t.mode = .level) :
    raised.map (·.name) = if Inspection.met ⟨t, outcome, raised⟩ then [t.name] else [] := by
  cases checked with
  | failed => rfl
  | rise met _ => simp [Inspection.met, met, Engine.raised]
  | again met _ _ => simp [Inspection.met, met, Engine.raised]
  | silent _ _ edge => rw [mode] at edge; cases edge
  | fall _ _ edge => rw [mode] at edge; cases edge
  | lapse unmet _ _ => simp [Inspection.met, unmet]
  | idle unmet _ => simp [Inspection.met, unmet]

/-- An edge trigger raises its event as its conditions start to be met, and its reset event as they
cease to be. -/
theorem edge (checked : Checked e t outcome raised e') (mode : t.mode = .edge) :
    raised.map (·.name) =
      t.turning (e.isArmed t) (Inspection.after (e.isArmed t) ⟨t, outcome, raised⟩) := by
  cases checked with
  | failed => cases armed : e.isArmed t <;> rfl
  | rise met free => simp [Inspection.after, met, free, Engine.raised, Trigger.turning]
  | again _ _ level => rw [mode] at level; cases level
  | silent met busy _ => simp [Inspection.after, met, busy, Trigger.turning]
  | fall unmet busy _ => simp [Inspection.after, unmet, busy, Trigger.turning]
  | lapse _ _ level => rw [mode] at level; cases level
  | idle unmet free => simp [Inspection.after, unmet, free, Trigger.turning]

theorem raises (checked : Checked e t outcome raised e') :
    raised.length ≤ 1 ∧ ∀ event ∈ raised, event.name = t.name ∨ event.name = t.resetName := by
  cases checked <;> simp [Engine.raised]

end Checked

theorem map_trigger_inspections (ts : List Trigger) (e : Engine σ) :
    (e.inspections ts).map (·.trigger) = ts := by
  induction ts generalizing e with
  | nil => rfl
  | cons t rest ih => exact congrArg (t :: ·) (ih (e.checkTrigger t))

/-- A check of a pass is made on what those before it left. -/
theorem mem_inspections {ts : List Trigger} {e : Engine σ} {i : Inspection}
    (member : i ∈ e.inspections ts) : ∃ before t after, ts = before ++ t :: after ∧
      i = (before.foldl checkTrigger e).inspect t := by
  induction ts generalizing e with
  | nil => cases member
  | cons t rest ih =>
    rcases List.mem_cons.mp member with rfl | later
    · exact ⟨[], t, rest, rfl, rfl⟩
    · obtain ⟨before, u, after, rfl, same⟩ := ih later
      exact ⟨t :: before, u, after, rfl, same⟩

theorem inspections_append (first later : List Trigger) (e : Engine σ) :
    e.inspections (first ++ later) =
      e.inspections first ++ (first.foldl checkTrigger e).inspections later := by
  induction first generalizing e with
  | nil => rfl
  | cons t rest ih => exact congrArg (e.inspect t :: ·) (ih (e.checkTrigger t))

theorem events_pass_eq (ts : List Trigger) (e : Engine σ) :
    (ts.foldl checkTrigger e).events.items =
      e.events.items ++ (e.inspections ts).flatMap (·.raised) := by
  induction ts generalizing e with
  | nil => simp [inspections]
  | cons t rest ih =>
    rw [List.foldl_cons, ih, (e.checked t).events, inspections, List.flatMap_cons,
      List.append_assoc]

/-- Whatever a pass does, the change for which it is made comes after all that it raises. -/
theorem events_derive (e : Engine σ) (change : Change) :
    (e.derive change).events.items = e.events.items ++
      (e.inspections e.triggers).flatMap (·.raised) ++ [.internal change.reading] := by
  rw [← events_pass_eq]
  rfl

end Engine
end Statechart
