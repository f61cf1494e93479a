import Statechart.Machine
/-!
Sessions: a machine with its application, and everything that can happen to the two. Calls of the
application, single pieces of work of any worker and the passing of time follow one another in any
order, so a list of actions is one interleaving of the workers. A call that is refused and a piece
of work for which there is nothing to do leave the session as it is. One that breaks down leaves
what it had done by then.
-/

namespace Statechart

structure Session (σ : Type) where
  machine : Machine σ
  client : σ
  /-- All that the application has been told, oldest first. -/
  notices : List Notice := []

inductive Action (σ : Type)
  | init (d : Definition)
  /-- Set up from a configuration that was or was not loaded. -/
  | load (source : Except LoadError Definition)
  | start
  | stop
  | submit (event : Event)
  | assign (name : String) (value : Int64)
  | install (change : Callbacks σ → Callbacks σ)
  | work (w : Work)
  /-- Let a length of time pass. -/
  | pass (span : Nat)

namespace Session
variable {σ : Type}

def fresh (name : String) (client : σ) : Session σ := { machine := { name }, client }

def engine (s : Session σ) : Engine σ := s.machine.engine

def run (s : Session σ) : Run σ := { engine := s.engine, client := s.client, notices := s.notices }

def adopt (s : Session σ) (r : Run σ) : Session σ :=
  { machine := s.machine.resume r.engine, client := r.client, notices := r.notices }

def act (s : Session σ) : Action σ → Session σ
  | .init d => { s with machine := (s.machine.init d).2 }
  | .load source => { s with machine := (s.machine.initFrom source).2 }
  | .start => { s with machine := s.machine.start.left s.machine }
  | .stop => { s with machine := s.machine.stop }
  | .submit event => { s with machine := s.machine.submit event }
  | .assign name value => { s with machine := s.machine.assign name value }
  | .install change =>
    { s with machine := Ending.left s.machine (s.machine.install change) }
  | .work w =>
    match s.run.work? w with
    | none => s
    | some r => s.adopt r
  | .pass span =>
    { s with machine := { s.machine with engine := { s.engine with
        clock := s.engine.clock + span } } }

def perform (s : Session σ) (actions : List (Action σ)) : Session σ := actions.foldl act s

/-- The session came about from a new machine. -/
def Reachable (s : Session σ) : Prop :=
  ∃ name client actions, s = (fresh name client).perform actions

/-- The session is one of a machine that was set up from a definition, without an earlier attempt
that broke off half-way, and has since been used in some way. -/
def Follows (d : Definition) (s : Session σ) : Prop :=
  ∃ (before : Session σ) (actions : List (Action σ)), before.Reachable ∧
    before.machine.current = none ∧
    (before.machine.init d).1 = .done () ∧ s = (before.act (.init d)).perform actions

/-- The change that an action reports to the worker for the triggers. -/
def reported (s : Session σ) : Action σ → Option Change
  | .work .apply =>
    match s.engine.values.batch with
    | [] => none
    | update :: batch => ({ s.engine.values with batch }.apply update).2
  | .work .fire =>
    match s.engine.values.timers.release? s.engine.clock with
    | none => none
    | some (timer, timers) => ({ s.engine.values with timers }.fire timer s.engine.clock).2
  | _ => none

/-- The changes reported in the course of some actions, each with the session right after it. -/
def reports (s : Session σ) : List (Action σ) → List (Change × Session σ)
  | [] => []
  | a :: rest => ((s.reported a).map (·, s.act a)).toList ++ (s.act a).reports rest

/-- A check of the condition alone finds it met. -/
def Finds (s : Session σ) (c : Condition) : Prop :=
  ∃ v, s.engine.values.check [c] .and s.engine.clock = .ok v ∧ v.met = true

theorem perform_append (s : Session σ) (first later : List (Action σ)) :
    s.perform (first ++ later) = (s.perform first).perform later :=
  List.foldl_append

theorem perform_snoc (s : Session σ) (actions : List (Action σ)) (a : Action σ) :
    s.perform (actions ++ [a]) = (s.perform actions).act a := by
  rw [perform_append]
  rfl

theorem perform_keeps {P : Session σ → Prop} (keeps : ∀ s a, P s → P (s.act a)) (s : Session σ)
    (actions : List (Action σ)) (holds : P s) : P (s.perform actions) := by
  induction actions generalizing s with
  | nil => exact holds
  | cons a rest ih => exact ih (s.act a) (keeps s a holds)

theorem Reachable.act {s : Session σ} (reached : s.Reachable) (a : Action σ) :
    (s.act a).Reachable := by
  obtain ⟨name, client, actions, rfl⟩ := reached
  exact ⟨name, client, actions ++ [a], (perform_snoc _ _ _).symm⟩

theorem Follows.act {d : Definition} {s : Session σ} (follows : s.Follows d) (a : Action σ) :
    (s.act a).Follows d := by
  obtain ⟨before, actions, reached, blank, accepted, rfl⟩ := follows
  exact ⟨before, actions ++ [a], reached, blank, accepted, (perform_snoc _ _ _).symm⟩

theorem Follows.perform {d : Definition} {s : Session σ} (follows : s.Follows d)
    (actions : List (Action σ)) : (s.perform actions).Follows d :=
  perform_keeps (P := Follows d) (fun _ a follows => Follows.act follows a) s actions follows

theorem Follows.reachable {d : Definition} {s : Session σ} (follows : s.Follows d) :
    s.Reachable := by
  obtain ⟨before, actions, reached, _, _, rfl⟩ := follows
  exact perform_keeps (fun _ a reached => reached.act a) _ actions (reached.act (.init d))

/-- What holds right after the setting up, and is kept by every action, holds from then on. -/
theorem Follows.keeps {d : Definition} {s : Session σ} (follows : s.Follows d)
    {P : Session σ → Prop}
    (starts : ∀ before : Session σ, before.Reachable → before.machine.current = none →
      (before.machine.init d).1 = .done () → P (before.act (.init d)))
    (keeps : ∀ s a, P s → P (s.act a)) : P s := by
  obtain ⟨before, actions, reached, blank, accepted, rfl⟩ := follows
  exact perform_keeps keeps _ actions (starts before reached blank accepted)

end Session
end Statechart
