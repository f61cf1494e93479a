import Statechart.Proofs.Setup
/-!
What steps make of a run. Notices are told, a state is entered and a record is made, one after the
other, up to the first notice whose handler breaks down or the first entry that the clock has no
number for. What moves the engine is the entry, and what adds to the history is the record.
-/

namespace Statechart

/-- What the processing of an event consists of. -/
inductive Step
  | tell (n : Notice)
  | enter (state : String)
  | record (p : Passage)
  deriving DecidableEq

namespace Step

/-- The notices among some steps, each with the state that is current as it is told, if the steps
start from this one. -/
def tellings (current : String) : List Step → List (Notice × Option String)
  | [] => []
  | .tell n :: rest => (n, some current) :: tellings current rest
  | .enter state :: rest => tellings state rest
  | .record _ :: rest => tellings current rest

/-- The state that is current in the end. -/
def arrival (current : String) : List Step → String
  | [] => current
  | .tell _ :: rest => arrival current rest
  | .enter state :: rest => arrival state rest
  | .record _ :: rest => arrival current rest

def passage? : Step → Option Passage
  | .record p => some p
  | _ => none

def isEntry : Step → Bool
  | .enter _ => true
  | _ => false

theorem tellings_append (current : String) (first later : List Step) :
    tellings current (first ++ later) =
      tellings current first ++ tellings (arrival current first) later := by
  induction first generalizing current with
  | nil => rfl
  | cons step rest ih =>
    cases step with
    | tell n => exact congrArg (_ :: ·) (ih current)
    | enter state => exact ih state
    | record p => exact ih current

theorem length_tellings (current : String) (steps : List Step) :
    (tellings current steps).length ≤ steps.length := by
  induction steps generalizing current with
  | nil => exact Nat.le_refl _
  | cons step rest ih =>
    cases step with
    | tell n => exact Nat.succ_le_succ (ih current)
    | enter state => exact (ih state).trans (Nat.le_succ _)
    | record p => exact (ih current).trans (Nat.le_succ _)

/-- What ends a list after its first step ends the list. -/
theorem last_of_cons {step : Step} {rest : List Step}
    (sound : (step :: rest).getLast?.any (·.isEntry) = false) :
    rest.getLast?.any (·.isEntry) = false := by
  cases rest with
  | nil => rfl
  | cons next more => simpa using sound

section Tells
variable {steps : List Step} (only : ∀ step ∈ steps, ∃ n, step = .tell n)
include only

theorem arrival_tells (current : String) : arrival current steps = current := by
  induction steps with
  | nil => rfl
  | cons step rest ih =>
    obtain ⟨n, rfl⟩ := only step (List.mem_cons_self ..)
    exact ih fun step member => only step (List.mem_cons_of_mem _ member)

theorem passages_tells : steps.filterMap (·.passage?) = [] := by
  rw [List.filterMap_eq_nil_iff]
  intro step member
  obtain ⟨n, rfl⟩ := only step member
  rfl

end Tells

end Step

theorem Hierarchy.path_of_nodes {h h' : Hierarchy} (same : h'.nodes = h.nodes)
    (source target : String) : h'.path source target = h.path source target := by
  simp only [path, lineageOrSelf, same]

namespace Engine
variable {σ : Type}

/-- Where the engine is: the registered states and the current one among them. -/
def place (e : Engine σ) : Table String Node × Option String := (e.states.nodes, e.states.current)

/-- What only transitions change. -/
def trail (e : Engine σ) : Option String × History := (e.states.current, e.history)

end Engine

namespace Session
variable {σ : Type}

theorem still_place : Still (Engine.place : Engine σ → _) where
  starts e := Prod.ext (congrArg Plan.nodes (Engine.plan_start e)) (still_current.starts e)
  stops _ _ := rfl
  submits _ _ := rfl
  assigns _ _ _ := rfl
  hands _ _ := rfl
  passes _ _ := rfl

theorem still_pending : Still (Engine.pending : Engine σ → _) where
  starts e := by rw [e.start_frame]
  stops _ _ := rfl
  submits _ _ := rfl
  assigns _ _ _ := rfl
  hands _ _ := rfl
  passes _ _ := rfl

theorem still_trail : Still (Engine.trail : Engine σ → _) where
  starts e := Prod.ext (still_current.starts e) (by rw [e.start_frame]; rfl)
  stops _ _ := rfl
  submits _ _ := rfl
  assigns _ _ _ := rfl
  hands _ _ := rfl
  passes _ _ := rfl

end Session

namespace Engine
variable {σ : Type}

theorem clock_requests (e : Engine σ) (q : Request) : ((e.perform q).left e).clock = e.clock :=
  perform_frame (·.clock) (fun _ _ => rfl) (fun _ _ _ => rfl) (fun e => by rw [e.start_frame])
    (fun _ _ => rfl) e q

theorem handler_requests (e : Engine σ) (q : Request) :
    ((e.perform q).left e).handler = e.handler :=
  perform_frame (·.handler) (fun _ _ => rfl) (fun _ _ _ => rfl) (fun e => by rw [e.start_frame])
    (fun _ _ => rfl) e q

/-- No request but a start has a hand on the watchdog. -/
theorem armed_requests (e : Engine σ) {q : Request} (other : q ≠ .start) :
    ((e.perform q).left e).states.armed = e.states.armed := by
  cases q with
  | submit event => rfl
  | assign name value => rfl
  | stop =>
    simp only [perform]
    split <;> rfl
  | start => exact absurd rfl other

end Engine

namespace Run
variable {σ : Type}

/-- Takes steps up to the first notice whose handler breaks down or the first entry that does. -/
def follow : Run σ → List Step → Run σ
  | r, [] => r
  | r, .tell n :: rest =>
    if (r.tell n).1.fails then (r.tell n).2 else (r.tell n).2.follow rest
  | r, .enter state :: rest =>
    match r.engine.states.enter state r.engine.clock with
    | .refused _ => r
    | .broken states => r.withEngine fun e => { e with states }.fall
    | .done states => (r.withEngine fun e => { e with states }).follow rest
  | r, .record p :: rest =>
    (r.withEngine fun e => { e with history := e.history.record p }).follow rest

/-- The steps that are taken. -/
def performed : Run σ → List Step → List Step
  | _, [] => []
  | r, .tell n :: rest =>
    .tell n :: if (r.tell n).1.fails then [] else (r.tell n).2.performed rest
  | r, .enter state :: rest =>
    match r.engine.states.enter state r.engine.clock with
    | .refused _ => []
    | .broken _ => [.enter state]
    | .done states => .enter state :: (r.withEngine fun e => { e with states }).performed rest
  | r, .record p :: rest =>
    .record p :: (r.withEngine fun e => { e with history := e.history.record p }).performed rest

/-- The notices told on the way, each with the state that is current as it is told. -/
def told : Run σ → List Step → List (Notice × Option String)
  | _, [] => []
  | r, .tell n :: rest => (n, r.engine.states.current) ::
    if (r.tell n).1.fails then [] else (r.tell n).2.told rest
  | r, .enter state :: rest =>
    match r.engine.states.enter state r.engine.clock with
    | .refused _ | .broken _ => []
    | .done states => (r.withEngine fun e => { e with states }).told rest
  | r, .record p :: rest =>
    (r.withEngine fun e => { e with history := e.history.record p }).told rest

/-- What handlers ask for on the way. -/
def asked : Run σ → List Step → List Request
  | _, [] => []
  | r, .tell n :: rest =>
    (r.tell n).1.requests ++ if (r.tell n).1.fails then [] else (r.tell n).2.asked rest
  | r, .enter state :: rest =>
    match r.engine.states.enter state r.engine.clock with
    | .refused _ | .broken _ => []
    | .done states => (r.withEngine fun e => { e with states }).asked rest
  | r, .record p :: rest =>
    (r.withEngine fun e => { e with history := e.history.record p }).asked rest

theorem notices_follow (steps : List Step) (r : Run σ) :
    (r.follow steps).notices = r.notices ++ (r.told steps).map (·.1) := by
  induction steps generalizing r with
  | nil => simp [follow, told]
  | cons step rest ih =>
    cases step with
    | tell n =>
      unfold follow told
      split
      · rfl
      · rw [ih, List.map_cons, List.append_cons]
        rfl
    | enter state =>
      unfold follow told
      split
      · simp
      · simp [withEngine]
      · exact ih _
    | record p => exact ih _

theorem trail_tell (r : Run σ) (n : Notice) : (r.tell n).2.engine.trail = r.engine.trail :=
  tell_frame Engine.trail Session.still_trail.requests (fun _ => rfl) r n

theorem clock_tell (r : Run σ) (n : Notice) : (r.tell n).2.engine.clock = r.engine.clock :=
  tell_frame (·.clock) Engine.clock_requests (fun _ => rfl) r n

theorem handler_tell (r : Run σ) (n : Notice) : (r.tell n).2.engine.handler = r.engine.handler :=
  tell_frame (·.handler) Engine.handler_requests (fun _ => rfl) r n

theorem pending_tell (r : Run σ) (n : Notice) :
    (r.tell n).2.engine.pending = r.engine.pending :=
  tell_frame (·.pending) Session.still_pending.requests (fun _ => rfl) r n

theorem place_tell (r : Run σ) (n : Notice) : (r.tell n).2.engine.place = r.engine.place :=
  tell_frame Engine.place Session.still_place.requests (fun _ => rfl) r n

theorem nodes_tell (r : Run σ) (n : Notice) :
    (r.tell n).2.engine.states.nodes = r.engine.states.nodes :=
  congrArg Prod.fst (r.place_tell n)

theorem path_tell (r : Run σ) (n : Notice) (source target : String) :
    (r.tell n).2.engine.states.path source target = r.engine.states.path source target :=
  Hierarchy.path_of_nodes (r.nodes_tell n) source target

theorem armed_tell (r : Run σ) (n : Notice) (unasked : .start ∉ (r.tell n).1.requests) :
    (r.tell n).2.engine.states.armed = r.engine.states.armed := by
  refine tell_asked (R := fun e e' => e'.states.armed = e.states.armed) (fun _ => rfl)
    (fun first later => later.trans first) (fun _ => rfl) r n fun e q member => ?_
  exact e.armed_requests fun start => unasked (start ▸ member)

section Equations
variable {r : Run σ} {rest : List Step}

theorem follow_tell {n : Notice} (answers : (r.tell n).1.fails = false) :
    r.follow (.tell n :: rest) = (r.tell n).2.follow rest ∧
      r.told (.tell n :: rest) = (n, r.engine.states.current) :: (r.tell n).2.told rest ∧
      r.asked (.tell n :: rest) = (r.tell n).1.requests ++ (r.tell n).2.asked rest ∧
      r.performed (.tell n :: rest) = .tell n :: (r.tell n).2.performed rest := by
  simp only [follow, Run.told, asked, performed, answers, Bool.false_eq_true, if_false, and_self]

theorem follow_fails {n : Notice} (fails : (r.tell n).1.fails = true) :
    r.follow (.tell n :: rest) = (r.tell n).2 ∧
      r.told (.tell n :: rest) = [(n, r.engine.states.current)] ∧
      r.asked (.tell n :: rest) = (r.tell n).1.requests ∧
      r.performed (.tell n :: rest) = [.tell n] := by
  simp only [follow, Run.told, asked, performed, fails, if_true, List.append_nil, and_self]

theorem follow_enter {state : String} {states : Hierarchy}
    (entered : r.engine.states.enter state r.engine.clock = .done states) :
    r.follow (.enter state :: rest) = (r.withEngine fun e => { e with states }).follow rest ∧
      r.told (.enter state :: rest) = (r.withEngine fun e => { e with states }).told rest ∧
      r.asked (.enter state :: rest) = (r.withEngine fun e => { e with states }).asked rest ∧
      r.performed (.enter state :: rest) =
        .enter state :: (r.withEngine fun e => { e with states }).performed rest := by
  simp only [follow, Run.told, asked, performed, entered, and_self]

theorem follow_overrun {state : String} {states : Hierarchy}
    (broken : r.engine.states.enter state r.engine.clock = .broken states) :
    r.follow (.enter state :: rest) = (r.withEngine fun e => { e with states }.fall) ∧
      r.told (.enter state :: rest) = [] ∧
      r.performed (.enter state :: rest) = [.enter state] := by
  simp only [follow, Run.told, performed, broken, and_self]

end Equations

/-- What comes of some steps: all of them are taken, or those up to a notice whose handler breaks
down, or those up to an entry that does. -/
structure Performs (r : Run σ) (current : String) (steps done : List Step) : Prop where
  part : done <+: steps
  ends : done = steps ∨
    (∃ before n, done = before ++ [.tell n] ∧ ((r.follow before).tell n).1.fails = true) ∨
    ∃ before state states, done = before ++ [.enter state] ∧ (r.follow before).engine.states.enter
      state (r.follow before).engine.clock = .broken states
  same : r.follow steps = r.follow done
  told : r.told done = Step.tellings current done
  current : (r.follow done).engine.states.current = some (Step.arrival current done)
  armed : (∀ state, .enter state ∉ done) → .start ∉ r.asked steps →
    (r.follow done).engine.states.armed = r.engine.states.armed
  history : (r.follow done).engine.history =
    (done.filterMap (·.passage?)).foldl History.record r.engine.history

namespace Performs
variable {r : Run σ} {current : String} {rest done : List Step}

theorem tell {n : Notice} (stands : r.engine.states.current = some current)
    (answers : (r.tell n).1.fails = false) (later : (r.tell n).2.Performs current rest done) :
    r.Performs current (.tell n :: rest) (.tell n :: done) := by
  have unmoved := r.trail_tell n
  have equations (steps : List Step) := @follow_tell _ _ steps _ answers
  constructor
  · exact (List.prefix_cons_inj _).mpr later.part
  · rcases later.ends with whole | ⟨before, m, parts, fails⟩ | ⟨before, state, states, parts, far⟩
    · exact .inl (congrArg _ whole)
    · refine .inr (.inl ⟨.tell n :: before, m, congrArg _ parts, ?_⟩)
      rw [(equations before).1]
      exact fails
    · refine .inr (.inr ⟨.tell n :: before, state, states, congrArg _ parts, ?_⟩)
      rw [(equations before).1]
      exact far
  · rw [(equations rest).1, (equations done).1, later.same]
  · rw [(equations done).2.1, stands, later.told]
    rfl
  · rw [(equations done).1]
    exact later.current
  · intro quiet unasked
    rw [(equations rest).2.2.1, List.mem_append, not_or] at unasked
    rw [(equations done).1,
      later.armed (fun state member => quiet state (.tail _ member)) unasked.2]
    exact r.armed_tell n unasked.1
  · rw [(equations done).1, later.history]
    exact congrArg (List.foldl History.record · _) (congrArg (·.2) unmoved)

/-- A handler that breaks down ends the matter. -/
theorem fail {n : Notice} (stands : r.engine.states.current = some current)
    (fails : (r.tell n).1.fails = true) : r.Performs current (.tell n :: rest) [.tell n] := by
  have unmoved := r.trail_tell n
  have equations (steps : List Step) := @follow_fails _ _ steps _ fails
  constructor
  · exact ⟨rest, rfl⟩
  · exact .inr (.inl ⟨[], n, rfl, fails⟩)
  · rw [(equations rest).1, (equations []).1]
  · rw [(equations []).2.1, stands]
    rfl
  · rw [(equations []).1]
    exact (congrArg (·.1) unmoved).trans stands
  · intro _ unasked
    rw [(equations rest).2.2.1] at unasked
    rw [(equations []).1]
    exact r.armed_tell n unasked
  · rw [(equations []).1]
    exact congrArg (·.2) unmoved

theorem enter {state : String} {states : Hierarchy}
    (entered : r.engine.states.enter state r.engine.clock = .done states)
    (later : (r.withEngine fun e => { e with states }).Performs state rest done) :
    r.Performs current (.enter state :: rest) (.enter state :: done) := by
  have equations (steps : List Step) := @follow_enter _ _ steps _ _ entered
  constructor
  · exact (List.prefix_cons_inj _).mpr later.part
  · rcases later.ends with whole | ⟨before, m, parts, fails⟩ | ⟨before, next, after, parts, far⟩
    · exact .inl (congrArg _ whole)
    · refine .inr (.inl ⟨.enter state :: before, m, congrArg _ parts, ?_⟩)
      rw [(equations before).1]
      exact fails
    · refine .inr (.inr ⟨.enter state :: before, next, after, congrArg _ parts, ?_⟩)
      rw [(equations before).1]
      exact far
  · rw [(equations rest).1, (equations done).1, later.same]
  · rw [(equations done).2.1, later.told]
    rfl
  · rw [(equations done).1]
    exact later.current
  · intro quiet
    exact absurd (List.mem_cons_self ..) (quiet state)
  · rw [(equations done).1]
    exact later.history

/-- An entry that breaks down ends the matter, with its state current. -/
theorem overrun {state : String} {states : Hierarchy}
    (broken : r.engine.states.enter state r.engine.clock = .broken states) :
    r.Performs current (.enter state :: rest) [.enter state] := by
  have equations (steps : List Step) := @follow_overrun _ _ steps _ _ broken
  constructor
  · exact ⟨rest, rfl⟩
  · exact .inr (.inr ⟨[], state, states, rfl, broken⟩)
  · rw [(equations rest).1, (equations []).1]
  · exact (equations []).2.1
  · rw [(equations []).1]
    exact congrArg Hierarchy.current (Hierarchy.enter_frame (.inr broken)).2
  · intro quiet
    exact absurd (List.mem_cons_self ..) (quiet state)
  · rw [(equations []).1]
    rfl

theorem record {p : Passage}
    (later : (r.withEngine fun e => { e with history := e.history.record p }).Performs
      current rest done) : r.Performs current (.record p :: rest) (.record p :: done) := by
  constructor
  · exact (List.prefix_cons_inj _).mpr later.part
  · rcases later.ends with whole | ⟨before, m, parts, fails⟩ | ⟨before, next, after, parts, far⟩
    · exact .inl (congrArg _ whole)
    · exact .inr (.inl ⟨.record p :: before, m, congrArg _ parts, fails⟩)
    · exact .inr (.inr ⟨.record p :: before, next, after, congrArg _ parts, far⟩)
  · exact later.same
  · exact later.told
  · exact later.current
  · intro quiet
    exact later.armed fun state member => quiet state (.tail _ member)
  · exact later.history

end Performs

/-- Steps that enter registered states only are taken, all of them unless a handler or an entry
breaks down. -/
theorem performs (steps : List Step) {r : Run σ} {current : String}
    (stands : r.engine.states.current = some current)
    (known : ∀ state, .enter state ∈ steps → r.engine.states.contains state = true) :
    r.Performs current steps (r.performed steps) := by
  -- The current state goes along in the induction, as an entry changes it.
  induction steps generalizing r current with
  | nil => exact ⟨List.prefix_refl _, .inl rfl, rfl, rfl, stands, fun _ _ => rfl, rfl⟩
  | cons step rest ih =>
    have known' (state : String) (member : .enter state ∈ rest) :=
      known state (List.mem_cons_of_mem _ member)
    cases step with
    | tell n =>
      cases answer : (r.tell n).1.fails with
      | true =>
        rw [(follow_fails answer).2.2.2]
        exact .fail stands answer
      | false =>
        rw [(follow_tell answer).2.2.2]
        refine .tell stands answer (ih ((congrArg Prod.fst (r.trail_tell n)).trans stands) ?_)
        simpa only [Hierarchy.contains, nodes_tell] using known'
    | enter state =>
      have here := known state (List.mem_cons_self ..)
      cases entered : r.engine.states.enter state r.engine.clock with
      | refused cause =>
        rw [Hierarchy.enter_eq, here] at entered
        split at entered
        · next unknown => cases unknown
        · split at entered <;> cases entered
      | broken states =>
        rw [(follow_overrun entered).2.2]
        exact .overrun entered
      | done states =>
        have frame := (Hierarchy.enter_frame (.inl entered)).2
        rw [(follow_enter entered).2.2.2]
        refine .enter entered (ih ?_ ?_)
        · exact congrArg Hierarchy.current frame
        · intro state member
          have kept := known' state member
          simp only [withEngine]
          rw [frame]
          exact kept
    | record p =>
      exact .record (ih (r := r.withEngine fun e => { e with history := e.history.record p })
        stands known')

end Run
end Statechart
