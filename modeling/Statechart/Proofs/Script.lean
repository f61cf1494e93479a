import Statechart.Proofs.Steps
/-!
Scripts. To process an event is to follow one of four scripts: the event is dropped, or shown and
refused, or shown without a rule for it, or shown and turned into a transition. Only the last of
them moves the engine, and it does so between the exit and the entry. Where the target of its rule
is not registered it is cut short. A handler that breaks down ends the script with its notice, and
so does an entry that the clock has no number for. All this holds of an event that is gone through
with at once; where two workers share the mailbox it may be left off between any two steps.
-/

namespace Statechart
namespace Run
variable {σ : Type}

/-- The record of a transition by a rule. -/
def passage (r : Run σ) (current : String) (rule : Rule) (event : Event) : Passage :=
  let path := r.engine.states.path current rule.target
  { source := current
    target := rule.target
    event := event.name
    exited := path.exit
    entered := path.enter
    time := .ofMicros r.engine.clock }

/-- A transition by a rule, step by step: what moves the engine stands between exit and entry. -/
def crossing (r : Run σ) (current : String) (rule : Rule) (event : Event) : List Step :=
  let path := r.engine.states.path current rule.target
  [.tell (.transition path.exit event path.enter),
    .tell (.exit path.exit),
    .enter rule.target,
    .tell (.enter path.enter),
    .record (r.passage current rule event),
    .tell (.post event true)]

/-- What comes of a rule whose target is not registered, step by step. -/
def stumble (r : Run σ) (current : String) (rule : Rule) (event : Event) : List Step :=
  let path := r.engine.states.path current rule.target
  [.tell (.transition path.exit event path.enter), .tell (.exit path.exit),
    .tell (.post event false)]

/-- What comes of a rule. -/
def attempt (r : Run σ) (current : String) (rule : Rule) (event : Event) : List Step :=
  if r.engine.states.contains rule.target then r.crossing current rule event
  else r.stumble current rule event

/-- What comes of an event. -/
def steps (r : Run σ) (event : Event) : List Step :=
  match r.engine.states.current with
  | none => [.tell (.post event false)]
  | some current =>
    if Engine.isStale current event then []
    else
      .tell (.pre current event) ::
        if (r.tell (.pre current event)).1.accepts then
          match (r.tell (.pre current event)).2.engine.resolve current event.name with
          | none => [.tell (.post event false)]
          | some (rule, _) => r.attempt current rule event
        else [.tell (.post event false)]

/-- What is done of it. -/
def did (r : Run σ) (event : Event) : List Step := r.performed (r.steps event)

theorem attempt_tell (r : Run σ) (n : Notice) (current : String) (rule : Rule) (event : Event) :
    (r.tell n).2.attempt current rule event = r.attempt current rule event := by
  simp only [attempt, crossing, stumble, passage, path_tell, clock_tell, Hierarchy.contains,
    nodes_tell]
  rfl

/-! An event that is not left off for another worker is gone through with by these steps. -/

theorem onward_alone {r : Run σ} {errand : Errand} {next : Run σ → Run σ}
    (whole : (r.onward errand next).engine.isShared = false) : r.engine.isShared = false := by
  by_contra shared
  rw [onward, if_pos (Bool.not_eq_false _ ▸ shared)] at whole
  exact shared whole

theorem onward_whole {r : Run σ} {errand : Errand} {next : Run σ → Run σ}
    (whole : (r.onward errand next).engine.isShared = false) : r.onward errand next = next r :=
  if_neg (Bool.eq_false_iff.mp (onward_alone whole))

section Stages
variable {r : Run σ} {current : String} {rule : Rule} {event : Event} {path : Path}

theorem finish_follow (r : Run σ) (event : Event) (handled : Bool) :
    r.finish event handled = r.follow [.tell (.post event handled)] := by
  simp only [finish, follow, ite_self]

theorem finish_whole {handled : Bool}
    (whole : (r.onward (.finish event handled) (finish event handled)).engine.isShared = false) :
    r.onward (.finish event handled) (finish event handled) =
      r.follow [.tell (.post event handled)] :=
  (onward_whole whole).trans (finish_follow r event handled)

theorem record_whole (whole : (r.record current rule event path).engine.isShared = false) :
    r.record current rule event path = r.follow [.record {
      source := current, target := rule.target, event := event.name, exited := path.exit
      entered := path.enter, time := .ofMicros r.engine.clock }, .tell (.post event true)] :=
  finish_whole whole

theorem greet_whole {time : Timestamp} (now : Timestamp.ofMicros r.engine.clock = time)
    (whole : (r.greet current rule event path).engine.isShared = false) :
    r.greet current rule event path = r.follow [.tell (.enter path.enter), .record {
      source := current, target := rule.target, event := event.name, exited := path.exit
      entered := path.enter, time }, .tell (.post event true)] := by
  simp only [greet] at whole ⊢
  rw [follow]
  split at whole
  · next fails => simp only [fails, if_true]
  · next answers =>
    simp only [answers]
    have straight := onward_whole whole
    rw [straight] at whole ⊢
    rw [record_whole whole, clock_tell, now]

/-- What comes after the exit. -/
theorem move_whole {time : Timestamp} (now : Timestamp.ofMicros r.engine.clock = time)
    (whole : (r.move current rule event path).engine.isShared = false) :
    r.move current rule event path =
      if r.engine.states.contains rule.target then
        r.follow [.enter rule.target, .tell (.enter path.enter), .record {
          source := current, target := rule.target, event := event.name, exited := path.exit
          entered := path.enter, time }, .tell (.post event true)]
      else r.follow [.tell (.post event false)] := by
  unfold move at whole ⊢
  cases entered : r.engine.states.enter rule.target r.engine.clock with
  | refused cause =>
    simp only [entered] at whole ⊢
    have unknown : r.engine.states.contains rule.target = false := by
      rw [Hierarchy.enter_eq] at entered
      split at entered
      · next unknown => simpa using unknown
      · split at entered <;> cases entered
    rw [if_neg (Bool.eq_false_iff.mp unknown)]
    exact finish_whole whole
  | broken states =>
    rw [if_pos (Hierarchy.enter_frame (.inr entered)).1, (follow_overrun entered).1]
  | done states =>
    simp only [entered] at whole ⊢
    rw [if_pos (Hierarchy.enter_frame (.inl entered)).1, (follow_enter entered).1]
    have straight := onward_whole whole
    rw [straight] at whole ⊢
    exact greet_whole now whole

theorem leave_whole {time : Timestamp} (now : Timestamp.ofMicros r.engine.clock = time)
    (whole : (r.leave current rule event path).engine.isShared = false) :
    r.leave current rule event path = r.follow (.tell (.exit path.exit) ::
      if r.engine.states.contains rule.target then
        [.enter rule.target, .tell (.enter path.enter), .record {
          source := current, target := rule.target, event := event.name, exited := path.exit
          entered := path.enter, time }, .tell (.post event true)]
      else [.tell (.post event false)]) := by
  simp only [leave] at whole ⊢
  rw [follow]
  split at whole
  · next fails => simp only [fails, if_true]
  · next answers =>
    simp only [answers]
    have straight := onward_whole whole
    rw [straight] at whole ⊢
    rw [move_whole ((congrArg Timestamp.ofMicros (clock_tell _ _)).trans now) whole,
      Hierarchy.contains, nodes_tell, apply_ite (follow _)]
    rfl

/-- A rule is followed by its steps, wherever it leads. -/
theorem commit_whole (whole : (r.commit current rule event).engine.isShared = false) :
    r.commit current rule event = r.follow (r.attempt current rule event) := by
  have parts : r.attempt current rule event =
      .tell (.transition (r.engine.states.path current rule.target).exit event
        (r.engine.states.path current rule.target).enter) ::
      .tell (.exit (r.engine.states.path current rule.target).exit) ::
      if r.engine.states.contains rule.target then
        (r.crossing current rule event).drop 2
      else [.tell (.post event false)] := by
    unfold attempt
    split <;> rfl
  rw [parts, follow]
  simp only [commit] at whole ⊢
  split at whole
  · next fails => simp only [fails, if_true]
  · next answers =>
    simp only [answers]
    have straight := onward_whole whole
    rw [straight] at whole ⊢
    rw [leave_whole (congrArg Timestamp.ofMicros (clock_tell _ _)) whole, Hierarchy.contains,
      nodes_tell]
    rfl

theorem process_whole (whole : (r.process event).engine.isShared = false) :
    r.process event = r.follow (r.steps event) := by
  unfold process steps at *
  cases stands : r.engine.states.current with
  | none =>
    simp only [stands] at whole ⊢
    exact finish_whole whole
  | some current =>
    simp only [stands] at whole ⊢
    split at whole
    · next stale => simp only [stale, if_true, follow]
    next fresh =>
    simp only [fresh, Bool.false_eq_true, if_false]
    -- No worker comes in between, so every step goes straight on to the next.
    have straight := onward_whole whole
    rw [straight] at whole ⊢
    simp only [present] at whole ⊢
    rw [follow]
    split at whole
    · next fails => simp only [fails, if_true]
    next answers =>
    simp only [answers, Bool.false_eq_true, if_false]
    split at whole
    · next passes =>
      simp only [passes, if_true]
      have straight := onward_whole whole
      rw [straight] at whole ⊢
      unfold resolve at whole ⊢
      cases found : (r.tell (.pre current event)).2.engine.resolve current event.name with
      | none =>
        simp only [found] at whole ⊢
        exact finish_whole whole
      | some pair =>
        obtain ⟨rule, readings⟩ := pair
        simp only [found] at whole ⊢
        have straight := onward_whole whole
        rw [straight] at whole ⊢
        rw [commit_whole whole, attempt_tell]
    · next refused =>
      simp only [refused, Bool.false_eq_true, if_false]
      exact finish_whole whole

end Stages

/-- The scripts for an event in a state. Which of them it is depends on the answer to the first
notice and on the rules. -/
inductive Script (r : Run σ) (current : String) (event : Event) : List Step → Prop
  | dropped : Engine.isStale current event = true → Script r current event []
  | refused : Engine.isStale current event = false →
    (r.tell (.pre current event)).1.accepts = false →
    Script r current event [.tell (.pre current event), .tell (.post event false)]
  | unmatched : Engine.isStale current event = false →
    (r.tell (.pre current event)).1.accepts = true →
    (r.tell (.pre current event)).2.engine.resolve current event.name = none →
    Script r current event [.tell (.pre current event), .tell (.post event false)]
  | moves {rule : Rule} {readings : List Reading} : Engine.isStale current event = false →
    (r.tell (.pre current event)).1.accepts = true →
    (r.tell (.pre current event)).2.engine.resolve current event.name = some (rule, readings) →
    Script r current event (.tell (.pre current event) :: r.crossing current rule event)

section Attempt
variable {r : Run σ} {current : String} {rule : Rule} {event : Event}

theorem attempt_known (known : r.engine.states.contains rule.target = true) :
    r.attempt current rule event = r.crossing current rule event :=
  if_pos known

theorem attempt_unknown (unknown : r.engine.states.contains rule.target = false) :
    r.attempt current rule event = r.stumble current rule event :=
  if_neg (Bool.eq_false_iff.mp unknown)

end Attempt

theorem script_steps {r : Run σ} {current : String} (event : Event)
    (stands : r.engine.states.current = some current)
    (aimed : ∀ rule readings,
      (r.tell (.pre current event)).2.engine.resolve current event.name = some (rule, readings) →
        r.engine.states.contains rule.target = true) :
    r.Script current event (r.steps event) := by
  unfold steps
  simp only [stands]
  cases stale : Engine.isStale current event with
  | true => exact .dropped stale
  | false =>
    cases answer : (r.tell (.pre current event)).1.accepts with
    | false => exact .refused stale answer
    | true =>
      cases found : (r.tell (.pre current event)).2.engine.resolve current event.name with
      | none => exact .unmatched stale answer found
      | some hit =>
        simp only [Bool.false_eq_true, if_false, if_true,
          attempt_known (aimed hit.1 hit.2 found)]
        exact .moves stale answer found

/-- How an event is processed: by which steps, which of them are done, and what changes. -/
structure Outcome (r : Run σ) (current : String) (event : Event) : Prop where
  script : r.Script current event (r.steps event)
  performs : r.Performs current (r.steps event) (r.did event)
  processed : r.process event = r.follow (r.steps event)
  notices : (r.process event).notices =
    r.notices ++ (Step.tellings current (r.did event)).map (·.1)
  still : (∀ state, .enter state ∉ r.did event) →
    (r.process event).engine.trail = r.engine.trail ∧
    (.start ∉ r.asked (r.steps event) →
      (r.process event).engine.states.armed = r.engine.states.armed)
  moved : ∀ p, .record p ∈ r.did event → p.source = current ∧
    (r.process event).engine.states.current = some p.target ∧
    (r.process event).engine.history = r.engine.history.record p
  plan : (r.process event).engine.plan = r.engine.plan
  memory : (r.process event).engine.memory = r.engine.memory

theorem Performs.breaks {r : Run σ} {current : String} {steps done : List Step}
    (performs : r.Performs current steps done) :
    done = steps ∨ ∃ before last, done = before ++ [last] ∧ last.passage? = none := by
  rcases performs.ends with whole | ⟨before, n, last, _⟩ | ⟨before, state, _, last, _⟩
  · exact .inl whole
  · exact .inr ⟨before, _, last, rfl⟩
  · exact .inr ⟨before, _, last, rfl⟩

/-- What is to be told first is told. -/
theorem Performs.begun {r : Run σ} {current : String} {rest done : List Step} {n : Notice}
    (performs : r.Performs current (.tell n :: rest) done) : ∃ more, done = .tell n :: more := by
  rcases List.prefix_cons_iff.mp performs.part with rfl | ⟨more, rfl, _⟩
  · rcases performs.breaks with whole | ⟨before, m, last, _⟩
    · cases whole
    · simp at last
  · exact ⟨more, rfl⟩

namespace Script
variable {r : Run σ} {current : String} {event : Event} {steps done : List Step}

/-- Up to the entry there are only notices. Steps that go further end with the entry, with the
notice of it, or with the script. -/
theorem stages (script : r.Script current event steps) (part : done <+: steps)
    (ends : done = steps ∨ ∃ before last, done = before ++ [last] ∧ last.passage? = none) :
    (done.length ≤ 3 ∧ ∀ step ∈ done, ∃ n, step = .tell n) ∨
      ∃ rule, steps = .tell (.pre current event) :: r.crossing current rule event ∧
        (done = steps.take 4 ∨ done = steps.take 5 ∨ done = steps) := by
  have idle (two : steps <+: [.tell (.pre current event), .tell (.post event false)]) :
      done.length ≤ 3 ∧ ∀ step ∈ done, ∃ n, step = .tell n := by
    constructor
    · exact (part.trans two).length_le.trans (Nat.le_succ 2)
    · intro step member
      have listed := (part.trans two).subset member
      simp only [List.mem_cons, List.not_mem_nil, or_false] at listed
      exact listed.elim (⟨_, ·⟩) (⟨_, ·⟩)
  cases script with
  | dropped => exact .inl (idle (List.nil_prefix ..))
  | refused => exact .inl (idle (List.prefix_refl _))
  | unmatched => exact .inl (idle (List.prefix_refl _))
  | @moves rule =>
    have kept := List.prefix_iff_eq_take.mp part
    generalize done.length = k at kept
    subst kept
    match k with
    | 0 | 1 | 2 | 3 => exact .inl (by simp [crossing])
    | 4 => exact .inr ⟨rule, rfl, .inl rfl⟩
    | 5 => exact .inr ⟨rule, rfl, .inr (.inl rfl)⟩
    | 6 =>
      -- Nothing breaks off behind the record.
      rcases ends with all | ⟨before, last, parts, unrecorded⟩
      · exact absurd (congrArg List.length all) (by simp [crossing])
      · have final := congrArg List.getLast? parts
        rw [List.getLast?_append, List.getLast?_singleton] at final
        cases (Option.some.inj final : Step.record _ = last)
        cases unrecorded
    | k + 7 => exact .inr ⟨rule, rfl, .inr (.inr (List.take_of_length_le (by simp [crossing])))⟩

/-- Nothing moves before the entry. -/
theorem before_entry (script : r.Script current event steps) (part : done <+: steps)
    (ends : done = steps ∨ ∃ before last, done = before ++ [last] ∧ last.passage? = none)
    (quiet : ∀ state, .enter state ∉ done) :
    Step.arrival current done = current ∧ done.filterMap (·.passage?) = [] := by
  rcases script.stages part ends with ⟨_, only⟩ | ⟨rule, rfl, rfl | rfl | rfl⟩
  · exact ⟨Step.arrival_tells only current, Step.passages_tells only⟩
  all_goals exact absurd (by simp [crossing]) (quiet rule.target)

/-- The record is of the transition from the current state to where the script leads. -/
theorem recorded (script : r.Script current event steps) (part : done <+: steps)
    (ends : done = steps ∨ ∃ before last, done = before ++ [last] ∧ last.passage? = none)
    {p : Passage} (member : .record p ∈ done) :
    p.source = current ∧ Step.arrival current done = p.target ∧
      done.filterMap (·.passage?) = [p] := by
  rcases script.stages part ends with ⟨_, only⟩ | ⟨rule, rfl, rfl | rfl | rfl⟩
  · obtain ⟨n, told⟩ := only _ member
    cases told
  · simp [crossing] at member
  · simp [crossing] at member
  · have here : p = r.passage current rule event := by simpa [crossing] using member
    subst here
    simp [crossing, passage, Step.arrival, Step.passage?]

theorem enters_found (script : r.Script current event steps) {state : String}
    (member : .enter state ∈ steps) : ∃ rule readings, rule.target = state ∧
      (r.tell (.pre current event)).2.engine.resolve current event.name =
        some (rule, readings) := by
  cases script with
  | dropped => simp at member
  | refused => simp at member
  | unmatched => simp at member
  | @moves rule readings _ _ found =>
    have here : state = rule.target := by simpa [crossing] using member
    exact ⟨rule, readings, here.symm, found⟩

/-- No moment comes twice in the processing of one event. -/
theorem once (script : r.Script current event steps) (part : done <+: steps) (role : Role) :
    ((Step.tellings current done).map (·.1)).countP (·.role = role) ≤ 1 := by
  -- What holds of the whole script holds of the part that is told.
  have whole : ((Step.tellings current steps).map (·.1)).countP (·.role = role) ≤ 1 := by
    cases script <;> cases role <;> simp [crossing, Step.tellings, Notice.role]
  obtain ⟨rest, rfl⟩ := part
  rw [Step.tellings_append, List.map_append, List.countP_append] at whole
  omega

end Script

/-- An event that is not left off for another worker is processed by a script, if the rules lead to
registered states. -/
theorem outcome {r : Run σ} {current : String} {event : Event}
    (whole : (r.process event).engine.isShared = false)
    (stands : r.engine.states.current = some current)
    (aimed : ∀ rule readings,
      (r.tell (.pre current event)).2.engine.resolve current event.name = some (rule, readings) →
        r.engine.states.contains rule.target = true) :
    r.Outcome current event := by
  have script := script_steps event stands aimed
  have processed := process_whole whole
  have performs : r.Performs current (r.steps event) (r.did event) :=
    Run.performs (r.steps event) stands fun state member => by
      obtain ⟨rule, readings, rfl, found⟩ := script.enters_found member
      exact aimed rule readings found
  have result : r.process event = r.follow (r.did event) := processed.trans performs.same
  refine ⟨script, performs, processed, ?_, ?_, ?_, Engine.steady_plan.process r event,
    Engine.steady_memory.process r event⟩
  · rw [result, notices_follow, performs.told]
  · intro quiet
    obtain ⟨unmoved, unrecorded⟩ := script.before_entry performs.part performs.breaks quiet
    rw [result]
    refine ⟨Prod.ext ?_ ?_, performs.armed quiet⟩
    · exact performs.current.trans ((congrArg some unmoved).trans stands.symm)
    · rw [show (r.follow (r.did event)).engine.trail.2 = _ from performs.history, unrecorded]
      rfl
  · intro p member
    obtain ⟨source, target, one⟩ := script.recorded performs.part performs.breaks member
    rw [result, performs.current, performs.history, target, one]
    exact ⟨source, rfl, rfl⟩

/-- The processing of an event ends with an entry that breaks down. -/
def overruns (r : Run σ) (event : Event) : Bool := (r.did event).getLast?.any (·.isEntry)

theorem pending_follow (steps : List Step) (r : Run σ) :
    (r.follow steps).engine.pending = r.engine.pending := by
  induction steps generalizing r with
  | nil => rfl
  | cons step rest ih =>
    cases step with
    | tell n =>
      unfold follow
      split
      · exact pending_tell r n
      · exact (ih _).trans (pending_tell r n)
    | enter state =>
      unfold follow
      split
      · rfl
      · rfl
      · exact ih _
    | record p => exact ih _

end Run

namespace Session
variable {σ : Type}

/-- The event that an action takes up, with all as it is just before it is processed. -/
def taken (s : Session σ) : Action σ → Option (Run σ × Event)
  | .work .process =>
    if s.engine.pending.length < s.engine.workers then
      s.engine.events.pop?.map fun (event, events) =>
        (s.run.withEngine fun e => { e with events }, event)
    else none
  | _ => none

/-- The events that are processed in the course of some actions. -/
def processed (s : Session σ) : List (Action σ) → List (Run σ × Event)
  | [] => []
  | a :: rest => (s.taken a).toList ++ (s.act a).processed rest

/-- What a session is in the course of some actions, from first to last. -/
def moments (s : Session σ) : List (Action σ) → List (Session σ)
  | [] => [s]
  | a :: rest => s :: (s.act a).moments rest

/-- At no time in the course of some actions do two workers share the mailbox for events. -/
def Alone (s : Session σ) (actions : List (Action σ)) : Prop :=
  ∀ t ∈ s.moments actions, t.engine.isShared = false

instance (s : Session σ) (actions : List (Action σ)) : Decidable (s.Alone actions) :=
  inferInstanceAs (Decidable (∀ t ∈ s.moments actions, t.engine.isShared = false))

/-- No event that is processed in the course of some actions ends with an entry that breaks down. -/
def InTime (s : Session σ) (actions : List (Action σ)) : Prop :=
  ∀ taken ∈ s.processed actions, taken.1.overruns taken.2 = false

instance (s : Session σ) (actions : List (Action σ)) : Decidable (s.InTime actions) :=
  inferInstanceAs (Decidable (∀ taken ∈ s.processed actions, taken.1.overruns taken.2 = false))

theorem alone_first {s : Session σ} {actions : List (Action σ)} (alone : s.Alone actions) :
    s.engine.isShared = false := by
  cases actions <;> exact alone s (List.mem_cons_self ..)

theorem alone_cons {s : Session σ} {a : Action σ} {rest : List (Action σ)}
    (alone : s.Alone (a :: rest)) : (s.act a).Alone rest :=
  fun t member => alone t (List.mem_cons_of_mem _ member)

theorem in_time_cons {s : Session σ} {a : Action σ} {rest : List (Action σ)}
    (sound : s.InTime (a :: rest)) :
    (∀ taken, s.taken a = some taken → taken.1.overruns taken.2 = false) ∧
      (s.act a).InTime rest :=
  ⟨fun taken here => sound taken (List.mem_append_left _ (Option.mem_toList.mpr here)),
    fun taken later => sound taken (List.mem_append_right _ later)⟩

theorem taken_cases {s : Session σ} {a : Action σ} {r : Run σ} {event : Event}
    (taken : s.taken a = some (r, event)) :
    a = .work .process ∧ s.act a = s.adopt (r.process event) ∧
      ∃ events, s.engine.events.pop? = some (event, events) ∧
        r = s.run.withEngine fun e => { e with events } := by
  unfold Session.taken at taken
  split at taken
  · split at taken
    · next free =>
      obtain ⟨⟨_, events⟩, popped, same⟩ := Option.map_eq_some_iff.mp taken
      cases same
      refine ⟨rfl, ?_, events, popped, rfl⟩
      simp [act, Run.work?, run, free, popped]
    · cases taken
  · cases taken

theorem taken_of_popped {s : Session σ} {event : Event} {events : Mailbox Event}
    (free : s.engine.pending.length < s.engine.workers)
    (popped : s.engine.events.pop? = some (event, events)) :
    s.taken (.work .process) = some (s.run.withEngine fun e => { e with events }, event) := by
  simp only [taken, free, popped, if_true, Option.map_some]

theorem taken_eq_none_iff {s : Session σ} :
    s.taken (.work .process) = none ↔ s.run.work? .process = none := by
  by_cases free : s.engine.pending.length < s.engine.workers
  · have room : s.run.engine.pending.length < s.run.engine.workers := free
    rw [taken, if_pos free, Run.work?, if_pos room, Option.map_eq_none_iff, Option.map_eq_none_iff]
    rfl
  · have full : ¬s.run.engine.pending.length < s.run.engine.workers := free
    rw [taken, if_neg free, Run.work?, if_neg full]
    exact iff_of_true rfl rfl

theorem act_process_idle {s : Session σ} (idle : s.taken (.work .process) = none) :
    s.act (.work .process) = s := by
  simp only [act, taken_eq_none_iff.mp idle]

theorem shared_adopt (s : Session σ) (r : Run σ) :
    (s.adopt r).engine.isShared = r.engine.isShared :=
  view_adopt Engine.isShared (fun _ _ => rfl) s r

/-- A worker that is never disturbed leaves no event half-way. -/
theorem settled_act {s : Session σ} (a : Action σ) (done : s.machine.stage ≠ .created)
    (settled : s.engine.pending = []) (whole : (s.act a).engine.isShared = false) :
    (s.act a).engine.pending = [] := by
  rcases still_pending.act_cases s a done with ⟨w, r, _, worked, same⟩ | ⟨same, _⟩
  · have kept : (s.act a).engine.pending = r.engine.pending := by
      rw [same]
      exact still_pending.adopted s r
    rw [same, shared_adopt] at whole
    rw [kept]
    cases worked with
    | derive popped =>
      rw [Run.withEngine, show (Engine.derive _ _).pending = _ from
        Engine.derive_frame (fun e : Engine σ => e.pending) (fun _ _ => rfl) (fun _ _ _ => rfl) _ _]
      exact settled
    | apply taken =>
      rw [Run.withEngine, Engine.report_frame]
      exact settled
    | take => exact settled
    | fire released =>
      rw [Run.withEngine, Engine.report_frame]
      exact settled
    | wake woken => exact settled
    | wakeOverrun woken => exact settled
    | process _ popped =>
      rw [Run.process_whole whole, Run.pending_follow]
      exact settled
    | carry here =>
      rw [show s.run.engine.pending = [] from settled] at here
      cases here
    | leave => exact settled
  · exact same.trans settled

/-- A machine that has just been set up is not in the middle of anything. -/
theorem accepted_settled {before : Session σ} {d : Definition} (reached : before.Reachable)
    (vacant : before.machine.current = none) (ok : (before.machine.init d).1 = .done ()) :
    (before.act (.init d)).engine.pending = [] := by
  have created := created_of_accepted ok
  obtain ⟨⟨updates, events, clock, blank⟩, _⟩ := created_blank reached created vacant
  refine init_keeps (P := fun e => e.pending = []) ?_ before.machine d
    (congrArg Engine.pending blank)
  intro e e' enrolled settled
  exact (congrArg Engine.pending enrolled.rest).trans settled

end Session
end Statechart
