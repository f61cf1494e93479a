import Statechart.Proofs.Delivery
/-!
Timeouts. The watchdog speaks up for the state that is current, but what it says waits behind all
events that were submitted before. When its turn comes it is judged by the name of the current state
alone: it is dropped if another state is current. So a timeout acts on the visit for which it was
raised unless a transition has led back into the state meanwhile; then it acts on a later one.
-/

namespace Statechart

namespace Hierarchy

/-- The watchdog is armed with the timeout of the current state, if it has one. -/
structure Wound (h : Hierarchy) : Prop where
  armed : ∀ a, h.armed = some a →
    h.current = some a.state ∧ a.timeout = h.allowance a.state ∧ 0 < a.timeout
  asleep : h.armed = none → ∀ name, h.current = some name → h.allowance name = 0

theorem wound_nil : Wound {} where
  armed _ here := by cases here
  asleep _ _ here := by cases here

theorem Wound.congr {h h' : Hierarchy} (wound : h.Wound) (nodes : h'.nodes = h.nodes)
    (current : h'.current = h.current) (armed : h'.armed = h.armed) : h'.Wound := by
  have same (name : String) : h'.allowance name = h.allowance name := by
    simp only [allowance, state?, nodes]
  constructor
  · intro a here
    rw [current, same]
    exact wound.armed a (armed ▸ here)
  · intro unarmed name stands
    rw [same]
    exact wound.asleep (armed ▸ unarmed) name (current ▸ stands)

theorem wound_armed_for {h : Hierarchy} {name : String} (stands : h.current = some name)
    (now : Nat) : Wound { h with armed := h.armedFor name now } := by
  by_cases stays : h.allowance name = 0
  · constructor
    · intro a armed
      simp [armedFor, stays] at armed
    · intro _ other current
      cases stands.symm.trans current
      exact stays
  · constructor
    · intro a armed
      simp only [armedFor, if_neg stays, Option.some.injEq] at armed
      subst armed
      exact ⟨stands, rfl, Nat.pos_of_ne_zero stays⟩
    · intro unarmed
      simp [armedFor, stays] at unarmed

theorem wound_enter {h h' : Hierarchy} {name : String} {now : Nat}
    (entered : h.enter name now = .done h') : h'.Wound := by
  rw [enter_eq] at entered
  split at entered
  · cases entered
  split at entered
  · cases entered
  · cases entered
    exact wound_armed_for (h := { h with current := some name }) rfl now

theorem wound_start {h h' : Hierarchy} {now : Nat} (wound : h.Wound)
    (leaves : (h.start now).Leaves h') : h'.Wound := by
  rw [start_eq] at leaves
  split at leaves
  · rcases leaves with same | same <;> cases same
    exact wound
  split at leaves
  · rcases leaves with same | same <;> cases same
    exact wound.congr rfl rfl rfl
  · next name stands =>
    split at leaves
    · rcases leaves with same | same <;> cases same
      exact wound.congr rfl rfl rfl
    · rcases leaves with same | same <;> cases same
      exact (wound_armed_for stands now).congr rfl rfl rfl

theorem wound_wake {h h' : Hierarchy} {now : Nat} {spoken : Option Armed} (wound : h.Wound)
    (woken : h.wake? now = some (spoken, h')) : h'.Wound := by
  obtain ⟨armed, _, _, here, _, ⟨_, _, rfl⟩ | ⟨_, _, rfl⟩⟩ := wake_cases woken
  · constructor
    · rintro b same
      cases same
      exact wound.armed armed here
    · intro unarmed
      cases unarmed
  · exact wound.congr rfl rfl rfl

theorem wound_add {h h' : Hierarchy} {s : State} (wound : h.Wound) (seated : h.Seated)
    (added : h.add s = .ok h') : h'.Wound := by
  have same (name : String) (stands : h.current = some name) :=
    allowance_add added (seated name stands)
  obtain ⟨_, _, frame, _⟩ := kin_add added
  have armed : h'.armed = h.armed := by rw [frame]
  have current : h'.current = h.current := by rw [frame]
  constructor
  · intro a here
    obtain ⟨stands, timeout, positive⟩ := wound.armed a (armed ▸ here)
    exact ⟨current.trans stands, timeout.trans (same _ stands).symm, positive⟩
  · intro unarmed name stands
    rw [current] at stands
    exact (same name stands).trans (wound.asleep (armed ▸ unarmed) name stands)

/-- The entry of the current state broke down: the clock had no number for the end of its timeout,
and has none now. -/
def Overdrawn (h : Hierarchy) (now : Nat) : Prop :=
  ∃ name, h.current = some name ∧ h.outlasts name now = true

theorem outlasts_congr {h h' : Hierarchy} (nodes : h'.nodes = h.nodes) (name : String)
    (now : Nat) : h'.outlasts name now = h.outlasts name now := by
  unfold outlasts allowance state?
  rw [nodes]

theorem outlasts_later {h : Hierarchy} {name : String} {now later : Nat} (le : now ≤ later)
    (far : h.outlasts name now = true) : h.outlasts name later = true := by
  simp only [outlasts, Bool.and_eq_true, decide_eq_true_eq] at far ⊢
  exact ⟨far.1, far.2.trans (Nat.add_le_add_right le _)⟩

/-- What the watchdog keeps to: it waits for some time if it waits at all, and for the current state
unless the entry of that broke down. -/
structure Aimed (h : Hierarchy) (now : Nat) : Prop where
  waits : ∀ a, h.armed = some a → 0 < a.timeout
  wound : h.Wound ∨ h.Overdrawn now

theorem Wound.aimed {h : Hierarchy} (wound : h.Wound) (now : Nat) : h.Aimed now :=
  ⟨fun a armed => (wound.armed a armed).2.2, .inl wound⟩

namespace Aimed
variable {h h' : Hierarchy} {now : Nat} (aimed : h.Aimed now)
include aimed

theorem congr (nodes : h'.nodes = h.nodes) (current : h'.current = h.current)
    (armed : h'.armed = h.armed) : h'.Aimed now := by
  refine ⟨fun a here => aimed.waits a (armed ▸ here), ?_⟩
  rcases aimed.wound with wound | ⟨name, stands, far⟩
  · exact .inl (wound.congr nodes current armed)
  · exact .inr ⟨name, current.trans stands, (outlasts_congr nodes name now).trans far⟩

theorem later {time : Nat} (le : now ≤ time) : h.Aimed time :=
  ⟨aimed.waits, aimed.wound.imp_right fun ⟨name, stands, far⟩ =>
    ⟨name, stands, outlasts_later le far⟩⟩

theorem add (seated : h.Seated) {s : State} (added : h.add s = .ok h') : h'.Aimed now := by
  obtain ⟨_, _, frame, _⟩ := kin_add added
  have armed : h'.armed = h.armed := by rw [frame]
  have current : h'.current = h.current := by rw [frame]
  refine ⟨fun a here => aimed.waits a (armed ▸ here), ?_⟩
  rcases aimed.wound with wound | ⟨name, stands, far⟩
  · exact .inl (wound_add wound seated added)
  · refine .inr ⟨name, current.trans stands, ?_⟩
    rwa [outlasts, allowance_add added (seated name stands)]

theorem enter {name : String} (leaves : (h.enter name now).Leaves h') : h'.Aimed now := by
  rcases leaves with entered | broken
  · exact (wound_enter entered).aimed now
  · have far : h.outlasts name now = true ∧ h' = { h with current := some name } := by
      rw [enter_eq] at broken
      split at broken
      · cases broken
      split at broken
      · next far =>
        cases broken
        exact ⟨far, rfl⟩
      · cases broken
    rw [far.2]
    exact ⟨aimed.waits, .inr ⟨name, rfl, far.1⟩⟩

theorem start (leaves : (h.start now).Leaves h') : h'.Aimed now := by
  rcases aimed.wound with wound | ⟨name, stands, far⟩
  · exact (wound_start wound leaves).aimed now
  · -- The current state cannot be waited for now either.
    rw [start_eq] at leaves
    simp only [stands, far, if_true] at leaves
    split at leaves
    · rcases leaves with same | same <;> cases same
      exact aimed
    · rcases leaves with same | same <;> cases same
      exact aimed.congr rfl stands.symm rfl

theorem wake {spoken : Option Armed} (woken : h.wake? now = some (spoken, h')) :
    h'.Aimed now := by
  obtain ⟨nodes, current⟩ := nodes_wake woken
  rcases aimed.wound with wound | ⟨name, stands, far⟩
  · exact (wound_wake wound woken).aimed now
  · obtain ⟨armed, _, _, here, _, ⟨_, _, rfl⟩ | ⟨_, _, rfl⟩⟩ := wake_cases woken
    · refine ⟨fun a same => ?_, .inr ⟨name, stands, far⟩⟩
      cases same
      exact aimed.waits armed here
    · exact aimed.congr rfl rfl rfl

theorem call (seated : h.Seated) {c : Call} (timely : ∀ t, Call.time? c = some t → t = now) :
    (h.call c).2.Aimed now := by
  have answered (x : Ending Hierarchy) (leaves : ∀ h', x.Leaves h' → h'.Aimed now) :
      (h.answered x).2.Aimed now := by
    cases x with
    | done h' => exact leaves h' (.inl rfl)
    | refused cause => exact aimed
    | broken h' => exact leaves h' (.inr rfl)
  cases c with
  | add s =>
    simp only [Hierarchy.call]
    cases added : h.add s with
    | error cause => exact aimed
    | ok h' => exact aimed.add seated added
  | enter name time =>
    cases timely time rfl
    exact answered _ fun h' => aimed.enter
  | start time =>
    cases timely time rfl
    exact answered _ fun h' => aimed.start
  | stop => exact aimed.congr rfl rfl rfl
  | wake time =>
    cases timely time rfl
    simp only [Hierarchy.call]
    cases woken : h.wake? now with
    | none => exact aimed
    | some pair => exact aimed.wake woken

theorem becomes (seated : h.Seated) (leads : h.Becomes now h') : h'.Aimed now ∧ h'.Seated := by
  obtain ⟨calls, timely, rfl⟩ := leads
  induction calls generalizing h with
  | nil => exact ⟨aimed, seated⟩
  | cons c rest ih =>
    exact ih (h := (h.call c).2) (aimed.call seated (timely c (List.mem_cons_self ..)))
      ((h.called c).seated seated) fun c' member => timely c' (List.mem_cons_of_mem _ member)

end Aimed
end Hierarchy

theorem Engine.is_stale_iff (current state : String) :
    isStale current (.stateTimeout state) = true ↔ state ≠ current := by
  simp [isStale, Event.isTimeout, Event.stateTimeout]

/-- An event is dropped if it is a timeout of another state. Any other is shown to the application
or, where two workers share the mailbox, kept to be shown. -/
theorem Run.dropped_iff {σ : Type} {r : Run σ} {current : String} (event : Event)
    (stands : r.engine.states.current = some current) :
    r.process event = r ↔ Engine.isStale current event = true := by
  unfold process
  simp only [stands]
  split
  · next stale => exact iff_of_true rfl stale
  next fresh =>
  refine iff_of_false (fun same => ?_) fresh
  unfold onward at same
  split at same
  · have longer := congrArg (·.engine.pending.length) same
    simp [park, withEngine] at longer
  · have told := heard_advance.tell r (.pre current event)
    have goes : ∃ more done,
        (r.tell (.pre current event)).2.Heard more done (r.present current event) := by
      simp only [present]
      split
      · exact heard_advance.refl _
      split
      · exact heard_advance.descends.onward (k := 9) _ (show 7 < 9 by decide)
          (heard_advance.descends.resolve (show 6 < 9 by decide) current event _)
      · exact heard_advance.descends.onward (k := 9) _ (show 1 < 9 by decide)
          (heard_advance.descends.finish (k := 9) event false _)
    obtain ⟨more, _, heard⟩ := goes
    have longer := congrArg List.length heard.notices
    rw [same] at longer
    simp only [tell, List.length_append, List.length_singleton] at longer
    omega

namespace Session
variable {σ : Type}

theorem Reachable.aimed {s : Session σ} (reached : s.Reachable) :
    s.engine.states.Aimed s.engine.clock := by
  suffices kept : s.engine.states.Aimed s.engine.clock ∧ s.engine.states.Seated from kept.1
  obtain ⟨name, client, actions, rfl⟩ := reached
  refine perform_keeps
    (P := fun s => s.engine.states.Aimed s.engine.clock ∧ s.engine.states.Seated) ?_ _ _
    ⟨Hierarchy.wound_nil.aimed 0, fun _ stands => by cases stands⟩
  rintro s a ⟨aimed, seated⟩
  obtain ⟨later, leads⟩ := states_act s a
  obtain ⟨kept, sits⟩ := aimed.becomes seated leads
  exact ⟨kept.later later, sits⟩

section Acts
variable {d : Definition} {s : Session σ} (follows : s.Follows d)
include follows

/-- A machine comes into another state by a transition only, as long as one worker goes through the
events one after the other and no entry breaks down. -/
theorem Follows.current_act (a : Action σ) (settled : s.engine.pending = [])
    (whole : (s.act a).engine.isShared = false)
    (timely : ∀ t, s.taken a = some t → t.1.overruns t.2 = false) :
    (s.act a).machine.current = s.machine.current ∨
    ∃ p ∈ s.passages [a], s.machine.current = some p.source ∧
      (s.act a).machine.current = some p.target := by
  obtain ⟨_, _, done⟩ := follows.holds
  cases taken : s.taken a with
  | none => exact .inl (congrArg (·.1) (act_untaken done settled taken).1)
  | some taking =>
    obtain ⟨r, event⟩ := taking
    obtain ⟨⟨handler, result⟩, _, trail, _, current, stands, outcome⟩ :=
      follows.outcome_taken whole taken
    have engine : (s.act a).engine.trail = (r.process event).engine.trail :=
      congrArg (·.engine.trail) result
    rcases outcome.crossed_cases (timely _ taken) with ⟨_, same⟩ | ⟨p, crossed, source, target, _⟩
    · exact .inl (congrArg (·.1) (engine.trans (same.trans trail)))
    · refine .inr ⟨p, ?_, source ▸ stands, (congrArg (·.1) engine).trans target⟩
      simp [passages, processed, taken, crossed]

/-- Who is in a state in the end, and came into it from no other one, was there all the time. -/
theorem Follows.stays (actions : List (Action σ)) (settled : s.engine.pending = [])
    (alone : s.Alone actions) (timely : s.InTime actions) {state : String}
    (unentered : ∀ p ∈ s.passages actions, p.target = state → p.source = state)
    (ends : (s.perform actions).machine.current = some state) :
    ∀ first, first <+: actions → (s.perform first).machine.current = some state := by
  induction actions generalizing s with
  | nil =>
    intro first part
    rw [List.prefix_nil.mp part]
    exact ends
  | cons a rest ih =>
    have parts : s.passages (a :: rest) = s.passages [a] ++ (s.act a).passages rest := by
      simp [passages, processed]
    rw [parts] at unentered
    obtain ⟨_, _, done⟩ := follows.holds
    obtain ⟨now, timely'⟩ := in_time_cons timely
    have whole := alone_first (alone_cons alone)
    have later := ih (follows.act a) (settled_act a done settled whole) (alone_cons alone) timely'
      (fun p member => unentered p (List.mem_append_right _ member)) ends
    have here : s.machine.current = some state := by
      have next := later [] (List.nil_prefix ..)
      rcases follows.current_act a settled whole now with same | ⟨p, made, source, target⟩
      · exact same.symm.trans next
      · have goal := Option.some.inj (target.symm.trans next)
        rw [source, unentered p (List.mem_append_left _ made) goal]
    intro first part
    rcases List.prefix_cons_iff.mp part with rfl | ⟨more, rfl, inner⟩
    · exact here
    · exact later more inner

end Acts

/-- After as many events as waited before it, the event of the watchdog is the next. -/
theorem next_raised {s : Session σ} {before : List Event} {raised : Event}
    (queued : s.engine.events.items = before ++ [raised]) {more : List (Action σ)}
    (counted : (s.processed more).length = before.length) {a : Action σ} {r : Run σ}
    {event : Event} (next : (s.perform more).taken a = some (r, event)) : event = raised := by
  -- What was taken up since and what waits now are in the order of submission.
  have order := congrArg Traffic.events (s.backlog_perform more)
  obtain ⟨_, _, events, popped, _⟩ := taken_cases next
  simp only [Traffic.events_append, (s.traffic_spent more).1, events_processed, Engine.backlog,
    queued, (Mailbox.items_of_pop _ _ _ popped).1, List.append_assoc] at order
  have rest := (List.append_inj order (by rw [List.length_map, counted])).2
  exact (List.cons.inj rest).1.symm

theorem act_wake {s : Session σ} {armed : Armed} {states : Hierarchy}
    (woken : s.engine.states.wake? s.engine.clock = some (some armed, states)) : ∃ handler,
    (s.act (.work .wake)).engine =
      { Engine.submit { s.engine with states } (.stateTimeout armed.state) with handler } := by
  have did : s.run.work? .wake =
      some (s.run.withEngine fun e => { e with states }.submit (.stateTimeout armed.state)) := by
    simp only [Run.work?]
    rw [show s.run.engine.states.wake? s.run.engine.clock = _ from woken]
    rfl
  simp only [act, did]
  exact engine_adopt s _

/-- When the watchdog speaks up it does so for the current state, unless the entry of that broke
down. When that event's turn comes it is dropped exactly if another state is current then. So if it
is not, and no transition made in between led into the state from another one, the state has been
current all the time. -/
theorem timeout_acts_on_its_visit {d : Definition} {s : Session σ} (follows : s.Follows d)
    {armed : Armed} {states : Hierarchy}
    (woken : s.engine.states.wake? s.engine.clock = some (some armed, states))
    (more : List (Action σ))
    (counted : ((s.act (.work .wake)).processed more).length = s.engine.events.items.length)
    {a : Action σ} {r : Run σ} {event : Event}
    (next : ((s.act (.work .wake)).perform more).taken a = some (r, event)) :
    let raised := s.act (.work .wake)
    let s' := raised.perform more
    event = .stateTimeout armed.state ∧
    (raised.machine.current = some armed.state ∨
      raised.engine.states.Overdrawn raised.engine.clock) ∧
    (r.process event = r ↔ s'.machine.current ≠ some armed.state) ∧
    ((s'.act a).engine.isShared = false → (r.tells event = [] ↔ r.process event = r)) ∧
    (raised.engine.pending = [] → raised.Alone more → raised.InTime more → r.process event ≠ r →
      (∀ p ∈ raised.passages more, p.target = armed.state → p.source = armed.state) →
      ∀ first, first <+: more → (raised.perform first).machine.current = some armed.state) := by
  intro raised s'
  obtain ⟨handler, spoken⟩ := act_wake woken
  have follows' : raised.Follows d := follows.act (.work .wake)
  have rung : raised.engine.states.armed =
      some { armed with deadline := s.engine.clock + armed.timeout } := by
    rw [show raised.engine.states = states by rw [spoken]; rfl]
    obtain ⟨_, _, _, _, _, ⟨same, _, rfl⟩ | ⟨none, _⟩⟩ := Hierarchy.wake_cases woken
    · rw [Option.some.inj same]
    · cases none
  have raises : event = .stateTimeout armed.state := by
    refine next_raised ?_ counted next
    rw [spoken]
    rfl
  obtain ⟨current, stands, _⟩ := (follows'.perform more).current_declared
  obtain ⟨_, _, events, _, begins⟩ := taken_cases next
  have dropped : r.process event = r ↔ s'.machine.current ≠ some armed.state := by
    have here : r.engine.states.current = some current := begins ▸ stands
    rw [Run.dropped_iff event here, raises,
      Engine.is_stale_iff, stands]
    simp only [ne_eq, Option.some.injEq]
    exact not_congr eq_comm
  refine ⟨raises, ?_, dropped, fun whole => ?_, fun settled alone timely acts unentered => ?_⟩
  · exact follows'.reachable.aimed.wound.imp (fun wound => (wound.armed _ rung).1) id
  · obtain ⟨_, _, _, _, current', stands', outcome⟩ :=
      (follows'.perform more).outcome_taken whole next
    have here : r.engine.states.current = some current' := begins ▸ stands'
    rw [outcome.tells_nil_iff, Run.dropped_iff event here]
  · exact follows'.stays more settled alone timely unentered (not_not.mp (mt dropped.mpr acts))

/-- A waiting room where nobody is let wait for more than a tenth of a second. -/
def waiting : Definition where
  states := [{ name := "Waiting", timeout := 100000 }, { name := "Away" }, { name := "Gone" }]
  initial := "Waiting"
  rules := [.onEvent "Waiting" "Away" "leave", .onEvent "Away" "Waiting" "return",
    .onEvent "Waiting" "Gone" timeoutEvent]

/-- Someone waits, while these events wait to be processed, until the time is up. -/
def waited (names : List String) : Session Unit :=
  ((fresh "waiting" ()).act (.init waiting)).perform
    (.start :: names.map (.submit { name := · }) ++ [.pass 100000])

theorem waited_follows (names : List String) : (waited names).Follows waiting :=
  ⟨fresh "waiting" (), _, ⟨_, _, [], rfl⟩, rfl, by decide +kernel, rfl⟩

theorem timeout_acts_after_call :
    let raised := (waited ["call"]).act (.work .wake)
    (∀ first, first <+: [Action.work Work.process] →
      (raised.perform first).machine.current = some "Waiting") ∧
    ((raised.perform [.work .process]).act (.work .process)).machine.current = some "Gone" := by
  intro raised
  have spoken : ((waited ["call"]).engine.states.wake? (waited ["call"]).engine.clock).map (·.1) =
      some (some ⟨"Waiting", 100000, 100000⟩) := by decide +kernel
  obtain ⟨⟨_, states⟩, woken, rfl⟩ := Option.map_eq_some_iff.mp spoken
  obtain ⟨⟨r, event⟩, next⟩ := Option.isSome_iff_exists.mp (show
    ((raised.perform [.work .process]).taken (.work .process)).isSome = true by decide +kernel)
  obtain ⟨_, _, dropped, _, stays⟩ := timeout_acts_on_its_visit (waited_follows ["call"]) woken
    [.work .process] (by decide +kernel) next
  have waits : (raised.perform [.work .process]).machine.current = some "Waiting" := by
    decide +kernel
  have settled : raised.engine.pending.length = 0 := by decide +kernel
  have unmoved : raised.passages [.work .process] = [] := by decide +kernel
  refine ⟨stays (List.length_eq_zero_iff.mp settled) (by decide +kernel) (by decide +kernel)
    (fun drops => dropped.mp drops waits) ?_, by decide +kernel⟩
  intro p made
  rw [unmoved] at made
  cases made

/-- A timeout that was raised before someone left acts on the visit after the return, although that
one has only begun. -/
theorem timeout_acts_on_later_visit :
    let raised := (waited ["leave", "return"]).act (.work .wake)
    raised.Follows waiting ∧
    raised.engine.events.items =
      [{ name := "leave" }, { name := "return" }, .stateTimeout "Waiting"] ∧
    [[], [.work .process], [.work .process, .work .process],
      [.work .process, .work .process, .work .process]].map
        (fun actions => (raised.perform actions).machine.current) =
      [some "Waiting", some "Away", some "Waiting", some "Gone"] ∧
    (raised.perform [.work .process, .work .process]).engine.clock = raised.engine.clock := by
  refine ⟨(waited_follows _).act _, ?_, ?_, ?_⟩
  · decide +kernel
  · decide +kernel
  · decide +kernel

end Session
end Statechart
