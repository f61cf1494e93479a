import Mathlib.Algebra.GroupWithZero.Nat
import Statechart.Proofs.Confirmation
import Statechart.Proofs.Lifecycle
import Statechart.Proofs.Timeouts
/-!
Restarts. A machine that has been stopped takes submissions and lets time pass, and nothing else. As
it is started again it goes on from where it was, with the full timeout of the current state ahead.
Timers outlast the stop; one whose time has come meanwhile is judged like any other, by whether the
value has changed since it was set.
-/

namespace Statechart

/-- The watchdog is at its post and waits for its full time again. -/
def Hierarchy.rewound (h : Hierarchy) (now : Nat) : Hierarchy :=
  { h with
    armed := h.armed.map fun a => { a with deadline := now + a.timeout }
    running := true
    watching := true
    broken := false }

theorem Hierarchy.start_stop {h : Hierarchy} {now : Nat} (wound : h.Wound)
    (near : ¬h.Overdrawn now) : h.stop.start now = .done (h.rewound now) := by
  rw [start_eq, if_neg (by simp [stop])]
  rcases Option.eq_none_or_eq_some h.current with vacant | ⟨name, stands⟩
  · have unarmed : h.armed = none := by
      cases armed : h.armed with
      | none => rfl
      | some a => cases vacant.symm.trans (wound.armed a armed).1
    simp [stop, vacant, rewound, unarmed]
  · have far : h.stop.outlasts name now = false :=
      Bool.eq_false_iff.mpr fun far => near ⟨name, stands, far⟩
    have again : h.stop.armedFor name now = (h.rewound now).armed := by
      change (if h.allowance name = 0 then none
        else some (Armed.mk name (h.allowance name) (now + h.allowance name))) = _
      cases armed : h.armed with
      | none => simp [rewound, armed, wound.asleep armed name stands]
      | some a =>
        obtain ⟨here, timeout, waits⟩ := wound.armed a armed
        cases stands.symm.trans here
        simp [rewound, armed, ← timeout, Nat.ne_of_gt waits]
    simp only [show h.stop.current = some name from stands, far, again]
    simp [stop, rewound, stands]

namespace Holding

/-- The value has not changed since the timer was set. -/
def isLive (h : Holding) (t : HoldTimer) : Bool :=
  (h.signal? t.name).any (·.generation == t.generation)

end Holding

/-- What a timer reports if it confirms its value. -/
def HoldTimer.confirmation (t : HoldTimer) : Change :=
  { name := t.name, value := t.value, duration := t.duration, accepted := true }

namespace Holding

/-- From the time at which it is due, what becomes of a pending timer is a matter of whether the
value has changed. -/
theorem fire_pending {h : Holding} {pending : List (Due HoldTimer)}
    (sound : Sound h.signals pending) {e : Due HoldTimer} (waits : e ∈ pending) {now : Nat}
    (due : e.time ≤ now) :
    (h.fire e.item now).2 = if h.isLive e.item then some e.item.confirmation else none := by
  obtain ⟨s, here, _, live⟩ := sound.timed e waits
  have here' : h.signal? e.item.name = some s := here
  simp only [fire, here', isLive, Option.any_some, beq_iff_eq]
  by_cases same : s.generation = e.item.generation
  · obtain ⟨value, time⟩ := live same.symm
    have stood : e.item.duration ≤ now - s.changed := by omega
    simp [confirms, Signal.heldFor, same, value, stood, HoldTimer.confirmation]
  · simp [confirms, same]

/-- A confirmation leaves the generation as it is. -/
theorem live_fire (h : Holding) (t other : HoldTimer) (now : Nat) :
    (h.fire t now).1.isLive other = h.isLive other := by
  rcases h.fire_cases t now with same | ⟨s, here, _, same⟩
  · rw [same]
  · rw [same]
    by_cases named : other.name = t.name
    · simp [isLive, signal?, Table.find_put, named, show h.signals.find? t.name = some s from here,
        Signal.confirm]
    · simp [isLive, signal?, Table.find_put, named]

end Holding

/-- What an action submits if it takes place at this time. -/
def Action.submission {σ : Type} (now : Nat) : Action σ → Traffic
  | .submit event => { events := [event] }
  | .assign name value => { updates := [⟨name, value, now⟩] }
  | _ => {}

def Action.span {σ : Type} : Action σ → Nat
  | .pass span => span
  | _ => 0

/-- The action neither starts a machine nor changes its callbacks. -/
def Action.isAside {σ : Type} : Action σ → Bool
  | .start | .install _ => false
  | _ => true

/-- What the application submits in some actions, the first of which takes place at this time. -/
def submitted {σ : Type} (now : Nat) : List (Action σ) → Traffic
  | [] => {}
  | a :: rest => a.submission now ++ submitted (now + a.span) rest

def elapsed {σ : Type} (actions : List (Action σ)) : Nat := (actions.map (·.span)).sum

namespace Engine
variable {σ : Type}

/-- An engine that has been sent something while time passed, and workers went their way. -/
def await (e : Engine σ) (sent : Traffic) (span strays : Nat) : Engine σ :=
  { e with
    events := { e.events with items := e.events.items ++ sent.events }
    values := { e.values with
      updates := { e.values.updates with items := e.values.updates.items ++ sent.updates } }
    strays
    clock := e.clock + span }

theorem await_nothing (e : Engine σ) : e.await {} 0 e.strays = e := by
  simp [await]

theorem await_await (e : Engine σ) (sent more : Traffic) (span rest strays left : Nat) :
    (e.await sent span strays).await more rest left =
      e.await (sent ++ more) (span + rest) left := by
  simp [await, Nat.add_assoc]

/-- An engine that goes on from where it was, whatever it was sent meanwhile. -/
def resumed (e : Engine σ) (sent : Traffic) (span strays : Nat) : Engine σ :=
  let e' := e.await sent span strays
  { e' with
    states := e.states.rewound e'.clock
    values := { e'.values with broken := false }
    broken := false }

theorem start_stop {e : Engine σ} (geared : e.Geared) (runs : e.running = true)
    (wound : e.states.Wound) {span : Nat} (near : ¬e.states.Overdrawn (e.clock + span))
    (sent : Traffic) (strays : Nat) :
    (e.stop.await sent span strays).start = .done (e.resumed sent span strays) := by
  have states := Hierarchy.start_stop wound near
  have up := geared.up runs
  simp only [switches, List.cons.injEq] at up
  obtain ⟨_, _, values, updates, timers, running, events, changes, closed, _⟩ := up
  obtain ⟨_, ⟨_, _, ⟨_, _⟩, _, ⟨_, _, _⟩, _, _⟩, ⟨_, _⟩, _, ⟨_, _⟩, ⟨_, _⟩, _, _, _, _, _, _, _⟩ :=
    e
  subst values updates timers running events changes closed
  simp only at states
  simp only [start, startEvents, startValues, startStates, stop, stopEvents, stopValues, stopStates,
    await, resumed, Holding.start, Holding.stop, Mailbox.close, Mailbox.openUp, Agenda.close,
    Agenda.openUp, RuleIndex.reopen, RuleIndex.close, Bool.false_eq_true, if_false, states,
    Ending.map, Ending.andThen]

theorem switched_await {e : Engine σ} {on : Bool} (switched : e.Switched on) (sent : Traffic)
    (span strays : Nat) : (e.await sent span strays).Switched on :=
  switched.congr rfl

end Engine

namespace Session
variable {σ : Type}

def withEngine (s : Session σ) (engine : Engine σ) : Session σ :=
  { s with machine := { s.machine with engine } }

/-- A running machine is handled by its callbacks. -/
theorem handled_act {s : Session σ}
    (handled : s.machine.stage = .running → s.engine.handler = s.machine.callbacks.handler)
    (a : Action σ) (runs : (s.act a).machine.stage = .running) :
    (s.act a).engine.handler = (s.act a).machine.callbacks.handler := by
  have setUp (d : Definition) (runs : (s.machine.init d).2.stage = .running) :
      (s.machine.init d).2 = s.machine := by
    rcases s.machine.init_stage d with same | ⟨_, initialized, _⟩
    · exact congrArg Prod.snd (init_again _ _ (by rw [← same, runs]; decide))
    · rw [runs] at initialized
      cases initialized
  -- Callbacks are installed while the machine does not run. No other action changes them.
  by_cases installs : ∃ change, a = .install change
  · obtain ⟨change, rfl⟩ := installs
    simp only [act] at runs ⊢
    rcases install_cases s.machine change with ⟨_, same⟩ | ⟨rests, same⟩
    · rw [same] at runs ⊢
      exact handled runs
    · rw [same] at runs
      exact absurd runs rests
  have acted := s.acted a
  generalize s.act a = after at acted runs ⊢
  cases acted with
  | idle => exact handled runs
  | init d =>
    have same := setUp d runs
    rw [same] at runs
    simp only [engine, same]
    exact handled runs
  | load d =>
    have same := setUp d runs
    rw [same] at runs
    simp only [engine, same]
    exact handled runs
  | start _ _ _ started | overrun _ _ _ started =>
    have frame := Engine.start_frame { s.engine with handler := s.machine.callbacks.handler }
    rw [started] at frame
    exact congrArg Engine.handler frame
  | stop => cases runs
  | submit | assign | pass => exact handled runs
  | install change => exact absurd ⟨change, rfl⟩ installs
  | @work _ r worked =>
    simp only [adopt, Machine.resume] at runs ⊢
    split at runs
    · cases runs
    · rfl
    · exact worked.handler.trans (handled runs)

theorem Reachable.handled {s : Session σ} (reached : s.Reachable)
    (runs : s.machine.stage = .running) : s.engine.handler = s.machine.callbacks.handler := by
  obtain ⟨name, client, actions, rfl⟩ := reached
  exact perform_keeps (P := fun s : Session σ => s.machine.stage = .running →
    s.engine.handler = s.machine.callbacks.handler) (fun s a handled => handled_act handled a)
    _ actions (fun new => by cases new) runs

/-- A worker of a machine that has been stopped finds nothing to do but to go its way. -/
theorem idle_of_off {s : Session σ} (off : s.engine.Switched false)
    (applied : s.engine.values.batch = []) (settled : s.engine.pending = []) {w : Work}
    (stays : w ≠ .leave) : s.run.work? w = none := by
  simp only [Engine.Switched, Engine.switches, List.forall_mem_cons, List.not_mem_nil,
    false_implies, implies_true, and_true] at off
  obtain ⟨_, watching, _, updates, timers, _, events, changes, _⟩ := off
  cases w with
  | derive => simp [Run.work?, run, Mailbox.pop?, changes]
  | apply => simp [Run.work?, run, applied]
  | take => simp [Run.work?, run, Mailbox.hasWork, updates]
  | fire => simp [Run.work?, run, Agenda.release?, timers]
  | wake => simp [Run.work?, run, Hierarchy.wake?, Hierarchy.isAlert, watching]
  | process => simp [Run.work?, run, Mailbox.pop?, events]
  | carry index => exact Run.carry_none settled index
  | leave => exact absurd rfl stays

section Aside
variable {s : Session σ} (stopped : s.machine.stage = .stopped) (off : s.engine.Switched false)
  (applied : s.engine.values.batch = []) (settled : s.engine.pending = [])
include stopped off applied settled

/-- A machine that has been stopped takes submissions and lets time pass. -/
theorem act_aside {a : Action σ} (aside : a.isAside = true) : ∃ strays, strays ≤ s.engine.strays ∧
    s.act a = s.withEngine (s.engine.await (a.submission s.engine.clock) a.span strays) := by
  have unchanged : s = s.withEngine (s.engine.await {} 0 s.engine.strays) := by
    rw [Engine.await_nothing]
    rfl
  have setUp (d : Definition) : { s with machine := (s.machine.init d).2 } = s := by
    rw [init_again s.machine d (by rw [stopped]; decide)]
  -- The one worker that may still be about is a stray, which can do nothing but leave.
  by_cases leaves : a = .work .leave
  · subst leaves
    rcases act_work s .leave with same | ⟨r, worked, same⟩
    · exact ⟨s.engine.strays, Nat.le_refl _, same.trans unchanged⟩
    · cases worked
      refine ⟨s.engine.strays - 1, Nat.sub_le .., same.trans ?_⟩
      have rests : (s.run.withEngine Engine.dismiss).engine.running = false := off.running
      simp only [adopt, Machine.resume, stopped, rests]
      simp [withEngine, run, Run.withEngine, Engine.dismiss, Engine.await, Action.submission,
        Action.span, engine, stopped]
  refine ⟨s.engine.strays, Nat.le_refl _, ?_⟩
  cases a with
  | init d => exact (setUp d).trans unchanged
  | load source =>
    cases source with
    | error cause => exact unchanged
    | ok d => exact (setUp d).trans unchanged
  | start => cases aside
  | install change => cases aside
  | stop =>
    refine Eq.trans ?_ unchanged
    simp [act, Machine.stop, stopped]
  | submit event => simp [act, Machine.submit, Engine.submit, Mailbox.push, Engine.await,
      Action.submission, Action.span, engine, withEngine]
  | assign name value => simp [act, Machine.assign, Engine.assign, Holding.submit, Mailbox.push,
      Engine.await, Action.submission, Action.span, engine, withEngine]
  | work w =>
    refine Eq.trans ?_ unchanged
    simp only [act, idle_of_off off applied settled fun same => leaves (congrArg _ same)]
  | pass span => simp [act, Engine.await, Action.submission, Action.span, engine, withEngine]

theorem perform_aside {away : List (Action σ)} (aside : ∀ a ∈ away, a.isAside = true) :
    ∃ strays, strays ≤ s.engine.strays ∧ s.perform away =
      s.withEngine (s.engine.await (submitted s.engine.clock away) (elapsed away) strays) := by
  induction away generalizing s with
  | nil =>
    refine ⟨s.engine.strays, Nat.le_refl _, ?_⟩
    simp only [submitted, elapsed, List.map_nil, List.sum_nil, Engine.await_nothing]
    rfl
  | cons a rest ih =>
    obtain ⟨left, fewer, first⟩ :=
      act_aside stopped off applied settled (aside a (List.mem_cons_self ..))
    obtain ⟨strays, least, later⟩ := ih (s := s.act a) (by rw [first]; exact stopped)
      (by rw [first]; exact Engine.switched_await off _ _ _) (by rw [first]; exact applied)
      (by rw [first]; exact settled) fun b member => aside b (List.mem_cons_of_mem a member)
    refine ⟨strays, ?_, later.trans ?_⟩
    · rw [first] at least
      exact least.trans fewer
    · rw [first]
      simp only [withEngine, engine, Engine.await_await, submitted, elapsed, List.map_cons,
        List.sum_cons]
      rfl

end Aside

/-- The session with its machine stopped. -/
def halted (s : Session σ) : Session σ :=
  { s with machine := { s.machine with engine := s.engine.stop, stage := .stopped } }

theorem act_stop {s : Session σ} (runs : s.machine.stage = .running) : s.act .stop = s.halted := by
  simp only [act, Machine.stop, if_pos runs]
  rfl

/-- As it is started again, a machine goes on from where it was when it was stopped. -/
theorem Reachable.restarted {s : Session σ} (reached : s.Reachable)
    (runs : s.machine.stage = .running) (wound : s.engine.states.Wound)
    (applied : s.engine.values.batch = []) (settled : s.engine.pending = [])
    {away : List (Action σ)} (aside : ∀ a ∈ away, a.isAside = true)
    (near : ¬s.engine.states.Overdrawn (s.engine.clock + elapsed away)) :
    ∃ strays, strays ≤ s.engine.strays ∧ ((s.act .stop).perform away).act .start =
      s.withEngine (s.engine.resumed (submitted s.engine.clock away) (elapsed away) strays) := by
  have sorted := reached.sorted
  obtain ⟨strays, fewer, gone⟩ :=
    perform_aside (s := s.halted) rfl s.engine.switched_stop applied settled aside
  have starts : (s.engine.stop.await (submitted s.engine.clock away) (elapsed away) strays).start =
      .done (s.engine.resumed (submitted s.engine.clock away) (elapsed away) strays) :=
    Engine.start_stop sorted.geared (sorted.running.mp runs) wound near _ _
  refine ⟨strays, fewer.trans ?_, ?_⟩
  · exact max_le (Nat.le_refl _) (by simp [settled])
  have poised : (s.halted.perform away).machine.poised =
      s.engine.stop.await (submitted s.engine.clock away) (elapsed away) strays := by
    rw [gone]
    simp only [Machine.poised, withEngine, halted, ← reached.handled runs]
    rfl
  have started := Machine.start_at_rest (m := (s.halted.perform away).machine)
    (by rw [gone]; rfl) (by rw [gone]; rfl)
  rw [poised, starts] at started
  rw [act_stop runs]
  simp only [Session.act, started, Ending.left]
  rw [gone]
  simp only [withEngine, halted, runs]

/-- What the worker for timers has made of the first of them, which was due. -/
structure Fired (s : Session σ) (timer : HoldTimer) (later : List (Due HoldTimer))
    (s' : Session σ) : Prop where
  entries : s'.engine.values.timers.entries = later
  changes : s'.engine.changes.items = s.engine.changes.items ++
    if s.engine.values.isLive timer then [timer.confirmation] else []
  opened : s'.engine.values.timers.isOpen = true
  clock : s'.engine.clock = s.engine.clock
  live : ∀ t, s'.engine.values.isLive t = s.engine.values.isLive t

theorem act_fire {s : Session σ} (reached : s.Reachable)
    (opened : s.engine.values.timers.isOpen = true) {e : Due HoldTimer}
    {later : List (Due HoldTimer)} (entries : s.engine.values.timers.entries = e :: later)
    (due : e.time ≤ s.engine.clock) : s.Fired e.item later (s.act (.work .fire)) := by
  let timers : Agenda HoldTimer := { s.engine.values.timers with entries := later }
  let fired := { s.engine.values with timers }.fire e.item s.engine.clock
  have released : s.engine.values.timers.release? s.engine.clock = some (e.item, timers) := by
    simp only [Agenda.release?, opened, entries, if_pos due, timers]
  obtain ⟨handler, did⟩ : ∃ handler, (s.act (.work .fire)).engine =
      { { s.engine with values := fired.1 }.report fired.2 with handler } := by
    simp only [act, Run.work?]
    rw [show s.run.engine.values.timers.release? s.run.engine.clock = _ from released]
    exact engine_adopt s _
  -- A timer that is pending and due needs only to be live: then its value has stood.
  have sound : Sound s.engine.values.signals s.engine.values.timers.entries :=
    reached.run_reached.sound
  have verdict : fired.2 =
      if s.engine.values.isLive e.item then some e.item.confirmation else none :=
    Holding.fire_pending (h := { s.engine.values with timers }) sound
      (entries ▸ List.mem_cons_self ..) due
  have values : (s.act (.work .fire)).engine.values = fired.1 := by
    rw [did]
    cases fired.2 <;> rfl
  have kept : fired.1.timers = timers := timers_fire _ _ _
  constructor
  · rw [values, kept]
  · rw [did, verdict]
    split
    · rfl
    · exact (List.append_nil _).symm
  · rw [values, kept]
    exact opened
  · rw [did]
    cases fired.2 <;> rfl
  · intro t
    rw [values]
    exact Holding.live_fire { s.engine.values with timers } e.item t s.engine.clock

/-- Timers that are due are handled one after the other, and those confirm whose values have not
changed since they were set. -/
theorem perform_fires {s : Session σ} (reached : s.Reachable)
    (opened : s.engine.values.timers.isOpen = true) {overdue later : List (Due HoldTimer)}
    (entries : s.engine.values.timers.entries = overdue ++ later)
    (due : ∀ e ∈ overdue, e.time ≤ s.engine.clock) :
    let fired := s.perform (List.replicate overdue.length (.work .fire))
    fired.engine.values.timers.entries = later ∧
    fired.engine.changes.items = s.engine.changes.items ++
      (overdue.filter (s.engine.values.isLive ·.item)).map (·.item.confirmation) := by
  induction overdue generalizing s with
  | nil => exact ⟨entries, (List.append_nil _).symm⟩
  | cons e rest ih =>
    have first := act_fire reached opened entries (due e (List.mem_cons_self ..))
    obtain ⟨left, made⟩ := ih (reached.act (.work .fire)) first.opened first.entries
      fun e' member => first.clock ▸ due e' (List.mem_cons_of_mem e member)
    refine ⟨left, made.trans ?_⟩
    simp only [first.changes, first.live, List.append_assoc, List.filter_cons]
    split <;> rfl

/-- A machine that runs with nothing left in its queues and is stopped, and that is started again at
any later time with its callbacks as they were, is what it was before but for the watchdog, which
waits for the full timeout of the current state from the restart on, as long as the clock has a
number for the end of that. The queues hold what was submitted meanwhile. Workers that had broken
down are there again, and so is a watchdog that had not come to its post; some of those that an
earlier stop did not wait for may have gone their way. Timers that became due meanwhile are then
handled in their order; those confirm whose values have not changed since they were set. -/
theorem restart_resumes {d : Definition} {s : Session σ} (follows : s.Follows d)
    (runs : s.machine.stage = .running) (empty : s.engine.backlog = {})
    (settled : s.engine.pending = []) (away : List (Action σ))
    (aside : ∀ a ∈ away, a.isAside = true)
    (near : ¬s.engine.states.Overdrawn (s.engine.clock + elapsed away)) :
    let after := ((s.act .stop).perform away).act .start
    let sent := submitted s.engine.clock away
    let now := s.engine.clock + elapsed away
    after = s.withEngine { s.engine with
      states := { s.engine.states with
        armed := s.engine.states.armed.map fun a => { a with deadline := now + a.timeout }
        watching := true
        broken := false }
      values := { s.engine.values with
        updates := { s.engine.values.updates with items := sent.updates }
        broken := false }
      events := { s.engine.events with items := sent.events }
      broken := false
      strays := after.engine.strays
      clock := now } ∧
    after.engine.strays ≤ s.engine.strays ∧
    (∀ a, s.engine.states.armed = some a →
      s.machine.current = some a.state ∧ a.timeout = s.engine.states.allowance a.state) ∧
    ∀ overdue later, s.engine.values.timers.entries = overdue ++ later →
      (∀ e ∈ overdue, e.time ≤ now) →
      let fired := after.perform (List.replicate overdue.length (.work .fire))
      fired.engine.values.timers.entries = later ∧
      fired.engine.changes.items =
        (overdue.filter (s.engine.values.isLive ·.item)).map (·.item.confirmation) := by
  intro after sent now
  obtain ⟨events, updates, changes⟩ := Traffic.mk.inj empty
  obtain ⟨applied, queued⟩ := List.append_eq_nil_iff.mp updates
  -- A watchdog is out of step only after an entry beyond the clock, which is excluded.
  have wound : s.engine.states.Wound := by
    rcases follows.reachable.aimed.wound with wound | ⟨name, stands, far⟩
    · exact wound
    · exact absurd ⟨name, stands, Hierarchy.outlasts_later (Nat.le_add_right ..) far⟩ near
  obtain ⟨strays, fewer, restarted⟩ :=
    follows.reachable.restarted runs wound applied settled aside near
  have same : after.engine.strays = strays := congrArg (·.engine.strays) restarted
  have sorted := follows.reachable.sorted
  have up : s.engine.switches = _ := sorted.geared.up (sorted.running.mp runs)
  simp only [Engine.switches, List.cons.injEq] at up
  refine ⟨?_, same.trans_le fewer, ?_, ?_⟩
  · refine restarted.trans ?_
    rw [same]
    simp only [Engine.resumed, Engine.await, Hierarchy.rewound, events, queued, List.nil_append, up]
    rfl
  · intro a armed
    obtain ⟨stands, timeout, _⟩ := wound.armed a armed
    exact ⟨stands, timeout⟩
  · intro overdue later entries due
    have reached : after.Reachable := (((follows.act .stop).perform away).act .start).reachable
    have opened : after.engine.values.timers.isOpen = true :=
      (congrArg (·.engine.values.timers.isOpen) restarted).trans up.2.2.2.2.1
    have waiting : after.engine.values.timers.entries = overdue ++ later :=
      (congrArg (·.engine.values.timers.entries) restarted).trans entries
    have clock : after.engine.clock = now := congrArg (·.engine.clock) restarted
    obtain ⟨left, made⟩ := perform_fires reached opened waiting (by rw [clock]; exact due)
    refine ⟨left, made.trans ?_⟩
    have reports : after.engine.changes.items = [] :=
      (congrArg (·.engine.changes.items) restarted).trans changes
    rw [reports, show after.engine.values.isLive = s.engine.values.isLive from
      congrArg (·.engine.values.isLive) restarted]
    rfl

/-- An oven that is to be looked after at intervals, and that is hot after a tenth of a second. -/
def oven : Definition where
  states := [{ name := "Cold", timeout := 300000 }]
  initial := "Cold"
  rules := [.whenCondition "Cold" "Cold" ((Condition.between "heat" 5 10).sustained 100000)]

/-- The oven has been heated up, and a little more half the time later. -/
def preheated : Session Unit :=
  ((fresh "oven" ()).act (.init oven)).perform
    [.start, .assign "heat" 5, .work .take, .work .apply, .pass 50000, .assign "heat" 6,
      .work .take, .work .apply]

/-- The oven is off when both timers are due. Only the second one finds the value that it was set
for. -/
theorem oven_resumes :
    let away : List (Action Unit) := [.pass 150000, .submit { name := "knock" }, .assign "heat" 7]
    let after := ((preheated.act .stop).perform away).act .start
    preheated.engine.values.timers.entries.map (·.time) = [100000, 150000] ∧
    preheated.engine.states.armed = some ⟨"Cold", 300000, 300000⟩ ∧
    after.engine.states.armed = some ⟨"Cold", 300000, 500000⟩ ∧
    after.engine.events.items = [{ name := "knock" }] ∧
    after.engine.values.updates.items = [⟨"heat", 7, 200000⟩] ∧
    (after.perform (List.replicate 2 (.work .fire))).engine.changes.items =
      [⟨"heat", 6, 100000, true⟩] := by
  intro away after
  have follows : preheated.Follows oven :=
    ⟨fresh "oven" (), _, ⟨_, _, [], rfl⟩, rfl, by decide +kernel, rfl⟩
  have near : ¬preheated.engine.states.Overdrawn (preheated.engine.clock + elapsed away) := by
    rintro ⟨name, stands, far⟩
    have cold : preheated.engine.states.current = some "Cold" := by decide +kernel
    cases cold.symm.trans stands
    exact absurd far (by decide +kernel)
  have empty : preheated.engine.backlog = {} :=
    Traffic.ext (by decide +kernel) (by decide +kernel) (by decide +kernel)
  obtain ⟨same, _, _, fires⟩ := restart_resumes follows (by decide +kernel) empty
    (List.isEmpty_iff.mp (by decide +kernel)) away (by decide +kernel) near
  obtain ⟨_, made⟩ := fires _ [] (List.append_nil _).symm (by decide +kernel)
  have both : preheated.engine.values.timers.entries.length = 2 := by decide +kernel
  rw [both] at made
  refine ⟨by decide +kernel, by decide +kernel, ?_, ?_, ?_, ?_⟩
  · rw [show after = _ from same]
    decide +kernel
  · rw [show after = _ from same]
    decide +kernel
  · rw [show after = _ from same]
    decide +kernel
  · dsimp only [after]
    rw [made]
    decide +kernel

/-- A worker that has broken down is missed until the restart: an event that is left without it is
processed after that. -/
theorem lamp_works_again :
    let s := (lampWith clumsy).perform [.submit { name := "up" }, .work .process]
    let after := (s.act .stop).act .start
    let later : List (Action Unit) := [.submit { name := "down" }, .work .process]
    s.Follows lamp ∧ s.machine.stage = .running ∧ s.engine.backlog = {} ∧
    s.engine.pending = [] ∧ s.engine.values.timers.entries = [] ∧
    (s.perform later).engine.events.items = [{ name := "down" }] ∧
    (after.perform later).engine.events.items = [] := by
  intro s after later
  have empty : s.engine.backlog = {} :=
    Traffic.ext (by decide +kernel) (by decide +kernel) (by decide +kernel)
  exact ⟨(lamp_with_follows clumsy).perform _, by decide +kernel, empty,
    List.isEmpty_iff.mp (by decide +kernel), by decide +kernel, by decide +kernel,
    by decide +kernel⟩

end Session
end Statechart
