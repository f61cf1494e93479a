import Statechart.Proofs.Observer
import Statechart.Proofs.Timeouts
/-!
The life of a machine. The parts of its engine are switched on and off together, and the stage says
which it is, whatever calls are made in whatever order and even if a handler stops the machine in
the middle of its work. A call that is refused leaves no trace, and a run is handled by the
callbacks that were installed when it began.
-/

namespace Statechart

/-- The steps of a life: it is set up once, and then started and stopped by turns. -/
inductive Stage.Next : Stage → Stage → Prop
  | prepare : Next .created .initialized
  | start : Next .initialized .running
  | stop : Next .running .stopped
  | restart : Next .stopped .running

theorem Stage.is_running_iff (stage : Stage) : stage.isRunning = true ↔ stage = .running := by
  cases stage <;> simp [isRunning]

theorem Holding.open_set_timers (item : Nat → HoldTimer) (time : Nat) (spans : List Nat)
    (a : Agenda HoldTimer) : (setTimers item time spans a).2.isOpen = a.isOpen := by
  induction spans generalizing a with
  | nil => rfl
  | cons span rest ih =>
    unfold setTimers
    split
    · rfl
    · exact ih (a.schedule _ (item span))

theorem Agenda.open_release {α : Type} {a a' : Agenda α} {now : Nat} {item : α}
    (released : a.release? now = some (item, a')) : a'.isOpen = a.isOpen := by
  obtain ⟨_, _, _, _, _, same⟩ := release_cases released
  rw [same]

theorem Mailbox.open_drain {α : Type} (m : Mailbox α) : m.drain.2.isOpen = m.isOpen := by
  unfold drain
  split <;> rfl

namespace Engine
variable {σ : Type}

/-- All that is on while an engine is at work: its parts and the watchdog run, the mailboxes and the
timers are open, and the rules are sealed. -/
def switches (e : Engine σ) : List Bool :=
  [e.states.running, e.states.watching, e.values.running, e.values.updates.isOpen,
    e.values.timers.isOpen, e.running, e.events.isOpen, e.changes.isOpen, e.rules.isSealed]

def Switched (e : Engine σ) (on : Bool) : Prop := ∀ switch ∈ e.switches, switch = on

theorem Switched.congr {e e' : Engine σ} {on : Bool} (switched : e.Switched on)
    (same : e'.switches = e.switches) : e'.Switched on := by
  rw [Switched, same]
  exact switched

theorem Switched.running {e : Engine σ} {on : Bool} (switched : e.Switched on) : e.running = on :=
  switched _ (by simp [switches])

theorem Switched.on_iff {e : Engine σ} {on : Bool} (switched : e.Switched on) :
    on = true ↔ e.Switched true := by
  constructor
  · rintro rfl
    exact switched
  · intro every
    exact switched.running.symm.trans every.running

theorem Switched.off_iff {e : Engine σ} {on : Bool} (switched : e.Switched on) :
    ¬on = true ↔ e.Switched false := by
  rw [Bool.not_eq_true]
  constructor
  · rintro rfl
    exact switched
  · intro every
    exact switched.running.symm.trans every.running

/-- A start broke down since the parts were last switched off: the states were started, but the
watchdog did not come to its post. -/
def Jammed (e : Engine σ) : Prop := e.states.running = true ∧ e.states.watching = false

/-- The switches after a start that broke down, and after another one. -/
def jam (on : Bool) : List Bool := [true, false, on, on, on, on, on, on, true]

/-- The switches are the same, unless a start broke down. -/
def Geared (e : Engine σ) : Prop := ∃ on, e.Switched on ∨ e.switches = jam on

theorem Geared.congr {e e' : Engine σ} (geared : e.Geared) (same : e'.switches = e.switches) :
    e'.Geared := by
  obtain ⟨on, switched | jams⟩ := geared
  · exact ⟨on, .inl (switched.congr same)⟩
  · exact ⟨on, .inr (same.trans jams)⟩

theorem Geared.switched {e : Engine σ} (geared : e.Geared) (sound : ¬e.Jammed) :
    e.Switched e.running := by
  obtain ⟨on, switched | jams⟩ := geared
  · rwa [switched.running]
  · simp only [switches, jam, List.cons.injEq] at jams
    exact absurd ⟨jams.1, jams.2.1⟩ sound

/-- While the worker for events runs, only the watchdog may be away from its post. -/
theorem Geared.up {e : Engine σ} (geared : e.Geared) (runs : e.running = true) : e.switches =
    [true, e.states.watching, true, true, true, true, true, true, true] := by
  obtain ⟨on, switched | jams⟩ := geared
  · cases runs.symm.trans switched.running
    simp only [Switched, switches, List.forall_mem_cons] at switched
    simp only [switches, switched]
  · have up : on = true := by
      simp only [switches, jam, List.cons.injEq] at jams
      exact jams.2.2.2.2.2.1.symm.trans runs
    have away : e.states.watching = false := by
      simp only [switches, jam, List.cons.injEq] at jams
      exact jams.2.1
    rw [jams, away, up, jam]

theorem Switched.sound {e : Engine σ} {on : Bool} (switched : e.Switched on) : ¬e.Jammed := by
  rintro ⟨awake, away⟩
  simp only [Switched, switches, List.forall_mem_cons] at switched
  cases awake.symm.trans (switched.1.trans (switched.2.1.symm.trans away))

theorem switches_up {e : Engine σ} {states : Hierarchy} (values : e.values.running = false)
    (off : e.running = false) :
    (startEvents (startValues { e with rules := e.rules.close, states })).switches =
      [states.running, states.watching, true, true, true, true, true, true, true] := by
  simp [startEvents, startValues, Holding.start, off, values, switches, RuleIndex.close,
    Mailbox.openUp, Agenda.openUp]

/-- A start of an engine that is off switches all parts on. -/
theorem switched_start {e e' : Engine σ} (off : e.Switched false) (done : e.start = .done e') :
    e'.Switched true := by
  have started := e.started
  have asleep : e.states.running = false := off _ (by simp [switches])
  have values : e.values.running = false := off _ (by simp [switches])
  have starts := Hierarchy.start_eq e.states e.clock
  rw [if_neg (by simp [asleep])] at starts
  rw [done] at started
  cases started with
  | up up =>
    rw [Switched, switches_up values off.running]
    rw [up] at starts
    split at starts
    · cases starts
      simp
    split at starts <;> cases starts
    simp

/-- A start that breaks down is as far as the states. -/
theorem jammed_start {e e' : Engine σ} (off : e.Switched false) (broken : e.start = .broken e') :
    e'.switches = jam false := by
  have started := e.started
  have asleep : e.states.running = false := off _ (by simp [switches])
  have starts := Hierarchy.start_eq e.states e.clock
  rw [if_neg (by simp [asleep])] at starts
  rw [broken] at started
  simp only [Switched, switches, List.forall_mem_cons] at off
  cases started with
  | overrun down =>
    rw [down] at starts
    split at starts
    · cases starts
    split at starts <;> cases starts
    simp only [switches, jam, RuleIndex.close, off]

/-- A start after one that broke down switches the other parts on. -/
theorem geared_jammed {e e' : Engine σ} (jams : e.switches = jam false)
    (leaves : e.start.Leaves e') : e'.Geared := by
  simp only [switches, jam, List.cons.injEq] at jams
  obtain ⟨runs, away, values, _, _, off, _⟩ := jams
  have again : e.states.start e.clock = .done e.states := by
    rw [Hierarchy.start_eq, if_pos runs]
  have started := e.started
  generalize e.start = ending at started leaves
  cases started with
  | up done =>
    rcases leaves with same | same <;> cases same
    cases again.symm.trans done
    exact ⟨true, .inr (by rw [switches_up values off, runs, away, jam])⟩
  | overrun broken => cases again.symm.trans broken

theorem geared_start {e e' : Engine σ} (geared : e.Geared) (rests : e.running = false)
    (leaves : e.start.Leaves e') : e'.Geared := by
  obtain ⟨on, switched | jams⟩ := geared
  · cases rests.symm.trans switched.running
    rcases leaves with done | broken
    · exact ⟨true, .inl (switched_start switched done)⟩
    · exact ⟨false, .inr (jammed_start switched broken)⟩
  · have off : on = false := by
      simp only [switches, jam, List.cons.injEq] at jams
      exact jams.2.2.2.2.2.1.symm.trans rests
    exact geared_jammed (off ▸ jams) leaves

theorem switched_stop (e : Engine σ) : e.stop.Switched false := by
  intro switch member
  simpa [stop, stopStates, stopValues, stopEvents, switches, Hierarchy.stop, Holding.stop,
    Mailbox.close, Agenda.close, RuleIndex.reopen] using member

theorem switches_report (e : Engine σ) (change : Option Change) :
    (e.report change).switches = e.switches := by
  cases change <;> rfl

/-- The switches of an engine stay in gear. -/
def Keeps (e e' : Engine σ) : Prop := e.Geared → e'.Geared

theorem keeps_perform (e : Engine σ) (q : Request) : e.Keeps ((e.perform q).left e) := by
  intro geared
  have performed := e.performed q
  generalize e.perform q = ending at performed ⊢
  cases performed with
  | submit event => exact geared
  | assign name value => exact geared
  | stop => exact ⟨false, .inl e.switched_stop⟩
  | stopped | running => exact geared
  | start rests started =>
    cases started with
    | up done => exact geared_start geared rests (.inl (by rw [start, startStates, done]; rfl))
    | overrun broken =>
      exact geared_start geared rests (.inr (by rw [start, startStates, broken]; rfl))

end Engine

theorem Hierarchy.switches_enter {h h' : Hierarchy} {name : String} {now : Nat}
    (leaves : (h.enter name now).Leaves h') :
    h'.running = h.running ∧ h'.watching = h.watching := by
  rw [(enter_frame leaves).2]
  exact ⟨rfl, rfl⟩

theorem Hierarchy.switches_add {h h' : Hierarchy} {s : State} (added : h.add s = .ok h') :
    h'.running = h.running ∧ h'.watching = h.watching := by
  cases add_cases added <;> exact ⟨rfl, rfl⟩

theorem Hierarchy.switches_wake {h h' : Hierarchy} {now : Nat} {spoken : Option Armed}
    (woken : h.wake? now = some (spoken, h')) :
    h'.running = h.running ∧ h'.watching = h.watching := by
  obtain ⟨_, _, _, _, _, ⟨_, _, rfl⟩ | ⟨_, _, rfl⟩⟩ := wake_cases woken
  · exact ⟨rfl, rfl⟩
  · exact ⟨rfl, rfl⟩

theorem Enrolled.switches {σ : Type} {e e' : Engine σ} (enrolled : Enrolled e e') :
    e'.switches = e.switches := by
  have states : e'.states.running = e.states.running ∧ e'.states.watching = e.states.watching := by
    rcases enrolled.states with same | ⟨s, added⟩ | ⟨name, leaves⟩
    · rw [same]
      exact ⟨rfl, rfl⟩
    · exact Hierarchy.switches_add added
    · exact Hierarchy.switches_enter leaves
  refine (congrArg Engine.switches enrolled.rest).trans ?_
  simp only [Engine.switches, states, enrolled.sealing]

namespace Run
variable {σ : Type}

theorem keeps_advance : Advances fun r r' : Run σ => r.engine.Keeps r'.engine where
  refl _ := id
  trans first later := later ∘ first
  tell r n :=
    tell_advances (R := Engine.Keeps) (fun _ => id) (fun first later => later ∘ first)
      Engine.keeps_perform (fun _ geared => geared) r n
  enter r _ states leaves geared := by
    have same := Hierarchy.switches_enter leaves
    exact geared.congr (by simp only [withEngine, Engine.switches, same])
  falls _ geared := geared
  record _ _ geared := geared
  park _ _ geared := geared

end Run

theorem Worked.keeps {σ : Type} {r r' : Run σ} {w : Work} (worked : Worked r w r') :
    r.engine.Keeps r'.engine := by
  intro geared
  cases worked with
  | derive popped =>
    refine geared.congr ?_
    refine (Engine.derive_frame Engine.switches (fun _ _ => rfl) (fun _ _ _ => rfl) _ _).trans ?_
    simp only [Engine.switches, (Mailbox.items_of_pop _ _ _ popped).2]
  | @apply update batch taken =>
    refine geared.congr ?_
    refine (Engine.switches_report _ _).trans ?_
    rw [Holding.apply_frame]
    simp only [Engine.switches, Holding.timersFor, Holding.open_set_timers]
  | take =>
    refine geared.congr ?_
    simp only [Run.withEngine, Engine.switches, Holding.take]
    split
    · simp only [Mailbox.open_drain]
    · rfl
  | fire released =>
    refine geared.congr ?_
    refine (Engine.switches_report _ _).trans ?_
    rw [Holding.fire_frame]
    simp only [Engine.switches, Agenda.open_release released]
  | wake woken | wakeOverrun woken =>
    refine geared.congr ?_
    simp only [Run.withEngine, Engine.switches, Engine.submit, Hierarchy.switches_wake woken,
      Mailbox.push]
  | @process event events _ popped =>
    refine Run.keeps_advance.process _ event (geared.congr ?_)
    simp only [Run.withEngine, Engine.switches, (Mailbox.items_of_pop _ _ _ popped).2]
  | carry here => exact Run.keeps_advance.carryOn (fun _ _ geared => geared) _ _ geared
  | leave => exact geared

theorem handler_advance {σ : Type} :
    Run.Advances fun r r' : Run σ => r'.engine.handler = r.engine.handler where
  refl _ := rfl
  trans first later := later.trans first
  tell := Run.handler_tell
  enter _ _ _ _ := rfl
  falls _ := rfl
  record _ _ := rfl
  park _ _ := rfl

theorem Worked.handler {σ : Type} {r r' : Run σ} {w : Work} (worked : Worked r w r') :
    r'.engine.handler = r.engine.handler := by
  cases worked with
  | derive => exact Engine.derive_frame Engine.handler (fun _ _ => rfl) (fun _ _ _ => rfl) _ _
  | apply | fire => rw [Run.withEngine, Engine.report_frame]
  | take | wake | wakeOverrun | carry | leave => rfl
  | process => exact handler_advance.process _ _

/-- An engine that has never been started has no worker for events. -/
def Engine.Unused {σ : Type} (e : Engine σ) : Prop :=
  e.running = false ∧ e.strays = 0 ∧ e.pending = []

theorem Worked.unused {σ : Type} {r r' : Run σ} {w : Work} (worked : Worked r w r')
    (unused : r.engine.Unused) : r'.engine.Unused := by
  obtain ⟨off, none, idle⟩ := unused
  cases worked with
  | @derive change changes popped =>
    exact Engine.derive_frame (f := fun e : Engine σ => e.Unused) (fun _ _ => rfl)
      (fun _ _ _ => rfl) { r.engine with changes } change ▸ ⟨off, none, idle⟩
  | apply | fire =>
    rw [Run.withEngine, Engine.report_frame]
    exact ⟨off, none, idle⟩
  | take | wake | wakeOverrun => exact ⟨off, none, idle⟩
  | process free => simp [Engine.workers, off, none] at free
  | carry here => simp [idle] at here
  | leave _ strayed => simp [none] at strayed

namespace Machine
variable {σ : Type}

theorem init_stage (m : Machine σ) (d : Definition) : (m.init d).2.stage = m.stage ∨
    (m.stage = .created ∧ (m.init d).2.stage = .initialized ∧ (m.init d).1 = .done ()) := by
  unfold init
  split
  · exact .inl rfl
  next new =>
  split
  · exact .inl rfl
  split
  · exact .inr ⟨not_not.mp new, rfl, rfl⟩
  · exact .inl rfl
  · exact .inl rfl

/-- What a machine keeps to, whatever is called. -/
structure Sorted (m : Machine σ) : Prop where
  geared : m.engine.Geared
  running : m.stage = .running ↔ m.engine.running = true
  unused : m.stage = .created ∨ m.stage = .initialized → m.engine.Unused

theorem sorted_init {m : Machine σ} (d : Definition) (sorted : m.Sorted) :
    (m.init d).2.Sorted := by
  obtain ⟨geared, running, unused⟩ : (m.init d).2.engine.Geared ∧
      (m.init d).2.engine.running = m.engine.running ∧
      (m.engine.Unused → (m.init d).2.engine.Unused) := by
    refine init_keeps (P := fun e => e.Geared ∧ e.running = m.engine.running ∧
      (m.engine.Unused → e.Unused)) ?_ m d ⟨sorted.geared, rfl, id⟩
    rintro e e' enrolled ⟨geared, running, unused⟩
    refine ⟨geared.congr enrolled.switches, ?_, fun before => ?_⟩
    · rw [enrolled.rest]
      exact running
    · rw [enrolled.rest]
      exact unused before
  rcases m.init_stage d with stage | ⟨created, initialized, _⟩
  · refine ⟨geared, ?_, fun early => unused (sorted.unused (stage ▸ early))⟩
    rw [stage, running]
    exact sorted.running
  · have fresh := sorted.unused (.inl created)
    refine ⟨geared, ?_, fun _ => unused fresh⟩
    rw [initialized, running, fresh.1]
    decide

/-- If its engine was stopped in the course of some work the machine is stopped, and if it was
started again the machine runs. -/
theorem sorted_resume {m : Machine σ} {e : Engine σ} (sorted : m.Sorted)
    (keeps : m.engine.Keeps e) (unused : m.engine.Unused → e.Unused) : (m.resume e).Sorted := by
  have geared := keeps sorted.geared
  unfold resume
  split
  · next off => exact ⟨geared, by simp [off], fun early => by simp at early⟩
  · next on => exact ⟨geared, by simp [on], fun early => by simp at early⟩
  · next goes rests =>
    refine ⟨geared, ?_, fun early => unused (sorted.unused early)⟩
    cases stands : m.stage with
    | created => simpa using (unused (sorted.unused (.inl stands))).1
    | initialized => simpa using (unused (sorted.unused (.inr stands))).1
    | running => simpa using goes stands
    | stopped => simpa using rests stands

/-- The engine as it is to be started, with the callbacks as they are now. -/
def poised (m : Machine σ) : Engine σ := { m.engine with handler := m.callbacks.handler }

/-- A machine whose engine is at rest starts the engine as soon as its stage allows it. -/
theorem start_at_rest {m : Machine σ} (rests : m.engine.running = false)
    (can : m.stage.canStart = true) : m.start =
      match m.poised.start with
      | .done engine => .done { m with engine, stage := .running }
      | .refused cause => .refused cause
      | .broken engine => .broken { m with engine } := by
  have set : m.engine.setHandler m.callbacks.handler = .ok m.poised :=
    if_neg (Bool.eq_false_iff.mp rests)
  unfold start
  cases stands : m.stage with
  | created | running =>
    rw [stands] at can
    cases can
  | initialized | stopped =>
    exact set ▸ rfl

theorem resume_stage (m : Machine σ) (e : Engine σ) : (m.resume e).stage = m.stage ∨
    m.stage = .running ∧ (m.resume e).stage = .stopped ∨
    m.stage = .stopped ∧ (m.resume e).stage = .running := by
  unfold resume
  split
  · next runs _ => exact .inr (.inl ⟨runs, rfl⟩)
  · next rests _ => exact .inr (.inr ⟨rests, rfl⟩)
  · exact .inl rfl

/-- A machine that runs keeps its handler in the course of some work. -/
theorem resume_handler {m : Machine σ} (e : Engine σ) (runs : m.stage = .running) :
    (m.resume e).engine.handler = e.handler := by
  unfold resume
  rw [runs]
  cases e.running <;> rfl

end Machine

/-- An engine at rest starts, unless the clock has no number for the end of the timeout of its
current state. -/
theorem Engine.start_ends {σ : Type} {e : Engine σ} (asleep : e.states.running = false) :
    (∃ e', e.start = .done e') ∧ ¬e.states.Overdrawn e.clock ∨
    (∃ e', e.start = .broken e') ∧ e.states.Overdrawn e.clock := by
  have starts := Hierarchy.start_eq e.states e.clock
  rw [if_neg (by simp [asleep])] at starts
  unfold start startStates
  rcases Option.eq_none_or_eq_some e.states.current with stands | ⟨name, stands⟩
  · simp only [stands] at starts
    rw [starts]
    refine .inl ⟨⟨_, rfl⟩, fun ⟨name, here, _⟩ => ?_⟩
    cases stands.symm.trans here
  · simp only [stands] at starts
    rw [starts]
    by_cases far : e.states.outlasts name e.clock = true
    · rw [if_pos far]
      exact .inr ⟨⟨_, rfl⟩, name, stands, far⟩
    · rw [if_neg far]
      refine .inl ⟨⟨_, rfl⟩, fun ⟨other, here, far'⟩ => ?_⟩
      cases stands.symm.trans here
      exact far far'

theorem Engine.running_start {σ : Type} {e e' : Engine σ} (started : e.start = .done e') :
    e'.running = true := by
  have up := e.started
  rw [started] at up
  cases up with
  | up =>
    unfold startEvents
    split
    · next runs => exact runs
    · rfl

namespace Session
variable {σ : Type}

/-- What a call answers. Only the calls that concern the life of the machine can be refused. -/
def answer (s : Session σ) : Action σ → Ending Unit
  | .init d => (s.machine.init d).1
  | .load source => (s.machine.initFrom source).1
  | .start => s.machine.start.map fun _ => ()
  | .install change => Ending.ofExcept ((s.machine.install change).map fun _ => ())
  | .stop | .submit _ | .assign .. | .work _ | .pass _ => .done ()

theorem Acted.sorted {s s' : Session σ} {a : Action σ} (acted : s.Acted a s')
    (sorted : s.machine.Sorted) : s'.machine.Sorted := by
  cases acted with
  | idle | submit | assign | install | pass => exact ⟨sorted.geared, sorted.running, sorted.unused⟩
  | init d => exact Machine.sorted_init d sorted
  | load d => exact Machine.sorted_init d sorted
  | start _ _ off started =>
    have geared := Engine.geared_start (e := { s.engine with
      handler := s.machine.callbacks.handler }) sorted.geared off (.inl started)
    exact ⟨geared, by simp [Engine.running_start started], fun early => by simp at early⟩
  | overrun _ _ off started =>
    have geared := Engine.geared_start (e := { s.engine with
      handler := s.machine.callbacks.handler }) sorted.geared off (.inr started)
    have up := Engine.started { s.engine with handler := s.machine.callbacks.handler }
    rw [started] at up
    cases up with
    | overrun => exact ⟨geared, sorted.running, sorted.unused⟩
  | stop =>
    have off : s.engine.stop.running = false := rfl
    exact ⟨⟨false, .inl s.engine.switched_stop⟩, by simp [off], fun early => by simp at early⟩
  | work worked => exact Machine.sorted_resume sorted worked.keeps worked.unused

theorem Reachable.sorted {s : Session σ} (reached : s.Reachable) : s.machine.Sorted := by
  obtain ⟨name, client, actions, rfl⟩ := reached
  refine perform_keeps (P := fun s => s.machine.Sorted)
    (fun s a sorted => (s.acted a).sorted sorted) _ actions ?_
  refine ⟨⟨false, .inl ?_⟩, by simp [fresh], fun _ => ⟨rfl, rfl, rfl⟩⟩
  intro switch member
  simpa [fresh, Engine.switches] using member

theorem Acted.stage {s s' : Session σ} {a : Action σ} (acted : s.Acted a s') :
    s'.machine.stage = s.machine.stage ∨ s.machine.stage.Next s'.machine.stage := by
  have setUp (d : Definition) : (s.machine.init d).2.stage = s.machine.stage ∨
      s.machine.stage.Next (s.machine.init d).2.stage := by
    rcases s.machine.init_stage d with same | ⟨created, initialized, _⟩
    · exact .inl same
    · rw [created, initialized]
      exact .inr .prepare
  cases acted with
  | idle => exact .inl rfl
  | init d => exact setUp d
  | load d => exact setUp d
  | start new rests =>
    right
    cases stands : s.machine.stage with
    | created => exact absurd stands new
    | initialized => exact .start
    | running => exact absurd stands rests
    | stopped => exact .restart
  | overrun => exact .inl rfl
  | stop runs =>
    right
    rw [runs]
    exact .stop
  | submit | assign | install | pass => exact .inl rfl
  | @work _ r =>
    rcases s.machine.resume_stage r.engine with stage | ⟨runs, stage⟩ | ⟨rests, stage⟩
    · exact .inl stage
    · right
      rw [runs]
      simp only [adopt, stage]
      exact .stop
    · right
      rw [rests]
      simp only [adopt, stage]
      exact .restart

/-- No start has broken down since the parts were last switched off, and no setting up has. -/
structure Intact (s : Session σ) : Prop where
  started : ¬s.engine.Jammed
  vacant : s.machine.stage = .created → s.machine.current = none

/-- The action is a call, and it does not break down. -/
def Comes (s : Session σ) (a : Action σ) : Prop := (∀ w, a ≠ .work w) ∧ s.answer a ≠ .broken ()

theorem init_refused {s : Session σ} (reached : s.Reachable) (intact : s.Intact) {d : Definition}
    {cause : Error} (refused : (s.machine.init d).1 = .refused cause) :
    (s.machine.init d).2 = s.machine := by
  by_cases created : s.machine.stage = .created
  · obtain ⟨⟨updates, events, clock, blank⟩, _⟩ :=
      created_blank reached created (intact.vacant created)
    by_cases valid : d.violations = []
    · cases far : d.outlasts clock with
      | false =>
        obtain ⟨e, _, accepted, _⟩ := Machine.init_valid valid s.machine created blank far
        rw [accepted] at refused
        cases refused
      | true =>
        obtain ⟨e, broken, _⟩ := Machine.init_overrun valid s.machine created blank far
        rw [broken] at refused
        cases refused
    · rw [Machine.init_invalid valid s.machine created]
  · rw [init_again s.machine d created]

/-- A call that is refused leaves no trace. -/
theorem refused_act {s : Session σ} (reached : s.Reachable) (intact : s.Intact) {a : Action σ}
    {cause : Error} (refused : s.answer a = .refused cause) : s.act a = s := by
  cases a with
  | init d => simp only [act, init_refused reached intact refused]
  | load source =>
    cases source with
    | error cause => rfl
    | ok d => simp only [act, Machine.initFrom, init_refused reached intact refused]
  | start =>
    simp only [answer] at refused
    cases started : s.machine.start with
    | refused cause => simp only [act, started, Ending.left]
    | done m | broken m =>
      rw [started] at refused
      cases refused
  | install change =>
    simp only [answer] at refused
    cases installed : s.machine.install change with
    | error cause => simp only [act, installed, Ending.left, Ending.ofExcept]
    | ok m =>
      rw [installed] at refused
      cases refused
  | stop | submit | assign | work | pass => cases refused

/-- The handler of a machine that runs is not replaced. -/
theorem Acted.handler {s s' : Session σ} {a : Action σ} (acted : s.Acted a s')
    (runs : s.machine.stage = .running) : s'.engine.handler = s.engine.handler := by
  cases acted with
  | init d new =>
    rw [runs] at new
    cases new
  | load d new =>
    rw [runs] at new
    cases new
  | start _ rests | overrun _ rests => exact absurd runs rests
  | idle | stop | submit | assign | install | pass => rfl
  | work worked => exact (Machine.resume_handler _ runs).trans worked.handler

theorem running_perform {s : Session σ} (actions : List (Action σ))
    (runs : ∀ before, before <+: actions → (s.perform before).machine.stage = .running) :
    (s.perform actions).engine.handler = s.engine.handler := by
  induction actions generalizing s with
  | nil => rfl
  | cons a rest ih =>
    refine (ih fun before early => ?_).trans ((s.acted a).handler (runs [] List.nil_prefix))
    exact runs (a :: before) (List.prefix_cons_inj a |>.mpr early)

section Laws
variable {s : Session σ} (reached : s.Reachable) (intact : s.Intact)
include reached intact

theorem switched : s.engine.Switched s.machine.isRunning := by
  have sorted := reached.sorted
  have same : s.machine.isRunning = s.engine.running :=
    Bool.eq_iff_iff.mpr ((s.machine.stage.is_running_iff).trans sorted.running)
  rw [same]
  exact sorted.geared.switched intact.started

/-- A start that the stage allows comes to its end or breaks down, as the clock has it. -/
theorem start_allowed (can : s.machine.stage.canStart = true) :
    (∃ engine, s.machine.start = .done { s.machine with engine, stage := .running } ∧
      engine.handler = s.machine.callbacks.handler) ∧
      ¬s.engine.states.Overdrawn s.engine.clock ∨
    (∃ engine, s.machine.start = .broken { s.machine with engine }) ∧
      s.engine.states.Overdrawn s.engine.clock := by
  have off := switched reached intact
  have rests : s.machine.isRunning = false := by
    rw [Machine.isRunning]
    cases stands : s.machine.stage with
    | running =>
      rw [stands] at can
      cases can
    | created | initialized | stopped => rfl
  rw [rests] at off
  have asleep : s.machine.poised.states.running = false := off _ (List.mem_cons_self ..)
  have frame := s.machine.poised.start_frame
  rw [Machine.start_at_rest off.running can]
  rcases Engine.start_ends asleep with ⟨⟨e, ends⟩, near⟩ | ⟨⟨e, ends⟩, far⟩
  · rw [ends] at frame ⊢
    exact .inl ⟨⟨e, rfl, congrArg Engine.handler frame⟩, near⟩
  · rw [ends]
    exact .inr ⟨⟨e, rfl⟩, far⟩

omit reached intact in
theorem start_forbidden (cannot : s.machine.stage.canStart = false) :
    ∃ cause, s.machine.start = .refused cause := by
  cases stands : s.machine.stage with
  | created => exact ⟨.notInitialized, by simp [Machine.start, stands]⟩
  | running => exact ⟨.alreadyRunning, by simp [Machine.start, stands]⟩
  | initialized | stopped =>
    rw [stands] at cannot
    cases cannot

theorem start_answered : (s.answer .start = .done () ↔ s.machine.stage.canStart = true ∧
      ¬s.engine.states.Overdrawn s.engine.clock) ∧
    (s.answer .start = .broken () ↔ s.machine.stage.canStart = true ∧
      s.engine.states.Overdrawn s.engine.clock) := by
  rw [answer]
  cases can : s.machine.stage.canStart with
  | false =>
    obtain ⟨cause, refused⟩ := start_forbidden can
    simp [refused, Ending.map]
  | true =>
    rcases start_allowed reached intact can with ⟨⟨e, ends, _⟩, near⟩ | ⟨⟨e, ends⟩, far⟩
    · simp [ends, Ending.map, near]
    · simp [ends, Ending.map, far]

theorem started_act (started : s.answer .start = .done ()) :
    (s.act .start).machine.stage = .running ∧
    (s.act .start).engine.handler = s.machine.callbacks.handler := by
  obtain ⟨can, near⟩ := (start_answered reached intact).1.mp started
  rcases start_allowed reached intact can with ⟨⟨e, ends, hands⟩, _⟩ | ⟨_, far⟩
  · simp only [act, engine, ends, Ending.left]
    exact ⟨trivial, hands⟩
  · exact absurd far near

/-- Unless a call breaks down the parts stay in step. -/
theorem intact_act {a : Action σ} (call : s.Comes a) : (s.act a).Intact := by
  obtain ⟨idle, sound⟩ := call
  have setUp (d : Definition) (sound : (s.machine.init d).1 ≠ .broken ()) :
      (s.act (.init d)).Intact := by
    cases answer : (s.machine.init d).1 with
    | broken => exact absurd answer sound
    | refused cause => exact (refused_act (a := .init d) reached intact answer).symm ▸ intact
    | done =>
      have created := created_of_accepted answer
      have same : (s.act (.init d)).engine.switches = s.engine.switches :=
        init_keeps (P := fun e => e.switches = s.engine.switches)
          (fun _ _ enrolled same => enrolled.switches.trans same) s.machine d rfl
      refine ⟨((switched reached intact).congr same).sound, fun still => ?_⟩
      obtain ⟨_, _, e, result, _⟩ := accepted reached (intact.vacant created) answer
      rw [result] at still
      cases still
  have acted := s.acted a
  generalize after : s.act a = s' at acted
  cases acted with
  | idle => exact intact
  | init d => exact setUp d sound
  | load d => exact setUp d sound
  | start new rests off started =>
    have off' : s.engine.Switched false := by
      have on := switched reached intact
      rwa [on.running.symm.trans off] at on
    exact ⟨(Engine.switched_start (e := s.machine.poised) off' started).sound, nofun⟩
  | overrun new rests off started =>
    refine absurd ?_ sound
    rw [answer, Machine.start_at_rest off]
    · rw [show s.machine.poised.start = _ from started]
      rfl
    · cases stands : s.machine.stage with
      | created => exact absurd stands new
      | running => exact absurd stands rests
      | initialized | stopped => rfl
  | stop => exact ⟨s.engine.switched_stop.sound, nofun⟩
  | submit | assign | install | pass => exact ⟨intact.started, intact.vacant⟩
  | work => exact absurd rfl (idle _)

theorem intact_perform (actions : List (Action σ))
    (calls : ∀ before a after, actions = before ++ a :: after → (s.perform before).Comes a) :
    (s.perform actions).Intact := by
  induction actions generalizing s with
  | nil => exact intact
  | cons a rest ih =>
    refine ih (reached.act a) (intact_act reached intact (calls [] a rest rfl)) ?_
    rintro before b after rfl
    exact calls (a :: before) b after rfl

end Laws

theorem install_answered (s : Session σ) (change : Callbacks σ → Callbacks σ) :
    s.answer (.install change) = .done () ↔ s.machine.stage ≠ .running := by
  by_cases runs : s.machine.stage = .running <;>
    simp [answer, Machine.install, runs, Except.map, Ending.ofExcept]

/-- The laws of the life of a machine. -/
structure Disciplined (s : Session σ) : Prop where
  /-- The machine runs exactly if every part of its engine is switched on. -/
  running : s.machine.stage = .running ↔ s.engine.Switched true
  idle : s.machine.stage ≠ .running ↔ s.engine.Switched false
  moves : ∀ a, (s.act a).machine.stage = s.machine.stage ∨
    s.machine.stage.Next (s.act a).machine.stage
  inits : ∀ d, s.answer (.init d) = .done () → s.machine.stage = .created
  loads : ∀ source, s.answer (.load source) = .done () → s.machine.stage = .created
  /-- A start is refused if the stage does not allow it. It breaks down if the clock has no number
  for the end of the timeout of the current state. -/
  starts : s.answer .start = .done () ↔ s.machine.stage.canStart = true ∧
    ¬s.engine.states.Overdrawn s.engine.clock
  breaks : s.answer .start = .broken () ↔ s.machine.stage.canStart = true ∧
    s.engine.states.Overdrawn s.engine.clock
  begins : s.answer .start = .done () →
    (s.act .start).machine.stage = .running ∧ (s.act .start).engine.Switched true
  ends : s.machine.stage = .running →
    (s.act .stop).machine.stage = .stopped ∧ (s.act .stop).engine.Switched false
  stops : s.machine.stage ≠ .running → s.act .stop = s
  installs : ∀ change, s.answer (.install change) = .done () ↔ s.machine.stage ≠ .running
  /-- The callbacks are changed at once, and nothing else is. -/
  installed : ∀ change, s.answer (.install change) = .done () → s.act (.install change) =
    { s with machine := { s.machine with callbacks := change s.machine.callbacks } }
  /-- A call that is refused leaves no trace. -/
  refuses : ∀ a cause, s.answer a = .refused cause → s.act a = s
  /-- From its start on, for as long as it runs, a machine is handled by the callbacks that were
  installed when it was started. -/
  handles : s.answer .start = .done () → ∀ actions,
    (∀ before, before <+: actions →
      ((s.act .start).perform before).machine.stage = .running) →
    ((s.act .start).perform actions).engine.handler = s.machine.callbacks.handler
  /-- It goes on like this through calls that do not break down. -/
  lasts : ∀ actions, (∀ before a after, actions = before ++ a :: after →
    (s.perform before).Comes a) → (s.perform actions).Intact

/-- The laws hold, whatever is called in whatever order, as long as no start and no setting up
breaks down over a timeout that ends beyond the range of the clock. -/
theorem reachable_disciplined {s : Session σ} (reached : s.Reachable) (intact : s.Intact) :
    s.Disciplined := by
  have on := switched reached intact
  have answered := start_answered reached intact
  constructor
  case running => exact s.machine.stage.is_running_iff.symm.trans on.on_iff
  case idle => exact (not_congr s.machine.stage.is_running_iff).symm.trans on.off_iff
  case moves => exact fun a => (s.acted a).stage
  case inits => exact fun d accepted => created_of_accepted accepted
  case loads =>
    intro source accepted
    cases source with
    | error cause => cases accepted
    | ok d => exact created_of_accepted accepted
  case starts => exact answered.1
  case breaks => exact answered.2
  case begins =>
    intro started
    have runs := (started_act reached intact started).1
    have sound : (s.act .start).Intact :=
      intact_act reached intact ⟨nofun, fun broken => by cases started.symm.trans broken⟩
    refine ⟨runs, ?_⟩
    have up := switched (reached.act .start) sound
    rwa [Machine.isRunning, runs] at up
  case ends =>
    intro runs
    simp only [act, Machine.stop, runs, if_true]
    exact ⟨trivial, s.engine.switched_stop⟩
  case stops =>
    intro idle
    rcases stop_cases s.machine with same | ⟨runs, _⟩
    · simp only [act, same]
    · exact absurd runs idle
  case installs => exact s.install_answered
  case installed =>
    intro change granted
    have rests := (s.install_answered change).mp granted
    rcases install_cases s.machine change with ⟨runs, _⟩ | ⟨_, same⟩
    · exact absurd runs rests
    · simp only [act, same, Ending.ofExcept, Ending.left]
  case refuses => exact fun _ _ refused => refused_act reached intact refused
  case handles =>
    intro started actions runs
    exact (running_perform actions runs).trans (started_act reached intact started).2
  case lasts => exact fun actions => intact_perform reached intact actions

/-- A lamp that is turned on by an application that then stops it. -/
theorem hurried_disciplined :
    let s := (fresh "lamp" ()).perform [.init lamp, .install (·.delegateTo hurried), .start]
    let stopped := s.perform [.submit { name := "up" }, .work .process]
    s.engine.Switched true ∧ stopped.engine.Switched false ∧
    stopped.act (.init lamp) = stopped ∧ stopped.answer .start = .done () := by
  intro s stopped
  have intact : s.Intact := ⟨by unfold Engine.Jammed; decide +kernel, by decide +kernel⟩
  have intact' : stopped.Intact := ⟨by unfold Engine.Jammed; decide +kernel, by decide +kernel⟩
  have on : s.Disciplined := reachable_disciplined ⟨_, _, _, rfl⟩ intact
  have off : stopped.Disciplined :=
    reachable_disciplined ⟨_, _, _, (perform_append ..).symm⟩ intact'
  refine ⟨on.running.mp (by decide +kernel), off.idle.mp (by decide +kernel), ?_,
    off.starts.mpr ⟨by decide +kernel, ?_⟩⟩
  · exact off.refuses _ .alreadyInitialized rfl
  · rintro ⟨name, stands, far⟩
    have on : stopped.engine.states.current = some "Dim" := by decide +kernel
    cases on.symm.trans stands
    revert far
    decide +kernel

/-- A state that is entered in good time and may stay current for almost as long as the clock can
count. -/
def patient : Definition where
  states := [{ name := "A", timeout := Clock.horizon - 1 }]
  initial := "A"

/-- One more state beside the patient one. -/
def wider : Definition := { patient with states := { name := "B" } :: patient.states }

/-- A start breaks down, and after it the machine runs without a watchdog. And a definition is
refused after one broke down, with some of its states registered. -/
theorem broken_start_undisciplined :
    let waited := (fresh "lamp" ()).perform [.init patient, .pass 1]
    let started := waited.perform [.start, .start]
    let spoilt := (fresh "lamp" ()).perform [.pass 1, .init patient]
    (waited.answer .start = .broken () ∧ (waited.act .start).answer .start = .done () ∧
      started.machine.stage = .running ∧ started.engine.states.watching = false ∧
      ¬started.engine.Switched true) ∧
    spoilt.answer (.init wider) = .refused (.duplicateState "A") ∧
    spoilt.engine.states.contains "B" = false ∧
    (spoilt.act (.init wider)).engine.states.contains "B" = true := by
  refine ⟨⟨by decide +kernel, by decide +kernel, by decide +kernel, by decide +kernel, ?_⟩,
    by decide +kernel, by decide +kernel, by decide +kernel⟩
  intro on
  cases on.sound ⟨by decide +kernel, by decide +kernel⟩

end Session
end Statechart
