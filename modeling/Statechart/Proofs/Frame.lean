import Statechart.Proofs.Session
/-!
What actions leave alone. Registration lays down a plan: the states with their lineages, the
registered conditions, the filed rules and the triggers. Once a machine has been set up nothing
changes its plan. The live values and the pending timers are written only by the workers that apply
values, handle timers and check triggers.
-/

namespace Statechart

inductive Worked {σ : Type} (r : Run σ) : Work → Run σ → Prop
  | derive {change : Change} {changes : Mailbox Change} :
    r.engine.changes.pop? = some (change, changes) →
    Worked r .derive (r.withEngine fun e => { e with changes }.derive change)
  | apply {update : Update} {batch : List Update} :
    r.engine.values.batch = update :: batch →
    Worked r .apply (r.withEngine fun e =>
      { e with values := ({ e.values with batch }.apply update).1 }.report
        ({ e.values with batch }.apply update).2)
  | take : r.engine.values.broken = false →
    Worked r .take (r.withEngine fun e => { e with values := e.values.take })
  | fire {timer : HoldTimer} {timers : Agenda HoldTimer} :
    r.engine.values.timers.release? r.engine.clock = some (timer, timers) →
    Worked r .fire (r.withEngine fun e =>
      { e with values := ({ e.values with timers }.fire timer e.clock).1 }.report
        ({ e.values with timers }.fire timer e.clock).2)
  | wake {armed : Armed} {states : Hierarchy} :
    r.engine.states.wake? r.engine.clock = some (some armed, states) →
    Worked r .wake (r.withEngine fun e => { e with states }.submit (.stateTimeout armed.state))
  | wakeOverrun {states : Hierarchy} :
    r.engine.states.wake? r.engine.clock = some (none, states) →
    Worked r .wake (r.withEngine fun e => { e with states })
  | process {event : Event} {events : Mailbox Event} :
    r.engine.pending.length < r.engine.workers → r.engine.events.pop? = some (event, events) →
    Worked r .process ((r.withEngine fun e => { e with events }).process event)
  | carry {index : Nat} {p : Pending σ} : r.engine.pending[index]? = some p →
    Worked r (.carry index)
      ((r.withEngine fun e => { e with pending := e.pending.eraseIdx index }).carryOn p)
  | leave : r.engine.events.isOpen = false → r.engine.pending.length < r.engine.strays →
    Worked r .leave (r.withEngine Engine.dismiss)

theorem worked_of_work {σ : Type} {r r' : Run σ} {w : Work} (did : r.work? w = some r') :
    Worked r w r' := by
  cases w with
  | derive =>
    obtain ⟨⟨change, changes⟩, popped, rfl⟩ := Option.map_eq_some_iff.mp did
    exact .derive popped
  | apply =>
    simp only [Run.work?] at did
    split at did
    · cases did
    · next update batch taken =>
      cases did
      exact .apply taken
  | take =>
    simp only [Run.work?] at did
    split at did
    · next ready =>
      cases did
      simp only [Bool.and_eq_true, Bool.not_eq_true'] at ready
      exact .take ready.2
    · cases did
  | fire =>
    obtain ⟨⟨timer, timers⟩, released, rfl⟩ := Option.map_eq_some_iff.mp did
    exact .fire released
  | wake =>
    obtain ⟨⟨spoken, states⟩, woken, rfl⟩ := Option.map_eq_some_iff.mp did
    cases spoken with
    | none => exact .wakeOverrun woken
    | some armed => exact .wake woken
  | process =>
    simp only [Run.work?] at did
    split at did
    · next free =>
      obtain ⟨⟨event, events⟩, popped, rfl⟩ := Option.map_eq_some_iff.mp did
      exact .process free popped
    · cases did
  | carry index =>
    obtain ⟨p, here, rfl⟩ := Option.map_eq_some_iff.mp did
    exact .carry here
  | leave =>
    simp only [Run.work?] at did
    split at did
    · next ready =>
      cases did
      simp only [Bool.and_eq_true, Bool.not_eq_true', decide_eq_true_eq] at ready
      exact .leave ready.1 ready.2
    · cases did

theorem Run.carry_none {σ : Type} {r : Run σ} (settled : r.engine.pending = []) (index : Nat) :
    r.work? (.carry index) = none := by
  simp [work?, settled]

/-- How many points are left at which another worker may come in between, this one included. -/
def Errand.rank : Errand → Nat
  | .finish .. => 1
  | .record .. => 2
  | .greet .. => 3
  | .move .. => 4
  | .leave .. => 5
  | .commit .. => 6
  | .resolve .. => 7
  | .present .. => 8

namespace Run
variable {σ β : Type}

/-- A relation between an engine and all that each of some requests can make of it goes with heeding
them. -/
theorem heed_advances {R : Engine σ → Engine σ → Prop} (refl : ∀ e, R e e)
    (trans : ∀ {e e' e''}, R e e' → R e' e'' → R e e'') (e : Engine σ) (qs : List Request)
    (requests : ∀ e, ∀ q ∈ qs, R e ((e.perform q).left e)) : R e (e.heed qs).2 := by
  induction qs generalizing e with
  | nil => exact refl e
  | cons q rest ih =>
    have later (e : Engine σ) := ih e fun e q member => requests e q (List.mem_cons_of_mem _ member)
    have asked := requests e q (List.mem_cons_self ..)
    unfold Engine.heed
    split
    · next e' done =>
      rw [done] at asked
      exact trans asked (later e')
    · exact later e
    · next e' broken =>
      rw [broken] at asked
      exact asked

/-- A relation between an engine and all that breakdowns and the requests made on a notice can make
of it goes with telling that notice. -/
theorem tell_asked {R : Engine σ → Engine σ → Prop} (refl : ∀ e, R e e)
    (trans : ∀ {e e' e''}, R e e' → R e' e'' → R e e'') (falls : ∀ e, R e e.fall) (r : Run σ)
    (n : Notice) (requests : ∀ e, ∀ q ∈ (r.engine.handler n r.client).1.requests,
      R e ((e.perform q).left e)) : R r.engine (r.tell n).2.engine := by
  have heeded := heed_advances refl trans r.engine _ requests
  simp only [tell]
  split
  · exact trans heeded (falls _)
  · exact heeded

/-- A relation between an engine and all that requests and breakdowns can make of it goes with
telling. -/
theorem tell_advances {R : Engine σ → Engine σ → Prop} (refl : ∀ e, R e e)
    (trans : ∀ {e e' e''}, R e e' → R e' e'' → R e e'')
    (requests : ∀ e q, R e ((e.perform q).left e)) (falls : ∀ e, R e e.fall) (r : Run σ)
    (n : Notice) : R r.engine (r.tell n).2.engine :=
  tell_asked refl trans falls r n fun e q _ => requests e q

/-- A view that neither the requests of handlers nor their breakdowns change is not changed by
telling. -/
theorem tell_frame (f : Engine σ → β) (requests : ∀ e q, f ((e.perform q).left e) = f e)
    (falls : ∀ e, f e.fall = f e) (r : Run σ) (n : Notice) :
    f (r.tell n).2.engine = f r.engine :=
  tell_advances (R := fun e e' => f e' = f e) (fun _ => rfl) (fun first later => later.trans first)
    requests falls r n

/-- A relation between a run and all that telling, entering, recording and leaving off can make of
it. It then holds between the run and what the processing of an event makes of it, wherever that
ends. -/
structure Advances (R : Run σ → Run σ → Prop) : Prop where
  refl : ∀ r, R r r
  trans : ∀ {r r' r''}, R r r' → R r' r'' → R r r''
  tell : ∀ r n, R r (r.tell n).2
  enter : ∀ (r : Run σ) name states, (r.engine.states.enter name r.engine.clock).Leaves states →
    R r (r.withEngine fun e => { e with states })
  falls : ∀ r : Run σ, R r (r.withEngine Engine.fall)
  record : ∀ r history, R r (r.withEngine fun e => { e with history })
  park : ∀ (r : Run σ) errand, R r (r.park errand)

/-- A relation between a run and what can become of it in the rest of an event that is of some rank,
shown of every way in which that may end and carried back over every step before it. -/
structure Descends (R : Nat → Run σ → Run σ → Prop) : Prop where
  refl : ∀ k r, R k r r
  tell : ∀ {k r r'} n, (r.tell n).1.fails = false → R k (r.tell n).2 r' → R k r r'
  fails : ∀ {k r} n, (r.tell n).1.fails = true → R k r (r.tell n).2
  enter : ∀ {k r r'} name states, r.engine.states.enter name r.engine.clock = .done states →
    R k (r.withEngine fun e => { e with states }) r' → R k r r'
  overrun : ∀ {k r} name states, r.engine.states.enter name r.engine.clock = .broken states →
    R k r (r.withEngine fun e => { e with states }.fall)
  record : ∀ {k r r'} history, R k (r.withEngine fun e => { e with history }) r' → R k r r'
  park : ∀ {k} r errand, errand.rank < k → R k r (r.park errand)

namespace Descends
variable {R : Nat → Run σ → Run σ → Prop} {k : Nat}

theorem onward (descends : Descends R) (r : Run σ) {errand : Errand} {next : Run σ → Run σ}
    (less : errand.rank < k) (goes : R k r (next r)) : R k r (r.onward errand next) := by
  unfold Run.onward
  split
  · exact descends.park r errand less
  · exact goes

theorem finish (descends : Descends R) (event : Event) (handled : Bool) (r : Run σ) :
    R k r (r.finish event handled) := by
  cases answer : (r.tell (.post event handled)).1.fails with
  | true => exact descends.fails _ answer
  | false => exact descends.tell _ answer (descends.refl _ _)

theorem recording (descends : Descends R) (less : 1 < k) (current : String) (rule : Rule)
    (event : Event) (path : Path) (r : Run σ) : R k r (r.record current rule event path) :=
  descends.record _ (descends.onward _ less (descends.finish event true _))

theorem greet (descends : Descends R) (less : 2 < k) (current : String) (rule : Rule)
    (event : Event) (path : Path) (r : Run σ) : R k r (r.greet current rule event path) := by
  simp only [Run.greet]
  split
  · next fails => exact descends.fails _ fails
  · next answers =>
    exact descends.tell _ (Bool.eq_false_iff.mpr answers)
      (descends.onward _ less (descends.recording (Nat.lt_of_succ_lt less) current rule event _ _))

theorem move (descends : Descends R) (less : 3 < k) (current : String) (rule : Rule)
    (event : Event) (path : Path) (r : Run σ) : R k r (r.move current rule event path) := by
  unfold Run.move
  split
  · exact descends.onward _ (Nat.lt_trans (show 1 < 3 by decide) less)
      (descends.finish event false r)
  · next states broken => exact descends.overrun _ states broken
  · next states done =>
    exact descends.enter _ states done
      (descends.onward _ less (descends.greet (Nat.lt_of_succ_lt less) current rule event path _))

theorem leave (descends : Descends R) (less : 4 < k) (current : String) (rule : Rule)
    (event : Event) (path : Path) (r : Run σ) : R k r (r.leave current rule event path) := by
  simp only [Run.leave]
  split
  · next fails => exact descends.fails _ fails
  · next answers =>
    exact descends.tell _ (Bool.eq_false_iff.mpr answers)
      (descends.onward _ less (descends.move (Nat.lt_of_succ_lt less) current rule event path _))

theorem commit (descends : Descends R) (less : 5 < k) (current : String) (rule : Rule)
    (event : Event) (r : Run σ) : R k r (r.commit current rule event) := by
  simp only [Run.commit]
  split
  · next fails => exact descends.fails _ fails
  · next answers =>
    exact descends.tell _ (Bool.eq_false_iff.mpr answers)
      (descends.onward _ less (descends.leave (Nat.lt_of_succ_lt less) current rule event _ _))

theorem resolve (descends : Descends R) (less : 6 < k) (current : String) (event : Event)
    (r : Run σ) : R k r (r.resolve current event) := by
  unfold Run.resolve
  split
  · exact descends.onward _ (Nat.lt_trans (show 1 < 6 by decide) less)
      (descends.finish event false r)
  · exact descends.onward _ less (descends.commit (Nat.lt_of_succ_lt less) current _ event r)

theorem present (descends : Descends R) (less : 7 < k) (current : String) (event : Event)
    (r : Run σ) : R k r (r.present current event) := by
  simp only [Run.present]
  split
  · next fails => exact descends.fails _ fails
  next answers =>
  refine descends.tell _ (Bool.eq_false_iff.mpr answers) ?_
  split
  · exact descends.onward _ less (descends.resolve (Nat.lt_of_succ_lt less) current event _)
  · exact descends.onward _ (Nat.lt_trans (show 1 < 7 by decide) less)
      (descends.finish event false _)

/-- An event that has just been taken up has all its points ahead. -/
theorem process (descends : Descends R) (r : Run σ) (event : Event) : R 9 r (r.process event) := by
  unfold Run.process
  split
  · exact descends.onward _ (show 1 < 9 by decide) (descends.finish event false r)
  split
  · exact descends.refl _ r
  · exact descends.onward _ (Nat.lt_succ_self 8) (descends.present (by decide) _ event r)

theorem goOn (descends : Descends R) (errand : Errand) (r : Run σ) :
    R errand.rank r (r.goOn errand) := by
  cases errand with
  | present current event => exact descends.present (Nat.lt_succ_self 7) current event r
  | resolve current event => exact descends.resolve (Nat.lt_succ_self 6) current event r
  | commit current rule event => exact descends.commit (Nat.lt_succ_self 5) current rule event r
  | leave current rule event path =>
    exact descends.leave (Nat.lt_succ_self 4) current rule event path r
  | move current rule event path =>
    exact descends.move (Nat.lt_succ_self 3) current rule event path r
  | greet current rule event path =>
    exact descends.greet (Nat.lt_succ_self 2) current rule event path r
  | record current rule event path =>
    exact descends.recording (Nat.lt_succ_self 1) current rule event path r
  | finish event handled => exact descends.finish event handled r

end Descends

namespace Advances
variable {R : Run σ → Run σ → Prop}

theorem descends (advances : Advances R) : Descends fun _ => R where
  refl _ := advances.refl
  tell n _ later := advances.trans (advances.tell _ n) later
  fails n _ := advances.tell _ n
  enter name states done later := advances.trans (advances.enter _ name states (.inl done)) later
  overrun name states broken :=
    advances.trans (advances.enter _ name states (.inr broken)) (advances.falls _)
  record history later := advances.trans (advances.record _ history) later
  park r errand _ := advances.park r errand

theorem process (advances : Advances R) (r : Run σ) (event : Event) : R r (r.process event) :=
  advances.descends.process r event

theorem goOn (advances : Advances R) (errand : Errand) (r : Run σ) : R r (r.goOn errand) :=
  advances.descends.goOn errand r

/-- A worker that goes on with an event does so with the handler that was in force earlier. -/
theorem carryOn (advances : Advances R)
    (hands : ∀ (r : Run σ) handler, R r (r.withEngine fun e => { e with handler })) (r : Run σ)
    (p : Pending σ) : R r (r.carryOn p) :=
  advances.trans (hands r p.handler) (advances.trans (advances.goOn p.errand _) (hands _ _))

end Advances

/-- A view of the engine to which events and their transitions make no difference. -/
structure Steady (f : Engine σ → β) : Prop where
  requests : ∀ e q, f ((e.perform q).left e) = f e
  falls : ∀ e, f e.fall = f e
  records : ∀ e h, f { e with history := h } = f e
  enters : ∀ (e : Engine σ) name states, (e.states.enter name e.clock).Leaves states →
    f { e with states } = f e
  parks : ∀ e pending, f { e with pending } = f e
  hands : ∀ e handler, f { e with handler } = f e

namespace Steady
variable {f : Engine σ → β}

theorem tell (steady : Steady f) (r : Run σ) (n : Notice) : f (r.tell n).2.engine = f r.engine :=
  tell_frame f steady.requests steady.falls r n

theorem advances (steady : Steady f) : Advances fun r r' : Run σ => f r'.engine = f r.engine where
  refl _ := rfl
  trans first later := later.trans first
  tell := steady.tell
  enter r := steady.enters r.engine
  falls r := steady.falls r.engine
  record r := steady.records r.engine
  park r _ := steady.parks r.engine _

theorem process (steady : Steady f) (r : Run σ) (event : Event) :
    f (r.process event).engine = f r.engine :=
  steady.advances.process r event

theorem carryOn (steady : Steady f) (r : Run σ) (p : Pending σ) :
    f (r.carryOn p).engine = f r.engine :=
  steady.advances.carryOn (fun r => steady.hands r.engine) r p

end Steady
end Run

/-- What registration lays down. -/
structure Plan where
  nodes : Table String Node
  registered : Table String (List Condition)
  buckets : Table (String × String) (List Rule)
  triggers : List Trigger

namespace Engine
variable {σ : Type}

def plan (e : Engine σ) : Plan where
  nodes := e.states.nodes
  registered := e.values.registered
  buckets := e.rules.buckets
  triggers := e.triggers

def memory (e : Engine σ) : Table String Signal × List (Due HoldTimer) :=
  (e.values.signals, e.values.timers.entries)

/-- All that starting can do. -/
inductive Started (e : Engine σ) : Ending (Engine σ) → Prop
  | up {states : Hierarchy} : e.states.start e.clock = .done states →
    Started e (.done { e with rules := e.rules.close, states }.startValues.startEvents)
  | overrun {states : Hierarchy} : e.states.start e.clock = .broken states →
    Started e (.broken { e with rules := e.rules.close, states })

theorem started (e : Engine σ) : Started e e.start := by
  cases ends : e.states.start e.clock with
  | done states =>
    simp only [start, startStates, ends, Ending.map, Ending.andThen]
    exact .up ends
  | refused cause =>
    rw [Hierarchy.start_eq] at ends
    repeat' split at ends
    all_goals cases ends
  | broken states =>
    simp only [start, startStates, ends, Ending.map, Ending.andThen]
    exact .overrun ends

/-- All that a request can do. -/
inductive Performed (e : Engine σ) : Request → Ending (Engine σ) → Prop
  | submit (event : Event) : Performed e (.submit event) (.done (e.submit event))
  | assign (name : String) (value : Int64) :
    Performed e (.assign name value) (.done (e.assign name value))
  | stop : e.running = true →
    Performed e .stop (.done { e.stop with strays := max e.strays (e.pending.length + 1) })
  | stopped : e.running = false → Performed e .stop (.done e)
  | start {ending : Ending (Engine σ)} : e.running = false → Started e ending →
    Performed e .start ending
  | running : e.running = true → Performed e .start (.refused .alreadyRunning)

theorem performed (e : Engine σ) (q : Request) : Performed e q (e.perform q) := by
  cases q with
  | submit event => exact .submit event
  | assign name value => exact .assign name value
  | stop =>
    cases runs : e.running
    · simpa only [perform, runs, Bool.false_eq_true, if_false] using Performed.stopped runs
    · simpa only [perform, runs, if_true] using Performed.stop runs
  | start =>
    cases runs : e.running
    · simpa only [perform, runs, Bool.false_eq_true, if_false] using Performed.start runs e.started
    · simpa only [perform, runs, if_true] using Performed.running runs

/-- A view that neither submissions nor the switches of the parts change is not changed by
requests. -/
theorem perform_frame {β : Type} (f : Engine σ → β)
    (submits : ∀ e event, f (submit e event) = f e)
    (assigns : ∀ e name value, f (assign e name value) = f e)
    (starts : ∀ e : Engine σ, f (e.start.left e) = f e)
    (stops : ∀ (e : Engine σ) strays, f { e.stop with strays } = f e) (e : Engine σ) (q : Request) :
    f ((e.perform q).left e) = f e := by
  cases q with
  | submit event => exact submits e event
  | assign name value => exact assigns e name value
  | stop =>
    simp only [perform]
    split
    · exact stops e _
    · rfl
  | start =>
    simp only [perform]
    split
    · rfl
    · exact starts e

theorem start_events_frame (e : Engine σ) : e.startEvents = { e with
    running := e.startEvents.running
    broken := e.startEvents.broken
    events := e.startEvents.events
    changes := e.startEvents.changes } := by
  unfold startEvents
  split <;> rfl

theorem start_values_frame (e : Engine σ) : e.startValues = { e with
    values := { e.values with
      running := e.startValues.values.running
      broken := e.startValues.values.broken
      updates := e.startValues.values.updates
      timers := { e.values.timers with isOpen := e.startValues.values.timers.isOpen } } } := by
  unfold startValues Holding.start
  split <;> rfl

/-- Starting touches the parts and the rules, and nothing else. -/
theorem start_frame (e : Engine σ) : e.start.left e = { e with
    states := (e.start.left e).states
    values := (e.start.left e).values
    rules := (e.start.left e).rules
    running := (e.start.left e).running
    broken := (e.start.left e).broken
    events := (e.start.left e).events
    changes := (e.start.left e).changes } := by
  have started := e.started
  generalize e.start = ending at started ⊢
  cases started with
  | up done => rw [Ending.left, start_events_frame, start_values_frame]
  | overrun broken => rfl

theorem plan_start (e : Engine σ) : (e.start.left e).plan = e.plan := by
  have started := e.started
  generalize e.start = ending at started ⊢
  cases started with
  | up done =>
    rw [Ending.left, start_events_frame, start_values_frame, plan, plan]
    simp only
    rw [Hierarchy.start_frame (.inl done)]
    rfl
  | overrun broken =>
    simp only [Ending.left, plan]
    rw [Hierarchy.start_frame (.inr broken)]
    rfl

theorem memory_start (e : Engine σ) : (e.start.left e).memory = e.memory := by
  have started := e.started
  generalize e.start = ending at started ⊢
  cases started with
  | up done => rw [Ending.left, start_events_frame, start_values_frame, memory, memory]
  | overrun broken => rfl

theorem steady_plan : Run.Steady (plan : Engine σ → Plan) where
  requests := perform_frame plan (fun _ _ => rfl) (fun _ _ _ => rfl) plan_start fun _ _ => rfl
  falls _ := rfl
  records _ _ := rfl
  enters e name states leaves := by
    rw [(Hierarchy.enter_frame leaves).2]
    rfl
  parks _ _ := rfl
  hands _ _ := rfl

theorem steady_memory : Run.Steady (memory : Engine σ → _) where
  requests := perform_frame memory (fun _ _ => rfl) (fun _ _ _ => rfl) memory_start fun _ _ => rfl
  falls _ := rfl
  records _ _ := rfl
  enters _ _ _ _ := rfl
  parks _ _ := rfl
  hands _ _ := rfl

theorem plan_report (e : Engine σ) (change : Option Change) : (e.report change).plan = e.plan := by
  cases change <;> rfl

section Pass
variable {β : Type} (f : Engine σ → β) (submits : ∀ e event, f (submit e event) = f e)
  (tracks : ∀ e t v, f (track e t v) = f e)
include submits tracks

/-- A view that neither submissions nor the memories of triggers change is not changed by checks. -/
theorem pass_frame (ts : List Trigger) (e : Engine σ) : f (ts.foldl checkTrigger e) = f e := by
  have settled (e : Engine σ) (t : Trigger) (v : Verdict) : f (e.settleTrigger t v) = f e := by
    unfold settleTrigger
    split
    · rw [submits, tracks]
    · split
      · exact submits _ _
      · rfl
    · simp only
      split
      · rw [submits, tracks]
      · exact tracks _ _ _
    · rfl
  induction ts generalizing e with
  | nil => rfl
  | cons t rest ih =>
    rw [List.foldl_cons, ih, checkTrigger]
    split
    · rfl
    · exact settled _ _ _

theorem derive_frame (e : Engine σ) (c : Change) : f (e.derive c) = f e :=
  (submits _ _).trans (pass_frame f submits tracks e.triggers e)

end Pass

theorem plan_derive (e : Engine σ) (c : Change) : (e.derive c).plan = e.plan :=
  derive_frame plan (fun _ _ => rfl) (fun _ _ _ => rfl) e c

end Engine

theorem registered_fire (h : Holding) (t : HoldTimer) (now : Nat) :
    (h.fire t now).1.registered = h.registered := by
  rw [h.fire_frame t now]

theorem registered_apply (h : Holding) (u : Update) :
    (h.apply u).1.registered = h.registered := by
  simp only [Holding.apply]
  split <;> rfl

theorem nodes_wake {h h' : Hierarchy} {now : Nat} {spoken : Option Armed}
    (woken : h.wake? now = some (spoken, h')) :
    h'.nodes = h.nodes ∧ h'.current = h.current := by
  obtain ⟨_, _, _, _, _, ⟨_, _, rfl⟩ | ⟨_, _, rfl⟩⟩ := Hierarchy.wake_cases woken
  · exact ⟨rfl, rfl⟩
  · exact ⟨rfl, rfl⟩

theorem take_frame (h : Holding) :
    h.take = { h with batch := h.take.batch, updates := h.take.updates } := by
  unfold Holding.take
  split <;> rfl

theorem Worked.plan {σ : Type} {r r' : Run σ} {w : Work} (worked : Worked r w r') :
    r'.engine.plan = r.engine.plan := by
  cases worked with
  | derive popped => exact Engine.plan_derive _ _
  | apply taken =>
    refine (Engine.plan_report _ _).trans ?_
    simp only [Engine.plan, registered_apply]
  | take =>
    simp only [Run.withEngine, Engine.plan]
    rw [take_frame]
  | fire released =>
    refine (Engine.plan_report _ _).trans ?_
    simp only [Engine.plan, registered_fire]
  | wake woken => simp only [Run.withEngine, Engine.plan, Engine.submit, (nodes_wake woken).1]
  | wakeOverrun woken => simp only [Run.withEngine, Engine.plan, (nodes_wake woken).1]
  | process _ popped => exact Engine.steady_plan.process _ _
  | carry here => exact Engine.steady_plan.carryOn _ _
  | leave => rfl

/-- Only the workers that apply values, handle timers and check triggers write values. -/
theorem Worked.memory {σ : Type} {r r' : Run σ} {w : Work} (worked : Worked r w r')
    (quiet : w ∉ [Work.derive, .apply, .fire]) : r'.engine.memory = r.engine.memory := by
  cases worked with
  | derive popped => simp at quiet
  | apply taken => simp at quiet
  | fire released => simp at quiet
  | take =>
    simp only [Run.withEngine, Engine.memory]
    rw [take_frame]
  | wake woken => rfl
  | wakeOverrun woken => rfl
  | @process event events _ popped =>
    exact Engine.steady_memory.process (r.withEngine fun e => { e with events }) event
  | @carry index p here =>
    exact Engine.steady_memory.carryOn
      (r.withEngine fun e => { e with pending := e.pending.eraseIdx index }) p
  | leave => rfl

namespace Session
variable {σ : Type}

theorem init_again (m : Machine σ) (d : Definition) (done : m.stage ≠ .created) :
    m.init d = (.refused .alreadyInitialized, m) := by
  simp [Machine.init, done]

/-- All that starting a machine can do. -/
theorem start_cases (m : Machine σ) : (∃ cause, m.start = .refused cause) ∨
    (m.stage ≠ .created ∧ m.stage ≠ .running ∧ m.engine.running = false ∧ ∃ engine,
      (Engine.start { m.engine with handler := m.callbacks.handler } = .done engine ∧
        m.start = .done { m with engine, stage := .running }) ∨
      (Engine.start { m.engine with handler := m.callbacks.handler } = .broken engine ∧
        m.start = .broken { m with engine })) := by
  by_cases done : m.stage = .created
  · exact .inl ⟨.notInitialized, by simp [Machine.start, done]⟩
  by_cases rests : m.stage = .running
  · exact .inl ⟨.alreadyRunning, by simp [Machine.start, rests]⟩
  cases active : m.engine.running with
  | true =>
    refine .inl ⟨.registrationClosed, ?_⟩
    cases stands : m.stage <;> simp_all [Machine.start, Engine.setHandler]
  | false =>
    refine .inr ⟨done, rests, rfl, ?_⟩
    have started := Engine.started { m.engine with handler := m.callbacks.handler }
    cases ends : Engine.start { m.engine with handler := m.callbacks.handler } with
    | done engine =>
      refine ⟨engine, .inl ⟨rfl, ?_⟩⟩
      cases stands : m.stage <;> simp_all [Machine.start, Engine.setHandler]
    | refused cause =>
      rw [ends] at started
      cases started
    | broken engine =>
      refine ⟨engine, .inr ⟨rfl, ?_⟩⟩
      cases stands : m.stage <;> simp_all [Machine.start, Engine.setHandler]

/-- All that installing callbacks can do. -/
theorem install_cases (m : Machine σ) (change : Callbacks σ → Callbacks σ) :
    (m.stage = .running ∧ m.install change = .error .callbacksLocked) ∨
      (m.stage ≠ .running ∧ m.install change = .ok { m with callbacks := change m.callbacks }) := by
  unfold Machine.install
  split
  · next runs => exact .inl ⟨runs, rfl⟩
  · next rests => exact .inr ⟨rests, rfl⟩

theorem stop_cases (m : Machine σ) : m.stop = m ∨
    (m.stage = .running ∧ m.stop = { m with engine := m.engine.stop, stage := .stopped }) := by
  unfold Machine.stop
  split
  · next runs => exact .inr ⟨runs, rfl⟩
  · exact .inl rfl

theorem act_work (s : Session σ) (w : Work) : s.act (.work w) = s ∨
    ∃ r, Worked s.run w r ∧ s.act (.work w) = s.adopt r := by
  simp only [act]
  split
  · exact .inl rfl
  · next r did => exact .inr ⟨r, worked_of_work did, rfl⟩

/-- All that an action can do. -/
inductive Acted (s : Session σ) : Action σ → Session σ → Prop
  /-- A call is refused, or there is nothing to be done. -/
  | idle (a : Action σ) : Acted s a s
  | init (d : Definition) : s.machine.stage = .created →
    Acted s (.init d) { s with machine := (s.machine.init d).2 }
  | load (d : Definition) : s.machine.stage = .created →
    Acted s (.load (.ok d)) { s with machine := (s.machine.init d).2 }
  | start {engine : Engine σ} : s.machine.stage ≠ .created → s.machine.stage ≠ .running →
    s.engine.running = false →
    Engine.start { s.engine with handler := s.machine.callbacks.handler } = .done engine →
    Acted s .start { s with machine := { s.machine with engine, stage := .running } }
  /-- The start breaks down, with the machine in its stage. -/
  | overrun {engine : Engine σ} : s.machine.stage ≠ .created → s.machine.stage ≠ .running →
    s.engine.running = false →
    Engine.start { s.engine with handler := s.machine.callbacks.handler } = .broken engine →
    Acted s .start { s with machine := { s.machine with engine } }
  | stop : s.machine.stage = .running →
    Acted s .stop { s with machine := { s.machine with
      engine := s.engine.stop
      stage := .stopped } }
  | submit (event : Event) : Acted s (.submit event) { s with machine := s.machine.submit event }
  | assign (name : String) (value : Int64) :
    Acted s (.assign name value) { s with machine := s.machine.assign name value }
  | install (change : Callbacks σ → Callbacks σ) : s.machine.stage ≠ .running →
    Acted s (.install change)
      { s with machine := { s.machine with callbacks := change s.machine.callbacks } }
  | work {w : Work} {r : Run σ} : Worked s.run w r → Acted s (.work w) (s.adopt r)
  | pass (span : Nat) : Acted s (.pass span) { s with machine := { s.machine with
      engine := { s.engine with clock := s.engine.clock + span } } }

theorem acted (s : Session σ) (a : Action σ) : s.Acted a (s.act a) := by
  -- Once a machine is set up, setting it up again changes nothing.
  have setUp (d : Definition) (done : s.machine.stage ≠ .created) :
      { s with machine := (s.machine.init d).2 } = s := by
    rw [init_again s.machine d done]
  cases a with
  | init d =>
    by_cases new : s.machine.stage = .created
    · exact .init d new
    · simpa only [act, setUp d new] using Acted.idle (s := s) (.init d)
  | load source =>
    cases source with
    | error cause => exact .idle _
    | ok d =>
      by_cases new : s.machine.stage = .created
      · exact .load d new
      · simpa only [act, Machine.initFrom, setUp d new] using Acted.idle (s := s) (.load (.ok d))
  | start =>
    simp only [act]
    rcases start_cases s.machine with ⟨cause, refused⟩ |
      ⟨done, rests, idle, engine, ⟨started, same⟩ | ⟨started, same⟩⟩
    · rw [refused]
      exact .idle _
    · rw [same]
      exact .start done rests idle started
    · rw [same]
      exact .overrun done rests idle started
  | stop =>
    simp only [act]
    rcases stop_cases s.machine with same | ⟨runs, stopped⟩
    · rw [same]
      exact .idle _
    · rw [stopped]
      exact .stop runs
  | submit event => exact .submit event
  | assign name value => exact .assign name value
  | install change =>
    simp only [act]
    rcases install_cases s.machine change with ⟨_, same⟩ | ⟨rests, same⟩
    · rw [same]
      exact .idle _
    · rw [same]
      exact .install change rests
  | work w =>
    rcases act_work s w with same | ⟨r, worked, same⟩
    · rw [same]
      exact .idle _
    · rw [same]
      exact .work worked
  | pass span => exact .pass span

theorem stage_adopt (s : Session σ) (r : Run σ) (done : s.machine.stage ≠ .created) :
    (s.adopt r).machine.stage ≠ .created := by
  simp only [adopt, Machine.resume]
  split
  · exact fun same => by cases same
  · exact fun same => by cases same
  · exact done

/-- What becomes of an engine by being adopted: a machine that a handler has started again puts its
own handler in place. -/
theorem engine_adopt (s : Session σ) (r : Run σ) : ∃ handler,
    (s.adopt r).engine = { r.engine with handler } := by
  simp only [adopt, engine, Machine.resume]
  split
  · exact ⟨_, rfl⟩
  · exact ⟨_, rfl⟩
  · exact ⟨_, rfl⟩

theorem run_adopt (s : Session σ) (r : Run σ) : ∃ handler,
    (s.adopt r).run = r.withEngine fun e => { e with handler } := by
  obtain ⟨handler, same⟩ := engine_adopt s r
  refine ⟨handler, ?_⟩
  rw [run, same]
  rfl

/-- What does not look at the handler does not see that. -/
theorem view_adopt {β : Type} (f : Engine σ → β) (hands : ∀ e handler, f { e with handler } = f e)
    (s : Session σ) (r : Run σ) : f (s.adopt r).engine = f r.engine := by
  obtain ⟨handler, same⟩ := engine_adopt s r
  rw [same]
  exact hands r.engine handler

/-- A view of the engine to which the calls of the application make no difference. -/
structure Still {β : Type} (f : Engine σ → β) : Prop where
  starts : ∀ e : Engine σ, f (e.start.left e) = f e
  stops : ∀ (e : Engine σ) strays, f { e.stop with strays } = f e
  submits : ∀ e event, f (Engine.submit e event) = f e
  assigns : ∀ e name value, f (Engine.assign e name value) = f e
  hands : ∀ e handler, f { e with handler } = f e
  passes : ∀ e clock, f { e with clock } = f e

namespace Still
variable {β : Type} {f : Engine σ → β} (still : Still f)
include still

theorem requests (e : Engine σ) (q : Request) : f ((e.perform q).left e) = f e :=
  Engine.perform_frame f still.submits still.assigns still.starts still.stops e q

theorem started {e e' : Engine σ} (leaves : e.start.Leaves e') : f e' = f e := by
  have kept := still.starts e
  rcases leaves with same | same <;>
  · rw [same] at kept
    exact kept

theorem adopted (s : Session σ) (r : Run σ) : f (s.adopt r).engine = f r.engine :=
  view_adopt f still.hands s r

/-- Once a machine has been set up, an action is a piece of work that is done, or leaves every such
view as it is. -/
theorem act_cases (s : Session σ) (a : Action σ) (done : s.machine.stage ≠ .created) :
    (∃ w r, a = .work w ∧ Worked s.run w r ∧ Session.act s a = s.adopt r) ∨
    (f (Session.act s a).engine = f s.engine ∧ (Session.act s a).notices = s.notices ∧
      (Session.act s a).machine.stage ≠ .created) := by
  have acted := s.acted a
  generalize Session.act s a = after at acted ⊢
  cases acted with
  | idle => exact .inr ⟨rfl, rfl, done⟩
  | init d new => exact absurd new done
  | load d new => exact absurd new done
  | start _ _ _ started =>
    exact .inr ⟨(still.started (.inl started)).trans (still.hands _ _), rfl,
      fun same => by cases same⟩
  | overrun _ _ _ started =>
    exact .inr ⟨(still.started (.inr started)).trans (still.hands _ _), rfl, done⟩
  | stop => exact .inr ⟨still.stops _ _, rfl, fun same => by cases same⟩
  | submit event => exact .inr ⟨still.submits _ event, rfl, done⟩
  | assign name value => exact .inr ⟨still.assigns _ name value, rfl, done⟩
  | install => exact .inr ⟨rfl, rfl, done⟩
  | work worked => exact .inl ⟨_, _, rfl, worked, rfl⟩
  | pass span => exact .inr ⟨still.passes _ _, rfl, done⟩

end Still

theorem still_plan : Still (Engine.plan : Engine σ → Plan) where
  starts := Engine.plan_start
  stops _ _ := rfl
  submits _ _ := rfl
  assigns _ _ _ := rfl
  hands _ _ := rfl
  passes _ _ := rfl

theorem still_current : Still fun e : Engine σ => e.states.current where
  starts e := by
    have started := e.started
    generalize e.start = ending at started ⊢
    cases started with
    | up done =>
      rw [Ending.left, Engine.start_events_frame, Engine.start_values_frame]
      simp only
      rw [Hierarchy.start_frame (.inl done)]
    | overrun broken =>
      simp only [Ending.left]
      rw [Hierarchy.start_frame (.inr broken)]
  stops _ _ := rfl
  submits _ _ := rfl
  assigns _ _ _ := rfl
  hands _ _ := rfl
  passes _ _ := rfl

theorem still_memory : Still (Engine.memory : Engine σ → _) where
  starts := Engine.memory_start
  stops _ _ := rfl
  submits _ _ := rfl
  assigns _ _ _ := rfl
  hands _ _ := rfl
  passes _ _ := rfl

/-- Once a machine has been set up its plan is settled. -/
theorem plan_act (s : Session σ) (a : Action σ) (done : s.machine.stage ≠ .created) :
    (s.act a).engine.plan = s.engine.plan ∧ (s.act a).machine.stage ≠ .created := by
  rcases still_plan.act_cases s a done with ⟨w, r, _, worked, same⟩ | ⟨same, _, still⟩
  · rw [same, still_plan.adopted]
    exact ⟨worked.plan, stage_adopt s r done⟩
  · exact ⟨same, still⟩

theorem plan_perform {s : Session σ} (actions : List (Action σ))
    (done : s.machine.stage ≠ .created) :
    (s.perform actions).engine.plan = s.engine.plan :=
  (perform_keeps (P := fun t => t.engine.plan = s.engine.plan ∧ t.machine.stage ≠ .created)
    (fun t a ⟨same, done⟩ => ⟨(plan_act t a done).1.trans same, (plan_act t a done).2⟩) s actions
    ⟨rfl, done⟩).1

end Session
end Statechart
