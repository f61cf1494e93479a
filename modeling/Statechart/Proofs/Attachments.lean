import Statechart.Proofs.Abreast
import Statechart.Proofs.Delivery
import Statechart.Proofs.Lifecycle
/-!
What is attached to events. An event may carry readings and the state that it comes from. They are
there for the application to look at, and the machine itself looks at none of it, except where a
state timeout comes from. So two runs in which events carry different things are the same but for
these, as long as the application does not act on them either.
-/

namespace Statechart

/-- The event with nothing attached to it. -/
def Event.bare (e : Event) : Event where
  name := e.name
  origin := if e.isTimeout then e.origin else none

def Notice.bare : Notice → Notice
  | .pre state event => .pre state event.bare
  | .transition exited event entered => .transition exited event.bare entered
  | .exit states => .exit states
  | .enter states => .enter states
  | .post event handled => .post event.bare handled

def Request.bare : Request → Request
  | .submit event => .submit event.bare
  | .assign name value => .assign name value
  | .stop => .stop
  | .start => .start

def Errand.bare : Errand → Errand
  | .present current event => .present current event.bare
  | .resolve current event => .resolve current event.bare
  | .commit current rule event => .commit current rule event.bare
  | .leave current rule event path => .leave current rule event.bare path
  | .move current rule event path => .move current rule event.bare path
  | .greet current rule event path => .greet current rule event.bare path
  | .record current rule event path => .record current rule event.bare path
  | .finish event handled => .finish event.bare handled

def Pending.bare {σ : Type} (p : Pending σ) : Pending σ := { p with errand := p.errand.bare }

/-- The same event, up to what is attached to it. -/
def Event.Kin (e e' : Event) : Prop := e.bare = e'.bare

theorem Notice.Like.bare {n n' : Notice} (same : n.Like Event.Kin n') : n.bare = n'.bare := by
  cases same with
  | pre state same => exact congrArg (Notice.pre state) same
  | transition exited entered same => exact congrArg (Notice.transition exited · entered) same
  | exit | enter => rfl
  | post handled same => exact congrArg (Notice.post · handled) same

def Errand.event : Errand → Event
  | .present _ event | .resolve _ event | .commit _ _ event | .leave _ _ event _
  | .move _ _ event _ | .greet _ _ event _ | .record _ _ event _ | .finish event _ => event

theorem Errand.Like.event {errand errand' : Errand} (same : errand.Like Event.Kin errand') :
    errand.event.bare = errand'.event.bare := by
  cases same <;> assumption

theorem Errand.Like.bare {errand errand' : Errand} (same : errand.Like Event.Kin errand') :
    errand.bare = errand'.bare := by
  cases same <;> next same => simp only [Errand.bare, show Event.bare _ = _ from same]

theorem Errand.like_of_bare {errand errand' : Errand} (same : errand.bare = errand'.bare) :
    errand.Like Event.Kin errand' := by
  cases errand <;> cases errand' <;> simp only [bare, reduceCtorEq, present.injEq, resolve.injEq,
    commit.injEq, leave.injEq, move.injEq, greet.injEq, record.injEq, finish.injEq] at same
  case present => obtain ⟨rfl, same⟩ := same; exact .present _ same
  case resolve => obtain ⟨rfl, same⟩ := same; exact .resolve _ same
  case commit => obtain ⟨rfl, rfl, same⟩ := same; exact .commit _ _ same
  case leave => obtain ⟨rfl, rfl, same, rfl⟩ := same; exact .leave _ _ _ same
  case move => obtain ⟨rfl, rfl, same, rfl⟩ := same; exact .move _ _ _ same
  case greet => obtain ⟨rfl, rfl, same, rfl⟩ := same; exact .greet _ _ _ same
  case record => obtain ⟨rfl, rfl, same, rfl⟩ := same; exact .record _ _ _ same
  case finish => obtain ⟨same, rfl⟩ := same; exact .finish _ same

theorem Event.name_alike {e e' : Event} (same : e.bare = e'.bare) : e.name = e'.name :=
  (congrArg Event.name same :)

theorem Engine.stale_alike {e e' : Event} (same : e.bare = e'.bare) (current : String) :
    isStale current e = isStale current e' := by
  have stale (e : Event) : isStale current e = isStale current e.bare := by
    rw [isStale, isStale, show e.bare.isTimeout = e.isTimeout from rfl]
    cases timeout : e.isTimeout with
    | false => rfl
    | true => rw [Event.bare, timeout, if_pos rfl]
  rw [stale, stale e', same]

namespace Mailbox

def bare (m : Mailbox Event) : Mailbox Event := { m with items := m.items.map Event.bare }

theorem push_bare (m : Mailbox Event) (e : Event) : (m.push e).bare = m.bare.push e.bare := by
  simp [bare, push]

theorem pop_bare (m : Mailbox Event) :
    m.bare.pop? = m.pop?.map fun popped => (popped.1.bare, popped.2.bare) := by
  obtain ⟨items, isOpen⟩ := m
  cases isOpen <;> cases items <;> rfl

end Mailbox

namespace Engine
variable {σ : Type}

def bare (e : Engine σ) : Engine σ :=
  { e with events := e.events.bare, pending := e.pending.map Pending.bare }

-- `(rfl)`, not `rfl`: used as a definitional equation, such a lemma would rewrite a condition but
-- not the instance that decides it.
@[simp] theorem values_bare (e : Engine σ) : e.bare.values = e.values := (rfl)

@[simp] theorem triggers_bare (e : Engine σ) : e.bare.triggers = e.triggers := (rfl)

@[simp] theorem running_bare (e : Engine σ) : e.bare.running = e.running := (rfl)

theorem submit_bare (e : Engine σ) (event : Event) :
    (e.submit event).bare = e.bare.submit event.bare :=
  congrArg (fun events => { e.bare with events }) (e.events.push_bare event)

theorem stop_bare (e : Engine σ) : e.stop.bare = e.bare.stop := by
  simp [stop, stopStates, stopValues, stopEvents, bare, Mailbox.bare, Mailbox.close]

theorem start_bare (e : Engine σ) : e.bare.start = e.start.map bare := by
  have up (e : Engine σ) :
      e.startValues.startEvents.bare = e.bare.startValues.startEvents := by
    cases on : e.running <;>
      simp [startEvents, startValues, bare, Mailbox.bare, Mailbox.openUp, on]
  unfold start startStates
  rw [show e.bare.states = e.states from rfl, show e.bare.clock = e.clock from rfl]
  simp only
  cases e.states.start e.clock with
  | done states =>
    exact congrArg Ending.done (up { e with rules := e.rules.close, states }).symm
  | refused cause => rfl
  | broken states => rfl

theorem perform_bare (e : Engine σ) (q : Request) :
    e.bare.perform q.bare = (e.perform q).map bare := by
  cases q with
  | submit event => exact congrArg Ending.done (e.submit_bare event).symm
  | assign name value => rfl
  | stop =>
    simp only [perform, Request.bare, running_bare]
    split
    · simp only [Ending.map, bare, stop, List.length_map]
      rfl
    · rfl
  | start =>
    simp only [perform, Request.bare, running_bare]
    split
    · rfl
    · exact e.start_bare

/-- What an engine makes of requests does not hang on what is attached to the events in them. -/
theorem heed_bare (e : Engine σ) (qs : List Request) :
    e.bare.heed (qs.map Request.bare) = ((e.heed qs).1, (e.heed qs).2.bare) := by
  induction qs generalizing e with
  | nil => rfl
  | cons q rest ih =>
    simp only [List.map_cons, heed, perform_bare]
    cases e.perform q with
    | done e => exact ih e
    | refused cause => exact ih e
    | broken e => rfl

section Twins
variable {e e' : Engine σ} (alike : e.bare = e'.bare)
include alike

theorem values_alike : e.values = e'.values := (congrArg values alike :)

theorem states_alike : e.states = e'.states := (congrArg states alike :)

theorem clock_alike : e.clock = e'.clock := (congrArg clock alike :)

theorem workers_alike : e.workers = e'.workers := (congrArg workers alike :)

theorem pending_alike : e.pending.map Pending.bare = e'.pending.map Pending.bare :=
  (congrArg pending alike :)

theorem length_alike : e.pending.length = e'.pending.length := by
  simpa using congrArg List.length (pending_alike alike)

theorem submit_alike {event event' : Event} (same : event.bare = event'.bare) :
    (e.submit event).bare = (e'.submit event').bare := by
  rw [submit_bare, submit_bare, alike, same]

theorem heed_alike {qs qs' : List Request} (same : qs.map Request.bare = qs'.map Request.bare) :
    (e.heed qs).1 = (e'.heed qs').1 ∧ (e.heed qs).2.bare = (e'.heed qs').2.bare := by
  have both : ((e.heed qs).1, (e.heed qs).2.bare) = ((e'.heed qs').1, (e'.heed qs').2.bare) := by
    rw [← heed_bare, ← heed_bare, alike, same]
  exact Prod.mk.inj both

theorem report_alike (change : Option Change) :
    (e.report change).bare = (e'.report change).bare := by
  cases change with
  | none => exact alike
  | some change => exact congrArg (·.report (some change)) alike

theorem check_alike (t : Trigger) : (e.checkTrigger t).bare = (e'.checkTrigger t).bare := by
  have tracked (outcome : Int64) : (e.track t outcome).bare = (e'.track t outcome).bare :=
    congrArg (·.track t outcome) alike
  have armed : e.isArmed t = e'.isArmed t := congrArg (·.isArmed t) alike
  unfold checkTrigger
  rw [values_alike alike, clock_alike alike]
  split
  · exact alike
  unfold settleTrigger
  rw [armed]
  split
  · exact submit_alike (tracked 1) rfl
  · split
    · exact submit_alike alike rfl
    · exact alike
  · simp only
    split
    · exact submit_alike (tracked 0) rfl
    · exact tracked 0
  · exact alike

theorem derive_alike (c : Change) : (e.derive c).bare = (e'.derive c).bare := by
  have pass (ts : List Trigger) (e e' : Engine σ) (alike : e.bare = e'.bare) :
      (ts.foldl checkTrigger e).bare = (ts.foldl checkTrigger e').bare := by
    induction ts generalizing e e' with
    | nil => exact alike
    | cons t rest ih => exact ih _ _ (check_alike alike t)
  unfold derive
  rw [show e.triggers = e'.triggers from (congrArg triggers alike :)]
  exact submit_alike (pass _ _ _ alike) rfl

theorem resolve_alike (current event : String) :
    e.resolve current event = e'.resolve current event := by
  have met (rules : List Rule) : e.firstMet rules = e'.firstMet rules := by
    induction rules with
    | nil => rfl
    | cons r rest ih =>
      unfold firstMet
      rw [ih, values_alike alike, clock_alike alike]
  unfold resolve candidates
  rw [met, states_alike alike, show e.rules = e'.rules from (congrArg rules alike :)]

end Twins
end Engine

/-- What a handler asks for, whether it breaks down and whether it lets an event pass does not hang
on what is attached to events, nor on anything that it may remember of this. All else that it
remembers may count. -/
structure Handler.Heedless {σ τ : Type} (view : σ → τ) (h : Handler σ) : Prop where
  asks : ∀ {n n' : Notice} {client client' : σ}, n.bare = n'.bare → view client = view client' →
    (h n client).1.requests.map Request.bare = (h n' client').1.requests.map Request.bare
  fails : ∀ {n n' : Notice} {client client' : σ}, n.bare = n'.bare → view client = view client' →
    (h n client).1.fails = (h n' client').1.fails
  remembers : ∀ {n n' : Notice} {client client' : σ}, n.bare = n'.bare →
    view client = view client' → view (h n client).2 = view (h n' client').2
  accepts : ∀ {state : String} {event event' : Event} {client client' : σ},
    event.bare = event'.bare → view client = view client' →
    (h (.pre state event) client).1.accepts = (h (.pre state event') client').1.accepts

/-- An application that asks for nothing and never breaks down is heedless if it lets events pass by
their names. -/
theorem Handler.heedless_of_silent {σ : Type} {h : Handler σ}
    (silent : ∀ n client, (h n client).1.requests = [])
    (sound : ∀ n client, (h n client).1.fails = false) (filter : String → String → Bool)
    (looks : ∀ state event client,
      (h (.pre state event) client).1.accepts = filter state event.name) :
    h.Heedless fun _ => () where
  asks _ _ := by rw [silent, silent]
  fails _ _ := by rw [sound, sound]
  remembers _ _ := rfl
  accepts same _ := by rw [looks, looks, Event.name_alike same]

namespace Run
variable {σ τ : Type}

/-- The rule that a worker chooses that goes on with an errand, if it comes to choose one. -/
def chooses (r : Run σ) : Errand → Option Rule
  | .present current event =>
    let (reply, told) := r.tell (.pre current event)
    if reply.fails || !reply.accepts || told.engine.isShared then none
    else (told.engine.resolve current event.name).map (·.1)
  | .resolve current event => (r.engine.resolve current event.name).map (·.1)
  | _ => none

/-- The rule by which an event is turned into a transition, if there is one and no other worker may
come in before it is chosen. -/
def chosen (r : Run σ) (event : Event) : Option Rule :=
  match r.engine.states.current with
  | none => none
  | some current =>
    if Engine.isStale current event || r.engine.isShared then none
    else r.chooses (.present current event)

/-- Two runs with the same heedless handlers that differ at most in what is attached to events. -/
structure Twins (view : σ → τ) (r r' : Run σ) : Prop where
  engine : r.engine.bare = r'.engine.bare
  client : view r.client = view r'.client
  notices : r.notices.map Notice.bare = r'.notices.map Notice.bare
  heedless : r.engine.handler.Heedless view
  /-- So are those that were in force when the events were taken up that have been left off. -/
  pending : ∀ p ∈ r.engine.pending, p.handler.Heedless view

namespace Twins
variable {view : σ → τ} {r r' : Run σ} (alike : r.Twins view r')
include alike

theorem with_engine {change change' : Engine σ → Engine σ}
    (same : (change r.engine).bare = (change' r'.engine).bare)
    (steady : (change r.engine).handler = r.engine.handler)
    (kept : (change r.engine).pending = r.engine.pending) :
    (r.withEngine change).Twins view (r'.withEngine change') where
  engine := same
  client := alike.client
  notices := alike.notices
  heedless := by
    rw [withEngine, steady]
    exact alike.heedless
  pending := by
    rw [withEngine, kept]
    exact alike.pending

theorem handler : r'.engine.handler = r.engine.handler :=
  (congrArg Engine.handler alike.engine).symm

theorem tell {n n' : Notice} (same : n.bare = n'.bare) :
    (r.tell n).1.fails = (r'.tell n').1.fails ∧ (r.tell n).2.Twins view (r'.tell n').2 := by
  -- Both runs ask one handler, which cannot tell the two notices apart.
  have asks : (r.engine.handler n r.client).1.requests.map Request.bare =
      (r'.engine.handler n' r'.client).1.requests.map Request.bare := by
    rw [alike.handler]
    exact alike.heedless.asks same alike.client
  have replies : (r.engine.handler n r.client).1.fails =
      (r'.engine.handler n' r'.client).1.fails := by
    rw [alike.handler]
    exact alike.heedless.fails same alike.client
  have remembers : view (r.tell n).2.client = view (r'.tell n').2.client := by
    rw [Run.tell, Run.tell, alike.handler]
    exact alike.heedless.remembers same alike.client
  have notices : (r.tell n).2.notices.map Notice.bare = (r'.tell n').2.notices.map Notice.bare := by
    rw [Run.tell, Run.tell, List.map_append, List.map_append, alike.notices]
    exact congrArg (_ ++ [·]) same
  obtain ⟨breaks, engine⟩ := Engine.heed_alike alike.engine asks
  have fails : (r.tell n).1.fails = (r'.tell n').1.fails := congrArg₂ or replies breaks
  refine ⟨fails, ?_, remembers, notices, ?_, ?_⟩
  · simp only [Run.tell, replies, breaks]
    split
    · exact congrArg Engine.fall engine
    · exact engine
  · rw [handler_tell]
    exact alike.heedless
  · rw [pending_tell]
    exact alike.pending

/-- The answer to `pre` is the same as well. -/
theorem accepts {event event' : Event} (same : event.bare = event'.bare) (state : String) :
    (r.tell (.pre state event)).1.accepts = (r'.tell (.pre state event')).1.accepts := by
  rw [Run.tell, Run.tell, alike.handler]
  exact alike.heedless.accepts same alike.client

theorem arrived (states : Hierarchy) : (r.withEngine fun e => { e with states }).Twins view
    (r'.withEngine fun e => { e with states }) :=
  alike.with_engine (congrArg (fun e : Engine σ => { e with states }) alike.engine) rfl rfl

end Twins

/-- What an event makes of two such runs are two such runs. -/
theorem abreast_twins (view : σ → τ) : Abreast Event.Kin (Twins (σ := σ) view) where
  name same := (Event.name_alike same).symm
  stale same current := (Engine.stale_alike same current).symm
  current alike := congrArg Hierarchy.current (Engine.states_alike alike.engine).symm
  shared alike := (congrArg Engine.isShared alike.engine.symm :)
  path alike source target :=
    congrArg (Hierarchy.path · source target) (Engine.states_alike alike.engine).symm
  resolve alike current name := (Engine.resolve_alike alike.engine current name).symm
  tell alike _ _ same := by
    obtain ⟨fails, told⟩ := alike.tell same.bare
    exact ⟨fails.symm, told⟩
  accepts alike _ _ same current := (alike.accepts same current).symm
  enter := by
    intro r r' alike name
    rw [← Engine.states_alike alike.engine, ← Engine.clock_alike alike.engine]
    cases r.engine.states.enter name r.engine.clock with
    | done states => exact .done (alike.arrived states)
    | refused cause => exact .refused cause
    | broken states => exact .broken (alike.arrived states)
  falls alike := alike.with_engine (congrArg Engine.fall alike.engine :) rfl rfl
  record alike passage := alike.with_engine (congrArg (fun e : Engine σ => { e with
    history := e.history.record (passage (.ofMicros e.clock)) }) alike.engine :) rfl rfl
  park := by
    intro r r' alike errand errand' same
    refine ⟨?_, alike.client, alike.notices, alike.heedless, fun p member => ?_⟩
    · have parked (e : Engine σ) (errand : Errand) :
          Engine.bare { e with pending := e.pending ++ [⟨errand, e.handler⟩] } =
            { e.bare with pending := e.bare.pending ++ [⟨errand.bare, e.bare.handler⟩] } := by
        simp [Engine.bare, Pending.bare]
      exact (parked r.engine errand).trans ((by rw [alike.engine, same.bare] : _ = _).trans
        (parked r'.engine errand').symm)
    · rcases List.mem_append.mp member with old | new
      · exact alike.pending p old
      · rw [List.mem_singleton.mp new]
        exact alike.heedless

namespace Twins
variable {view : σ → τ} {r r' : Run σ} (alike : r.Twins view r')
include alike

theorem chooses {errand errand' : Errand} (same : errand.Like Event.Kin errand') :
    r.chooses errand = r'.chooses errand' := by
  cases same with
  | present current same =>
    obtain ⟨fails, told⟩ := alike.tell (Notice.Like.pre current same).bare
    simp only [Run.chooses]
    rw [fails, alike.accepts same current, (abreast_twins view).shared told,
      Engine.resolve_alike told.engine, Event.name_alike same]
  | resolve current same =>
    simp only [Run.chooses]
    rw [Engine.resolve_alike alike.engine, Event.name_alike same]
  | commit | leave | move | greet | record | finish => rfl

theorem chosen {event event' : Event} (same : event.bare = event'.bare) :
    r.chosen event = r'.chosen event' := by
  unfold Run.chosen
  rw [← Engine.states_alike alike.engine, (abreast_twins view).shared alike]
  split
  · rfl
  next current _ =>
  rw [Engine.stale_alike same current, alike.chooses (.present current same)]

/-- The oldest events differ in attachments only, and so do the runs without them. -/
theorem pop : Option.Rel (fun x y => x.1.bare = y.1.bare ∧
    (r.withEngine fun e => { e with events := x.2 }).Twins view
      (r'.withEngine fun e => { e with events := y.2 }))
    r.engine.events.pop? r'.engine.events.pop? := by
  have popped := r.engine.events.pop_bare
  rw [show r.engine.events.bare = r'.engine.events.bare from
    (congrArg Engine.events alike.engine :), Mailbox.pop_bare] at popped
  cases here : r.engine.events.pop? with
  | none =>
    cases there : r'.engine.events.pop? with
    | none => exact .none
    | some y => simp [here, there] at popped
  | some x =>
    cases there : r'.engine.events.pop? with
    | none => simp [here, there] at popped
    | some y =>
      rw [here, there] at popped
      obtain ⟨first, later⟩ := Prod.mk.inj (Option.some.inj popped)
      refine .some ⟨first.symm, alike.with_engine ?_ rfl rfl⟩
      exact congrArg₂ (fun (e : Engine σ) events => { e with events }) alike.engine later.symm

/-- So do the events that have been left off, and the runs that go on with them. -/
theorem left (index : Nat) : Option.Rel (fun p q => p.errand.Like Event.Kin q.errand ∧
    (r.withEngine fun e => { e with
      pending := e.pending.eraseIdx index, handler := p.handler }).Twins view
        (r'.withEngine fun e => { e with
          pending := e.pending.eraseIdx index, handler := q.handler }))
    r.engine.pending[index]? r'.engine.pending[index]? := by
  have there := congrArg (·[index]?) (Engine.pending_alike alike.engine)
  simp only [List.getElem?_map] at there
  cases here : r.engine.pending[index]? with
  | none =>
    rw [here, Option.map_none, eq_comm, Option.map_eq_none_iff] at there
    rw [there]
    exact .none
  | some p =>
    rw [here, Option.map_some, eq_comm, Option.map_eq_some_iff] at there
    obtain ⟨q, there, same⟩ := there
    obtain ⟨errand, handler⟩ := Pending.mk.inj same
    rw [there]
    refine .some ⟨Errand.like_of_bare errand.symm, ?_, alike.client, alike.notices,
      alike.pending p (List.mem_of_getElem? here),
      fun p member => alike.pending p (List.mem_of_mem_eraseIdx member)⟩
    have gone (e : Engine σ) (p : Pending σ) : Engine.bare { e with
        pending := e.pending.eraseIdx index, handler := p.handler } =
          { e.bare with pending := e.bare.pending.eraseIdx index, handler := p.handler } := by
      simp [Engine.bare, List.eraseIdx_map]
    exact (gone r.engine p).trans ((by rw [alike.engine, handler] : _ = _).trans
      (gone r'.engine q).symm)

theorem work (w : Work) : Option.Rel (Twins view) (r.work? w) (r'.work? w) := by
  have values := Engine.values_alike alike.engine
  have clock := Engine.clock_alike alike.engine
  have strays : r.engine.strays = r'.engine.strays := (congrArg Engine.strays alike.engine :)
  have held := Engine.length_alike alike.engine
  have reported (e : Engine σ) (change : Option Change) :
      (e.report change).handler = e.handler ∧ (e.report change).pending = e.pending := by
    cases change <;> exact ⟨rfl, rfl⟩
  cases w with
  | derive =>
    simp only [work?]
    rw [← show r.engine.changes = r'.engine.changes from (congrArg Engine.changes alike.engine :)]
    cases r.engine.changes.pop? with
    | none => exact .none
    | some popped =>
      refine .some (alike.with_engine (Engine.derive_alike ?_ _) ?_ ?_)
      · exact congrArg (fun e : Engine σ => { e with changes := popped.2 }) alike.engine
      · exact Engine.derive_frame Engine.handler (fun _ _ => rfl) (fun _ _ _ => rfl) _ _
      · exact Engine.derive_frame Engine.pending (fun _ _ => rfl) (fun _ _ _ => rfl) _ _
  | apply =>
    simp only [work?]
    rw [← values]
    cases r.engine.values.batch with
    | nil => exact .none
    | cons update batch =>
      refine .some (alike.with_engine ?_ (reported _ _).1 (reported _ _).2)
      simp only [← values]
      exact Engine.report_alike (congrArg (fun e : Engine σ => { e with
        values := ({ r.engine.values with batch }.apply update).1 }) alike.engine) _
  | take =>
    simp only [work?]
    rw [← values]
    split
    · exact .some (alike.with_engine
        (congrArg (fun e : Engine σ => { e with values := e.values.take }) alike.engine) rfl rfl)
    · exact .none
  | fire =>
    simp only [work?]
    rw [← values, ← clock]
    cases r.engine.values.timers.release? r.engine.clock with
    | none => exact .none
    | some released =>
      refine .some (alike.with_engine ?_ (reported _ _).1 (reported _ _).2)
      have fired : { r'.engine.values with timers := released.2 }.fire released.1 r'.engine.clock =
          { r.engine.values with timers := released.2 }.fire released.1 r.engine.clock := by
        rw [values, clock]
      simp only [fired]
      exact Engine.report_alike (congrArg (fun e : Engine σ => { e with
        values := ({ r.engine.values with timers := released.2 }.fire released.1
          r.engine.clock).1 }) alike.engine) _
  | wake =>
    simp only [work?]
    rw [← Engine.states_alike alike.engine, ← clock]
    cases r.engine.states.wake? r.engine.clock with
    | none => exact .none
    | some woken =>
      obtain ⟨spoken, states⟩ := woken
      have settled : Engine.bare { r.engine with states } = Engine.bare { r'.engine with states } :=
        congrArg (fun e : Engine σ => { e with states }) alike.engine
      cases spoken with
      | none => exact .some (alike.with_engine settled rfl rfl)
      | some a => exact .some (alike.with_engine (Engine.submit_alike settled rfl) rfl rfl)
  | process =>
    simp only [work?]
    rw [← held, ← Engine.workers_alike alike.engine]
    split
    · have popped := alike.pop
      generalize r.engine.events.pop? = x, r'.engine.events.pop? = y at popped ⊢
      cases popped with
      | none => exact .none
      | some both => exact .some ((abreast_twins view).process both.2 both.1)
    · exact .none
  | carry index =>
    simp only [work?]
    have left := alike.left index
    generalize r.engine.pending[index]? = x, r'.engine.pending[index]? = y at left ⊢
    cases left with
    | none => exact .none
    | some both =>
      have gone := (abreast_twins view).goOn both.2 both.1
      refine .some ⟨?_, gone.client, gone.notices, alike.heedless, gone.pending⟩
      have back : r'.engine.handler = r.engine.handler := alike.handler
      exact congrArg₂ (fun (e : Engine σ) handler => { e with handler }) gone.engine back.symm
  | leave =>
    simp only [work?]
    rw [← held, ← strays, show r'.engine.events.isOpen = r.engine.events.isOpen from
      (congrArg (fun e : Engine σ => e.events.isOpen) alike.engine.symm :)]
    split
    · exact .some (alike.with_engine (congrArg Engine.dismiss alike.engine :) rfl rfl)
    · exact .none

end Twins
end Run

namespace Machine
variable {σ : Type}

def bare (m : Machine σ) : Machine σ := { m with engine := m.engine.bare }

variable (m : Machine σ)

@[simp] theorem stage_bare : m.bare.stage = m.stage := (rfl)

@[simp] theorem engine_bare : m.bare.engine = m.engine.bare := (rfl)

theorem init_bare (d : Definition) : m.bare.init d = ((m.init d).1, (m.init d).2.bare) := by
  have taken (x : Registration) (e : Engine σ) :
      x.perform e.bare = (x.perform e).map Engine.bare := by
    cases x with
    | state s =>
      simp only [Registration.perform, Engine.addState, Engine.bare]
      cases e.states.add s <;> rfl
    | condition c =>
      simp only [Registration.perform, Engine.addCondition, Engine.bare]
      cases e.values.add c e.clock <;> rfl
    | rule r =>
      simp only [Registration.perform, Engine.addRule, Engine.bare]
      cases e.rules.add r <;> rfl
    | trigger t =>
      simp only [Registration.perform, Engine.addTrigger, Engine.running_bare,
        Engine.triggers_bare, Engine.values_bare]
      repeat' split
      all_goals rfl
    | initial name =>
      simp only [Registration.perform, Engine.enterState, Engine.bare]
      cases e.states.enter name e.clock <;> rfl
  have all (rs : List Registration) (e : Engine σ) :
      registerAll rs e.bare = ((registerAll rs e).1, (registerAll rs e).2.bare) := by
    induction rs generalizing e with
    | nil => rfl
    | cons x rest ih =>
      simp only [registerAll, taken]
      cases x.perform e with
      | done e => exact ih e
      | refused cause => rfl
      | broken e => rfl
  unfold init
  simp only [stage_bare, engine_bare, all]
  split
  · rfl
  split
  · rfl
  generalize registerAll d.registrations m.engine = done
  obtain ⟨_ | cause | _, engine⟩ := done <;> rfl

theorem init_from_bare (loaded : Except LoadError Definition) :
    m.bare.initFrom loaded = ((m.initFrom loaded).1, (m.initFrom loaded).2.bare) := by
  cases loaded with
  | error cause => rfl
  | ok d => exact m.init_bare d

theorem start_bare : m.bare.start = m.start.map bare := by
  have handed (handler : Handler σ) :
      m.engine.bare.setHandler handler = (m.engine.setHandler handler).map Engine.bare := by
    simp only [Engine.setHandler, Engine.running_bare]
    split <;> rfl
  simp only [start, stage_bare, engine_bare, show m.bare.callbacks = m.callbacks from rfl, handed]
  cases m.stage with
  | created => rfl
  | running => rfl
  | initialized | stopped =>
    cases m.engine.setHandler m.callbacks.handler with
    | error cause => rfl
    | ok engine =>
      simp only [Except.map, Engine.start_bare]
      cases engine.start <;> rfl

theorem stop_bare : m.bare.stop = m.stop.bare := by
  unfold stop
  simp only [stage_bare, engine_bare, ← Engine.stop_bare]
  split <;> rfl

theorem install_bare (change : Callbacks σ → Callbacks σ) :
    m.bare.install change = (m.install change).map bare := by
  unfold install
  simp only [stage_bare]
  split <;> rfl

end Machine

/-- The same action, up to what is attached to an event. -/
inductive Action.Twins {σ : Type} : Action σ → Action σ → Prop
  | same (a : Action σ) : Twins a a
  | submit {event event' : Event} : event.bare = event'.bare →
    Twins (.submit event) (.submit event')

namespace Session
variable {σ τ : Type}

/-- The event that a worker deals with in an action, by name, with the rule that it chooses for it
then, if any. -/
def choice (s : Session σ) : Action σ → Option (String × Option Rule)
  | .work (.carry index) => (s.left index).map fun (r, p) =>
    (p.errand.event.name, (r.withEngine fun e => { e with handler := p.handler }).chooses p.errand)
  | a => (s.taken a).map fun (r, event) => (event.name, r.chosen event)

/-- The events that workers deal with in the course of some actions, with the rules chosen. -/
def choices (s : Session σ) : List (Action σ) → List (String × Option Rule)
  | [] => []
  | a :: rest => (s.choice a).toList ++ (s.act a).choices rest

/-- Nothing but the workers for events leaves an event off or goes on with one. -/
theorem pending_act (s : Session σ) {a : Action σ} (other : ∀ w, a ≠ .work w) :
    (s.act a).engine.pending = s.engine.pending := by
  have setUp (d : Definition) : (s.machine.init d).2.engine.pending = s.engine.pending :=
    init_keeps (P := fun e => e.pending = s.engine.pending)
      (fun _ _ enrolled same => (congrArg Engine.pending enrolled.rest).trans same) s.machine d rfl
  have acted := s.acted a
  generalize s.act a = after at acted ⊢
  cases acted with
  | idle | stop | submit | assign | install | pass => rfl
  | init d => exact setUp d
  | load d => exact setUp d
  | start _ _ _ started =>
    exact still_pending.started (e := { s.engine with handler := s.machine.callbacks.handler })
      (.inl started)
  | overrun _ _ _ started =>
    exact still_pending.started (e := { s.engine with handler := s.machine.callbacks.handler })
      (.inr started)
  | work => exact absurd rfl (other _)

/-- Two sessions that differ at most in what is attached to events. -/
structure Twins (view : σ → τ) (s s' : Session σ) : Prop where
  machine : s.machine.bare = s'.machine.bare
  client : view s.client = view s'.client
  notices : s.notices.map Notice.bare = s'.notices.map Notice.bare
  pending : ∀ p ∈ s.engine.pending, p.handler.Heedless view

theorem left_bare (m : Machine σ) (x : Ending (Machine σ)) :
    (x.left m).bare = (x.map Machine.bare).left m.bare := by
  cases x <;> rfl

namespace Twins
variable {view : σ → τ} {s s' : Session σ} (alike : s.Twins view s')
include alike

theorem of_machine {a : Action σ} (other : ∀ w, a ≠ .work w) (change : Machine σ → Machine σ)
    (commutes : ∀ m, (change m).bare = change m.bare)
    (acts : ∀ s : Session σ, s.act a = { s with machine := change s.machine }) :
    (s.act a).Twins view (s'.act a) where
  machine := by
    rw [acts, acts, commutes, commutes, alike.machine]
  client := by
    rw [acts, acts]
    exact alike.client
  notices := by
    rw [acts, acts]
    exact alike.notices
  pending := by
    rw [pending_act s other]
    exact alike.pending

theorem submit {event event' : Event} (same : event.bare = event'.bare) :
    (s.act (.submit event)).Twins view (s'.act (.submit event')) where
  machine := congrArg₂ (fun (m : Machine σ) engine => { m with engine }) alike.machine
    (Engine.submit_alike (congrArg Machine.engine alike.machine :) same)
  client := alike.client
  notices := alike.notices
  pending := alike.pending

theorem adopt {r r' : Run σ} (done : r.Twins view r') :
    (s.adopt r).Twins view (s'.adopt r') where
  machine := by
    have resumed (m : Machine σ) (e : Engine σ) : (m.resume e).bare = m.bare.resume e.bare := by
      unfold Machine.resume
      rw [Machine.stage_bare, Engine.running_bare]
      cases m.stage <;> cases e.running <;> rfl
    simp only [Session.adopt]
    rw [resumed, resumed, alike.machine, done.engine]
  client := done.client
  notices := done.notices
  pending := by
    rw [show (s.adopt r).engine.pending = r.engine.pending from still_pending.adopted s r]
    exact done.pending

variable (heedless : s.engine.handler.Heedless view)
include heedless

theorem run : s.run.Twins view s'.run where
  engine := (congrArg Machine.engine alike.machine :)
  client := alike.client
  notices := alike.notices
  heedless := heedless
  pending := alike.pending

theorem act {a a' : Action σ} (same : a.Twins a') : (s.act a).Twins view (s'.act a') := by
  cases same with
  | submit same => exact alike.submit same
  | same =>
    cases a with
    | submit event => exact alike.submit rfl
    | init d =>
      refine alike.of_machine (fun _ => nofun) (fun m => (m.init d).2) (fun m => ?_) fun _ => rfl
      rw [m.init_bare]
    | load source =>
      refine alike.of_machine (fun _ => nofun) (fun m => (m.initFrom source).2) (fun m => ?_)
        fun _ => rfl
      rw [m.init_from_bare]
    | start =>
      refine alike.of_machine (fun _ => nofun) (fun m => m.start.left m) (fun m => ?_) fun _ => rfl
      rw [left_bare, m.start_bare]
    | stop =>
      exact alike.of_machine (fun _ => nofun) Machine.stop (fun m => m.stop_bare.symm) fun _ => rfl
    | assign name value =>
      exact alike.of_machine (fun _ => nofun) (·.assign name value) (fun _ => rfl) fun _ => rfl
    | install change =>
      refine alike.of_machine (fun _ => nofun) (fun m => Ending.left m (m.install change))
        (fun m => ?_) fun _ => rfl
      rw [left_bare, m.install_bare]
      cases m.install change <;> rfl
    | pass span =>
      exact alike.of_machine (fun _ => nofun) (fun m => { m with
        engine := { m.engine with clock := m.engine.clock + span } }) (fun _ => rfl) fun _ => rfl
    | work w =>
      have did := (alike.run heedless).work w
      simp only [Session.act]
      generalize s.run.work? w = x, s'.run.work? w = y at did ⊢
      cases did with
      | none => exact alike
      | some done => exact alike.adopt done

/-- The same event is dealt with, and the same rule chosen for it. -/
theorem choice {a a' : Action σ} (same : a.Twins a') : s.choice a = s'.choice a' := by
  have run := alike.run heedless
  have held : s.engine.pending.length = s'.engine.pending.length := Engine.length_alike run.engine
  have workers : s.engine.workers = s'.engine.workers := Engine.workers_alike run.engine
  cases same with
  | submit same => rfl
  | same =>
    cases a with
    | init | load | start | stop | submit | assign | install | pass => rfl
    | work w =>
      cases w with
      | derive | apply | take | fire | wake | leave => rfl
      | process =>
        simp only [Session.choice, taken, ← held, ← workers]
        split
        · have popped : Option.Rel _ s.engine.events.pop? s'.engine.events.pop? := run.pop
          generalize s.engine.events.pop? = x, s'.engine.events.pop? = y at popped ⊢
          cases popped with
          | none => rfl
          | some both =>
            exact congrArg some (Prod.ext (Event.name_alike both.1) (both.2.chosen both.1))
        · rfl
      | carry index =>
        simp only [Session.choice, Session.left]
        have left : Option.Rel _ s.engine.pending[index]? s'.engine.pending[index]? :=
          run.left index
        generalize s.engine.pending[index]? = x, s'.engine.pending[index]? = y at left ⊢
        cases left with
        | none => rfl
        | some both =>
          exact congrArg some (Prod.ext (Event.name_alike both.1.event) (both.2.chooses both.1))

omit heedless in
theorem perform {as bs : List (Action σ)} (same : List.Forall₂ Action.Twins as bs)
    (heedless : ∀ before, before <+: as → (s.perform before).engine.handler.Heedless view) :
    (s.perform as).Twins view (s'.perform bs) ∧ s.choices as = s'.choices bs := by
  induction same generalizing s s' with
  | nil => exact ⟨alike, rfl⟩
  | @cons a b as bs first _ ih =>
    have now : s.engine.handler.Heedless view := heedless [] List.nil_prefix
    obtain ⟨alike', later⟩ := ih (alike.act now first) fun before early =>
      heedless (a :: before) (List.prefix_cons_inj a |>.mpr early)
    refine ⟨alike', ?_⟩
    rw [choices, choices, alike.choice now first, later]

end Twins

/-- Two runs of a machine in which events carry different things are the same throughout, in all
that the machine is and does, if no handler in force acts on what events carry. -/
theorem attachments_immaterial (s : Session σ) (view : σ → τ) {as bs : List (Action σ)}
    (same : List.Forall₂ Action.Twins as bs)
    (heedless : ∀ before, before <+: as → (s.perform before).engine.handler.Heedless view)
    (pending : ∀ p ∈ s.engine.pending, p.handler.Heedless view) (k : Nat) :
    let x := s.perform (as.take k)
    let y := s.perform (bs.take k)
    x.machine.current = y.machine.current ∧
    s.choices (as.take k) = s.choices (bs.take k) ∧
    x.notices.map Notice.bare = y.notices.map Notice.bare ∧
    x.machine.history = y.machine.history ∧
    x.engine.values = y.engine.values ∧
    x.engine.states.armed = y.engine.states.armed := by
  intro x y
  have start : s.Twins view s := ⟨rfl, rfl, rfl, pending⟩
  obtain ⟨alike, chosen⟩ := start.perform (List.forall₂_take k same) fun before early =>
    heedless before (early.trans (List.take_prefix k as))
  have engine : x.engine.bare = y.engine.bare := (congrArg Machine.engine alike.machine :)
  have states := Engine.states_alike engine
  exact ⟨congrArg Hierarchy.current states, chosen, alike.notices,
    (congrArg Engine.history engine :), Engine.values_alike engine,
    congrArg Hierarchy.armed states⟩

/-- Lets no bright lamp be turned up, and writes down all that it is shown. -/
def watchman : Handler (List Event) := fun n seen =>
  match n with
  | .pre state event => ({ accepts := state != "Bright" || event.name != "up" }, seen ++ [event])
  | _ => ({}, seen)

theorem watchman_heedless : Handler.Heedless (fun _ => ()) watchman := by
  refine Handler.heedless_of_silent ?_ ?_ (fun state name => state != "Bright" || name != "up") ?_
  · intro n seen
    cases n <;> rfl
  · intro n seen
    cases n <;> rfl
  · intro state event seen
    rfl

def watched : Session (List Event) :=
  ((fresh "lamp" []).act (.init lamp)).perform [.install (·.delegateTo watchman), .start]

/-- The lamp is turned up twice and then once too often. -/
def turned (first : Event) : List (Action (List Event)) :=
  [.submit first, .work .process, .submit { name := "up" }, .work .process,
    .submit { name := "up" }, .work .process]

theorem watched_turned_alike :
    let warm : Event := { name := "up", conditions := [⟨"heat", 30, 0⟩], origin := some "Dim" }
    let x := watched.perform (turned warm)
    let y := watched.perform (turned { name := "up" })
    x.machine.current = some "Bright" ∧ y.machine.current = some "Bright" ∧
    watched.choices (turned warm) =
      [("up", some (.onEvent "Off" "Dim" "up")), ("up", some (.onEvent "Dim" "Bright" "up")),
        ("up", none)] ∧
    x.notices.map Notice.bare = y.notices.map Notice.bare ∧ x.client ≠ y.client := by
  intro warm x y
  have handler : watched.engine.handler = watchman := rfl
  have same : List.Forall₂ Action.Twins (turned warm) (turned { name := "up" }) :=
    .cons (.submit (by decide +kernel)) (List.forall₂_same.mpr fun a _ => .same a)
  have runs : ∀ before, before <+: turned warm →
      (watched.perform before).machine.stage = .running := by
    intro before early
    have listed := (List.mem_inits ..).mpr early
    simp only [turned, List.inits, List.map_cons, List.map_nil, List.mem_cons, List.not_mem_nil,
      or_false] at listed
    rcases listed with rfl | rfl | rfl | rfl | rfl | rfl | rfl <;> decide +kernel
  have heedless : ∀ before, before <+: turned warm →
      (watched.perform before).engine.handler.Heedless fun _ => () := by
    intro before early
    rw [running_perform before fun first part => runs first (part.trans early), handler]
    exact watchman_heedless
  obtain ⟨current, chosen, notices, _⟩ := attachments_immaterial watched _ same heedless nofun 6
  have bright : y.machine.current = some "Bright" := by decide +kernel
  exact ⟨current.trans bright, bright, chosen.trans (by decide +kernel), notices, by decide +kernel⟩

end Session
end Statechart
