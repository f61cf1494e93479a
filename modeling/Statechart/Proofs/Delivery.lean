import Statechart.Proofs.Chronicle
import Statechart.Proofs.Withdrawal
/-!
Delivery. Events, updates and reported changes reach the workers through mailboxes. What is sent
comes from the application, from its handlers and from the workers themselves; whatever it is, it
is taken up once and in the order in which it was sent, or it waits. A stop, a restart, a refused
call and a handler that breaks down make no difference to that, nor do two workers that share a
mailbox. But the worker that applies updates takes all that wait at once, and what it has taken and
not applied is lost if it breaks down.
-/

namespace Statechart

/-- What passes through the mailboxes of an engine, of each kind the oldest first. -/
@[ext]
structure Traffic where
  events : List Event := []
  updates : List Update := []
  changes : List Change := []

namespace Traffic

instance : Append Traffic where
  append t u := ⟨t.events ++ u.events, t.updates ++ u.updates, t.changes ++ u.changes⟩

@[simp] theorem events_append (t u : Traffic) : (t ++ u).events = t.events ++ u.events := rfl

@[simp] theorem updates_append (t u : Traffic) : (t ++ u).updates = t.updates ++ u.updates := rfl

@[simp] theorem changes_append (t u : Traffic) : (t ++ u).changes = t.changes ++ u.changes := rfl

theorem append_assoc (t u v : Traffic) : t ++ u ++ v = t ++ (u ++ v) := by
  ext1 <;> simp

theorem append_nothing (t : Traffic) : t ++ {} = t := by
  ext1 <;> simp

theorem nothing_append (t : Traffic) : {} ++ t = t := rfl

end Traffic

def Request.event? : Request → Option Event
  | .submit event => some event
  | .assign .. | .stop | .start => none

/-- The update that is submitted by a request at some instant. -/
def Request.update? (now : Nat) : Request → Option Update
  | .assign name value => some ⟨name, value, now⟩
  | .submit _ | .stop | .start => none

def Traffic.ofRequests (now : Nat) (requests : List Request) : Traffic where
  events := requests.filterMap (·.event?)
  updates := requests.filterMap (·.update? now)

theorem Traffic.of_requests_append (now : Nat) (first later : List Request) :
    ofRequests now (first ++ later) = ofRequests now first ++ ofRequests now later := by
  ext1 <;> simp [ofRequests]

/-- Of some requests these are done: all of them, or those up to a start that breaks down. -/
def Heeds (requests done : List Request) : Prop :=
  done = requests ∨ done <+: requests ∧ done.getLast? = some .start

namespace Handler
variable {σ : Type} (h : Handler σ)

/-- What becomes of the application as it is told some notices. -/
def hears (client : σ) (notices : List Notice) : σ :=
  notices.foldl (fun client n => (h n client).2) client

/-- What is done of that which the application asks for, as it is told some notices. -/
inductive Answers : σ → List Notice → List Request → Prop
  | silent (client : σ) : Answers client [] []
  | tell {client : σ} {n : Notice} {rest : List Notice} {done more : List Request} :
    Heeds (h n client).1.requests done → Answers (h n client).2 rest more →
    Answers client (n :: rest) (done ++ more)

variable {h}

theorem Answers.append {client : σ} {first later : List Notice} {done more : List Request}
    (answers : h.Answers client first done) (next : h.Answers (h.hears client first) later more) :
    h.Answers client (first ++ later) (done ++ more) := by
  induction answers with
  | silent => exact next
  | tell heeds _ ih =>
    rw [List.append_assoc]
    exact .tell heeds (ih next)

end Handler

namespace Engine
variable {σ : Type}

/-- All that waits to be taken up. -/
def backlog (e : Engine σ) : Traffic where
  events := e.events.items
  updates := e.waiting
  changes := e.changes.items

theorem backlog_started {e : Engine σ} {ending : Ending (Engine σ)} (started : e.Started ending) :
    (ending.left e).backlog = e.backlog := by
  cases started with
  | up done =>
    simp only [Ending.left, startEvents, startValues, Holding.start]
    repeat' split
    all_goals rfl
  | overrun broken => rfl

theorem backlog_perform (e : Engine σ) (q : Request) :
    ((e.perform q).left e).backlog = e.backlog ++ .ofRequests e.clock [q] := by
  have performed := e.performed q
  generalize e.perform q = ending at performed ⊢
  cases performed with
  | submit event => exact Traffic.ext rfl (List.append_nil _).symm (List.append_nil _).symm
  | assign name value =>
    refine Traffic.ext (List.append_nil _).symm ?_ (List.append_nil _).symm
    exact (List.append_assoc _ _ _).symm
  | stop | stopped | running => exact (Traffic.append_nothing _).symm
  | start _ started => exact (backlog_started started).trans (Traffic.append_nothing _).symm

/-- What is heeded is done, and sends what it asks to send. -/
theorem backlog_heed (requests : List Request) (e : Engine σ) : ∃ done, Heeds requests done ∧
    (e.heed requests).2.backlog = e.backlog ++ .ofRequests e.clock done := by
  induction requests generalizing e with
  | nil => exact ⟨[], .inl rfl, (Traffic.append_nothing _).symm⟩
  | cons q rest ih =>
    have here := e.backlog_perform q
    have clock := e.clock_requests q
    have later (e' : Engine σ) (sent : e'.backlog = e.backlog ++ .ofRequests e.clock [q])
        (clock : e'.clock = e.clock) : ∃ done, Heeds (q :: rest) done ∧
          (e'.heed rest).2.backlog = e.backlog ++ .ofRequests e.clock done := by
      obtain ⟨done, heeds, more⟩ := ih e'
      refine ⟨q :: done, ?_, ?_⟩
      · rcases heeds with rfl | ⟨part, last⟩
        · exact .inl rfl
        · exact .inr ⟨List.cons_prefix_cons.mpr ⟨rfl, part⟩, by simp [List.getLast?_cons, last]⟩
      · rw [more, sent, clock, Traffic.append_assoc, ← Traffic.of_requests_append]
        rfl
    unfold heed
    split
    · next e' done =>
      rw [done] at here clock
      exact later e' here clock
    · next cause refused =>
      rw [refused] at here clock
      exact later e here clock
    · next e' broken =>
      rw [broken] at here
      refine ⟨[q], .inr ⟨List.cons_prefix_cons.mpr ⟨rfl, List.nil_prefix⟩, ?_⟩, here⟩
      -- Nothing but a start breaks down.
      have performed := e.performed q
      rw [broken] at performed
      cases performed
      rfl

theorem backlog_report (e : Engine σ) (change : Option Change) :
    (e.report change).backlog = e.backlog ++ { changes := change.toList } := by
  cases change with
  | none => exact (Traffic.append_nothing _).symm
  | some change => exact Traffic.ext (List.append_nil _).symm (List.append_nil _).symm rfl

/-- The event that a check of the trigger raises. -/
def raises? (e : Engine σ) (t : Trigger) : Option Event :=
  match e.values.check t.conditions t.connective e.clock with
  | .error _ => none
  | .ok v =>
    match v.met, e.isArmed t, t.mode with
    | true, false, _ | true, true, .level => some (raised t v.matched)
    | false, true, .edge => some { name := t.resetName }
    | true, true, .edge | false, true, .level | false, false, _ => none

/-- The events that the checks of a pass raise, each made on what those before it left. -/
def synthesized (e : Engine σ) : List Trigger → List Event
  | [] => []
  | t :: rest => (e.raises? t).toList ++ (e.checkTrigger t).synthesized rest

theorem raised_inspect (e : Engine σ) (t : Trigger) :
    (e.inspect t).raised = (e.raises? t).toList := by
  have checked := e.checked t
  have out : (e.inspect t).outcome = e.values.check t.conditions t.connective e.clock := rfl
  rw [raises?, ← out]
  generalize (e.inspect t).outcome = outcome, (e.inspect t).raised = events,
    e.checkTrigger t = left at checked ⊢
  cases checked with
  | failed => rfl
  | rise met free => simp [met, free]
  | again met busy mode => simp [met, busy, mode]
  | silent met busy mode => simp [met, busy, mode]
  | fall unmet busy mode => simp [unmet, busy, mode]
  | lapse unmet busy mode => simp [unmet, busy, mode]
  | idle unmet free => simp [unmet, free]

theorem synthesized_eq (ts : List Trigger) (e : Engine σ) :
    (e.inspections ts).flatMap (·.raised) = e.synthesized ts := by
  induction ts generalizing e with
  | nil => rfl
  | cons t rest ih => rw [inspections, List.flatMap_cons, raised_inspect, ih, synthesized]

theorem changes_derive (e : Engine σ) (change : Change) :
    (e.derive change).changes = e.changes :=
  derive_frame (·.changes) (fun _ _ => rfl) (fun _ _ _ => rfl) e change

theorem backlog_derive (e : Engine σ) (change : Change) : (e.derive change).backlog =
    e.backlog ++ { events := e.synthesized e.triggers ++ [.internal change.reading] } := by
  refine Traffic.ext ?_ ?_ ?_
  · rw [backlog, events_derive, synthesized_eq, List.append_assoc]
    rfl
  · rw [backlog, waiting_derive]
    exact (List.append_nil _).symm
  · rw [backlog, changes_derive]
    exact (List.append_nil _).symm

end Engine

theorem Enrolled.backlog {σ : Type} {e e' : Engine σ} (enrolled : Enrolled e e') :
    e'.backlog = e.backlog :=
  (congrArg Engine.backlog enrolled.rest).trans rfl

namespace Run
variable {σ : Type}

/-- What is in the mailboxes at a later moment and was not at an earlier one. -/
def sends (r r' : Run σ) : Traffic where
  events := r'.engine.events.items.drop r.engine.events.items.length
  updates := r'.engine.values.updates.items.drop r.engine.values.updates.items.length

/-- From one moment to a later one of the processing of an event the application was told something,
and what was done of that which it asked for was sent. -/
structure Heard (r : Run σ) (told : List Notice) (done : List Request) (r' : Run σ) : Prop where
  notices : r'.notices = r.notices ++ told
  handler : r'.engine.handler = r.engine.handler
  client : r'.client = r.engine.handler.hears r.client told
  answers : r.engine.handler.Answers r.client told done
  clock : r'.engine.clock = r.engine.clock
  batch : r'.engine.values.batch = r.engine.values.batch
  backlog : r'.engine.backlog = r.engine.backlog ++ .ofRequests r.engine.clock done

namespace Heard
variable {r r' r'' : Run σ}

/-- What neither tells anything nor touches the mailboxes. -/
theorem silent (notices : r'.notices = r.notices) (handler : r'.engine.handler = r.engine.handler)
    (client : r'.client = r.client) (clock : r'.engine.clock = r.engine.clock)
    (batch : r'.engine.values.batch = r.engine.values.batch)
    (backlog : r'.engine.backlog = r.engine.backlog) : r.Heard [] [] r' where
  notices := notices.trans (List.append_nil _).symm
  handler := handler
  client := client
  answers := .silent _
  clock := clock
  batch := batch
  backlog := backlog.trans (Traffic.append_nothing _).symm

theorem trans {first later : List Notice} {done more : List Request} (one : r.Heard first done r')
    (two : r'.Heard later more r'') : r.Heard (first ++ later) (done ++ more) r'' := by
  have next := two.answers
  rw [one.handler, one.client] at next
  constructor
  · rw [two.notices, one.notices, List.append_assoc]
  · rw [two.handler, one.handler]
  · rw [two.client, one.handler, one.client, Handler.hears, Handler.hears, Handler.hears,
      List.foldl_append]
  · exact one.answers.append next
  · rw [two.clock, one.clock]
  · rw [two.batch, one.batch]
  · rw [two.backlog, one.backlog, one.clock, Traffic.of_requests_append, Traffic.append_assoc]

theorem tell (r : Run σ) (n : Notice) : ∃ done, r.Heard [n] done (r.tell n).2 := by
  obtain ⟨done, heeds, sent⟩ := r.engine.backlog_heed (r.engine.handler n r.client).1.requests
  have answers : r.engine.handler.Answers r.client [n] (done ++ []) := .tell heeds (.silent _)
  rw [List.append_nil] at answers
  refine ⟨done, rfl, r.handler_tell n, rfl, answers, r.clock_tell n, ?_, ?_⟩
  · exact (updates_advance.tell r n).1
  · simp only [Run.tell]
    split <;> exact sent

/-- What is sent is what is new in the mailboxes. -/
theorem sends_eq {told : List Notice} {done : List Request} (heard : r.Heard told done r') :
    r.sends r' = .ofRequests r.engine.clock done := by
  have events := congrArg Traffic.events heard.backlog
  have updates := congrArg Traffic.updates heard.backlog
  simp only [Engine.backlog, Traffic.events_append] at events
  simp only [Engine.backlog, Engine.waiting, Traffic.updates_append, heard.batch,
    List.append_assoc, List.append_cancel_left_eq] at updates
  refine Traffic.ext ?_ ?_ rfl
  · rw [sends, events, List.drop_left]
  · rw [sends, updates, List.drop_left]

end Heard

theorem heard_advance : Advances fun r r' : Run σ => ∃ told done, r.Heard told done r' where
  refl _ := ⟨[], [], .silent rfl rfl rfl rfl rfl rfl⟩
  trans := fun ⟨_, _, one⟩ ⟨_, _, two⟩ => ⟨_, _, one.trans two⟩
  tell r n := ⟨[n], Heard.tell r n⟩
  enter _ _ _ _ := ⟨[], [], .silent rfl rfl rfl rfl rfl rfl⟩
  falls _ := ⟨[], [], .silent rfl rfl rfl rfl rfl rfl⟩
  record _ _ := ⟨[], [], .silent rfl rfl rfl rfl rfl rfl⟩
  park _ _ := ⟨[], [], .silent rfl rfl rfl rfl rfl rfl⟩

/-- The processing of an event sends what the application asks for, and takes nothing. -/
theorem heard_process (r : Run σ) (event : Event) :
    ∃ done, r.Heard (r.tells event) done (r.process event) := by
  obtain ⟨told, done, heard⟩ := heard_advance.process r event
  have tells : r.tells event = told := by
    rw [Run.tells, heard.notices, List.drop_left]
  exact ⟨done, tells ▸ heard⟩

/-- So does the rest of the processing of an event, and it is the earlier handler that is told. -/
theorem heard_carry_on (r : Run σ) (p : Pending σ) : ∃ done,
    p.handler.Answers r.client ((r.carryOn p).notices.drop r.notices.length) done ∧
    r.sends (r.carryOn p) = .ofRequests r.engine.clock done ∧
    (r.carryOn p).engine.backlog = r.engine.backlog ++ r.sends (r.carryOn p) := by
  obtain ⟨told, done, heard⟩ :=
    heard_advance.goOn p.errand (r.withEngine fun e => { e with handler := p.handler })
  have sent : r.sends (r.carryOn p) = .ofRequests r.engine.clock done := heard.sends_eq
  have tells : (r.carryOn p).notices.drop r.notices.length = told := by
    rw [show (r.carryOn p).notices = r.notices ++ told from heard.notices, List.drop_left]
  exact ⟨done, tells ▸ heard.answers, sent, sent ▸ heard.backlog⟩

end Run

namespace Session
variable {σ : Type}

/-- An event in the middle of which a worker is, with all as it is as that goes on. -/
def left (s : Session σ) (i : Nat) : Option (Run σ × Pending σ) :=
  s.engine.pending[i]?.map fun p =>
    (s.run.withEngine fun e => { e with pending := e.pending.eraseIdx i }, p)

/-- What is sent in an action: by the application, by the handlers that it has installed, or by the
worker whose turn it is. -/
def sent (s : Session σ) : Action σ → Traffic
  | .submit event => { events := [event] }
  | .assign name value => { updates := [⟨name, value, s.engine.clock⟩] }
  | .work .derive =>
    match s.engine.changes.pop? with
    | none => {}
    | some (change, changes) =>
      let e := { s.engine with changes }
      { events := e.synthesized e.triggers ++ [.internal change.reading] }
  | .work .apply => { changes := (s.reported (.work .apply)).toList }
  | .work .fire => { changes := (s.reported (.work .fire)).toList }
  | .work .wake =>
    match s.engine.states.wake? s.engine.clock with
    | none | some (none, _) => {}
    | some (some armed, _) => { events := [.stateTimeout armed.state] }
  | .work .process =>
    match s.taken (.work .process) with
    | none => {}
    | some (r, event) => r.sends (r.process event)
  | .work (.carry i) =>
    match s.left i with
    | none => {}
    | some (r, p) => r.sends (r.carryOn p)
  | .work .take | .work .leave | .init _ | .load _ | .start | .stop | .install _ | .pass _ => {}

/-- What a worker takes up in an action: the event that it processes, the update that it applies or
the change for which it checks the triggers. -/
def received (s : Session σ) : Action σ → Traffic
  | .work .process => { events := (s.taken (.work .process)).toList.map (·.2) }
  | .work .apply => { updates := s.engine.values.batch.head?.toList }
  | .work .derive => { changes := s.engine.changes.pop?.toList.map (·.1) }
  | _ => {}

/-- What is lost in an action: the worker breaks down over an update, and those behind it that it
had taken along with that are never applied. -/
def lost (s : Session σ) : Action σ → Traffic
  | .work .apply => { updates := s.run.lost (.work .apply) }
  | _ => {}

/-- What the workers are through with in an action. -/
def spent (s : Session σ) (a : Action σ) : Traffic := s.received a ++ s.lost a

/-- All the traffic of this kind in the course of some actions. -/
def traffic (kind : Session σ → Action σ → Traffic) (s : Session σ) : List (Action σ) → Traffic
  | [] => {}
  | a :: rest => kind s a ++ traffic kind (s.act a) rest

theorem events_taken (s : Session σ) (a : Action σ) :
    (s.received a).events = (s.taken a).toList.map (·.2) := by
  cases a with
  | work w => cases w <;> rfl
  | _ => rfl

theorem events_processed (actions : List (Action σ)) (s : Session σ) :
    (s.traffic received actions).events = (s.processed actions).map (·.2) := by
  induction actions generalizing s with
  | nil => rfl
  | cons a rest ih =>
    rw [traffic, processed, List.map_append, Traffic.events_append, events_taken, ih]

theorem backlog_init (m : Machine σ) (d : Definition) :
    (m.init d).2.engine.backlog = m.engine.backlog :=
  init_keeps (P := fun e => e.backlog = m.engine.backlog)
    (fun _ _ enrolled same => enrolled.backlog.trans same) m d rfl

theorem backlog_adopt (s : Session σ) (r : Run σ) :
    (s.adopt r).engine.backlog = r.engine.backlog :=
  view_adopt Engine.backlog (fun _ _ => rfl) s r

theorem backlog_still {s : Session σ} {a : Action σ} (unsent : s.sent a = {})
    (unspent : s.spent a = {}) (same : (s.act a).engine.backlog = s.engine.backlog) :
    s.engine.backlog ++ s.sent a = s.spent a ++ (s.act a).engine.backlog := by
  rw [unsent, unspent, same, Traffic.append_nothing, Traffic.nothing_append]

theorem backlog_idle {s : Session σ} {w : Work} (idle : s.run.work? w = none) :
    s.sent (.work w) = {} ∧ s.spent (.work w) = {} := by
  cases w with
  | derive =>
    have empty : s.engine.changes.pop? = none := Option.map_eq_none_iff.mp idle
    exact ⟨by simp only [sent, empty], by simp [spent, received, empty]; rfl⟩
  | apply =>
    have empty : s.engine.values.batch = [] := by
      simp only [Run.work?] at idle
      split at idle
      · assumption
      · cases idle
    refine ⟨by simp [sent, reported, empty], ?_⟩
    simp [spent, received, lost, Run.lost, run, empty]
    rfl
  | fire =>
    have empty : s.engine.values.timers.release? s.engine.clock = none :=
      Option.map_eq_none_iff.mp idle
    exact ⟨by simp [sent, reported, empty], rfl⟩
  | wake =>
    have quiet : s.engine.states.wake? s.engine.clock = none := Option.map_eq_none_iff.mp idle
    exact ⟨by simp only [sent, quiet], rfl⟩
  | process =>
    have untaken : s.taken (.work .process) = none := taken_eq_none_iff.mpr idle
    exact ⟨by simp only [sent, untaken], by simp [spent, received, untaken]; rfl⟩
  | carry i =>
    have none : s.left i = none := Option.map_eq_none_iff.mpr (Option.map_eq_none_iff.mp idle)
    exact ⟨by simp only [sent, none], rfl⟩
  | take | leave => exact ⟨rfl, rfl⟩

theorem backlog_worked {s : Session σ} {w : Work} {r : Run σ} (worked : Worked s.run w r) :
    s.engine.backlog ++ s.sent (.work w) = s.spent (.work w) ++ r.engine.backlog := by
  cases worked with
  | @derive change changes popped =>
    have popped' : s.engine.changes.pop? = some (change, changes) := popped
    obtain ⟨items, _⟩ := Mailbox.items_of_pop _ _ _ popped'
    have before : s.engine.backlog =
        { changes := [change] } ++ { s.engine with changes }.backlog := Traffic.ext rfl rfl items
    simp only [sent, spent, received, lost, Traffic.append_nothing, popped', Option.toList_some,
      List.map_cons, List.map_nil]
    rw [before, Traffic.append_assoc, ← Engine.backlog_derive]
    rfl
  | @apply update batch taken =>
    have taken' : s.engine.values.batch = update :: batch := taken
    have before : s.engine.backlog = { updates := update :: s.run.lost (.work .apply) } ++
        { s.engine with values := ({ s.engine.values with batch }.apply update).1 }.backlog := by
      refine Traffic.ext rfl ?_ rfl
      rw [Engine.backlog, Engine.waiting, taken', List.cons_append]
      exact congrArg (update :: ·) (Run.waiting_apply taken)
    simp only [sent, spent, received, lost, reported, taken', List.head?_cons, Option.toList_some]
    rw [before, Traffic.append_assoc, ← Engine.backlog_report]
    rfl
  | take =>
    refine (Traffic.append_nothing _).trans ?_
    exact Traffic.ext rfl s.engine.values.take_waiting.symm rfl
  | @fire timer timers released =>
    have released' : s.engine.values.timers.release? s.engine.clock = some (timer, timers) :=
      released
    have before : s.engine.backlog = { s.engine with values :=
        ({ s.engine.values with timers }.fire timer s.engine.clock).1 }.backlog := by
      rw [Holding.fire_frame]
      rfl
    simp only [sent, spent, received, lost, reported, released']
    rw [before, ← Engine.backlog_report]
    rfl
  | @wake armed states woken =>
    have woken' : s.engine.states.wake? s.engine.clock = some (some armed, states) := woken
    simp only [sent, woken']
    exact Traffic.ext rfl (List.append_nil _) (List.append_nil _)
  | @wakeOverrun states woken =>
    have woken' : s.engine.states.wake? s.engine.clock = some (none, states) := woken
    simp only [sent, woken']
    exact Traffic.append_nothing _
  | @process event events free popped =>
    have taken : s.taken (.work .process) = _ := taken_of_popped free popped
    obtain ⟨items, _⟩ := Mailbox.items_of_pop _ _ _ popped
    have before : s.engine.backlog =
        { events := [event] } ++ (s.run.withEngine fun e => { e with events }).engine.backlog :=
      Traffic.ext items rfl rfl
    obtain ⟨done, heard⟩ := (s.run.withEngine fun e => { e with events }).heard_process event
    simp only [sent, spent, received, lost, taken, Option.toList_some, List.map_cons, List.map_nil]
    rw [heard.backlog, heard.sends_eq, before, Traffic.append_assoc]
    rfl
  | @carry i p here =>
    have left : s.left i = some
        (s.run.withEngine fun e => { e with pending := e.pending.eraseIdx i }, p) := by
      rw [Session.left, show s.engine.pending[i]? = some p from here]
      rfl
    obtain ⟨_, _, _, backlog⟩ :=
      (s.run.withEngine fun e => { e with pending := e.pending.eraseIdx i }).heard_carry_on p
    simp only [sent, left]
    rw [backlog]
    rfl
  | leave => exact Traffic.append_nothing _

/-- Whatever an action takes up is what had waited longest, and what it sends waits behind all
else. -/
theorem backlog_act (s : Session σ) (a : Action σ) :
    s.engine.backlog ++ s.sent a = s.spent a ++ (s.act a).engine.backlog := by
  cases a with
  | init d => exact backlog_still rfl rfl (backlog_init s.machine d)
  | load source =>
    cases source with
    | error cause => exact backlog_still rfl rfl rfl
    | ok d => exact backlog_still rfl rfl (backlog_init s.machine d)
  | start =>
    refine backlog_still rfl rfl ?_
    have started := Engine.started { s.engine with handler := s.machine.callbacks.handler }
    rcases start_cases s.machine with ⟨cause, refused⟩ | ⟨_, _, _, e, ⟨ends, same⟩ | ⟨ends, same⟩⟩
    · simp only [act, refused]
      rfl
    -- Whether it comes to its end or breaks down, a start sends nothing and takes nothing up.
    all_goals
      rw [show Engine.start { s.engine with handler := s.machine.callbacks.handler } = _ from ends]
        at started
      simp only [act, same]
      exact Engine.backlog_started started
  | stop =>
    refine backlog_still rfl rfl ?_
    rcases stop_cases s.machine with same | ⟨_, stopped⟩
    · exact congrArg (·.engine.backlog) same
    · exact congrArg (·.engine.backlog) stopped
  | submit event =>
    exact Traffic.ext rfl (List.append_nil _) (List.append_nil _)
  | assign name value =>
    exact Traffic.ext (List.append_nil _) (List.append_assoc _ _ _) (List.append_nil _)
  | install change =>
    refine backlog_still rfl rfl ?_
    rcases install_cases s.machine change with ⟨_, same⟩ | ⟨_, same⟩ <;>
    · simp only [act, same]
      rfl
  | pass span => exact backlog_still rfl rfl rfl
  | work w =>
    cases did : s.run.work? w with
    | none =>
      obtain ⟨unsent, unspent⟩ := backlog_idle did
      exact backlog_still unsent unspent (by simp only [act, did])
    | some r =>
      rw [show s.act (.work w) = s.adopt r by simp only [act, did], backlog_adopt]
      exact backlog_worked (worked_of_work did)

theorem backlog_perform (actions : List (Action σ)) (s : Session σ) :
    s.engine.backlog ++ s.traffic sent actions =
      s.traffic spent actions ++ (s.perform actions).engine.backlog := by
  induction actions generalizing s with
  | nil => exact Traffic.append_nothing _
  | cons a rest ih =>
    rw [traffic, traffic, ← Traffic.append_assoc, backlog_act, Traffic.append_assoc, ih,
      Traffic.append_assoc]
    rfl

/-- Only updates are ever lost. -/
theorem traffic_spent (actions : List (Action σ)) (s : Session σ) :
    (s.traffic spent actions).events = (s.traffic received actions).events ∧
    (s.traffic spent actions).changes = (s.traffic received actions).changes ∧
    ((s.traffic lost actions).updates = [] →
      (s.traffic spent actions).updates = (s.traffic received actions).updates) := by
  have here (s : Session σ) (a : Action σ) : (s.lost a).events = [] ∧ (s.lost a).changes = [] := by
    unfold lost
    split <;> exact ⟨rfl, rfl⟩
  induction actions generalizing s with
  | nil => exact ⟨rfl, rfl, fun _ => rfl⟩
  | cons a rest ih =>
    obtain ⟨events, changes, updates⟩ := ih (s.act a)
    refine ⟨?_, ?_, fun none => ?_⟩
    · simp [traffic, spent, (here s a).1, events]
    · simp [traffic, spent, (here s a).2, changes]
    · simp only [traffic, Traffic.updates_append, List.append_eq_nil_iff] at none
      simp [traffic, spent, none.1, updates none.2]

/-- What an action takes up is dealt with in it, and what the application is asked to send in it, by
its handlers, is what these ask for. -/
structure Deals (s : Session σ) (a : Action σ) : Prop where
  events : ∀ event ∈ (s.received a).events, ∃ r, s.taken a = some (r, event) ∧
    s.act a = s.adopt (r.process event) ∧ ∃ done,
      r.engine.handler.Answers r.client (r.tells event) done ∧
      s.sent a = .ofRequests s.engine.clock done
  resumed : ∀ i r p, a = .work (.carry i) → s.left i = some (r, p) →
    s.act a = s.adopt (r.carryOn p) ∧ ∃ done,
      p.handler.Answers r.client ((r.carryOn p).notices.drop r.notices.length) done ∧
      s.sent a = .ofRequests s.engine.clock done
  updates : ∀ u ∈ (s.received a).updates, (s.act a).engine.values.value u.name = u.value
  changes : ∀ c ∈ (s.received a).changes, ∃ changes handler,
    s.engine.changes.pop? = some (c, changes) ∧
    (s.act a).engine = { Engine.derive { s.engine with changes } c with handler }

theorem deals (s : Session σ) (a : Action σ) : s.Deals a := by
  constructor
  · intro event member
    rw [events_taken] at member
    obtain ⟨⟨r, event⟩, taken, rfl⟩ := List.mem_map.mp member
    replace taken : s.taken a = some (r, event) := Option.mem_toList.mp taken
    obtain ⟨rfl, result, events, _, rfl⟩ := taken_cases taken
    obtain ⟨done, heard⟩ := (s.run.withEngine fun e => { e with events }).heard_process event
    refine ⟨_, taken, result, done, heard.answers, ?_⟩
    simp only [sent, taken]
    exact heard.sends_eq
  · rintro i r p rfl left
    obtain ⟨p', here, same⟩ := Option.map_eq_some_iff.mp left
    cases same
    obtain ⟨done, answers, sends, _⟩ :=
      (s.run.withEngine fun e => { e with pending := e.pending.eraseIdx i }).heard_carry_on p
    refine ⟨?_, done, answers, ?_⟩
    · simp only [act, Run.work?]
      rw [show s.run.engine.pending[i]? = some p from here]
      rfl
    · simp only [sent, left]
      exact sends
  · intro u member
    unfold received at member
    split at member
    · cases member
    · next a =>
      obtain ⟨rest, taken⟩ := List.head?_eq_some_iff.mp (Option.mem_toList.mp member)
      obtain ⟨_, handler, result⟩ := act_apply taken
      rw [result, values_report]
      exact Holding.value_apply _ u
    · cases member
    · cases member
  · intro c member
    unfold received at member
    split at member
    · cases member
    · cases member
    · obtain ⟨⟨c, changes⟩, popped, rfl⟩ := List.mem_map.mp member
      replace popped : s.engine.changes.pop? = some (c, changes) := Option.mem_toList.mp popped
      obtain ⟨handler, same⟩ :=
        engine_adopt s (s.run.withEngine fun e => { e with changes }.derive c)
      refine ⟨changes, handler, popped, Eq.trans ?_ same⟩
      simp only [act, Run.work?, run, popped]
      rfl
    · cases member

/-- Of all that was sent since a machine was new, the first part has been taken up, each item once
and in the order in which it was sent, and the rest waits: events to be processed, updates to be
applied and reported changes for which the triggers are to be checked. What is taken up is dealt
with there and then. The one thing that is lost are the updates that the worker had taken along with
one over which it broke down. -/
theorem sent_is_received_or_waits (name : String) (client : σ) (actions : List (Action σ)) :
    let start := fresh name client
    let e := (start.perform actions).engine
    (start.traffic sent actions).events =
      (start.traffic received actions).events ++ e.events.items ∧
    (start.traffic sent actions).updates =
      (start.traffic spent actions).updates ++ (e.values.batch ++ e.values.updates.items) ∧
    ((start.traffic lost actions).updates = [] → (start.traffic sent actions).updates =
      (start.traffic received actions).updates ++ (e.values.batch ++ e.values.updates.items)) ∧
    (start.traffic sent actions).changes =
      (start.traffic received actions).changes ++ e.changes.items ∧
    ∀ before a after, actions = before ++ a :: after → (start.perform before).Deals a := by
  intro start e
  have conserved := backlog_perform actions start
  obtain ⟨events, changes, updates⟩ := traffic_spent actions start
  have waiting : (start.traffic sent actions).updates =
      (start.traffic spent actions).updates ++ (e.values.batch ++ e.values.updates.items) :=
    congrArg Traffic.updates conserved
  refine ⟨?_, waiting, fun none => ?_, ?_, fun before a _ _ => deals _ a⟩
  · rw [← events]
    exact congrArg Traffic.events conserved
  · rw [← updates none]
    exact waiting
  · rw [← changes]
    exact congrArg Traffic.changes conserved

/-- It is to be seen when the cellar becomes damp. The other value would have to stand for longer
than the clock can count. -/
def cellar : Definition where
  states := [{ name := "A" }]
  initial := "A"
  rules := [.whenCondition "A" "A" ((Condition.between "draft" 1 10).sustained Clock.horizon)]
  triggers := [{ name := "damp", conditions := [.between "water" 1 10] }]

/-- The water rises before the machine is started, and goes on to rise while it is stopped. -/
def flooding : List (Action Unit) :=
  [.init cellar, .assign "water" 5, .assign "water" 20, .start, .work .take, .work .apply,
    .work .derive, .work .apply, .stop, .assign "water" 30, .submit { name := "pump" }, .start,
    .work .process]

theorem flooding_delivered :
    let start := fresh "cellar" ()
    let e := (start.perform flooding).engine
    (start.traffic received flooding).updates = [⟨"water", 5, 0⟩, ⟨"water", 20, 0⟩] ∧
    (start.traffic sent flooding).updates =
      (start.traffic received flooding).updates ++ [⟨"water", 30, 0⟩] ∧
    (start.traffic received flooding).changes.map (·.value) = [5] ∧
    (start.traffic sent flooding).changes =
      (start.traffic received flooding).changes ++
        [{ name := "water", value := 20, accepted := false }] ∧
    (start.traffic received flooding).events.map (·.name) = ["damp"] ∧
    (start.traffic sent flooding).events =
      (start.traffic received flooding).events ++ e.events.items ∧
    e.events.items.map (·.name) = [internalEvent, "pump"] ∧
    ∀ before a after, flooding = before ++ a :: after → (start.perform before).Deals a := by
  obtain ⟨events, _, updates, changes, deals⟩ := sent_is_received_or_waits "cellar" () flooding
  have kept : ((fresh "cellar" ()).traffic lost flooding).updates = [] := by decide +kernel
  refine ⟨by decide +kernel, ?_, by decide +kernel, ?_, by decide +kernel, events,
    by decide +kernel, deals⟩
  · rw [updates kept]
    exact congrArg _ (by decide +kernel)
  · rw [changes]
    exact congrArg _ (by decide +kernel)

/-- Two values are set before the machine is started. The worker takes both updates and breaks down
over the first one; the second is neither applied nor does it wait, not even after a restart. -/
theorem draft_loses_update :
    let start := fresh "cellar" ()
    let actions := [.init cellar, .assign "draft" 5, .assign "water" 3, .start, .work .take,
      .work .apply, .stop, .start]
    let e := (start.perform actions).engine
    (start.traffic sent actions).updates = [⟨"draft", 5, 0⟩, ⟨"water", 3, 0⟩] ∧
    (start.traffic received actions).updates = [⟨"draft", 5, 0⟩] ∧
    e.values.batch = [] ∧ e.values.updates.items = [] ∧ e.values.value "water" = 0 := by
  decide +kernel

/-- An application that, as soon as a state is entered, asks for the way back and then for a
stop. -/
def hurried : Handler Unit := fun n _ =>
  ({ requests := if n.role = .enter then [.submit { name := "down" }, .stop] else [] }, ())

example :
    let start := fresh "lamp" ()
    let actions := [.submit { name := "up" }, .init lamp, .install (·.delegateTo hurried), .start,
      .work .process, .work .leave, .submit { name := "late" }, .start, .work .process]
    (start.traffic sent actions).events.map (·.name) = ["up", "down", "late", "down"] ∧
    (start.traffic received actions).events.map (·.name) = ["up", "down"] ∧
    (start.perform actions).engine.events.items.map (·.name) = ["late", "down"] := by
  decide +kernel

end Session
end Statechart
