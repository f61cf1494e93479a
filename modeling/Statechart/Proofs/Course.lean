import Statechart.Proofs.Calls
import Statechart.Proofs.Inspection
/-!
Courses of an engine. The parts of an engine can be used one by one, without a machine around them:
registered with while they stand still, started and stopped in any order, handed values that were
stamped a while ago, made to write a value or to check the triggers out of turn. A course is any
sequence of such turns, of pieces of work of any worker and of the passing of time, from a new
engine on. Every session of a machine is one as far as its engine goes.
-/

namespace Statechart

inductive Part
  | states
  | values
  | events
  deriving DecidableEq

inductive Turn (σ : Type)
  | register (x : Registration)
  | handle (h : Handler σ)
  /-- A handler that has stopped the parts and started them again is relieved by another one. -/
  | relieve (h : Handler σ)
  | closeRules
  | openRules
  | start (p : Part)
  | stop (p : Part)
  | submit (event : Event)
  /-- A value is submitted that was stamped some time before. -/
  | assign (name : String) (value : Int64) (lag : Nat)
  /-- A value is written past the mailbox. -/
  | store (name : String) (value : Int64)
  /-- The triggers are checked after a change, reported or not. -/
  | derive (change : Change)
  | work (w : Work)
  | pass (span : Nat)

theorem timers_fire (h : Holding) (t : HoldTimer) (now : Nat) :
    (h.fire t now).1.timers = h.timers := by
  rw [h.fire_frame t now]

namespace Engine
variable {σ : Type}

def startPart (e : Engine σ) : Part → Engine σ
  | .states => e.startStates.left e
  | .values => e.startValues
  | .events => e.startEvents

def stopPart (e : Engine σ) : Part → Engine σ
  | .states => e.stopStates
  | .values => e.stopValues
  | .events => e.stopEvents

theorem triggers_derive (e : Engine σ) (change : Change) :
    (e.derive change).triggers = e.triggers :=
  derive_frame (·.triggers) (fun _ _ => rfl) (fun _ _ _ => rfl) e change

theorem memory_report (e : Engine σ) (change : Option Change) :
    (e.report change).memory = e.memory := by
  cases change <;> rfl

end Engine

namespace Run
variable {σ : Type}

def fresh (client : σ) : Run σ := { engine := {}, client }

def turn (r : Run σ) : Turn σ → Run σ
  | .register x => r.withEngine fun e => (x.perform e).left e
  | .handle h => r.withEngine fun e => Ending.left e (e.setHandler h)
  | .relieve h => r.withEngine fun e => { e with handler := h }
  | .closeRules => r.withEngine fun e => { e with rules := e.rules.close }
  | .openRules => r.withEngine fun e => { e with rules := e.rules.reopen }
  | .start p => r.withEngine (·.startPart p)
  | .stop p => r.withEngine (·.stopPart p)
  | .submit event => r.withEngine (·.submit event)
  | .assign name value lag => r.withEngine fun e =>
    { e with values := e.values.submit name value (e.clock - lag) }
  | .store name value => r.withEngine fun e =>
    { e with values := e.values.store name value e.clock }
  | .derive change => r.withEngine (·.derive change)
  | .work w => (r.work? w).getD r
  | .pass span => r.withEngine fun e => { e with clock := e.clock + span }

def course (r : Run σ) (turns : List (Turn σ)) : Run σ := turns.foldl turn r

def Reached (r : Run σ) : Prop := ∃ client turns, r = (fresh client).course turns

/-- The check of the triggers that a turn makes: the engine as it is then, and the change. -/
def pass? (r : Run σ) : Turn σ → Option (Engine σ × Change)
  | .derive change => some (r.engine, change)
  | .work .derive =>
    r.engine.changes.pop?.map fun (change, changes) => ({ r.engine with changes }, change)
  | _ => none

def inspected (r : Run σ) (a : Turn σ) : List Inspection :=
  match r.pass? a with
  | none => []
  | some (e, _) => e.inspections e.triggers

/-- The name of a value that a turn writes, other than as a mark of a trigger. -/
def written (r : Run σ) : Turn σ → List String
  | .store name _ => [name]
  | .work .apply => (r.engine.values.batch.head?.map (·.name)).toList
  | _ => []

/-- The confirmation that a turn reports. -/
def confirmed (r : Run σ) : Turn σ → Option Change
  | .work .fire =>
    match r.engine.values.timers.release? r.engine.clock with
    | none => none
    | some (timer, timers) => ({ r.engine.values with timers }.fire timer r.engine.clock).2
  | _ => none

/-- All that some turns tell, in order, where each of them tells something of this kind. -/
def along {α : Type} (tells : Run σ → Turn σ → List α) (r : Run σ) (turns : List (Turn σ)) :
    List α := noted turn tells r turns

def inspections (r : Run σ) (turns : List (Turn σ)) : List Inspection := r.along inspected turns

def writes (r : Run σ) (turns : List (Turn σ)) : List String := r.along written turns

theorem course_append (r : Run σ) (first later : List (Turn σ)) :
    r.course (first ++ later) = (r.course first).course later :=
  List.foldl_append

theorem course_snoc (r : Run σ) (turns : List (Turn σ)) (a : Turn σ) :
    r.course (turns ++ [a]) = (r.course turns).turn a := by
  rw [course_append]
  rfl

theorem along_cons {α : Type} (tells : Run σ → Turn σ → List α) (r : Run σ) (a : Turn σ)
    (rest : List (Turn σ)) :
    r.along tells (a :: rest) = tells r a ++ (r.turn a).along tells rest := rfl

theorem along_append {α : Type} (tells : Run σ → Turn σ → List α) (first later : List (Turn σ))
    (r : Run σ) : r.along tells (first ++ later) =
      r.along tells first ++ (r.course first).along tells later :=
  noted_append first later r

theorem along_snoc {α : Type} (tells : Run σ → Turn σ → List α) (r : Run σ)
    (turns : List (Turn σ)) (a : Turn σ) :
    r.along tells (turns ++ [a]) = r.along tells turns ++ tells (r.course turns) a := by
  rw [along_append]
  simp [along, noted]

theorem Reached.course {r : Run σ} (reached : r.Reached) (turns : List (Turn σ)) :
    (r.course turns).Reached := by
  obtain ⟨client, before, rfl⟩ := reached
  exact ⟨client, before ++ turns, (course_append _ _ _).symm⟩

theorem Reached.turn {r : Run σ} (reached : r.Reached) (a : Turn σ) : (r.turn a).Reached :=
  reached.course [a]

/-- What holds of a new engine, and is kept by every turn, holds wherever a course leads. -/
theorem Reached.keeps {r : Run σ} (reached : r.Reached) {P : Run σ → Prop}
    (starts : ∀ client, P (fresh client)) (keeps : ∀ r a, P r → P (r.turn a)) : P r := by
  obtain ⟨client, turns, rfl⟩ := reached
  have run (r : Run σ) (holds : P r) : P (r.course turns) := by
    induction turns generalizing r with
    | nil => exact holds
    | cons a rest ih => exact ih (r.turn a) (keeps r a holds)
  exact run _ (starts client)

/-- All that a turn can do to the live values, the pending timers and the triggers. -/
inductive Turned (r : Run σ) : Turn σ → Run σ → Prop
  | still {a : Turn σ} {r' : Run σ} : r.pass? a = none → r.written a = [] → r.confirmed a = none →
    r'.engine.memory = r.engine.memory → r'.engine.triggers = r.engine.triggers → Turned r a r'
  | passed {a : Turn σ} {r' : Run σ} {e : Engine σ} {change : Change} :
    r.pass? a = some (e, change) → r.written a = [] → r.confirmed a = none →
    e.memory = r.engine.memory → e.triggers = r.engine.triggers → e.events = r.engine.events →
    r'.engine = e.derive change → Turned r a r'
  | applied {r' : Run σ} {u : Update} {rest : List Update} : r.engine.values.batch = u :: rest →
    r'.engine.memory =
      ((r.engine.values.apply u).1.signals, (r.engine.values.apply u).1.timers.entries) →
    r'.engine.triggers = r.engine.triggers → Turned r (.work .apply) r'
  | fired {r' : Run σ} {timer : HoldTimer} {timers : Agenda HoldTimer} :
    r.engine.values.timers.release? r.engine.clock = some (timer, timers) →
    r'.engine.memory =
      (({ r.engine.values with timers }.fire timer r.engine.clock).1.signals, timers.entries) →
    r'.engine.triggers = r.engine.triggers → Turned r (.work .fire) r'
  | stored {r' : Run σ} {name : String} {value : Int64} :
    r'.engine.memory = ((r.engine.values.store name value r.engine.clock).signals,
      r.engine.values.timers.entries) →
    r'.engine.triggers = r.engine.triggers → Turned r (.store name value) r'
  | ensured {r' : Run σ} {c : Condition} :
    r'.engine.memory = (Holding.ensured r.engine.values.signals c.name r.engine.clock,
      r.engine.values.timers.entries) →
    r'.engine.triggers = r.engine.triggers → Turned r (.register (.condition c)) r'
  | enrolled {r' : Run σ} {t : Trigger} : isReserved t.name = false →
    (∀ k ∈ r.engine.triggers, k.name ≠ t.name) →
    r'.engine.memory = (Holding.ensured r.engine.values.signals t.name r.engine.clock,
      r.engine.values.timers.entries) →
    r'.engine.triggers = r.engine.triggers ++ [t] → Turned r (.register (.trigger t)) r'

theorem turned_trigger {r : Run σ} {t : Trigger} {e : Engine σ}
    (added : r.engine.addTrigger t = .ok e) :
    Turned r (.register (.trigger t)) { r with engine := e } := by
  obtain ⟨_, free, new, rfl⟩ := Engine.add_trigger_cases added
  refine .enrolled free new ?_ rfl
  simp only [Engine.memory, Holding.ensured]
  cases known : r.engine.values.signals.contains t.name with
  | true => rfl
  | false =>
    have unknown : r.engine.values.signals.find? t.name = none := by
      simpa [Table.contains] using known
    simp [Holding.store, Holding.signal?, unknown, Signal.write, Signal.create]

theorem turned_register (r : Run σ) (x : Registration) :
    Turned r (.register x) (r.turn (.register x)) := by
  have registered := x.registered r.engine
  simp only [turn, withEngine]
  generalize x.perform r.engine = ending at registered ⊢
  cases registered with
  | condition added =>
    obtain ⟨_, rfl⟩ := Holding.add_cases added
    exact .ensured rfl rfl
  | trigger added => exact turned_trigger added
  | state | rule | initial | overrun | refused => exact .still rfl rfl rfl rfl rfl

theorem idle_tells_nothing {r : Run σ} {w : Work} (idle : r.work? w = none) :
    r.pass? (.work w) = none ∧ r.written (.work w) = [] ∧ r.confirmed (.work w) = none := by
  cases w with
  | derive => exact ⟨by simpa [work?, pass?] using idle, rfl, rfl⟩
  | apply =>
    refine ⟨rfl, ?_, rfl⟩
    simp only [work?] at idle
    split at idle
    · next empty => simp [written, empty]
    · cases idle
  | fire =>
    refine ⟨rfl, rfl, ?_⟩
    simp only [work?, Option.map_eq_none_iff] at idle
    simp [confirmed, idle]
  | take => exact ⟨rfl, rfl, rfl⟩
  | wake | process | carry | leave => exact ⟨rfl, rfl, rfl⟩

theorem turned_work (r : Run σ) (w : Work) : Turned r (.work w) (r.turn (.work w)) := by
  cases did : r.work? w with
  | none =>
    obtain ⟨quiet, unwritten, silent⟩ := idle_tells_nothing did
    simp only [turn, did, Option.getD_none]
    exact .still quiet unwritten silent rfl rfl
  | some r' =>
    simp only [turn, did, Option.getD_some]
    have worked := worked_of_work did
    have quiet := worked.memory
    have triggers := congrArg Plan.triggers worked.plan
    cases worked with
    | @derive change changes popped =>
      refine .passed (e := { r.engine with changes }) ?_ rfl rfl rfl rfl rfl rfl
      simp only [pass?, popped, Option.map_some]
    | @apply update batch taken =>
      refine .applied taken ?_ triggers
      refine (Engine.memory_report _ _).trans (Prod.ext ?_ ?_)
      · simp only [Engine.memory, Holding.signals_apply]
        rfl
      · simp only [Engine.memory, Holding.timers_apply]
        rfl
    | take => exact .still rfl rfl rfl (quiet (by decide)) triggers
    | fire released =>
      refine .fired released ?_ triggers
      exact (Engine.memory_report _ _).trans
        (Prod.ext rfl (congrArg Agenda.entries (timers_fire _ _ _)))
    | wake woken | wakeOverrun woken => exact .still rfl rfl rfl (quiet (by decide)) triggers
    | process _ popped => exact .still rfl rfl rfl (quiet (by decide)) triggers
    | carry here => exact .still rfl rfl rfl (quiet (by simp)) triggers
    | leave => exact .still rfl rfl rfl (quiet (by decide)) triggers

theorem turned (r : Run σ) (a : Turn σ) : Turned r a (r.turn a) := by
  cases a with
  | register x => exact r.turned_register x
  | handle h =>
    simp only [turn, withEngine, Engine.setHandler]
    split <;> exact .still rfl rfl rfl rfl rfl
  | relieve h => exact .still rfl rfl rfl rfl rfl
  | closeRules => exact .still rfl rfl rfl rfl rfl
  | openRules => exact .still rfl rfl rfl rfl rfl
  | start p =>
    simp only [turn, withEngine]
    cases p <;> simp only [Engine.startPart, Engine.startStates, Engine.startValues, Holding.start,
      Engine.startEvents]
    · cases r.engine.states.start r.engine.clock <;> exact .still rfl rfl rfl rfl rfl
    · split <;> exact .still rfl rfl rfl rfl rfl
    · split <;> exact .still rfl rfl rfl rfl rfl
  | stop p => cases p <;> exact .still rfl rfl rfl rfl rfl
  | submit event => exact .still rfl rfl rfl rfl rfl
  | assign name value lag => exact .still rfl rfl rfl rfl rfl
  | store name value => exact .stored rfl rfl
  | derive change => exact .passed rfl rfl rfl rfl rfl rfl rfl
  | work w => exact r.turned_work w
  | pass span => exact .still rfl rfl rfl rfl rfl

theorem Turned.of_pass {r r' : Run σ} {a : Turn σ} (turned : Turned r a r') {e : Engine σ}
    {change : Change} (made : r.pass? a = some (e, change)) :
    e.memory = r.engine.memory ∧ e.triggers = r.engine.triggers ∧ e.events = r.engine.events ∧
      r'.engine = e.derive change := by
  cases turned with
  | passed made' _ _ memory triggers events after =>
    cases made.symm.trans made'
    exact ⟨memory, triggers, events, after⟩
  | still quiet => cases made.symm.trans quiet
  | applied => cases made
  | fired => cases made
  | stored => cases made
  | ensured => cases made
  | enrolled => cases made

/-- The triggers have names of their own, none of them the engine's. -/
structure Enlisted (triggers : List Trigger) : Prop where
  distinct : (triggers.map (·.name)).Nodup
  unreserved : ∀ t ∈ triggers, isReserved t.name = false

/-- A trigger that is registered stays so. -/
theorem Turned.triggers {r r' : Run σ} {a : Turn σ} (turned : Turned r a r') :
    r'.engine.triggers = r.engine.triggers ∨
      ∃ t, isReserved t.name = false ∧ (∀ k ∈ r.engine.triggers, k.name ≠ t.name) ∧
        r'.engine.triggers = r.engine.triggers ++ [t] := by
  cases turned with
  | still _ _ _ _ same => exact .inl same
  | passed _ _ _ _ same _ after =>
    rw [after]
    exact .inl ((Engine.triggers_derive _ _).trans same)
  | applied _ _ same => exact .inl same
  | fired _ _ same => exact .inl same
  | stored _ same => exact .inl same
  | ensured _ same => exact .inl same
  | @enrolled _ t free new _ more => exact .inr ⟨t, free, new, more⟩

theorem Turned.triggers_subset {r r' : Run σ} {a : Turn σ} (turned : Turned r a r') :
    r.engine.triggers ⊆ r'.engine.triggers := by
  rcases turned.triggers with same | ⟨t, _, _, more⟩
  · exact same ▸ List.Subset.refl _
  · exact more ▸ List.subset_append_left _ _

theorem Turned.enlisted {r r' : Run σ} {a : Turn σ} (turned : Turned r a r')
    (enlisted : Enlisted r.engine.triggers) : Enlisted r'.engine.triggers := by
  rcases turned.triggers with same | ⟨t, free, new, more⟩
  · exact same ▸ enlisted
  · rw [more]
    constructor
    · rw [List.map_append, List.nodup_append]
      refine ⟨enlisted.distinct, by simp, ?_⟩
      intro name known last here
      obtain ⟨k, member, rfl⟩ := List.mem_map.mp known
      rw [List.map_singleton, List.mem_singleton] at here
      exact here ▸ new k member
    · intro k member
      rcases List.mem_append.mp member with old | last
      · exact enlisted.unreserved k old
      · exact List.mem_singleton.mp last ▸ free

theorem Reached.enlisted {r : Run σ} (reached : r.Reached) : Enlisted r.engine.triggers := by
  refine reached.keeps (P := fun r => Enlisted r.engine.triggers) ?_ ?_
  · intro client
    constructor
    · exact List.nodup_nil
    · intro t member
      cases member
  · intro r a enlisted
    exact (r.turned a).enlisted enlisted

/-- Registration up to the first refusal is a course. -/
theorem course_register_all (rs : List Registration) (r : Run σ) :
    ∃ turns, r.course turns = { r with engine := (Machine.registerAll rs r.engine).2 } := by
  induction rs generalizing r with
  | nil => exact ⟨[], rfl⟩
  | cons x rest ih =>
    unfold Machine.registerAll
    cases answer : x.perform r.engine with
    | refused cause => exact ⟨[], rfl⟩
    | broken e =>
      refine ⟨[.register x], ?_⟩
      simp only [course, List.foldl_cons, List.foldl_nil, turn, withEngine, answer, Ending.left]
    | done e =>
      obtain ⟨turns, done⟩ := ih { r with engine := e }
      refine ⟨.register x :: turns, ?_⟩
      have made : r.turn (.register x) = { r with engine := e } := by
        simp only [turn, withEngine, answer, Ending.left]
      rw [course, List.foldl_cons, made]
      exact done

end Run

namespace Session
variable {σ : Type}

theorem course_init (s : Session σ) (d : Definition) :
    ∃ turns, (s.act (.init d)).run = s.run.course turns := by
  simp only [act, run, engine, Machine.init]
  split
  · exact ⟨[], rfl⟩
  split
  · exact ⟨[], rfl⟩
  obtain ⟨turns, done⟩ := s.run.course_register_all d.registrations
  refine ⟨turns, done.symm ▸ ?_⟩
  split <;> next all => simp only [run, engine, all]

/-- What an action does to a machine its engine can go through by itself. -/
theorem act_course (s : Session σ) (a : Action σ) :
    ∃ turns, (s.act a).run = s.run.course turns := by
  cases a with
  | init d => exact s.course_init d
  | load source =>
    cases source with
    | error cause => exact ⟨[], rfl⟩
    | ok d => exact s.course_init d
  | start =>
    rcases start_cases s.machine with ⟨cause, refused⟩ | ⟨_, _, idle, engine, ends⟩
    · exact ⟨[], by simp only [act, refused]; rfl⟩
    -- A start installs the callbacks first, and then starts the parts one by one.
    have taken : s.run.turn (.handle s.machine.callbacks.handler) =
        s.run.withEngine fun e => { e with handler := s.machine.callbacks.handler } := by
      simp [Run.turn, Run.withEngine, Engine.setHandler, run, Session.engine, idle, Ending.left,
        Ending.ofExcept]
    have started := Engine.started { s.engine with handler := s.machine.callbacks.handler }
    rcases ends with ⟨done, same⟩ | ⟨broken, same⟩
    · refine ⟨[.handle s.machine.callbacks.handler, .closeRules, .start .states, .start .values,
        .start .events], ?_⟩
      rw [Run.course, List.foldl_cons, taken]
      rw [show Engine.start { s.engine with handler := s.machine.callbacks.handler } = _ from done]
        at started
      cases started with
      | @up states watching =>
        simp only [act, same, Ending.left, Run.turn, Run.withEngine, List.foldl_cons,
          List.foldl_nil, Engine.startPart, Engine.startStates, run, watching, Ending.map]
        rfl
    · refine ⟨[.handle s.machine.callbacks.handler, .closeRules, .start .states], ?_⟩
      rw [Run.course, List.foldl_cons, taken]
      rw [show Engine.start { s.engine with handler := s.machine.callbacks.handler } = _
        from broken] at started
      cases started with
      | @overrun states watching =>
        simp only [act, same, Ending.left, Run.turn, Run.withEngine, List.foldl_cons,
          List.foldl_nil, Engine.startPart, Engine.startStates, run, watching, Ending.map]
        rfl
  | stop =>
    rcases stop_cases s.machine with same | ⟨_, stopped⟩
    · exact ⟨[], by simp only [act, same]; rfl⟩
    · refine ⟨[.stop .events, .stop .values, .stop .states, .openRules], ?_⟩
      simp only [act, stopped]
      rfl
  | submit event => exact ⟨[.submit event], rfl⟩
  | assign name value => exact ⟨[.assign name value 0], rfl⟩
  | install change =>
    refine ⟨[], ?_⟩
    rcases install_cases s.machine change with ⟨_, same⟩ | ⟨_, same⟩ <;>
    · simp only [act, same]
      rfl
  | work w =>
    simp only [act]
    cases did : s.run.work? w with
    | none => exact ⟨[], rfl⟩
    | some r =>
      obtain ⟨handler, same⟩ := run_adopt s r
      refine ⟨[.work w, .relieve handler], same.trans ?_⟩
      simp only [Run.course, List.foldl_cons, List.foldl_nil, Run.turn, did, Option.getD_some]
  | pass span => exact ⟨[.pass span], rfl⟩

theorem Reachable.run_reached {s : Session σ} (reached : s.Reachable) : s.run.Reached := by
  obtain ⟨name, client, actions, rfl⟩ := reached
  refine perform_keeps (P := fun s => s.run.Reached) ?_ _ actions ⟨client, [], rfl⟩
  intro s a reached
  obtain ⟨turns, same⟩ := s.act_course a
  exact same ▸ reached.course turns

end Session
end Statechart
