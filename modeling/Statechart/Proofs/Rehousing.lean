import Statechart.Proofs.Abreast
import Statechart.Proofs.Lifecycle
/-!
What an engine makes of its table of states. It looks states up by name and reads their lineages and
timeouts; it never asks in which order the table lists them or their children. So an engine that is
given another table of the same states does all that it would have done, and so does a session.
-/

namespace Statechart

/-- The same state, but for the order of its children. -/
structure Node.Alike (x y : Node) : Prop where
  lineage : y.lineage = x.lineage
  state : y.state = { x.state with children := y.state.children }
  children : y.state.children.Perm x.state.children

theorem Node.Alike.timeout {x y : Node} (same : x.Alike y) : y.state.timeout = x.state.timeout := by
  rw [same.state]

/-- Both tables hold the same states. -/
structure Alike (nodes nodes' : Table String Node) : Prop where
  keys : nodes'.keys.Perm nodes.keys
  nodes : ∀ name, Option.Rel Node.Alike (nodes.find? name) (nodes'.find? name)

theorem Alike.cases {nodes nodes' : Table String Node} (alike : Alike nodes nodes')
    (name : String) : (nodes.find? name = none ∧ nodes'.find? name = none) ∨
      ∃ x y, nodes.find? name = some x ∧ nodes'.find? name = some y ∧ x.Alike y := by
  have same := alike.nodes name
  cases here : nodes.find? name with
  | none =>
    cases there : nodes'.find? name with
    | none => exact .inl ⟨rfl, rfl⟩
    | some y =>
      rw [here, there] at same
      cases same
  | some x =>
    cases there : nodes'.find? name with
    | none =>
      rw [here, there] at same
      cases same
    | some y =>
      rw [here, there] at same
      cases same with
      | some same => exact .inr ⟨x, y, rfl, rfl, same⟩

namespace Hierarchy

/-- The same states in another table. -/
def rehouse (h : Hierarchy) (nodes : Table String Node) : Hierarchy := { h with nodes }

-- Here and below `(rfl)`, not `rfl`: used as a definitional equation, such a lemma would rewrite a
-- condition but not the instance that decides it.
@[simp] theorem current_rehouse (h : Hierarchy) (nodes : Table String Node) :
    (h.rehouse nodes).current = h.current := (rfl)

section Alike
variable {h : Hierarchy} {nodes : Table String Node} (alike : Alike h.nodes nodes)
include alike

theorem names_rehouse : (h.rehouse nodes).names = h.names := by
  have sorted (keys : List String) : (keys.mergeSort (· ≤ ·)).Pairwise (· ≤ ·) := by
    simpa using @List.pairwise_mergeSort _ (fun a b : String => decide (a ≤ b))
      (by simpa using fun a b c => String.le_trans) (by simpa using String.le_total) keys
  have perm := ((nodes.keys.mergeSort_perm (· ≤ ·)).trans alike.keys).trans
    (h.nodes.keys.mergeSort_perm (· ≤ ·)).symm
  exact perm.eq_of_pairwise (fun a b _ _ => String.le_antisymm) (sorted _) (sorted _)

theorem lineage_or_self_rehouse (name : String) :
    (h.rehouse nodes).lineageOrSelf name = h.lineageOrSelf name := by
  simp only [lineageOrSelf, rehouse]
  rcases alike.cases name with ⟨here, there⟩ | ⟨x, y, here, there, same⟩
  · rw [here, there]
  · rw [here, there]
    exact same.lineage

theorem contains_rehouse (name : String) : (h.rehouse nodes).contains name = h.contains name := by
  simp only [contains, Table.contains, rehouse]
  rcases alike.cases name with ⟨here, there⟩ | ⟨x, y, here, there, same⟩
  · rw [here, there]
  · rw [here, there]
    rfl

theorem allowance_rehouse (name : String) :
    (h.rehouse nodes).allowance name = h.allowance name := by
  simp only [allowance, state?, rehouse]
  rcases alike.cases name with ⟨here, there⟩ | ⟨x, y, here, there, same⟩
  · rw [here, there]
  · rw [here, there]
    exact same.timeout

theorem outlasts_rehouse (name : String) (now : Nat) :
    (h.rehouse nodes).outlasts name now = h.outlasts name now := by
  rw [outlasts, outlasts, allowance_rehouse alike]

theorem armed_for_rehouse (name : String) (now : Nat) :
    (h.rehouse nodes).armedFor name now = h.armedFor name now := by
  rw [armedFor, armedFor, allowance_rehouse alike]

theorem enter_rehouse (name : String) (now : Nat) :
    (h.rehouse nodes).enter name now = (h.enter name now).map (·.rehouse nodes) := by
  rw [enter_eq, enter_eq, contains_rehouse alike, outlasts_rehouse alike, armed_for_rehouse alike]
  split
  · rfl
  · split <;> rfl

theorem start_rehouse (now : Nat) :
    (h.rehouse nodes).start now = (h.start now).map (·.rehouse nodes) := by
  rw [start_eq, start_eq]
  simp only [current_rehouse, outlasts_rehouse alike, armed_for_rehouse alike]
  by_cases runs : h.running = true
  · rw [if_pos runs, if_pos (show (h.rehouse nodes).running = true from runs)]
    rfl
  rw [if_neg runs, if_neg (show ¬(h.rehouse nodes).running = true from runs)]
  split
  · rfl
  · split <;> rfl

end Alike

theorem wake_rehouse (h : Hierarchy) (nodes : Table String Node) (now : Nat) :
    (h.rehouse nodes).wake? now =
      (h.wake? now).map fun (spoken, h) => (spoken, h.rehouse nodes) := by
  simp only [wake?, show (h.rehouse nodes).isAlert = h.isAlert from rfl,
    show (h.rehouse nodes).armed = h.armed from rfl]
  cases h.isAlert with
  | false => rfl
  | true =>
    cases h.armed with
    | none => rfl
    | some a =>
      by_cases due : a.deadline ≤ now
      · simp only [if_pos due]
        cases Clock.after? now a.timeout <;> rfl
      · simp only [if_neg due]
        rfl

end Hierarchy

namespace Engine
variable {σ : Type}

def rehouse (e : Engine σ) (nodes : Table String Node) : Engine σ :=
  { e with states := e.states.rehouse nodes }

variable (e : Engine σ) (nodes : Table String Node)

@[simp] theorem states_rehouse : (e.rehouse nodes).states = e.states.rehouse nodes := (rfl)

@[simp] theorem values_rehouse : (e.rehouse nodes).values = e.values := (rfl)

@[simp] theorem clock_rehouse : (e.rehouse nodes).clock = e.clock := (rfl)

@[simp] theorem changes_rehouse : (e.rehouse nodes).changes = e.changes := (rfl)

@[simp] theorem events_rehouse : (e.rehouse nodes).events = e.events := (rfl)

@[simp] theorem triggers_rehouse : (e.rehouse nodes).triggers = e.triggers := (rfl)

@[simp] theorem handler_rehouse : (e.rehouse nodes).handler = e.handler := (rfl)

@[simp] theorem running_rehouse : (e.rehouse nodes).running = e.running := (rfl)

@[simp] theorem pending_rehouse : (e.rehouse nodes).pending = e.pending := (rfl)

@[simp] theorem workers_rehouse : (e.rehouse nodes).workers = e.workers := (rfl)

@[simp] theorem strays_rehouse : (e.rehouse nodes).strays = e.strays := (rfl)

@[simp] theorem armed_rehouse (t : Trigger) : (e.rehouse nodes).isArmed t = e.isArmed t := (rfl)

theorem report_rehouse (change : Option Change) :
    (e.rehouse nodes).report change = (e.report change).rehouse nodes := by
  cases change <;> rfl

theorem check_rehouse (t : Trigger) :
    (e.rehouse nodes).checkTrigger t = (e.checkTrigger t).rehouse nodes := by
  unfold checkTrigger
  simp only [values_rehouse, clock_rehouse]
  split
  · rfl
  · next v _ =>
    unfold settleTrigger
    simp only [armed_rehouse]
    split
    · rfl
    · split <;> rfl
    · split <;> rfl
    · rfl

theorem derive_rehouse (c : Change) : (e.rehouse nodes).derive c = (e.derive c).rehouse nodes := by
  have pass (ts : List Trigger) (e : Engine σ) : ts.foldl checkTrigger (e.rehouse nodes) =
      (ts.foldl checkTrigger e).rehouse nodes := by
    induction ts generalizing e with
    | nil => rfl
    | cons t rest ih => rw [List.foldl_cons, List.foldl_cons, check_rehouse, ih]
  exact congrArg (submit · (.internal c.reading)) (pass e.triggers e)

theorem first_met_rehouse (rules : List Rule) :
    (e.rehouse nodes).firstMet rules = e.firstMet rules := by
  induction rules with
  | nil => rfl
  | cons r rest ih =>
    unfold firstMet
    rw [ih]
    rfl

variable {e nodes}

theorem resolve_rehouse (alike : Alike e.states.nodes nodes) (current event : String) :
    (e.rehouse nodes).resolve current event = e.resolve current event := by
  unfold resolve candidates
  rw [first_met_rehouse, states_rehouse, Hierarchy.lineage_or_self_rehouse alike]
  rfl

theorem start_rehouse (alike : Alike e.states.nodes nodes) :
    (e.rehouse nodes).start = e.start.map (·.rehouse nodes) := by
  have states : (e.states.rehouse nodes).start e.clock =
      (e.states.start e.clock).map (·.rehouse nodes) := Hierarchy.start_rehouse alike e.clock
  have up (e : Engine σ) : (e.rehouse nodes).startValues.startEvents =
      e.startValues.startEvents.rehouse nodes := by
    cases on : e.running <;> simp only [startEvents, startValues, rehouse, on] <;> rfl
  simp only [start, startStates, rehouse, states]
  cases e.states.start e.clock with
  | done states =>
    exact congrArg Ending.done (up { e with rules := e.rules.close, states := states })
  | refused cause => rfl
  | broken states => rfl

theorem perform_rehouse (alike : Alike e.states.nodes nodes) (q : Request) :
    (e.rehouse nodes).perform q = (e.perform q).map (·.rehouse nodes) := by
  cases q with
  | submit event => rfl
  | assign name value => rfl
  | stop =>
    simp only [perform, running_rehouse]
    split <;> rfl
  | start =>
    simp only [perform, running_rehouse]
    split
    · rfl
    · exact start_rehouse alike

theorem heed_rehouse (alike : Alike e.states.nodes nodes) (qs : List Request) :
    (e.rehouse nodes).heed qs = ((e.heed qs).1, (e.heed qs).2.rehouse nodes) := by
  induction qs generalizing e with
  | nil => rfl
  | cons q rest ih =>
    have kept := Session.still_plan.requests e q
    simp only [heed, perform_rehouse alike]
    cases answer : e.perform q with
    | done e' =>
      rw [answer] at kept
      have nodes' : e'.states.nodes = e.states.nodes := congrArg Plan.nodes kept
      exact ih (nodes' ▸ alike)
    | refused cause => exact ih alike
    | broken e' => rfl

end Engine

namespace Run
variable {σ : Type}

def rehouse (r : Run σ) (nodes : Table String Node) : Run σ :=
  r.withEngine fun e => e.rehouse nodes

variable (r : Run σ) (nodes : Table String Node)

@[simp] theorem engine_rehouse : (r.rehouse nodes).engine = r.engine.rehouse nodes := (rfl)

theorem with_engine_rehouse {change : Engine σ → Engine σ}
    (same : change (r.engine.rehouse nodes) = (change r.engine).rehouse nodes) :
    (r.rehouse nodes).withEngine change = (r.withEngine change).rehouse nodes :=
  congrArg (fun engine => { r with engine }) same

variable {r nodes}

theorem tell_rehouse (alike : Alike r.engine.states.nodes nodes) (n : Notice) :
    (r.rehouse nodes).tell n = ((r.tell n).1, (r.tell n).2.rehouse nodes) := by
  simp only [tell, rehouse, withEngine, Engine.handler_rehouse, Engine.heed_rehouse alike]
  split <;> rfl

/-- The other run has its states in another table of the same states. -/
def Rehoused (nodes : Table String Node) (r r' : Run σ) : Prop :=
  r' = r.rehouse nodes ∧ Alike r.engine.states.nodes nodes

/-- An event has the same effect whatever the table. -/
theorem abreast_rehouse (nodes : Table String Node) :
    Abreast Eq (Rehoused (σ := σ) nodes) where
  name same := by rw [same]
  stale same _ := by rw [same]
  current := by
    rintro r _ ⟨rfl, alike⟩
    rfl
  shared := by
    rintro r _ ⟨rfl, alike⟩
    rfl
  path := by
    rintro r _ ⟨rfl, alike⟩ source target
    exact congrArg₂ Path.between (Hierarchy.lineage_or_self_rehouse alike source)
      (Hierarchy.lineage_or_self_rehouse alike target)
  resolve := by
    rintro r _ ⟨rfl, alike⟩ current name
    exact Engine.resolve_rehouse alike current name
  tell := by
    rintro r _ ⟨rfl, alike⟩ n n' same
    cases same.eq
    rw [tell_rehouse alike]
    refine ⟨rfl, rfl, ?_⟩
    rw [show (r.tell n).2.engine.states.nodes = r.engine.states.nodes from
      congrArg Plan.nodes (Engine.steady_plan.tell r n)]
    exact alike
  accepts := by
    rintro r _ ⟨rfl, alike⟩ event _ rfl current
    rw [tell_rehouse alike]
  enter := by
    rintro r _ ⟨rfl, alike⟩ name
    have entry : (r.rehouse nodes).engine.states.enter name (r.rehouse nodes).engine.clock =
        (r.engine.states.enter name r.engine.clock).map (·.rehouse nodes) :=
      Hierarchy.enter_rehouse alike name r.engine.clock
    have kept (states : Hierarchy)
        (leaves : (r.engine.states.enter name r.engine.clock).Leaves states) :
        Alike states.nodes nodes := by
      rw [(Hierarchy.enter_frame leaves).2]
      exact alike
    rw [entry]
    cases answer : r.engine.states.enter name r.engine.clock with
    | done states => exact .done ⟨rfl, kept states (.inl answer)⟩
    | refused cause => exact .refused cause
    | broken states => exact .broken ⟨rfl, kept states (.inr answer)⟩
  falls := by
    rintro r _ ⟨rfl, alike⟩
    exact ⟨rfl, alike⟩
  record := by
    rintro r _ ⟨rfl, alike⟩ passage
    exact ⟨rfl, alike⟩
  park := by
    rintro r _ ⟨rfl, alike⟩ errand errand' same
    cases same.eq
    exact ⟨rfl, alike⟩

theorem work_rehouse (alike : Alike r.engine.states.nodes nodes) (w : Work) :
    (r.rehouse nodes).work? w = (r.work? w).map (·.rehouse nodes) := by
  cases w with
  | derive =>
    simp only [work?, engine_rehouse, Engine.changes_rehouse]
    cases r.engine.changes.pop? with
    | none => rfl
    | some popped =>
      exact congrArg some (r.with_engine_rehouse nodes
        (Engine.derive_rehouse { r.engine with changes := popped.2 } nodes popped.1))
  | apply =>
    simp only [work?, engine_rehouse, Engine.values_rehouse]
    cases r.engine.values.batch with
    | nil => rfl
    | cons update batch =>
      let applied := { r.engine.values with batch }.apply update
      exact congrArg some (r.with_engine_rehouse nodes
        (Engine.report_rehouse { r.engine with values := applied.1 } nodes applied.2))
  | take =>
    simp only [work?, engine_rehouse, Engine.values_rehouse]
    split <;> rfl
  | fire =>
    simp only [work?, engine_rehouse, Engine.values_rehouse, Engine.clock_rehouse]
    cases r.engine.values.timers.release? r.engine.clock with
    | none => rfl
    | some released =>
      let fired := { r.engine.values with timers := released.2 }.fire released.1 r.engine.clock
      exact congrArg some (r.with_engine_rehouse nodes
        (Engine.report_rehouse { r.engine with values := fired.1 } nodes fired.2))
  | wake =>
    have woken := Hierarchy.wake_rehouse r.engine.states nodes r.engine.clock
    simp only [work?, engine_rehouse, Engine.states_rehouse, Engine.clock_rehouse, woken]
    cases r.engine.states.wake? r.engine.clock with
    | none => rfl
    | some woken =>
      obtain ⟨_ | a, states⟩ := woken <;> rfl
  | process =>
    simp only [work?, engine_rehouse, Engine.pending_rehouse, Engine.workers_rehouse,
      Engine.events_rehouse]
    split
    · cases r.engine.events.pop? with
      | none => rfl
      | some popped =>
        exact congrArg some ((abreast_rehouse nodes).process
          (r := r.withEngine fun e => { e with events := popped.2 }) ⟨rfl, alike⟩
          (Eq.refl popped.1)).1
    · rfl
  | carry index =>
    simp only [work?, engine_rehouse, Engine.pending_rehouse]
    cases r.engine.pending[index]? with
    | none => rfl
    | some p =>
      have gone := ((abreast_rehouse nodes).goOn (r := r.withEngine fun e =>
        { e with pending := e.pending.eraseIdx index, handler := p.handler }) ⟨rfl, alike⟩
        (.of_eq p.errand)).1
      exact congrArg some (congrArg (Run.withEngine · fun e => { e with
        handler := r.engine.handler }) gone)
  | leave =>
    simp only [work?, engine_rehouse, Engine.pending_rehouse, Engine.strays_rehouse,
      Engine.events_rehouse]
    split <;> rfl

end Run

namespace Machine
variable {σ : Type}

def rehouse (m : Machine σ) (nodes : Table String Node) : Machine σ :=
  { m with engine := m.engine.rehouse nodes }

variable {m : Machine σ} {nodes : Table String Node}

@[simp] theorem engine_rehouse : (m.rehouse nodes).engine = m.engine.rehouse nodes := (rfl)

@[simp] theorem stage_rehouse : (m.rehouse nodes).stage = m.stage := (rfl)

theorem init_again_rehouse (done : m.stage ≠ .created) (d : Definition) :
    (m.rehouse nodes).init d = ((m.init d).1, (m.init d).2.rehouse nodes) := by
  rw [Session.init_again m d done]
  exact Session.init_again (m.rehouse nodes) d done

theorem init_from_rehouse (done : m.stage ≠ .created) (loaded : Except LoadError Definition) :
    (m.rehouse nodes).initFrom loaded =
      ((m.initFrom loaded).1, (m.initFrom loaded).2.rehouse nodes) := by
  cases loaded with
  | error cause => rfl
  | ok d => exact init_again_rehouse done d

theorem start_rehouse (alike : Alike m.engine.states.nodes nodes) :
    (m.rehouse nodes).start = m.start.map (·.rehouse nodes) := by
  have started : (m.poised.rehouse nodes).start = m.poised.start.map (·.rehouse nodes) :=
    Engine.start_rehouse alike
  have set : (m.engine.rehouse nodes).setHandler m.callbacks.handler =
      (m.engine.setHandler m.callbacks.handler).map (·.rehouse nodes) := by
    simp only [Engine.setHandler, Engine.running_rehouse]
    split <;> rfl
  unfold start
  rw [stage_rehouse, engine_rehouse, show (m.rehouse nodes).callbacks = m.callbacks from rfl, set]
  cases m.stage with
  | created => rfl
  | running => rfl
  | initialized | stopped =>
    cases active : m.engine.running with
    | true =>
      simp only [Engine.setHandler, active]
      rfl
    | false =>
      simp only [show m.engine.setHandler m.callbacks.handler = .ok m.poised by
        simp [Engine.setHandler, active, poised], Except.map, started]
      cases m.poised.start <;> rfl

theorem stop_rehouse : (m.rehouse nodes).stop = m.stop.rehouse nodes := by
  unfold stop
  simp only [stage_rehouse]
  split <;> rfl

theorem install_rehouse (change : Callbacks σ → Callbacks σ) :
    (m.rehouse nodes).install change = (m.install change).map (·.rehouse nodes) := by
  unfold install
  simp only [stage_rehouse]
  split <;> rfl

theorem resume_rehouse (e : Engine σ) :
    (m.rehouse nodes).resume (e.rehouse nodes) = (m.resume e).rehouse nodes := by
  unfold resume
  rw [stage_rehouse, Engine.running_rehouse]
  cases m.stage <;> cases e.running <;> rfl

end Machine

namespace Session
variable {σ : Type}

/-- The same session with its states in another table. -/
def rehouse (s : Session σ) (nodes : Table String Node) : Session σ :=
  { s with machine := s.machine.rehouse nodes }

variable {s : Session σ} {nodes : Table String Node}

@[simp] theorem machine_rehouse : (s.rehouse nodes).machine = s.machine.rehouse nodes := (rfl)

@[simp] theorem run_rehouse : (s.rehouse nodes).run = s.run.rehouse nodes := (rfl)

theorem left_rehouse (m : Machine σ) (x : Ending (Machine σ)) :
    (x.map (·.rehouse nodes)).left (m.rehouse nodes) = (x.left m).rehouse nodes := by
  cases x <;> rfl

section Alike
variable (alike : Alike s.engine.states.nodes nodes) (done : s.machine.stage ≠ .created)
include alike done

theorem act_rehouse (a : Action σ) : (s.rehouse nodes).act a = (s.act a).rehouse nodes := by
  cases a with
  | init d =>
    simp only [act, machine_rehouse, Machine.init_again_rehouse done]
    rfl
  | load source =>
    simp only [act, machine_rehouse, Machine.init_from_rehouse done]
    rfl
  | start =>
    simp only [act, machine_rehouse, Machine.start_rehouse (m := s.machine) alike, left_rehouse]
    rfl
  | stop =>
    simp only [act, machine_rehouse, Machine.stop_rehouse]
    rfl
  | submit event => rfl
  | assign name value => rfl
  | install change =>
    simp only [act, machine_rehouse, Machine.install_rehouse]
    cases s.machine.install change <;> rfl
  | work w =>
    have worked := Run.work_rehouse (r := s.run) alike w
    simp only [act, run_rehouse, worked]
    cases s.run.work? w with
    | none => rfl
    | some r =>
      exact congrArg (fun machine => (⟨machine, r.client, r.notices⟩ : Session σ))
        (Machine.resume_rehouse r.engine)
  | pass span => rfl

theorem answer_rehouse (a : Action σ) : (s.rehouse nodes).answer a = s.answer a := by
  cases a with
  | init d => simp only [answer, machine_rehouse, Machine.init_again_rehouse done]
  | load source => simp only [answer, machine_rehouse, Machine.init_from_rehouse done]
  | start =>
    simp only [answer, machine_rehouse, Machine.start_rehouse (m := s.machine) alike]
    cases s.machine.start <;> rfl
  | install change =>
    simp only [answer, machine_rehouse, Machine.install_rehouse]
    cases s.machine.install change <;> rfl
  | stop | submit | assign | work | pass => rfl

/-- What a session does with its states in another table it does all along. -/
theorem perform_rehouse (actions : List (Action σ)) :
    (s.rehouse nodes).perform actions = (s.perform actions).rehouse nodes ∧
      Alike (s.perform actions).engine.states.nodes nodes ∧
      (s.perform actions).machine.stage ≠ .created := by
  induction actions generalizing s with
  | nil => exact ⟨rfl, alike, done⟩
  | cons a rest ih =>
    obtain ⟨plan, done'⟩ := plan_act s a done
    have nodes' : (s.act a).engine.states.nodes = s.engine.states.nodes := congrArg Plan.nodes plan
    obtain ⟨same, later⟩ := ih (s := s.act a) (nodes' ▸ alike) done'
    refine ⟨?_, later⟩
    exact (congrArg (Session.perform · rest) (act_rehouse alike done a)).trans same

end Alike
end Session
end Statechart
