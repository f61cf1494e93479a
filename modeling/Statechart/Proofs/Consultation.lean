import Statechart.Proofs.Delivery
import Statechart.Proofs.Sustained
/-!
Consultation. The search for a rule asks one rule after the other whether its conditions are met,
and a pass over the triggers asks every trigger. A machine that was set up from a definition can
answer them all: every name has a value, so no check is left without an outcome, and every condition
is registered under its name, so no timed condition is overlooked when a value changes. Only where
the clock has no number for the end of one duration is its timer not set, nor that of the others.
-/

namespace Statechart

/-- A check of a rule: how it came out. -/
structure Consultation where
  rule : Rule
  outcome : Except Error Verdict

namespace Engine
variable {σ : Type} (e : Engine σ)

def consult (r : Rule) : Consultation where
  rule := r
  outcome := e.values.check r.conditions r.connective e.clock

/-- The checks that a search through some rules makes, up to the first that is met. -/
def consultations : List Rule → List Consultation
  | [] => []
  | r :: rest => e.consult r :: if (e.accepts? r).isSome then [] else consultations rest

theorem mem_consultations {rules : List Rule} {c : Consultation}
    (member : c ∈ e.consultations rules) : ∃ r ∈ rules, c = e.consult r := by
  induction rules with
  | nil => cases member
  | cons r rest ih =>
    rcases List.mem_cons.mp member with here | later
    · exact ⟨r, List.mem_cons_self .., here⟩
    · split at later
      · cases later
      · obtain ⟨k, listed, there⟩ := ih later
        exact ⟨k, List.mem_cons_of_mem _ listed, there⟩

end Engine

namespace Run
variable {σ : Type} (current : String) (event : Event) (r : Run σ)

/-- The checks of rules that are made in the search for one. -/
def searched : List Consultation :=
  r.engine.consultations (r.engine.candidates current event.name)

/-- Those that are made once the application has been shown an event. -/
def presented : List Consultation :=
  let (reply, r) := r.tell (.pre current event)
  if reply.fails || !reply.accepts || r.engine.isShared then [] else r.searched current event

/-- Those that are made before an event that is taken up is left off, if it is. -/
def consulted : List Consultation :=
  match r.engine.states.current with
  | none => []
  | some current =>
    if Engine.isStale current event || r.engine.isShared then [] else r.presented current event

/-- Those that are made as a worker goes on with an event. -/
def resumed : Errand → List Consultation
  | .present current event => r.presented current event
  | .resolve current event => r.searched current event
  | .commit .. | .leave .. | .move .. | .greet .. | .record .. | .finish .. => []

variable {current event r} {c : Consultation}

/-- They are made on what the application has left of the engine. -/
theorem mem_presented (member : c ∈ r.presented current event) :
    c ∈ (r.tell (.pre current event)).2.searched current event := by
  simp only [presented] at member
  split at member
  · cases member
  · exact member

theorem mem_consulted (member : c ∈ r.consulted event) :
    ∃ current, c ∈ r.presented current event := by
  unfold consulted at member
  split at member
  · cases member
  split at member
  · cases member
  · exact ⟨_, member⟩

end Run

namespace Session
variable {σ : Type}

/-- The checks of rules that an action makes. -/
def consulted (s : Session σ) : Action σ → List Consultation
  | .work .process =>
    match s.taken (.work .process) with
    | none => []
    | some (r, event) => r.consulted event
  | .work (.carry i) =>
    match s.left i with
    | none => []
    | some (r, p) => (r.withEngine fun e => { e with handler := p.handler }).resumed p.errand
  | _ => []

/-- What a machine knows of the rules, the triggers and the conditions of its definition. -/
structure Informed (d : Definition) (s : Session σ) : Prop where
  registered : ∀ c ∈ d.conditions, c ∈ s.engine.values.registeredFor c.name
  rules : ∀ r ∈ d.rules, ∀ now, ∃ v, s.engine.values.check r.conditions r.connective now = .ok v
  triggers : ∀ t ∈ d.triggers, ∀ now,
    ∃ v, s.engine.values.check t.conditions t.connective now = .ok v
  /-- Every check that is made in the search for a rule comes out. -/
  consulted : ∀ a, ∀ c ∈ s.consulted a, ∃ v, c.outcome = .ok v
  /-- So does every check of a trigger. -/
  inspected : ∀ a, ∀ i ∈ s.inspected a, ∃ v, i.outcome = .ok v
  /-- A change to a value that a timed condition accepts sets a timer for that condition. -/
  timed : ∀ u rest, s.engine.values.batch = u :: rest → s.engine.values.value u.name ≠ u.value →
    ¬d.Overruns u.name u.value u.time → ∀ c ∈ d.conditions, c.name = u.name →
      c.accepts u.value = true → c.isTimed = true →
      (s.act (.work .apply)).engine.values.Awaits u.name u.value u.time c.duration

section Known
variable {d : Definition} {s : Session σ} (follows : s.Follows d)
include follows

/-- A check of declared conditions comes out on the values of the machine at any time. -/
theorem Follows.comes_out {h : Holding} (same : h.signals = s.engine.values.signals)
    {conditions : List Condition} (declared : conditions ⊆ d.conditions) (connective : Connective)
    (now : Nat) : ∃ v, h.check conditions connective now = .ok v := by
  refine Condition.check_total now connective conditions fun c read => ?_
  rw [Holding.signal?, same]
  exact follows.known c (declared read)

/-- The application may ask for anything in between, but rules and values are as they were. -/
theorem Follows.searched {r : Run σ} (plan : r.engine.plan = s.engine.plan)
    (memory : r.engine.memory = s.engine.memory) {current : String} {event : Event}
    {c : Consultation} (member : c ∈ r.searched current event) : ∃ v, c.outcome = .ok v := by
  obtain ⟨rule, candidate, rfl⟩ := Engine.mem_consultations _ member
  have filed := follows.filed
  rw [← show _ = s.engine.rules.buckets from congrArg Plan.buckets plan] at filed
  have listed := Engine.candidates_registered filed candidate
  refine follows.comes_out (congrArg Prod.fst memory) ?_ _ _
  exact fun k read => List.mem_append_left _ (List.mem_flatMap.mpr ⟨rule, listed, read⟩)

theorem Follows.presented {r : Run σ} (plan : r.engine.plan = s.engine.plan)
    (memory : r.engine.memory = s.engine.memory) {current : String} {event : Event}
    {c : Consultation} (member : c ∈ r.presented current event) : ∃ v, c.outcome = .ok v :=
  follows.searched ((Engine.steady_plan.tell r _).trans plan)
    ((Engine.steady_memory.tell r _).trans memory) (Run.mem_presented member)

theorem Follows.consulted {a : Action σ} {c : Consultation} (member : c ∈ s.consulted a) :
    ∃ v, c.outcome = .ok v := by
  unfold Session.consulted at member
  split at member
  · split at member
    · cases member
    next taken =>
    obtain ⟨_, _, events, _, rfl⟩ := taken_cases taken
    obtain ⟨current, made⟩ := Run.mem_consulted member
    exact follows.presented rfl rfl made
  · split at member
    · cases member
    next left =>
    obtain ⟨p, _, same⟩ := Option.map_eq_some_iff.mp left
    cases same
    unfold Run.resumed at member
    split at member
    · exact follows.presented rfl rfl member
    · exact follows.searched rfl rfl member
    all_goals cases member
  · cases member

/-- A machine knows all that its definition asks about, in every state that it gets into. -/
theorem checks_come_out : s.Informed d := by
  obtain ⟨_, holds, _⟩ := follows.holds
  have registered (c : Condition) (declared : c ∈ d.conditions) :
      c ∈ s.engine.values.registeredFor c.name :=
    (holds.registered c.name c).mpr ⟨declared, rfl⟩
  constructor
  case registered => exact registered
  case rules =>
    intro r declared
    refine follows.comes_out rfl ?_ _
    exact fun c read => List.mem_append_left _ (List.mem_flatMap.mpr ⟨r, declared, read⟩)
  case triggers =>
    intro t declared
    refine follows.comes_out rfl ?_ _
    exact fun c read => List.mem_append_right _ (List.mem_flatMap.mpr ⟨t, declared, read⟩)
  case consulted => exact fun _ _ member => follows.consulted member
  case inspected => exact fun _ _ member => follows.decided member
  case timed =>
    intro u rest queued changes near c declared named accepted timed
    obtain ⟨_, handler, result⟩ := act_apply queued
    have sound : ({ s.engine.values with batch := rest } : Holding).overruns u = false :=
      Bool.eq_false_iff.mpr fun far => near ((holds.overruns_iff u).mp far).2
    rw [result, values_report]
    exact Holding.apply_awaits (h := { s.engine.values with batch := rest }) changes sound
      (named ▸ registered c declared) accepted timed

end Known

/-- A value that is wanted for a duration is set, and confirmed when it has stood. The rule that
wants it is then asked about, once. -/
theorem simmering_informed :
    (simmering.act (.work .apply)).engine.values.Awaits "x" 5 0 100000 ∧
    let s := simmering.perform [.work .apply, .pass 100000, .work .fire, .work .derive]
    (s.consulted (.work .process)).map (·.rule) = kettle.rules ∧
    ∀ c ∈ s.consulted (.work .process), ∃ v, c.outcome = .ok v := by
  have declared : settled ∈ kettle.conditions := by decide +kernel
  have new : simmering.engine.values.batch = [⟨"x", 5, 0⟩] := by decide +kernel
  have first := checks_come_out simmering_follows
  have later := checks_come_out (simmering_follows.perform
    [.work .apply, .pass 100000, .work .fire, .work .derive])
  refine ⟨?_, by decide +kernel, later.consulted _⟩
  exact first.timed _ _ new (by decide +kernel) (by decide +kernel) settled declared rfl
    (by decide) (by decide)

/-- Low values are to stand for a tenth of a second, and all values for longer than the clock can
count. -/
def larder : Definition where
  states := [{ name := "A" }]
  initial := "A"
  rules := [.whenCondition "A" "A" ((Condition.between "x" 0 100).sustained Clock.horizon),
    .whenCondition "A" "A" settled]

/-- A value is set that both conditions accept, and no timer is. -/
theorem larder_sets_no_timer :
    let s := ((fresh "larder" ()).act (.init larder)).perform [.start, .assign "x" 5, .work .take]
    s.Follows larder ∧ s.engine.values.batch = [⟨"x", 5, 0⟩] ∧ s.engine.values.value "x" = 0 ∧
    settled ∈ larder.conditions ∧ settled.accepts 5 = true ∧ settled.isTimed = true ∧
    (s.act (.work .apply)).engine.values.value "x" = 5 ∧
    (s.act (.work .apply)).engine.values.timers.entries = [] := by
  refine ⟨⟨fresh "larder" (), _, ⟨_, _, [], rfl⟩, rfl, by decide +kernel, rfl⟩, ?_⟩
  decide +kernel

end Session
end Statechart
