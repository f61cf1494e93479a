import Statechart.Proofs.Setup
/-!
Validation decides the setting up. A machine that has not been set up takes the definitions with
which nothing is wrong, and takes each of them as a whole; any other definition it refuses without a
trace. What validation does not look at is whether the clock can count to the end of the initial
state's timeout. If it cannot, the call breaks down in the very last step and leaves a machine that
holds the definition and can never be set up with it.
-/

namespace Statechart.Session
variable {σ : Type}

theorem init_failures {m : Machine σ} (created : m.stage = .created) (failed : List Definition)
    (invalid : ∀ f ∈ failed, f.violations ≠ []) :
    failed.foldl (fun m f => (m.init f).2) m = m := by
  induction failed with
  | nil => rfl
  | cons f rest ih =>
    have refused := Machine.init_invalid (invalid f (List.mem_cons_self ..)) m created
    rw [List.foldl_cons, refused]
    exact ih fun g member => invalid g (List.mem_cons_of_mem f member)

/-- A machine that has not been set up, and that no attempt to do so has broken off with, accepts a
definition exactly if nothing is wrong with it and the clock has a number for the end of the initial
state's timeout. Then every single registration is granted, and states, current state and lineages
are as declared. If there is no such number all is registered and the initial state is current, but
the machine does not count as set up, and refuses the definition from then on. A definition with
which something is wrong is answered with all of that, and the machine stays as it is. -/
theorem init_decided_by_validation {s : Session σ} (reached : s.Reachable)
    (created : s.machine.stage = .created) (vacant : s.machine.current = none) (d : Definition) :
    ((s.machine.init d).1 = .done () ↔
      d.violations = [] ∧ d.outlasts s.engine.clock = false) ∧
    (d.violations = [] → d.outlasts s.engine.clock = false →
      (∀ before r after, d.registrations = before ++ r :: after →
        ∃ e e', Granted before s.engine e ∧ r.perform e = .done e') ∧
      (s.machine.init d).2.stage = .initialized ∧
      (s.machine.init d).2.current = some d.initial ∧
      ∀ t ∈ d.states, d.Ancestry t.name ((s.machine.init d).2.engine.states.lineage t.name)) ∧
    (d.violations = [] → d.outlasts s.engine.clock = true →
      (s.machine.init d).1 = .broken () ∧ (s.machine.init d).2.stage = .created ∧
      (s.machine.init d).2.current = some d.initial ∧
      (∀ t ∈ d.states, d.Ancestry t.name ((s.machine.init d).2.engine.states.lineage t.name)) ∧
      ∃ t ∈ d.states, (s.machine.init d).2.init d =
        (.refused (.duplicateState t.name), (s.machine.init d).2)) ∧
    (d.violations ≠ [] →
      s.machine.init d = (.refused (.invalidDefinition d.violations), s.machine)) ∧
    ∀ failed : List Definition,
      (∀ f ∈ failed, ∃ cause, (s.machine.init f).1 = .refused cause) →
      (failed.foldl (fun m f => (m.init f).2) s.machine).init d = s.machine.init d := by
  -- A machine without a current state has nothing registered, so all hangs on the definition.
  obtain ⟨⟨updates, events, clock, blank⟩, _⟩ := created_blank reached created vacant
  have now : s.engine.clock = clock := congrArg Engine.clock blank
  rw [now]
  have accepts (f : Definition) (valid : f.violations = []) (fits : f.outlasts clock = false) :=
    Machine.init_valid valid s.machine created blank fits
  have breaks (f : Definition) (valid : f.violations = []) (far : f.outlasts clock = true) :=
    Machine.init_overrun valid s.machine created blank far
  have refuses (f : Definition) (invalid : f.violations ≠ []) :=
    Machine.init_invalid invalid s.machine created
  constructor
  · constructor
    · intro ok
      by_cases valid : d.violations = []
      · by_cases far : d.outlasts clock = true
        · obtain ⟨e, result, _⟩ := breaks d valid far
          rw [result] at ok
          cases ok
        · exact ⟨valid, Bool.eq_false_iff.mpr far⟩
      · rw [refuses d valid] at ok
        cases ok
    · rintro ⟨valid, fits⟩
      obtain ⟨e, _, result, _⟩ := accepts d valid fits
      rw [result]
  constructor
  · intro valid fits
    obtain ⟨e, granted, result, holds, current, _⟩ := accepts d valid fits
    rw [result]
    refine ⟨?_, rfl, current, ?_⟩
    · intro before r after parts
      rw [parts] at granted
      exact granted_each granted
    · intro t declared
      exact holds.ancestry _ t declared (Hierarchy.lineage_eq _ _).symm
  constructor
  · intro valid far
    obtain ⟨e, result, holds, current, again⟩ := breaks d valid far
    rw [result]
    refine ⟨rfl, created, current, ?_, again⟩
    intro t declared
    exact holds.ancestry _ t declared (Hierarchy.lineage_eq _ _).symm
  constructor
  · exact refuses d
  · intro failed refused
    have invalid (f : Definition) (member : f ∈ failed) : f.violations ≠ [] := by
      intro valid
      obtain ⟨cause, answer⟩ := refused f member
      by_cases far : f.outlasts clock = true
      · obtain ⟨e, result, _⟩ := breaks f valid far
        rw [result] at answer
        cases answer
      · obtain ⟨e, _, result, _⟩ := accepts f valid (Bool.eq_false_iff.mpr far)
        rw [result] at answer
        cases answer
    rw [init_failures created failed invalid]

/-- A state inside another one, declared before it. -/
def nested : Definition where
  states := [{ name := "B", parent := some "A" }, { name := "A" }]
  initial := "B"
  rules := [.onEvent "A" "B" "go"]
  triggers := [{ name := "warm", conditions := [.between "t" 20 30] }]

/-- A state inside itself. -/
def looped : Definition where
  states := [{ name := "A", parent := some "A" }]
  initial := "A"

/-- A machine to which a value has been submitted and that has refused a definition. -/
def tried : Session Unit := (fresh "oven" ()).perform [.assign "t" 25, .init looped]

theorem init_nested_after_looped :
    (tried.machine.init nested).1 = .done () ∧
    (tried.machine.init nested).2.current = some "B" ∧
    nested.Ancestry "B" ((tried.machine.init nested).2.engine.states.lineage "B") ∧
    tried.machine.init looped = (.refused (.invalidDefinition looped.violations), tried.machine) ∧
    (tried.machine.init looped).2.init nested = tried.machine.init nested := by
  have reached : tried.Reachable := ⟨_, _, _, rfl⟩
  have created : tried.machine.stage = .created := by decide +kernel
  have vacant : tried.machine.current = none := by decide +kernel
  have valid : nested.violations = [] := by decide +kernel
  have invalid : looped.violations ≠ [] := by decide +kernel
  have fits : nested.outlasts tried.engine.clock = false := by decide +kernel
  obtain ⟨decided, taken, _, _, again⟩ := init_decided_by_validation reached created vacant nested
  obtain ⟨_, _, _, refused, _⟩ := init_decided_by_validation reached created vacant looped
  obtain ⟨_, _, current, lineages⟩ := taken valid fits
  have inner := lineages ⟨"B", some "A", [], 0⟩ (by decide)
  refine ⟨decided.mpr ⟨valid, fits⟩, current, inner, refused invalid, ?_⟩
  refine again [looped] fun f member => ?_
  rw [List.mem_singleton.mp member]
  exact ⟨_, congrArg Prod.fst (refused invalid)⟩

/-- One state that may stay current for longer than the clock can count. -/
def endless : Definition where
  states := [{ name := "A", timeout := Clock.horizon }]
  initial := "A"

/-- Nothing is wrong with the definition, and yet the machine is neither set up nor as it was. -/
theorem init_endless_breaks_down :
    endless.violations = [] ∧
    ((fresh "oven" ()).machine.init endless).1 = .broken () ∧
    ((fresh "oven" ()).machine.init endless).2.stage = .created ∧
    ((fresh "oven" ()).machine.init endless).2.current = some "A" ∧
    (((fresh "oven" ()).machine.init endless).2.init endless).1 =
      .refused (.duplicateState "A") := by
  decide +kernel

end Statechart.Session
