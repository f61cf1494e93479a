import Statechart.Proofs.Diagnosis
import Statechart.Proofs.Rehousing
import Statechart.Proofs.Resolution
import Statechart.Proofs.Roster
/-!
The order in which a definition declares its states does not matter. Whether anything is wrong with
the definition does not depend on it; and two machines that are set up from definitions which differ
in nothing else go through the same life, whatever is done with them, for each holds the same states
as the other, if in another order.
-/

namespace Statechart

/-- The definitions differ at most in the order of their states. -/
structure Definition.Reordered (d d' : Definition) : Prop where
  states : d.states.Perm d'.states
  initial : d'.initial = d.initial
  rules : d'.rules = d.rules
  triggers : d'.triggers = d.triggers

namespace Definition

theorem repeated_of_nodup {names : List String} (unique : names.Nodup) :
    repeated [] names = [] := by
  refine List.eq_nil_iff_forall_not_mem.mpr fun name member => ?_
  have counted := count_repeated name names []
  rw [if_neg List.not_mem_nil] at counted
  have once := List.nodup_iff_count_le_one.mp unique name
  have often := List.count_pos_iff.mpr member
  omega

theorem state_violations_nil_iff (d : Definition) : d.stateViolations = [] ↔
    d.states ≠ [] ∧ d.names.Nodup ∧ ∀ s ∈ d.states, d.parentViolation s.name = none := by
  unfold stateViolations
  by_cases empty : d.states = []
  · simp [empty]
  rw [if_neg (by simpa using empty), List.append_eq_nil_iff, List.map_eq_nil_iff,
    List.filterMap_eq_nil_iff]
  constructor
  · rintro ⟨repeats, parents⟩
    exact ⟨empty, (repeated_nil _ _ repeats).1, parents⟩
  · rintro ⟨_, unique, parents⟩
    exact ⟨repeated_of_nodup unique, parents⟩

namespace Reordered
variable {d d' : Definition} (reordered : d.Reordered d')
include reordered

theorem symm : d'.Reordered d where
  states := reordered.states.symm
  initial := reordered.initial.symm
  rules := reordered.rules.symm
  triggers := reordered.triggers.symm

theorem names : d.names.Perm d'.names := reordered.states.map _

theorem conditions : d'.conditions = d.conditions := by
  rw [Definition.conditions, reordered.rules, reordered.triggers]
  rfl

theorem declares (name : String) : d'.declares name = d.declares name := by
  rw [Bool.eq_iff_iff, declares_iff, declares_iff]
  exact reordered.names.mem_iff.symm

theorem parent_of (unique : d.names.Nodup) (name : String) :
    d'.parentOf? name = d.parentOf? name := by
  have unique' := reordered.names.nodup_iff.mp unique
  by_cases listed : name ∈ d.names
  · obtain ⟨s, member, rfl⟩ := List.mem_map.mp listed
    rw [parent_of_unique unique member, parent_of_unique unique' (reordered.states.subset member)]
  · have unlisted (e : Definition) (absent : name ∉ e.names) : e.parentOf? name = none :=
      Option.eq_none_iff_forall_not_mem.mpr fun above up => absent (e.listed_of_parent up)
    rw [unlisted d listed, unlisted d' fun member => listed (reordered.names.mem_iff.mpr member)]

theorem parent_violation (unique : d.names.Nodup) (name : String) :
    d'.parentViolation name = d.parentViolation name := by
  have parents : parentAmong? d'.states.reverse = parentAmong? d.states.reverse :=
    funext (reordered.parent_of unique)
  simp only [parentViolation, inCycle, parents, reordered.parent_of unique, reordered.declares,
    reordered.states.length_eq]

theorem valid (flawless : d.violations = []) : d'.violations = [] := by
  have known (name : String) : (d'.state? name).isNone = (d.state? name).isNone := by
    have unlisted (e : Definition) : (e.state? name).isNone = true ↔ name ∉ e.names := by
      simp [state?, Definition.names]
    rw [Bool.eq_iff_iff, unlisted, unlisted, reordered.names.mem_iff]
  have initial : d'.initialViolations = d.initialViolations := by
    simp only [initialViolations, reordered.initial, known]
  have rules : d'.ruleViolations = d.ruleViolations := by
    have ends : d'.endpointViolations = d.endpointViolations := by
      funext r
      simp only [endpointViolations, reordered.declares]
    rw [ruleViolations, ruleViolations, reordered.rules, ends]
  have conditions : d'.conditionViolations = d.conditionViolations := by
    rw [conditionViolations, conditionViolations, reordered.conditions]
  have triggers : d'.triggerViolations = d.triggerViolations := by
    rw [triggerViolations, triggerViolations, reordered.triggers]
  simp only [violations, List.append_eq_nil_iff, initial, rules, conditions, triggers] at flawless ⊢
  obtain ⟨⟨⟨⟨states, rest⟩, rest'⟩, rest''⟩, rest'''⟩ := flawless
  refine ⟨⟨⟨⟨?_, rest⟩, rest'⟩, rest''⟩, rest'''⟩
  rw [state_violations_nil_iff] at states ⊢
  obtain ⟨declared, unique, parents⟩ := states
  refine ⟨fun empty => declared (reordered.states.trans (empty ▸ .refl _)).eq_nil,
    reordered.names.nodup_iff.mp unique, fun s member => ?_⟩
  rw [reordered.parent_violation unique]
  exact parents s (reordered.states.mem_iff.mpr member)

end Reordered
end Definition

section Granted
variable {σ : Type} {e e₁ : Engine σ}

/-- Registering states only fills the table, and the roster tells with what. -/
theorem rostered_states (states : List State) {roster : List State}
    (granted : Granted (states.map .state) e e₁) (rostered : e.states.Rostered roster) :
    e₁.states.Rostered (roster ++ states) ∧ e₁ = e.rehouse e₁.states.nodes := by
  induction states generalizing e roster with
  | nil =>
    cases granted
    rw [List.append_nil]
    exact ⟨rostered, rfl⟩
  | cons s rest ih =>
    obtain ⟨e', taken, granted⟩ := granted_uncons granted
    have registered := Registration.registered (.state s) e
    rw [taken] at registered
    obtain @⟨_, h, added⟩ := registered
    obtain ⟨_, _, frame, _⟩ := Hierarchy.kin_add added
    obtain ⟨done, same⟩ := ih granted (rostered.add added)
    rw [List.append_assoc] at done
    refine ⟨done, same.trans ?_⟩
    rw [frame]
    rfl

/-- What is registered after the states does not depend on the table that they are in. -/
theorem perform_rehouse {x : Registration} (later : ∀ s, x ≠ .state s)
    {nodes : Table String Node} (alike : Alike e.states.nodes nodes)
    (taken : x.perform e = .done e₁) :
    x.perform (e.rehouse nodes) = .done (e₁.rehouse nodes) ∧ e₁.states.nodes = e.states.nodes := by
  have registered := x.registered e
  rw [taken] at registered
  cases registered with
  | state added => exact absurd rfl (later _)
  | condition added =>
    have same : (e.rehouse nodes).values.add _ (e.rehouse nodes).clock = .ok _ := added
    refine ⟨?_, rfl⟩
    simp only [Registration.perform, Engine.addCondition, same]
    rfl
  | rule added =>
    have same : (e.rehouse nodes).rules.add _ = .ok _ := added
    refine ⟨?_, rfl⟩
    simp only [Registration.perform, Engine.addRule, same]
    rfl
  | @trigger t _ added =>
    have same : (e.rehouse nodes).addTrigger t = (e.addTrigger t).map (·.rehouse nodes) := by
      unfold Engine.addTrigger
      simp only [Engine.running_rehouse, Engine.triggers_rehouse, Engine.values_rehouse]
      repeat' split
      all_goals rfl
    refine ⟨?_, ?_⟩
    · simp only [Registration.perform, same, added]
      rfl
    · obtain ⟨_, _, _, rfl⟩ := Engine.add_trigger_cases added
      rfl
  | @initial name h entered =>
    have same : (e.rehouse nodes).states.enter name (e.rehouse nodes).clock = _ :=
      Hierarchy.enter_rehouse alike name e.clock
    refine ⟨?_, ?_⟩
    · simp only [Registration.perform, Engine.enterState, same, entered]
      rfl
    · rw [(Hierarchy.enter_frame (.inl entered)).2]

theorem granted_rehouse {rs : List Registration} (later : ∀ x ∈ rs, ∀ s, x ≠ .state s)
    {nodes : Table String Node} (alike : Alike e.states.nodes nodes) (granted : Granted rs e e₁) :
    Granted rs (e.rehouse nodes) (e₁.rehouse nodes) ∧ e₁.states.nodes = e.states.nodes := by
  induction rs generalizing e with
  | nil =>
    cases granted
    exact ⟨rfl, rfl⟩
  | cons x rest ih =>
    obtain ⟨e', taken, granted⟩ := granted_uncons granted
    obtain ⟨taken', nodes'⟩ := perform_rehouse (later x (List.mem_cons_self ..)) alike taken
    obtain ⟨granted', nodes''⟩ :=
      ih (fun y member => later y (List.mem_cons_of_mem _ member)) (nodes' ▸ alike) granted
    exact ⟨granted_cons taken' granted', nodes''.trans nodes'⟩

end Granted

namespace Hierarchy.Rostered
variable {h h' : Hierarchy} {roster roster' : List State}

theorem find_perm (unique : (roster.map (·.name)).Nodup) (perm : roster.Perm roster')
    (n : String) : roster'.find? (·.name == n) = roster.find? (·.name == n) := by
  have unique' := (perm.map (·.name)).nodup_iff.mp unique
  cases found : roster.find? (·.name == n) with
  | none =>
    refine List.find?_eq_none.mpr fun s member => ?_
    exact List.find?_eq_none.mp found s (perm.mem_iff.mpr member)
  | some s =>
    have named := List.find?_some found
    rw [← beq_iff_eq.mp named]
    exact find_unique unique' (perm.subset (List.mem_of_find?_eq_some found))

/-- The same states, registered in two orders, make two tables of the same states. -/
theorem alike (rostered : Rostered h roster) (rostered' : Rostered h' roster')
    (perm : roster.Perm roster') : Alike h.nodes h'.nodes := by
  have found := find_perm rostered.unique perm
  have parents (n : String) : (h'.nodes.find? n).bind (·.state.parent) =
      (h.nodes.find? n).bind (·.state.parent) := by
    have up (g : Hierarchy) : (g.nodes.find? n).bind (·.state.parent) =
        (g.state? n).bind (·.parent) := by
      rw [state?, Option.bind_map]
      rfl
    rw [up, up, rostered.kept, rostered'.kept, found]
    cases roster.find? (·.name == n) <;> rfl
  have ancestors (steps : Nat) : ∀ n, ancestor? h'.nodes n steps = ancestor? h.nodes n steps := by
    induction steps with
    | zero => exact fun _ => rfl
    | succ steps ih =>
      intro n
      simp only [ancestor?, parents, ih]
  refine ⟨?_, fun n => ?_⟩
  · rw [rostered.keys, rostered'.keys]
    exact (perm.map _).symm
  have kept := rostered.kept n
  have kept' := rostered'.kept n
  rw [found] at kept'
  cases listed : roster.find? (·.name == n) with
  | none =>
    rw [listed, Option.map_none, state?, Option.map_eq_none_iff] at kept kept'
    rw [kept, kept']
    exact .none
  | some s =>
    rw [listed, Option.map_some, state?] at kept kept'
    obtain ⟨x, here, same⟩ := Option.map_eq_some_iff.mp kept
    obtain ⟨y, there, same'⟩ := Option.map_eq_some_iff.mp kept'
    rw [here, there]
    refine .some ⟨?_, ?_, ?_⟩
    · -- Each lineage lists the ancestors, and they are the same in both tables.
      refine List.ext_getElem? fun steps => ?_
      have climb (g : Hierarchy) (forest : Forest g.nodes) {node : Node}
          (found : g.nodes.find? n = some node) :
          node.lineage[steps]? = ancestor? g.nodes n steps := by
        rw [← forest.lineage_ancestor steps n (by simp [Table.contains, found])]
        simp [lineageIn, kin?, found]
      rw [climb h' rostered'.forest there, climb h rostered.forest here, ancestors]
    · rw [same, same']
      rfl
    · rw [same, same']
      exact ((perm.filter _).map _).symm

end Hierarchy.Rostered

namespace Machine
variable {σ : Type}

/-- What a definition asks to be registered once its states are. -/
def afterStates (d : Definition) : List Registration :=
  d.conditions.map .condition ++ (d.rules.map .rule ++ (d.triggers.map .trigger ++
    [.initial d.initial]))

theorem registrations_eq (d : Definition) :
    d.registrations = d.parentsFirst.map .state ++ afterStates d := by
  simp only [Definition.registrations, afterStates, List.append_assoc]

theorem after_states_no_state (d : Definition) (x : Registration) (member : x ∈ afterStates d)
    (s : State) : x ≠ .state s := by
  rintro rfl
  simp [afterStates] at member

theorem outlasts_reordered {d d' : Definition} (reordered : d.Reordered d')
    (valid : d.violations = []) (clock : Nat) : d'.outlasts clock = d.outlasts clock := by
  have unique := (Definition.valid_of_violations valid).unique
  have timeout : d'.initialTimeout = d.initialTimeout := by
    rw [Definition.initialTimeout, Definition.initialTimeout, reordered.initial,
      Hierarchy.Rostered.find_perm unique reordered.states]
  rw [Definition.outlasts, Definition.outlasts, timeout]

/-- Set up from either definition, a machine comes to hold the same, but for its table of states. -/
theorem init_reordered {d d' : Definition} (reordered : d.Reordered d') (valid : d.violations = [])
    {m : Machine σ} (created : m.stage = .created) {updates : List Update} {events : List Event}
    {clock : Nat} (untouched : m.engine = .blank updates events clock)
    (fits : d.outlasts clock = false) :
    ∃ e nodes, Alike e.states.nodes nodes ∧
      m.init d = (.done (), { m with engine := e, stage := .initialized }) ∧
      m.init d' = (.done (), { m with engine := e.rehouse nodes, stage := .initialized }) := by
  obtain ⟨e, granted, result, _⟩ := init_valid valid m created untouched fits
  obtain ⟨e', granted', result', _⟩ := init_valid (reordered.valid valid) m created untouched
    ((outlasts_reordered reordered valid clock).trans fits)
  have same : afterStates d' = afterStates d := by
    simp only [afterStates, reordered.conditions, reordered.rules, reordered.triggers,
      reordered.initial]
  rw [registrations_eq] at granted granted'
  obtain ⟨e₁, states, rest⟩ := granted_split granted
  obtain ⟨e₁', states', rest'⟩ := granted_split granted'
  have empty : m.engine.states.Rostered [] := untouched ▸ Hierarchy.rostered_nil
  obtain ⟨rostered, filled⟩ := rostered_states _ states empty
  obtain ⟨rostered', filled'⟩ := rostered_states _ states' empty
  have perm : d.parentsFirst.Perm d'.parentsFirst :=
    (d.parents_first_perm.trans reordered.states).trans d'.parents_first_perm.symm
  have alike := rostered.alike rostered' perm
  have moved : e₁' = e₁.rehouse e₁'.states.nodes := by
    rw [filled, filled']
    rfl
  -- The same registrations follow, and what they make of two tables of the same states is the same.
  obtain ⟨later, nodes⟩ := granted_rehouse (after_states_no_state d) alike rest
  rw [← moved, ← same] at later
  have done : e' = e.rehouse e₁'.states.nodes := congrArg Prod.snd (rest'.symm.trans later)
  exact ⟨e, e₁'.states.nodes, nodes ▸ alike, result, done ▸ result'⟩

end Machine

namespace Session
variable {σ : Type}

/-- Two sessions that nobody can tell apart except by the order of the children of a state. -/
structure Agree (s s' : Session σ) : Prop where
  current : s'.machine.current = s.machine.current
  notices : s'.notices = s.notices
  history : s'.machine.history = s.machine.history
  events : s'.engine.events = s.engine.events
  values : s'.engine.values = s.engine.values
  answers : ∀ a, s'.answer a = s.answer a
  works : ∀ w, (s'.run.work? w).isSome = (s.run.work? w).isSome
  names : s'.engine.states.names = s.engine.states.names
  states : ∀ n, Option.Rel Node.Alike (s.engine.states.nodes.find? n)
    (s'.engine.states.nodes.find? n)
  /-- Apart from the table of states there is no difference at all. -/
  rest : s' = s.rehouse s'.engine.states.nodes

theorem agree_rehouse {s : Session σ} {nodes : Table String Node}
    (alike : Alike s.engine.states.nodes nodes) (done : s.machine.stage ≠ .created) :
    s.Agree (s.rehouse nodes) where
  current := rfl
  notices := rfl
  history := rfl
  events := rfl
  values := rfl
  answers := answer_rehouse alike done
  works w := by
    have worked := Run.work_rehouse (r := s.run) alike w
    rw [run_rehouse, worked, Option.isSome_map]
  names := Hierarchy.names_rehouse alike
  states := alike.nodes
  rest := rfl

/-- Of two definitions that differ in the order of their states only, either both are valid or none
is. A machine that holds nothing yet is set up by the one as by the other, unless the clock has no
number for the end of the initial state's timeout: both break down on that. Set up and then used in
the same way, a machine is the same throughout: in all that it is, says and does, but for the order
in which it lists the children of a state. -/
theorem declaration_order_immaterial {d d' : Definition} (reordered : d.Reordered d') :
    (d.violations = [] ↔ d'.violations = []) ∧
    ∀ s : Session σ, s.Reachable → s.machine.stage = .created → s.machine.current = none →
      d.violations = [] →
      s.answer (.init d) = (if d.outlasts s.engine.clock then .broken () else .done ()) ∧
      s.answer (.init d') = s.answer (.init d) ∧
      (d.outlasts s.engine.clock = false → ∀ actions,
        ((s.act (.init d)).perform actions).Agree ((s.act (.init d')).perform actions)) := by
  refine ⟨⟨reordered.valid, reordered.symm.valid⟩, fun s reached created vacant valid => ?_⟩
  obtain ⟨⟨updates, events, clock, blank⟩, _⟩ := created_blank reached created vacant
  rw [show s.engine.clock = clock by rw [blank]; rfl]
  by_cases far : d.outlasts clock = true
  · have far' := (Machine.outlasts_reordered reordered valid clock).trans far
    obtain ⟨e, result, _⟩ := Machine.init_overrun valid s.machine created blank far
    obtain ⟨e', result', _⟩ :=
      Machine.init_overrun (reordered.valid valid) s.machine created blank far'
    have broken : s.answer (.init d) = .broken () := congrArg Prod.fst result
    have broken' : s.answer (.init d') = .broken () := congrArg Prod.fst result'
    exact ⟨by rw [broken, if_pos far], broken'.trans broken.symm, fun fits => by simp [far] at fits⟩
  have fits := Bool.eq_false_iff.mpr far
  obtain ⟨e, nodes, alike, result, result'⟩ :=
    Machine.init_reordered reordered valid created blank fits
  have done : s.answer (.init d) = .done () := congrArg Prod.fst result
  have done' : s.answer (.init d') = .done () := congrArg Prod.fst result'
  refine ⟨by rw [done, if_neg far], done'.trans done.symm, fun _ actions => ?_⟩
  have begun' : s.act (.init d') = (s.act (.init d)).rehouse nodes := by
    simp only [act, result, result']
    rfl
  have alike₁ : Alike (s.act (.init d)).engine.states.nodes nodes := by
    simpa only [act, engine, result] using alike
  have begun : (s.act (.init d)).machine.stage ≠ .created := by
    simp [act, result]
  obtain ⟨same, alike', later⟩ := perform_rehouse alike₁ begun actions
  rw [begun', same]
  exact agree_rehouse alike' later

/-- A house with two rooms, and a garden. -/
def house : Definition where
  states := [{ name := "house" }, { name := "hall", parent := some "house" },
    { name := "attic", parent := some "house", timeout := 50 }, { name := "garden" }]
  initial := "hall"
  rules := [.onEvent "house" "garden" "leave"]

/-- The same house, with the rooms declared before it. -/
def upended : Definition := { house with states := house.states.reverse }

def leaving : List (Action Unit) := [.start, .submit { name := "leave" }, .work .process]

/-- Both houses are left alike, and list their rooms in different orders. -/
theorem house_agrees_upended :
    (house.violations = [] ↔ upended.violations = []) ∧
    (((fresh "house" ()).act (.init house)).perform leaving).Agree
      (((fresh "house" ()).act (.init upended)).perform leaving) ∧
    (((fresh "house" ()).act (.init house)).perform leaving).machine.current = some "garden" ∧
    (((fresh "house" ()).act (.init house)).engine.states.state? "house").map (·.children) =
      some ["hall", "attic"] ∧
    (((fresh "house" ()).act (.init upended)).engine.states.state? "house").map (·.children) =
      some ["attic", "hall"] := by
  have reordered : house.Reordered upended := ⟨house.states.reverse_perm.symm, rfl, rfl, rfl⟩
  have reached : (fresh "house" ()).Reachable := ⟨"house", (), [], rfl⟩
  obtain ⟨both, lives⟩ := @declaration_order_immaterial Unit _ _ reordered
  obtain ⟨_, _, agree⟩ := lives (fresh "house" ()) reached rfl rfl (by decide +kernel)
  exact ⟨both, agree (by decide +kernel) leaving, by decide +kernel, by decide +kernel,
    by decide +kernel⟩

end Session
end Statechart
