import Statechart.Proofs.Registration
/-!
Setting a machine up. An engine with which nothing has been registered takes all of a valid
definition, and what it then holds is what the definition says. A machine that has only been talked
to has such an engine still, however often it has refused a definition; so validation decides
whether it can be set up, but for the one thing that validation does not look at: the clock may have
no number for the end of the initial state's timeout. Then all is registered and the initial state
is entered, but the machine does not count as set up.
-/

namespace Statechart

/-- A declared state and its declared ancestors up to a root. -/
inductive Definition.Ancestry (d : Definition) : String → List String → Prop
  | root {s : State} : s ∈ d.states → s.namedParent = none → Ancestry d s.name [s.name]
  | under {s : State} {parent : String} {chain : List String} : s ∈ d.states →
    s.namedParent = some parent → Ancestry d parent chain → Ancestry d s.name (s.name :: chain)

/-- The timeout of the initial state. -/
def Definition.initialTimeout (d : Definition) : Nat :=
  ((d.states.find? (·.name == d.initial)).map (·.timeout)).getD 0

/-- The clock has no number for the end of the initial state's timeout. -/
def Definition.outlasts (d : Definition) (clock : Nat) : Bool :=
  d.initialTimeout ≠ 0 && Clock.horizon ≤ clock + d.initialTimeout

/-- The plan of an engine that holds a definition. -/
structure Plan.Of (d : Definition) (p : Plan) : Prop where
  forest : Forest p.nodes
  names : ∀ n, p.nodes.contains n = true ↔ n ∈ d.names
  kin : ∀ s ∈ d.states, ∃ chain, kin? p.nodes s.name = some (s.namedParent, chain)
  registered : ∀ n c, c ∈ (p.registered.find? n).getD [] ↔ c ∈ d.conditions ∧ c.name = n
  triggers : p.triggers = d.triggers

theorem Plan.Of.ancestry {d : Definition} {p : Plan} (holds : p.Of d) (chain : List String) :
    ∀ s ∈ d.states, lineageIn p.nodes s.name = chain → d.Ancestry s.name chain := by
  induction chain with
  | nil =>
    intro s declared same
    obtain ⟨chain, kin⟩ := holds.kin s declared
    -- A lineage begins with the state itself, and goes on with the lineage of its parent.
    have linked := holds.forest.linked _ _ _ kin
    simp [lineageIn, kin, linked] at same
  | cons first rest ih =>
    intro s declared same
    obtain ⟨chain, kin⟩ := holds.kin s declared
    have linked := holds.forest.linked _ _ _ kin
    have whole : s.name :: lineageAbove p.nodes s.namedParent = first :: rest := by
      simpa [lineageIn, kin, ← linked] using same
    obtain ⟨rfl, above⟩ := List.cons.inj whole
    cases up : s.namedParent with
    | none =>
      rw [up] at above
      cases above
      exact .root declared up
    | some parent =>
      rw [up] at above kin
      obtain ⟨t, listed, rfl⟩ :=
        List.mem_map.mp ((holds.names parent).mp (holds.forest.rooted _ _ _ kin))
      exact .under declared up (ih t listed above)

namespace Engine
variable {σ : Type}

/-- An engine that has taken submissions and nothing else. -/
def blank (updates : List Update) (events : List Event) (clock : Nat) : Engine σ where
  values := { updates := { items := updates } }
  events := { items := events }
  clock := clock

/-- An engine with which nothing has been registered takes all of a valid definition up to the
initial state, which is then there to be entered. -/
theorem register_valid {d : Definition} (valid : d.Valid) (updates : List Update)
    (events : List Event) (clock : Nat) : ∃ (listed : List Registration) (e e' : Engine σ),
      d.registrations = listed ++ [.initial d.initial] ∧
      Granted listed (blank updates events clock) e ∧
      e.enterState d.initial = (if d.outlasts clock then .broken e' else .done e') ∧
      e'.plan.Of d ∧ e'.states.current = some d.initial ∧ e'.states.running = false ∧
      ∀ c ∈ d.conditions, e'.values.contains c.name = true := by
  -- Each kind of registration starts from the engine that the one before it left.
  have perm := d.parents_first_perm
  have renamed := perm.map (·.name)
  obtain ⟨h, states, placed⟩ := register_states d.parentsFirst []
    (blank updates events clock : Engine σ) placed_nil (Definition.parents_first_placeable valid)
    (renamed.nodup_iff.mpr valid.unique) fun _ _ member => by cases member
  rw [List.append_nil] at placed
  obtain ⟨v, conditions, framed, listed, held⟩ := register_conditions d.conditions
    { (blank updates events clock : Engine σ) with states := h } rfl valid.intervals
  obtain ⟨index, rules, _⟩ := register_rules d.rules
    { (blank updates events clock : Engine σ) with states := h, values := v } rfl
  obtain ⟨v', triggers, framed', held'⟩ := register_triggers d.triggers
    { (blank updates events clock : Engine σ) with states := h, values := v, rules := index } rfl
    valid.unreserved valid.distinct fun _ _ _ member => by cases member
  have named (n : String) : h.nodes.contains n = true ↔ n ∈ d.names := by
    rw [placed.names, List.map_reverse, List.mem_reverse]
    exact renamed.mem_iff
  have kept (s : State) (declared : s ∈ d.states) : s ∈ d.parentsFirst.reverse :=
    List.mem_reverse.mpr (perm.mem_iff.mpr declared)
  have timeout : h.allowance d.initial = d.initialTimeout := by
    obtain ⟨s, declared, same⟩ := List.mem_map.mp valid.initial
    rw [Definition.initialTimeout, ← same, Hierarchy.find_unique valid.unique declared]
    exact placed.timeouts s (kept s declared)
  let e : Engine σ := { (blank updates events clock : Engine σ) with
    states := h, values := v', rules := index, triggers := d.triggers }
  have enters : ∃ armed, e.enterState d.initial =
      if d.outlasts clock then
        .broken { e with states := { h with current := some d.initial, armed } }
      else .done { e with states := { h with current := some d.initial, armed } } := by
    have known : h.contains d.initial = true := (named _).mpr valid.initial
    have far : h.outlasts d.initial e.clock = d.outlasts clock := by
      rw [Hierarchy.outlasts, Definition.outlasts, timeout]
      rfl
    simp only [enterState, Hierarchy.enter_eq, e, known, far]
    by_cases beyond : d.outlasts clock = true
    · exact ⟨h.armed, by simp [beyond, Ending.map]⟩
    · exact ⟨h.armedFor d.initial clock, by simp [beyond, Ending.map, blank]⟩
  obtain ⟨armed, enters⟩ := enters
  refine ⟨_, e, _, rfl,
    granted_append (granted_append (granted_append states conditions) rules) triggers, enters,
    ?_, rfl, placed.idle, ?_⟩
  · constructor
    · exact placed.forest
    · exact named
    · exact fun s declared => placed.kin s (kept s declared)
    · intro n c
      have same : v'.registered = v.registered := by rw [framed']
      simp only [plan, e, same]
      exact (listed n c).trans (or_iff_right List.not_mem_nil)
    · rfl
  · intro c member
    have listed := (held c.name).mpr (.inl ⟨c, member, rfl⟩)
    exact (held' c.name).mpr (.inr listed)

end Engine

namespace Machine
variable {σ : Type}

/-- A machine that holds nothing is set up by a valid definition whose initial state can be armed.
-/
theorem init_valid {d : Definition} (valid : d.violations = []) (m : Machine σ)
    (created : m.stage = .created) {updates : List Update} {events : List Event} {clock : Nat}
    (untouched : m.engine = .blank updates events clock) (fits : d.outlasts clock = false) :
    ∃ e : Engine σ, Granted d.registrations m.engine e ∧
      m.init d = (.done (), { m with engine := e, stage := .initialized }) ∧ e.plan.Of d ∧
      e.states.current = some d.initial ∧ ∀ c ∈ d.conditions, e.values.contains c.name = true := by
  obtain ⟨listed, e, e', parts, granted, enters, holds, current, _, held⟩ :=
    Engine.register_valid (σ := σ) (Definition.valid_of_violations valid) updates events clock
  rw [fits, if_neg Bool.false_ne_true] at enters
  have all : Granted d.registrations m.engine e' := by
    rw [parts, untouched]
    exact granted_append granted (granted_cons enters rfl)
  refine ⟨e', all, ?_, holds, current, held⟩
  unfold Granted at all
  simp [init, created, valid, all]

/-- If the initial state cannot be armed all is registered, and yet the machine is not set up. From
then on the definition is refused for its first state. -/
theorem init_overrun {d : Definition} (valid : d.violations = []) (m : Machine σ)
    (created : m.stage = .created) {updates : List Update} {events : List Event} {clock : Nat}
    (untouched : m.engine = .blank updates events clock) (far : d.outlasts clock = true) :
    ∃ e : Engine σ, m.init d = (.broken (), { m with engine := e }) ∧ e.plan.Of d ∧
      e.states.current = some d.initial ∧ ∃ s ∈ d.states,
        ({ m with engine := e } : Machine σ).init d =
          (.refused (.duplicateState s.name), { m with engine := e }) := by
  obtain ⟨listed, e, e', parts, granted, enters, holds, current, idle, _⟩ :=
    Engine.register_valid (σ := σ) (Definition.valid_of_violations valid) updates events clock
  rw [far, if_pos rfl] at enters
  have all : registerAll d.registrations m.engine = (.broken (), e') := by
    rw [parts, untouched, register_append granted, registerAll]
    simp only [Registration.perform, enters]
  refine ⟨e', by simp [init, created, valid, all], holds, current, ?_⟩
  -- There is a state, as the initial one is declared; the first of them is refused next time.
  obtain ⟨first, declared, _⟩ := List.mem_map.mp (Definition.valid_of_violations valid).initial
  have perm := d.parents_first_perm
  cases order : d.parentsFirst with
  | nil =>
    rw [order] at perm
    exact absurd (perm.mem_iff.mpr declared) List.not_mem_nil
  | cons s rest =>
    have member : s ∈ d.states := perm.mem_iff.mp (order ▸ List.mem_cons_self ..)
    have known : e'.states.nodes.contains s.name = true :=
      (holds.names s.name).mpr (List.mem_map_of_mem member)
    have refused : registerAll d.registrations e' = (.refused (.duplicateState s.name), e') := by
      simp [Definition.registrations, order, registerAll, Registration.perform, Engine.addState,
        Hierarchy.add, idle, known, Ending.ofExcept, Except.map]
    exact ⟨s, member, by simp [init, created, valid, refused]⟩

theorem init_invalid {d : Definition} (invalid : d.violations ≠ []) (m : Machine σ)
    (created : m.stage = .created) :
    m.init d = (.refused (.invalidDefinition d.violations), m) := by
  simp [init, created, invalid]

end Machine

/-! The states of an engine go by the calls that the table of states takes. -/

/-- Calls that are made at some instant lead from one table of states to the other. -/
def Hierarchy.Becomes (h : Hierarchy) (now : Nat) (h' : Hierarchy) : Prop :=
  ∃ calls, (∀ c ∈ calls, ∀ t, Call.time? c = some t → t = now) ∧ h' = h.afterCalls calls

namespace Hierarchy
variable {h h' h'' : Hierarchy} {now : Nat}

theorem Becomes.refl (h : Hierarchy) (now : Nat) : h.Becomes now h :=
  ⟨[], fun _ member => (by cases member), rfl⟩

theorem Becomes.trans (first : h.Becomes now h') (later : h'.Becomes now h'') :
    h.Becomes now h'' := by
  obtain ⟨before, timely, rfl⟩ := first
  obtain ⟨after, timely', rfl⟩ := later
  refine ⟨before ++ after, fun c member => ?_, (h.after_calls_append before after).symm⟩
  exact (List.mem_append.mp member).elim (timely c) (timely' c)

theorem Becomes.call {c : Call} (timely : ∀ t, Call.time? c = some t → t = now)
    (same : (h.call c).2 = h') : h.Becomes now h' :=
  ⟨[c], fun _ member => List.mem_singleton.mp member ▸ timely, same.symm⟩

theorem becomes_add {s : State} (added : h.add s = .ok h') : h.Becomes now h' :=
  .call (c := .add s) (fun _ none => by cases none)
    (by simp [Hierarchy.call, answered, added, Ending.ofExcept, Ending.left])

theorem becomes_enter {name : String} (leaves : (h.enter name now).Leaves h') :
    h.Becomes now h' := by
  refine .call (c := .enter name now) (fun _ here => (Option.some.inj here).symm) ?_
  rcases leaves with same | same <;> simp [Hierarchy.call, answered, same, Ending.left]

theorem becomes_stop : h.Becomes now h.stop :=
  .call (c := .stop) (fun _ none => by cases none) rfl

theorem becomes_wake {spoken : Option Armed} (woken : h.wake? now = some (spoken, h')) :
    h.Becomes now h' :=
  .call (c := .wake now) (fun _ here => (Option.some.inj here).symm)
    (by simp [Hierarchy.call, woken])

end Hierarchy

namespace Engine
variable {σ : Type}

/-- The clock stands while the states of one engine become those of the other. -/
def Becomes (e e' : Engine σ) : Prop :=
  e'.clock = e.clock ∧ e.states.Becomes e.clock e'.states

theorem Becomes.refl (e : Engine σ) : e.Becomes e := ⟨rfl, .refl _ _⟩

theorem Becomes.trans {e e' e'' : Engine σ} (first : e.Becomes e') (later : e'.Becomes e'') :
    e.Becomes e'' :=
  ⟨later.1.trans first.1, first.2.trans (first.1 ▸ later.2)⟩

theorem becomes_start (e : Engine σ) : e.Becomes (e.start.left e) := by
  refine ⟨by rw [e.start_frame], .call (c := .start e.clock)
    (fun _ here => (Option.some.inj here).symm) ?_⟩
  have started := e.started
  generalize e.start = ending at started ⊢
  cases started with
  | up done =>
    rw [Ending.left, start_events_frame, start_values_frame]
    simp [Hierarchy.call, Hierarchy.answered, done, Ending.left]
  | overrun broken => simp [Hierarchy.call, Hierarchy.answered, broken, Ending.left]

theorem becomes_perform (e : Engine σ) (q : Request) : e.Becomes ((e.perform q).left e) := by
  cases q with
  | submit event => exact .refl _
  | assign name value => exact .refl _
  | stop =>
    simp only [perform]
    split
    · exact ⟨rfl, Hierarchy.becomes_stop⟩
    · exact .refl _
  | start =>
    simp only [perform]
    split
    · exact .refl _
    · exact e.becomes_start

end Engine

theorem Enrolled.becomes {σ : Type} {e e' : Engine σ} (enrolled : Enrolled e e') :
    e.Becomes e' := by
  refine ⟨by rw [enrolled.rest], ?_⟩
  rcases enrolled.states with same | ⟨s, added⟩ | ⟨name, leaves⟩
  · rw [same]
    exact .refl _ _
  · exact Hierarchy.becomes_add added
  · exact Hierarchy.becomes_enter leaves

theorem Run.advances_states {σ : Type} :
    Run.Advances fun r r' : Run σ => r.engine.Becomes r'.engine where
  refl _ := .refl _
  trans first later := first.trans later
  tell r n := Run.tell_advances .refl (fun first later => first.trans later)
    Engine.becomes_perform .refl r n
  enter _ _ _ leaves := ⟨rfl, Hierarchy.becomes_enter leaves⟩
  falls _ := .refl _
  record _ _ := .refl _
  park _ _ := .refl _

theorem Worked.states {σ : Type} {r r' : Run σ} {w : Work} (worked : Worked r w r') :
    r.engine.Becomes r'.engine := by
  cases worked with
  | @derive change changes popped =>
    have kept := Engine.derive_frame (fun e : Engine σ => (e.clock, e.states)) (fun _ _ => rfl)
      (fun _ _ _ => rfl) { r.engine with changes } change
    obtain ⟨clock, states⟩ := Prod.mk.inj kept
    exact ⟨clock, states ▸ .refl _ _⟩
  | apply taken =>
    rw [Run.withEngine, Engine.report_frame]
    exact .refl _
  | take => exact .refl _
  | fire released =>
    rw [Run.withEngine, Engine.report_frame]
    exact .refl _
  | wake woken => exact ⟨rfl, Hierarchy.becomes_wake woken⟩
  | wakeOverrun woken => exact ⟨rfl, Hierarchy.becomes_wake woken⟩
  | process _ popped => exact Run.advances_states.process _ _
  | carry here => exact Run.advances_states.carryOn (fun _ _ => .refl _) _ _
  | leave => exact .refl _

namespace Session
variable {σ : Type}

/-- The time passes between actions, and not in them. -/
theorem states_act (s : Session σ) (a : Action σ) :
    s.engine.clock ≤ (s.act a).engine.clock ∧
      s.engine.states.Becomes s.engine.clock (s.act a).engine.states := by
  suffices still : s.engine.Becomes (s.act a).engine ∨
      (s.act a).engine.states = s.engine.states ∧ s.engine.clock ≤ (s.act a).engine.clock by
    rcases still with ⟨clock, states⟩ | ⟨same, later⟩
    · exact ⟨Nat.le_of_eq clock.symm, states⟩
    · exact ⟨later, same ▸ .refl _ _⟩
  have setUp (d : Definition) : s.engine.Becomes (s.machine.init d).2.engine :=
    init_keeps (P := fun e => s.engine.Becomes e)
      (fun _ _ enrolled becomes => becomes.trans enrolled.becomes) s.machine d (.refl _)
  have acted := s.acted a
  generalize s.act a = after at acted ⊢
  cases acted with
  | idle => exact .inl (.refl _)
  | init d => exact .inl (setUp d)
  | load d => exact .inl (setUp d)
  | start _ _ _ started | overrun _ _ _ started =>
    have becomes :=
      Engine.becomes_start { s.engine with handler := s.machine.callbacks.handler }
    rw [started] at becomes
    exact .inl becomes
  | stop => exact .inl ⟨rfl, Hierarchy.becomes_stop⟩
  | submit event => exact .inl (.refl _)
  | assign name value => exact .inl (.refl _)
  | install => exact .inl (.refl _)
  | @work w r worked =>
    obtain ⟨handler, same⟩ := engine_adopt s r
    rw [same]
    exact .inl worked.states
  | pass span => exact .inr ⟨rfl, Nat.le_add_right ..⟩

/-- The states of a machine are what calls make of a new table. -/
theorem Reachable.made {s : Session σ} (reached : s.Reachable) :
    ∃ calls, s.engine.states = Hierarchy.made calls := by
  obtain ⟨name, client, actions, rfl⟩ := reached
  refine perform_keeps (P := fun s => ∃ calls, s.engine.states = Hierarchy.made calls) ?_ _ _
    ⟨[], rfl⟩
  rintro s a ⟨calls, made⟩
  obtain ⟨more, _, same⟩ := (states_act s a).2
  refine ⟨calls ++ more, ?_⟩
  rw [same, made, Hierarchy.made, Hierarchy.made, Hierarchy.after_calls_append]

theorem blank_worked {r r' : Run σ} {w : Work} (worked : Worked r w r') {updates : List Update}
    {events : List Event} {clock : Nat} (blank : r.engine = .blank updates events clock) :
    r'.engine = .blank updates events clock ∧ r'.notices = r.notices := by
  cases worked with
  | take =>
    refine ⟨?_, rfl⟩
    simp only [Run.withEngine, blank]
    rfl
  | derive popped => simp [blank, Engine.blank, Mailbox.pop?] at popped
  | apply taken => simp [blank, Engine.blank] at taken
  | fire released => simp [blank, Engine.blank, Agenda.release?] at released
  | wake woken => simp [blank, Engine.blank, Hierarchy.wake?, Hierarchy.isAlert] at woken
  | wakeOverrun woken => simp [blank, Engine.blank, Hierarchy.wake?, Hierarchy.isAlert] at woken
  | process _ popped => simp [blank, Engine.blank, Mailbox.pop?] at popped
  | carry here => simp [blank, Engine.blank] at here
  | leave _ strayed => simp [blank, Engine.blank] at strayed

/-- Whatever a machine has been through before it is set up, its engine has only taken submissions,
unless an attempt to set it up broke off once the initial state was entered. -/
theorem created_blank {s : Session σ} (reached : s.Reachable)
    (created : s.machine.stage = .created) (vacant : s.machine.current = none) :
    (∃ updates events clock, s.engine = .blank updates events clock) ∧ s.notices = [] := by
  obtain ⟨name, client, actions, rfl⟩ := reached
  revert created vacant
  refine perform_keeps (P := fun s => s.machine.stage = .created → s.machine.current = none →
    (∃ updates events clock, s.engine = .blank updates events clock) ∧ s.notices = []) ?_ _ _
    fun _ _ => ⟨⟨[], [], 0, rfl⟩, rfl⟩
  intro s a ih created vacant
  have before : s.machine.stage = .created := by
    by_contra done
    exact (plan_act s a done).2 created
  have empty : s.machine.current = none := by
    by_contra stands
    obtain ⟨calls, _, same⟩ := (states_act s a).2
    exact Hierarchy.current_after calls s.engine.states stands (same ▸ vacant)
  obtain ⟨⟨updates, events, clock, blank⟩, untold⟩ := ih before empty
  have setUp (d : Definition) (still : (s.machine.init d).2.stage = .created)
      (vacant : (s.machine.init d).2.current = none) : (s.machine.init d).2.engine = s.engine := by
    by_cases valid : d.violations = []
    · by_cases far : d.outlasts clock = true
      · obtain ⟨e, result, _, current, _⟩ := Machine.init_overrun valid s.machine before blank far
        rw [result] at vacant
        cases vacant.symm.trans current
      · obtain ⟨e, _, result, _⟩ :=
          Machine.init_valid valid s.machine before blank (Bool.eq_false_iff.mpr far)
        rw [result] at still
        cases still
    · rw [Machine.init_invalid valid s.machine before]
      rfl
  -- What is not a submission leaves the engine as it is.
  have acted := s.acted a
  generalize s.act a = after at acted created vacant ⊢
  cases acted with
  | idle => exact ⟨⟨updates, events, clock, blank⟩, untold⟩
  | init d => exact ⟨⟨updates, events, clock, (setUp d created vacant).trans blank⟩, untold⟩
  | load d => exact ⟨⟨updates, events, clock, (setUp d created vacant).trans blank⟩, untold⟩
  | start done => exact absurd before done
  | overrun done => exact absurd before done
  | stop runs =>
    rw [before] at runs
    cases runs
  | submit event =>
    exact ⟨⟨updates, events ++ [event], clock, congrArg (Engine.submit · event) blank⟩, untold⟩
  | assign name value =>
    refine ⟨⟨updates ++ [⟨name, value, clock⟩], events, clock, ?_⟩, untold⟩
    exact (congrArg (Engine.assign · name value) blank).trans rfl
  | install => exact ⟨⟨updates, events, clock, blank⟩, untold⟩
  | work worked =>
    obtain ⟨same, told⟩ := blank_worked worked blank
    refine ⟨⟨updates, events, clock, ?_⟩, told.trans untold⟩
    have idle : _ = false := congrArg Engine.running same
    simp only [adopt, engine, Machine.resume, before]
    exact same
  | pass span =>
    refine ⟨⟨updates, events, clock + span, ?_⟩, untold⟩
    exact congrArg (fun e : Engine σ => { e with clock := e.clock + span }) blank

/-- Only a machine that has not been set up can be. -/
theorem created_of_accepted {before : Session σ} {d : Definition}
    (ok : (before.machine.init d).1 = .done ()) : before.machine.stage = .created := by
  by_contra done
  rw [init_again before.machine d done] at ok
  cases ok

theorem accepted {before : Session σ} {d : Definition} (reached : before.Reachable)
    (vacant : before.machine.current = none) (accepted : (before.machine.init d).1 = .done ()) :
    d.Valid ∧ before.notices = [] ∧ ∃ e : Engine σ, before.act (.init d) =
      { before with machine := { before.machine with engine := e, stage := .initialized } } ∧
      e.plan.Of d ∧ e.states.current = some d.initial ∧
      ∀ c ∈ d.conditions, e.values.contains c.name = true := by
  have created := created_of_accepted accepted
  have valid : d.violations = [] := by
    by_contra invalid
    rw [Machine.init_invalid invalid before.machine created] at accepted
    cases accepted
  obtain ⟨⟨updates, events, clock, blank⟩, untold⟩ := created_blank reached created vacant
  have fits : d.outlasts clock = false := by
    by_contra far
    obtain ⟨e, result, _⟩ :=
      Machine.init_overrun valid before.machine created blank (Bool.not_eq_false _ ▸ far)
    rw [result] at accepted
    cases accepted
  obtain ⟨e, _, result, holds⟩ := Machine.init_valid valid before.machine created blank fits
  refine ⟨Definition.valid_of_violations valid, untold, e, ?_, holds⟩
  simp only [act, result]

/-- A machine that was set up from a definition holds it for good. -/
theorem Follows.holds {d : Definition} {s : Session σ} (follows : s.Follows d) :
    d.Valid ∧ s.engine.plan.Of d ∧ s.machine.stage ≠ .created := by
  refine follows.keeps (P := fun s => d.Valid ∧ s.engine.plan.Of d ∧ s.machine.stage ≠ .created)
    ?_ ?_
  · intro before reached vacant ok
    obtain ⟨valid, _, e, result, holds, _⟩ := Session.accepted reached vacant ok
    rw [result]
    exact ⟨valid, holds, fun same => (by cases same)⟩
  · rintro s a ⟨valid, holds, done⟩
    obtain ⟨same, done'⟩ := plan_act s a done
    exact ⟨valid, same ▸ holds, done'⟩

/-- A machine that was set up stands at one of the declared states, whatever became of it. -/
theorem Follows.current_declared {d : Definition} {s : Session σ} (follows : s.Follows d) :
    ∃ current, s.machine.current = some current ∧ current ∈ d.names := by
  obtain ⟨_, holds, _⟩ := follows.holds
  have stands : s.engine.states.current ≠ none := by
    refine follows.keeps (P := fun s => s.engine.states.current ≠ none) ?_ ?_
    · intro before reached vacant ok
      obtain ⟨_, _, e, result, _, current, _⟩ := accepted reached vacant ok
      rw [result]
      exact fun missing => by cases missing.symm.trans current
    · intro s a stands
      obtain ⟨calls, _, same⟩ := (states_act s a).2
      rw [same]
      exact Hierarchy.current_after calls _ stands
  obtain ⟨current, here⟩ := Option.ne_none_iff_exists'.mp stands
  obtain ⟨calls, made⟩ := follows.reachable.made
  have seated := (Hierarchy.made_rostered calls).2
  rw [← made] at seated
  exact ⟨current, here, (holds.names current).mp (seated current here)⟩

end Session
end Statechart
