import Statechart.Proofs.Arrangement
import Statechart.Proofs.Roster
/-!
Registration. Each kind of registration is granted under conditions that a valid definition meets
for all it asks to be registered, and says what it adds. So a blank engine takes a whole valid
definition without a refusal.
-/

namespace Statechart

/-- All of some registrations are granted, one after the other. -/
def Granted {σ : Type} (rs : List Registration) (e e' : Engine σ) : Prop :=
  Machine.registerAll rs e = (.done (), e')

section Loop
variable {σ : Type} {r : Registration} {rs first later : List Registration} {e e₁ e₂ : Engine σ}

theorem granted_cons (head : r.perform e = .done e₁) (tail : Granted rs e₁ e₂) :
    Granted (r :: rs) e e₂ := by
  unfold Granted Machine.registerAll
  rw [head]
  exact tail

theorem granted_uncons (all : Granted (r :: rs) e e₂) :
    ∃ e₁, r.perform e = .done e₁ ∧ Granted rs e₁ e₂ := by
  unfold Granted Machine.registerAll at all
  split at all
  · next e₁ taken => exact ⟨e₁, taken, all⟩
  · cases all
  · cases all

theorem register_append (head : Granted first e e₁) :
    Machine.registerAll (first ++ later) e = Machine.registerAll later e₁ := by
  induction first generalizing e with
  | nil =>
    cases head
    rfl
  | cons r rest ih =>
    obtain ⟨e', taken, head⟩ := granted_uncons head
    rw [List.cons_append, Machine.registerAll, taken]
    exact ih head

theorem granted_append (head : Granted first e e₁) (tail : Granted later e₁ e₂) :
    Granted (first ++ later) e e₂ :=
  (register_append head).trans tail

theorem granted_split (all : Granted (first ++ later) e e₂) :
    ∃ e₁, Granted first e e₁ ∧ Granted later e₁ e₂ := by
  induction first generalizing e with
  | nil => exact ⟨e, rfl, all⟩
  | cons r rest ih =>
    obtain ⟨e', taken, all⟩ := granted_uncons all
    obtain ⟨e₁, head, tail⟩ := ih all
    exact ⟨e₁, granted_cons taken head, tail⟩

/-- Where all is granted, each single registration is, with those before it made. -/
theorem granted_each {before after : List Registration}
    (all : Granted (before ++ r :: after) e e₂) :
    ∃ e₁ e₁', Granted before e e₁ ∧ r.perform e₁ = .done e₁' := by
  obtain ⟨e₁, head, tail⟩ := granted_split all
  obtain ⟨e₁', taken, _⟩ := granted_uncons tail
  exact ⟨e₁, e₁', head, taken⟩

/-- What every registration keeps is kept by all of them. -/
theorem Granted.keeps (granted : Granted rs e e₁) {P : Engine σ → Prop} (holds : P e)
    (keeps : ∀ (x : Registration) e e', x.perform e = .done e' → P e → P e') : P e₁ := by
  induction rs generalizing e with
  | nil =>
    cases granted
    exact holds
  | cons x rest ih =>
    obtain ⟨e', taken, granted⟩ := granted_uncons granted
    exact ih granted (keeps x e e' taken holds)

end Loop

/-- All that a registration can do. -/
inductive Registered {σ : Type} (e : Engine σ) : Registration → Ending (Engine σ) → Prop
  | state {s : State} {states : Hierarchy} : e.states.add s = .ok states →
    Registered e (.state s) (.done { e with states })
  | condition {c : Condition} {values : Holding} : e.values.add c e.clock = .ok values →
    Registered e (.condition c) (.done { e with values })
  | rule {r : Rule} {rules : RuleIndex} : e.rules.add r = .ok rules →
    Registered e (.rule r) (.done { e with rules })
  | trigger {t : Trigger} {e' : Engine σ} : e.addTrigger t = .ok e' →
    Registered e (.trigger t) (.done e')
  | initial {name : String} {states : Hierarchy} : e.states.enter name e.clock = .done states →
    Registered e (.initial name) (.done { e with states })
  /-- The initial state is entered, but its timeout ends beyond the clock's range. -/
  | overrun {name : String} {states : Hierarchy} : e.states.enter name e.clock = .broken states →
    Registered e (.initial name) (.broken { e with states })
  | refused (x : Registration) (cause : Error) : Registered e x (.refused cause)

theorem Registration.registered {σ : Type} (x : Registration) (e : Engine σ) :
    Registered e x (x.perform e) := by
  cases x with
  | state s =>
    simp only [perform, Engine.addState]
    cases added : e.states.add s with
    | ok states => exact .state added
    | error cause => exact .refused _ cause
  | condition c =>
    simp only [perform, Engine.addCondition]
    cases added : e.values.add c e.clock with
    | ok values => exact .condition added
    | error cause => exact .refused _ cause
  | rule r =>
    simp only [perform, Engine.addRule]
    cases added : e.rules.add r with
    | ok rules => exact .rule added
    | error cause => exact .refused _ cause
  | trigger t =>
    simp only [perform]
    cases added : e.addTrigger t with
    | ok e' => exact .trigger added
    | error cause => exact .refused _ cause
  | initial name =>
    simp only [perform, Engine.enterState]
    cases entered : e.states.enter name e.clock with
    | done states => exact .initial entered
    | refused cause => exact .refused _ cause
    | broken states => exact .overrun entered

/-- What one registration can change: it adds a state or enters one or leaves the states alone, and
apart from them it writes to the tables of conditions, values, rules and triggers only. -/
structure Enrolled {σ : Type} (e e' : Engine σ) : Prop where
  states : e'.states = e.states ∨ (∃ s, e.states.add s = .ok e'.states) ∨
    ∃ name, (e.states.enter name e.clock).Leaves e'.states
  sealing : e'.rules.isSealed = e.rules.isSealed
  rest : e' = { e with
    states := e'.states
    values := { e.values with registered := e'.values.registered, signals := e'.values.signals }
    rules := e'.rules
    triggers := e'.triggers }

namespace Enrolled
variable {σ : Type} {e e' : Engine σ} (enrolled : Enrolled e e')
include enrolled

theorem batch : e'.values.batch = e.values.batch :=
  congrArg (·.values.batch) enrolled.rest

theorem updates : e'.values.updates = e.values.updates :=
  congrArg (·.values.updates) enrolled.rest

theorem history : e'.history = e.history := congrArg (·.history) enrolled.rest

end Enrolled

theorem Registered.enrolled {σ : Type} {x : Registration} {e e' : Engine σ}
    {ending : Ending (Engine σ)} (registered : Registered e x ending) (leaves : ending.Leaves e') :
    Enrolled e e' := by
  cases registered with
  | @state s states added =>
    rcases leaves with same | same <;> cases same
    exact ⟨.inr (.inl ⟨s, added⟩), rfl, rfl⟩
  | condition added =>
    rcases leaves with same | same <;> cases same
    obtain ⟨_, rfl⟩ := Holding.add_cases added
    exact ⟨.inl rfl, rfl, rfl⟩
  | rule added =>
    rcases leaves with same | same <;> cases same
    obtain ⟨_, rfl⟩ := RuleIndex.add_cases added
    exact ⟨.inl rfl, rfl, rfl⟩
  | trigger added =>
    rcases leaves with same | same <;> cases same
    obtain ⟨_, _, _, rfl⟩ := Engine.add_trigger_cases added
    refine ⟨.inl rfl, rfl, ?_⟩
    split <;> rfl
  | @initial name states entered =>
    rcases leaves with same | same <;> cases same
    exact ⟨.inr (.inr ⟨name, .inl entered⟩), rfl, rfl⟩
  | @overrun name states entered =>
    rcases leaves with same | same <;> cases same
    exact ⟨.inr (.inr ⟨name, .inr entered⟩), rfl, rfl⟩
  | refused => rcases leaves with same | same <;> cases same

theorem Registration.enrolled {σ : Type} {x : Registration} {e e' : Engine σ}
    (leaves : (x.perform e).Leaves e') : Enrolled e e' :=
  (x.registered e).enrolled leaves

/-- What every registration keeps is kept by all that are made up to the first refusal. -/
theorem register_all_keeps {σ : Type} {P : Engine σ → Prop}
    (keeps : ∀ e e', Enrolled e e' → P e → P e') (rs : List Registration) (e : Engine σ)
    (holds : P e) : P (Machine.registerAll rs e).2 := by
  induction rs generalizing e with
  | nil => exact holds
  | cons x rest ih =>
    unfold Machine.registerAll
    split
    · next e' taken => exact ih e' (keeps e e' (Registration.enrolled (.inl taken)) holds)
    · exact holds
    · next e' broken => exact keeps e e' (Registration.enrolled (.inr broken)) holds

/-- So it is by the setting up of a machine, whether that succeeds or not. -/
theorem init_keeps {σ : Type} {P : Engine σ → Prop} (keeps : ∀ e e', Enrolled e e' → P e → P e')
    (m : Machine σ) (d : Definition) (holds : P m.engine) : P (m.init d).2.engine := by
  have kept := register_all_keeps keeps d.registrations m.engine holds
  unfold Machine.init
  split
  · exact holds
  split
  · exact holds
  split
  all_goals
    next all =>
    rw [all] at kept
    exact kept

/-- A table of states that holds some states and nothing else. -/
structure Placed (placed : List State) (h : Hierarchy) : Prop where
  idle : h.running = false
  forest : Forest h.nodes
  names : ∀ n, h.nodes.contains n = true ↔ n ∈ placed.map (·.name)
  kin : ∀ s ∈ placed, ∃ chain, kin? h.nodes s.name = some (s.namedParent, chain)
  timeouts : ∀ s ∈ placed, h.allowance s.name = s.timeout
  vacant : h.current = none

theorem placed_nil : Placed [] {} where
  idle := rfl
  forest := forest_empty
  names n := by simp [Table.contains, Table.find?]
  kin _ member := by cases member
  timeouts _ member := by cases member
  vacant := rfl

theorem placed_add {placed : List State} {h : Hierarchy} {s : State} (fine : Placed placed h)
    (ready : Definition.isReady (placed.map (·.name)) s = true)
    (new : s.name ∉ placed.map (·.name)) :
    ∃ h', h.add s = .ok h' ∧ Placed (s :: placed) h' := by
  have absent : h.nodes.contains s.name = false :=
    Bool.eq_false_iff.mpr fun known => new ((fine.names _).mp known)
  have below (p : String) (up : s.namedParent = some p) : h.nodes.contains p = true :=
    (fine.names p).mpr ((Definition.is_ready_iff _ s).mp ready p up)
  obtain ⟨h', added⟩ := h.add_succeeds s fine.idle absent below
  obtain ⟨_, _, same, kin⟩ := Hierarchy.kin_add added
  -- The new state is none of those placed, so their lineages and timeouts stay.
  have other {t : State} (member : t ∈ placed) : t.name ≠ s.name :=
    fun clash => new (clash ▸ List.mem_map_of_mem member)
  refine ⟨h', added, {
    idle := ?_
    forest := Hierarchy.forest_add fine.forest added
    names := fun n => ?_
    kin := fun t member => ?_
    timeouts := fun t member => ?_
    vacant := ?_ }⟩
  · rw [same]
    exact fine.idle
  · rw [Hierarchy.contains_add added n, fine.names n, List.map_cons, List.mem_cons]
  · rw [kin t.name]
    rcases List.mem_cons.mp member with rfl | member
    · simp
    · simpa [other member] using fine.kin t member
  · rcases List.mem_cons.mp member with rfl | member
    · simp [Hierarchy.allowance, Hierarchy.state_add added]
    · have known := (fine.names t.name).mpr (List.mem_map_of_mem member)
      rw [Hierarchy.allowance_add added known]
      exact fine.timeouts t member
  · rw [same]
    exact fine.vacant

variable {σ : Type}

theorem register_states (states placed : List State) (e : Engine σ) (fine : Placed placed e.states)
    (order : Definition.Placeable (placed.map (·.name)) states)
    (unique : (states.map (·.name)).Nodup)
    (fresh : ∀ s ∈ states, s.name ∉ placed.map (·.name)) :
    ∃ h, Granted (states.map .state) e { e with states := h } ∧
      Placed (states.reverse ++ placed) h := by
  induction states generalizing placed e with
  | nil => exact ⟨e.states, rfl, fine⟩
  | cons s rest ih =>
    have parts := List.nodup_cons.mp unique
    obtain ⟨h, added, placed'⟩ := placed_add fine order.1 (fresh s (List.mem_cons_self ..))
    have apart (t : State) (member : t ∈ rest) : t.name ∉ (s :: placed).map (·.name) := by
      intro known
      rcases List.mem_cons.mp known with same | known
      · exact parts.1 (List.mem_map.mpr ⟨t, member, same⟩)
      · exact fresh t (List.mem_cons_of_mem _ member) known
    -- The state just placed joins those that the rest may have as parents.
    obtain ⟨h', taken, done⟩ :=
      ih (s :: placed) { e with states := h } placed' order.2 parts.2 apart
    refine ⟨h', granted_cons ?_ taken, by simpa using done⟩
    simp [Registration.perform, Engine.addState, added, Except.map, Ending.ofExcept]

theorem find_ensured (signals : Table String Signal) (name : String) (now : Nat) (other : String) :
    (Holding.ensured signals name now).contains other = true ↔
      other = name ∨ signals.contains other = true := by
  unfold Holding.ensured
  split
  · next known =>
    constructor
    · exact .inr
    · rintro (rfl | held)
      · exact known
      · exact held
  · simp [Table.contains_put]

theorem mem_enlisted (known : List Condition) (c k : Condition) :
    k ∈ (if c ∈ known then known else known ++ [c]) ↔ k ∈ known ∨ k = c := by
  split
  · next listed =>
    constructor
    · exact .inl
    · rintro (old | rfl)
      · exact old
      · exact listed
  · simp

theorem registered_add {h h' : Holding} {c : Condition} {now : Nat} (added : h.add c now = .ok h')
    (n : String) (k : Condition) :
    k ∈ h'.registeredFor n ↔ k ∈ h.registeredFor n ∨ (k = c ∧ c.name = n) := by
  obtain ⟨_, rfl⟩ := Holding.add_cases added
  by_cases here : n = c.name
  · subst here
    simpa [Holding.registeredFor, Table.find_put] using mem_enlisted (h.registeredFor c.name) c k
  · simp [Holding.registeredFor, Table.find_put, here, Ne.symm here]

/-- A condition with proper intervals is taken and listed under its name, which is then known. -/
theorem add_condition (h : Holding) (c : Condition) (now : Nat) (idle : h.running = false)
    (proper : c.intervals ≠ [] ∧ ∀ i ∈ c.intervals, i.isProper = true) :
    ∃ h', h.add c now = .ok h' ∧
      h' = { h with registered := h'.registered, signals := h'.signals } ∧
      (∀ n k, k ∈ h'.registeredFor n ↔ k ∈ h.registeredFor n ∨ (k = c ∧ c.name = n)) ∧
      ∀ n, h'.contains n = true ↔ n = c.name ∨ h.contains n = true := by
  have allProper : c.intervals.find? (!·.isProper) = none := by
    simpa using proper.2
  have listed : c.intervals.isEmpty = false := by simpa using proper.1
  have added : ∃ h', h.add c now = .ok h' := by
    simp only [Holding.add, idle, listed, allProper, Bool.false_eq_true, if_false]
    exact ⟨_, rfl⟩
  obtain ⟨h', added⟩ := added
  refine ⟨h', added, ?_, registered_add added, fun n => ?_⟩
  all_goals obtain ⟨_, rfl⟩ := Holding.add_cases added
  · rfl
  · exact find_ensured _ _ _ _

theorem register_conditions (cs : List Condition) (e : Engine σ) (idle : e.values.running = false)
    (proper : ∀ c ∈ cs, c.intervals ≠ [] ∧ ∀ i ∈ c.intervals, i.isProper = true) :
    ∃ h, Granted (cs.map .condition) e { e with values := h } ∧
      h = { e.values with registered := h.registered, signals := h.signals } ∧
      (∀ n k, k ∈ h.registeredFor n ↔ k ∈ e.values.registeredFor n ∨ (k ∈ cs ∧ k.name = n)) ∧
      ∀ n, h.contains n = true ↔ (∃ c ∈ cs, c.name = n) ∨ e.values.contains n = true := by
  induction cs generalizing e with
  | nil => exact ⟨e.values, rfl, rfl, by simp, by simp⟩
  | cons c rest ih =>
    obtain ⟨h, added, same, listed, held⟩ :=
      add_condition e.values c e.clock idle (proper c (List.mem_cons_self ..))
    have idle' : h.running = false := by
      rw [same]
      exact idle
    obtain ⟨h', taken, same', listed', held'⟩ := ih { e with values := h } idle'
      fun k member => proper k (List.mem_cons_of_mem _ member)
    -- What was listed before, the condition itself and the rest come together in either order.
    refine ⟨h', granted_cons ?_ taken, ?_, fun n k => ?_, fun n => ?_⟩
    · simp [Registration.perform, Engine.addCondition, added, Except.map, Ending.ofExcept]
    · rw [same', same]
    · rw [listed', listed]
      simp only [List.mem_cons]
      constructor
      · rintro ((old | ⟨rfl, here⟩) | ⟨later, here⟩)
        · exact .inl old
        · exact .inr ⟨.inl rfl, here⟩
        · exact .inr ⟨.inr later, here⟩
      · rintro (old | ⟨rfl | later, here⟩)
        · exact .inl (.inl old)
        · exact .inl (.inr ⟨rfl, here⟩)
        · exact .inr ⟨later, here⟩
    · rw [held', held]
      simp only [List.exists_mem_cons_iff]
      constructor
      · rintro (later | here | old)
        · exact .inl (.inr later)
        · exact .inl (.inl here.symm)
        · exact .inr old
      · rintro ((here | later) | old)
        · exact .inr (.inl here.symm)
        · exact .inl later
        · exact .inr (.inr old)

theorem register_rules (rules : List Rule) (e : Engine σ) (unsealed : e.rules.isSealed = false) :
    ∃ index, Granted (rules.map .rule) e { e with rules := index } ∧ index.isSealed = false := by
  induction rules generalizing e with
  | nil => exact ⟨e.rules, rfl, unsealed⟩
  | cons r rest ih =>
    obtain ⟨index, added, still⟩ : ∃ index, e.rules.add r = .ok index ∧ index.isSealed = false := by
      simp only [RuleIndex.add, unsealed, Bool.false_eq_true, if_false]
      exact ⟨_, rfl, rfl⟩
    obtain ⟨index', taken, done⟩ := ih { e with rules := index } still
    refine ⟨index', granted_cons ?_ taken, done⟩
    simp [Registration.perform, Engine.addRule, added, Except.map, Ending.ofExcept]

/-- A trigger of a free name is taken, and its name is then known. -/
theorem add_trigger (e : Engine σ) (t : Trigger) (idle : e.running = false)
    (free : isReserved t.name = false) (new : ∀ k ∈ e.triggers, k.name ≠ t.name) :
    ∃ h, e.addTrigger t = .ok { e with triggers := e.triggers ++ [t], values := h } ∧
      h = { e.values with signals := h.signals } ∧
      ∀ n, h.contains n = true ↔ n = t.name ∨ e.values.contains n = true := by
  have unlisted : e.triggers.any (·.name == t.name) = false := by simpa using new
  simp only [Engine.addTrigger, idle, free, unlisted, Bool.false_eq_true, if_false]
  refine ⟨_, rfl, ?_, fun n => ?_⟩
  · split <;> rfl
  · split
    · next known =>
      constructor
      · exact .inr
      · rintro (rfl | held)
        · exact known
        · exact held
    · simp [Holding.store, Holding.contains, Table.contains_put]

theorem register_triggers (ts : List Trigger) (e : Engine σ) (idle : e.running = false)
    (free : ∀ t ∈ ts, isReserved t.name = false) (unique : (ts.map (·.name)).Nodup)
    (new : ∀ t ∈ ts, ∀ k ∈ e.triggers, k.name ≠ t.name) :
    ∃ h, Granted (ts.map .trigger) e { e with triggers := e.triggers ++ ts, values := h } ∧
      h = { e.values with signals := h.signals } ∧
      ∀ n, h.contains n = true ↔ (∃ t ∈ ts, t.name = n) ∨ e.values.contains n = true := by
  induction ts generalizing e with
  | nil => exact ⟨e.values, by simp [Granted, Machine.registerAll], rfl, by simp⟩
  | cons t rest ih =>
    have parts := List.nodup_cons.mp unique
    obtain ⟨h, added, same, held⟩ := add_trigger e t idle (free t (List.mem_cons_self ..))
      (new t (List.mem_cons_self ..))
    -- No trigger that is still to come has the name of one registered by now.
    have apart (u : Trigger) (member : u ∈ rest) (k : Trigger) (known : k ∈ e.triggers ++ [t]) :
        k.name ≠ u.name := by
      rcases List.mem_append.mp known with old | last
      · exact new u (List.mem_cons_of_mem _ member) k old
      · rw [List.mem_singleton.mp last]
        exact fun clash => parts.1 (List.mem_map.mpr ⟨u, member, clash.symm⟩)
    obtain ⟨h', taken, same', held'⟩ :=
      ih { e with triggers := e.triggers ++ [t], values := h } idle
        (fun u member => free u (List.mem_cons_of_mem _ member)) parts.2 apart
    refine ⟨h', granted_cons (congrArg Ending.ofExcept added) (by simpa using taken),
      by rw [same', same], fun n => ?_⟩
    rw [held', held]
    simp only [List.exists_mem_cons_iff, or_assoc, eq_comm (a := n)]
    exact or_left_comm

end Statechart
