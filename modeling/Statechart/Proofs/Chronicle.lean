import Mathlib.Data.List.Chain
import Statechart.Proofs.Protocol
/-!
The history of a machine. One who listens to what the application is told can write down every
transition as it is made. As long as one worker goes through the events one after the other, and
neither an entry breaks down nor the handler that is told of it, the history holds the last of these
transitions, as many as fit; they lead from the initial state to the current one, each from where
the one before it went. A breakdown on an entry comes between the move and its record, and leaves a
gap.
-/

namespace Statechart

/-- The transitions go from one state to another, each from where the one before it went. -/
def Leads : String → List Passage → String → Prop
  | start, [], stop => start = stop
  | start, p :: rest, stop => p.source = start ∧ Leads p.target rest stop

theorem Leads.snoc {start stop : String} {made : List Passage} (leads : Leads start made stop)
    {p : Passage} (next : p.source = stop) : Leads start (made ++ [p]) p.target := by
  induction made generalizing start with
  | nil =>
    cases leads
    exact ⟨next, rfl⟩
  | cons first rest ih => exact ⟨leads.1, ih leads.2⟩

theorem Leads.chain {start stop : String} {made : List Passage} (leads : Leads start made stop) :
    made.IsChain fun p q => p.target = q.source := by
  induction made generalizing start with
  | nil => exact .nil
  | cons first rest ih =>
    cases rest with
    | nil => exact .singleton _
    | cons next more => exact .cons_cons leads.2.1.symm (ih leads.2)

theorem Leads.head {start stop : String} {made : List Passage} (leads : Leads start made stop)
    {p : Passage} (first : made.head? = some p) : p.source = start := by
  cases made with
  | nil => cases first
  | cons q rest =>
    cases first
    exact leads.1

namespace History

/-- A history that keeps the last transitions keeps the last ones after a further one. -/
theorem record_last {h : History} {made : List Passage} (room : 0 < h.capacity.toNat)
    (kept : h.passages = made.drop (made.length - h.capacity.toNat)) (p : Passage) :
    (h.record p).passages = (made ++ [p]).drop ((made ++ [p]).length - h.capacity.toNat) := by
  have length : h.passages.length = made.length - (made.length - h.capacity.toNat) := by
    rw [kept, List.length_drop]
  have short : made.length + 1 - h.capacity.toNat ≤ made.length := by omega
  simp only [record, List.length_append, List.length_singleton, List.drop_append_of_le_length short]
  -- A full history gives up its oldest passage for the new one.
  congr 1
  split
  · rw [kept, List.drop_drop]
    congr 1
    omega
  · rw [kept]
    congr 1
    omega

/-- The path of the last transitions is the end of the way on which all of them lead. -/
theorem path_last {start stop : String} {made : List Passage} (leads : Leads start made stop)
    (dropped : Nat) (short : dropped < made.length) (capacity : UInt64) :
    path ⟨capacity, made.drop dropped⟩ = (start :: made.map (·.target)).drop dropped := by
  induction made generalizing start dropped with
  | nil => simp at short
  | cons first rest ih =>
    cases dropped with
    | zero => simp [path, leads.1]
    | succ k => exact ih leads.2 k (Nat.lt_of_succ_lt_succ short)

end History

namespace Run
variable {σ : Type}

/-- What the application is told as an event is processed. -/
def tells (r : Run σ) (event : Event) : List Notice :=
  (r.process event).notices.drop r.notices.length

/-- The transition that is made as an event is processed, by what the application is told of it and
by the state that is current in the end. -/
def crossed (r : Run σ) (event : Event) : Option Passage :=
  match r.tells event, (r.process event).engine.states.current with
  | .pre source _ :: .transition exited _ entered :: .exit _ :: .enter _ :: _, some target =>
    some { source, target, event := event.name, exited, entered, time := .ofMicros r.engine.clock }
  | _, _ => none

/-- The last that the application is told is an entry: its handler broke down on it. -/
def failsOnEntry (r : Run σ) (event : Event) : Bool :=
  (r.tells event).getLast?.any (·.role = .enter)

/-- A transition is made only if the application is told at least of its entry. -/
theorem crossed_short {r : Run σ} {event : Event} (short : (r.tells event).length ≤ 3) :
    r.crossed event = none := by
  unfold crossed
  split
  · next told _ =>
    simp only [told, List.length_cons] at short
    omega
  · rfl

namespace Outcome
variable {r : Run σ} {current : String} {event : Event} (outcome : r.Outcome current event)
include outcome

theorem tells : r.tells event = (Step.tellings current (r.did event)).map (·.1) := by
  rw [Run.tells, outcome.notices, List.drop_left]

/-- An event is dropped, with nothing told of it, exactly if it is a timeout of another state. -/
theorem tells_nil_iff : r.tells event = [] ↔ Engine.isStale current event = true := by
  have performs := outcome.performs
  have script := outcome.script
  rw [outcome.tells]
  generalize r.steps event = steps at performs script
  cases script with
  | dropped stale =>
    rw [List.prefix_nil.mp performs.part]
    simp [Step.tellings, stale]
  | refused fresh | unmatched fresh | moves fresh =>
    obtain ⟨more, did⟩ := performs.begun
    simp [did, Step.tellings, fresh]

/-- A move of the engine is told as it is made, unless the entry breaks down. It is recorded unless
the handler breaks down on the entry. -/
theorem crossed_cases (sound : r.overruns event = false) :
    (r.crossed event = none ∧ (r.process event).engine.trail = r.engine.trail) ∨
    ∃ p, r.crossed event = some p ∧ p.source = current ∧
      (r.process event).engine.states.current = some p.target ∧
      ⟨p.exited, p.entered⟩ = r.engine.states.path current p.target ∧
      (r.failsOnEntry event = false →
        (r.process event).engine.history = r.engine.history.record p) := by
  have told := outcome.tells
  have arrived := outcome.performs.current
  rw [← outcome.performs.same, ← outcome.processed] at arrived
  rcases outcome.script.stages outcome.performs.part outcome.performs.breaks with
    ⟨short, only⟩ | ⟨rule, whole, four | five | all⟩
  · -- The event ends before the state is entered, so it has moved nothing.
    left
    constructor
    · refine crossed_short ?_
      rw [told, List.length_map]
      exact (Step.length_tellings current _).trans short
    · refine (outcome.still fun state member => ?_).1
      obtain ⟨n, entry⟩ := only _ member
      cases entry
  · -- The script ends with the entry: that has broken down.
    rw [whole] at four
    rw [overruns, four] at sound
    cases sound
  · rw [whole] at five
    -- The handler has broken down as it was told of the entry.
    rw [five] at told arrived
    refine .inr ⟨r.passage current rule event, ?_, rfl, arrived, rfl, fun sound => ?_⟩
    · rw [crossed, told, arrived]
      rfl
    · rw [failsOnEntry, told] at sound
      cases sound
  · rw [whole] at all
    obtain ⟨_, _, history⟩ := outcome.moved (r.passage current rule event)
      (by rw [all]; simp [crossing])
    rw [all] at told arrived
    refine .inr ⟨r.passage current rule event, ?_, rfl, arrived, rfl, fun _ => history⟩
    rw [crossed, told, arrived]
    rfl

end Outcome
end Run

/-- These transitions lead to where the engine is, and its history is the end of them. -/
structure Records {σ : Type} (d : Definition) (e : Engine σ) (made : List Passage) : Prop where
  leads : ∃ current, e.states.current = some current ∧ Leads d.initial made current
  capacity : e.history.capacity = History.defaultCapacity
  kept : e.history.passages = made.drop (made.length - History.defaultCapacity.toNat)
  declared : ∀ p ∈ made, p.source ∈ d.names ∧ p.target ∈ d.names ∧
    ⟨p.exited, p.entered⟩ = e.states.path p.source p.target

namespace Records
variable {σ : Type} {d : Definition} {e e' : Engine σ} {made : List Passage}

theorem stay (records : Records d e made) (same : e'.trail = e.trail)
    (nodes : e'.states.nodes = e.states.nodes) : Records d e' made := by
  obtain ⟨current, history⟩ := Prod.mk.inj same
  constructor
  · rw [current]
    exact records.leads
  · rw [history]
    exact records.capacity
  · rw [history]
    exact records.kept
  · intro p member
    rw [Hierarchy.path_of_nodes nodes]
    exact records.declared p member

theorem move (records : Records d e made) {p : Passage}
    (moved : e'.trail = (some p.target, e.history.record p))
    (nodes : e'.states.nodes = e.states.nodes) (source : e.states.current = some p.source)
    (declared : p.source ∈ d.names ∧ p.target ∈ d.names)
    (way : ⟨p.exited, p.entered⟩ = e.states.path p.source p.target) :
    Records d e' (made ++ [p]) := by
  obtain ⟨current, history⟩ := Prod.mk.inj moved
  obtain ⟨start, stands, leads⟩ := records.leads
  have next : p.source = start := Option.some.inj (source.symm.trans stands)
  constructor
  · exact ⟨p.target, current, leads.snoc next⟩
  · rw [history]
    exact records.capacity
  · have kept := records.kept
    rw [← records.capacity] at kept ⊢
    rw [history]
    exact History.record_last (by rw [records.capacity]; decide) kept p
  · intro q member
    rw [Hierarchy.path_of_nodes nodes]
    rcases List.mem_append.mp member with old | last
    · exact records.declared q old
    · rw [List.mem_singleton.mp last]
      exact ⟨declared.1, declared.2, way⟩

end Records

namespace Session
variable {σ : Type}

/-- The transitions made in the course of some actions. -/
def passages (s : Session σ) (actions : List (Action σ)) : List Passage :=
  (s.processed actions).filterMap fun t => t.1.crossed t.2

theorem records_init {d : Definition} {before : Session σ} (reached : before.Reachable)
    (vacant : before.machine.current = none) (accepted : (before.machine.init d).1 = .done ()) :
    Records d (before.act (.init d)).engine [] := by
  obtain ⟨created, granted⟩ := init_granted accepted
  obtain ⟨⟨updates, events, clock, blank⟩, _⟩ := created_blank reached created vacant
  have history : (before.act (.init d)).engine.history = .ofCapacity History.defaultCapacity := by
    refine init_keeps (P := fun e => e.history = .ofCapacity History.defaultCapacity) ?_
      before.machine d (congrArg Engine.history blank)
    exact fun e e' enrolled same => enrolled.history.trans same
  obtain ⟨_, _, e, result, _, current, _⟩ := Session.accepted reached vacant accepted
  constructor
  · refine ⟨d.initial, ?_, rfl⟩
    rw [result]
    exact current
  · exact congrArg History.capacity history
  · exact congrArg History.passages history
  · intro p member
    cases member

section Acts
variable {d : Definition} {s : Session σ} (follows : s.Follows d)
include follows

theorem Follows.records_act {made : List Passage} (records : Records d s.engine made) (a : Action σ)
    (settled : s.engine.pending = []) (whole : (s.act a).engine.isShared = false)
    (timely : ∀ t, s.taken a = some t → t.1.overruns t.2 = false)
    (sound : ∀ t ∈ s.taken a, t.1.failsOnEntry t.2 = false) : Records d (s.act a).engine
      (made ++ (s.taken a).toList.filterMap fun t => t.1.crossed t.2) := by
  obtain ⟨_, _, done⟩ := follows.holds
  have nodes : (s.act a).engine.states.nodes = s.engine.states.nodes :=
    congrArg Plan.nodes (plan_act s a done).1
  cases taken : s.taken a with
  | none =>
    rw [Option.toList_none, List.filterMap_nil, List.append_nil]
    exact records.stay (act_untaken done settled taken).1 nodes
  | some taking =>
    obtain ⟨r, event⟩ := taking
    have fine := sound (r, event) taken
    obtain ⟨⟨handler, result⟩, states, trail, _, current, stands, outcome⟩ :=
      follows.outcome_taken whole taken
    have engine : (s.act a).engine.trail = (r.process event).engine.trail :=
      congrArg (·.engine.trail) result
    rcases outcome.crossed_cases (timely _ taken) with
      ⟨unmoved, same⟩ | ⟨p, crossed, source, target, way, recorded⟩
    · simp only [Option.toList_some, List.filterMap_cons, unmoved, List.filterMap_nil,
        List.append_nil]
      exact records.stay (engine.trans (same.trans trail)) nodes
    · simp only [Option.toList_some, List.filterMap_cons, crossed, List.filterMap_nil]
      have moved : (s.act a).engine.trail = (some p.target, s.engine.history.record p) := by
        rw [engine, ← show r.engine.history = s.engine.history from congrArg (·.2) trail]
        exact Prod.ext target (recorded fine)
      rw [states, ← source] at way
      rw [← source] at stands
      obtain ⟨_, here, origin⟩ := follows.current_declared
      obtain ⟨_, there, goal⟩ := (follows.act a).current_declared
      -- Both ends of the move have been current states, and these are declared.
      cases stands.symm.trans here
      cases (congrArg (·.1) moved).symm.trans there
      exact records.move moved nodes stands ⟨origin, goal⟩ way

theorem Follows.records_perform (actions : List (Action σ)) {made : List Passage}
    (records : Records d s.engine made) (settled : s.engine.pending = [])
    (alone : s.Alone actions) (timely : s.InTime actions)
    (sound : ∀ t ∈ s.processed actions, t.1.failsOnEntry t.2 = false) :
    Records d (s.perform actions).engine (made ++ s.passages actions) := by
  induction actions generalizing s made with
  | nil =>
    rw [passages, processed, List.filterMap_nil, List.append_nil]
    exact records
  | cons a rest ih =>
    obtain ⟨_, _, done⟩ := follows.holds
    obtain ⟨now, later⟩ := in_time_cons timely
    have whole := alone_first (alone_cons alone)
    have first := follows.records_act records a settled whole now fun t member =>
      sound t (List.mem_append_left _ (Option.mem_toList.mpr member))
    have rest := ih (follows.act a) first (settled_act a done settled whole) (alone_cons alone)
      later fun t member => sound t (List.mem_append_right _ member)
    rw [passages, processed, List.filterMap_append, ← List.append_assoc]
    exact rest

end Acts

/-- As long as one worker goes through the events one after the other, and neither an entry breaks
down nor a handler that is told of one, the history of a machine holds the last of the transitions
that it has made, up to 256 of them. They lead from the initial state to the current one, each from
where the one before it went, on the paths between declared states. So the path of the history is
the end of the sequence of states that have been current. -/
theorem history_holds_last_passages {d : Definition} {before : Session σ}
    (reached : before.Reachable) (vacant : before.machine.current = none)
    (accepted : (before.machine.init d).1 = .done ()) (actions : List (Action σ))
    (alone : (before.act (.init d)).Alone actions)
    (timely : (before.act (.init d)).InTime actions)
    (sound : ∀ t ∈ (before.act (.init d)).processed actions, t.1.failsOnEntry t.2 = false) :
    let s := (before.act (.init d)).perform actions
    let made := (before.act (.init d)).passages actions
    s.machine.history.passages = made.drop (made.length - 256) ∧
    (∃ current, s.machine.current = some current ∧ Leads d.initial made current) ∧
    s.machine.history.passages.IsChain (fun p q => p.target = q.source) ∧
    (made.length ≤ 256 → ∀ p, s.machine.history.passages.head? = some p → p.source = d.initial) ∧
    (∀ p ∈ made, p.source ∈ d.names ∧ p.target ∈ d.names ∧
      ⟨p.exited, p.entered⟩ = s.engine.states.path p.source p.target) ∧
    s.machine.history.path = if made = [] then [] else
      (d.initial :: made.map (·.target)).drop (made.length - 256) := by
  intro s made
  have follows : (before.act (.init d)).Follows d := ⟨before, [], reached, vacant, accepted, rfl⟩
  have records := follows.records_perform actions (records_init reached vacant accepted)
    (accepted_settled reached vacant accepted) alone timely sound
  rw [List.nil_append] at records
  obtain ⟨current, stands, leads⟩ := records.leads
  have kept : s.machine.history.passages = made.drop (made.length - 256) := records.kept
  refine ⟨kept, ⟨current, stands, leads⟩, ?_, ?_, records.declared, ?_⟩
  · rw [kept]
    exact leads.chain.drop _
  · intro few p first
    rw [kept, Nat.sub_eq_zero_of_le few, List.drop_zero] at first
    exact leads.head first
  · have whole : s.machine.history = ⟨History.defaultCapacity, made.drop (made.length - 256)⟩ := by
      rw [← records.capacity]
      exact congrArg (History.mk _) kept
    rw [whole]
    split
    · next unmoved => simp [unmoved, History.path]
    · next moved =>
      have count := List.length_pos_iff.mpr moved
      exact History.path_last leads _ (Nat.sub_lt count (by decide)) _

/-- A lamp is turned on and off, with a restart in between. -/
def flicker {σ : Type} (h : Handler σ) : List (Action σ) :=
  [.install (·.delegateTo h), .start, .submit { name := "up" }, .work .process, .stop, .start,
    .submit { name := "down" }, .work .process]

theorem flicker_chronicled :
    (((fresh "lamp" ()).act (.init lamp)).passages (flicker .quiet)).map (·.target) =
      ["Dim", "Off"] ∧
    (((fresh "lamp" ()).act (.init lamp)).perform (flicker .quiet)).machine.history.path =
      ["Off", "Dim", "Off"] := by
  have made : (((fresh "lamp" ()).act (.init lamp)).passages (flicker .quiet)).map (·.target) =
      ["Dim", "Off"] := by decide +kernel
  have reached : (fresh "lamp" ()).Reachable := ⟨_, _, [], rfl⟩
  have accepted : ((fresh "lamp" ()).machine.init lamp).1 = .done () := by decide +kernel
  obtain ⟨_, _, _, _, _, path⟩ := history_holds_last_passages reached rfl accepted (flicker .quiet)
    (by decide +kernel) (by decide +kernel) (by decide +kernel)
  refine ⟨made, path.trans ?_⟩
  have count := congrArg List.length made
  rw [List.length_map] at count
  rw [if_neg (by rintro unmoved; rw [unmoved] at made; cases made), made, count]
  rfl

/-- An application that breaks down on the first entry of which it is told. -/
def timid : Handler Bool := fun n told =>
  if n.role = .enter ∧ told = false then ({ fails := true }, true) else ({}, told)

/-- A transition whose entry a handler breaks down on is made but not recorded: after a restart the
history begins where no machine begins. -/
theorem flicker_leaves_gap :
    let start := (fresh "lamp" false).act (.init lamp)
    let s := start.perform (flicker timid)
    s.Follows lamp ∧
    (start.passages (flicker timid)).map (fun p => (p.source, p.target)) =
      [("Off", "Dim"), ("Dim", "Off")] ∧
    s.machine.history.passages.map (fun p => (p.source, p.target)) = [("Dim", "Off")] ∧
    s.machine.history.path = ["Dim", "Off"] ∧ lamp.initial = "Off" := by
  refine ⟨⟨fresh "lamp" false, _, ⟨_, _, [], rfl⟩, rfl, by decide +kernel, rfl⟩, ?_, ?_, ?_, rfl⟩
  · decide +kernel
  · decide +kernel
  · decide +kernel

end Session
end Statechart
