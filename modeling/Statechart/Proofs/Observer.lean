import Statechart.Proofs.Paths
import Statechart.Proofs.Script
/-!
Exits and entries tell the active configuration. An observer that knows which states were active at
the beginning, and from then on listens to nothing but exits and entries, knows at any time the
current state and its ancestors. The invariant ties the observer to the engine: what it takes to be
active is the lineage of the current state. It holds as long as one worker goes through the events
one after the other, and no entry breaks down on the clock, of which nothing is told.
-/

namespace Statechart

/-- One who keeps a list of the active states, innermost first. -/
structure Observer where
  active : List String
  /-- The states that were left last. -/
  leaving : List String := []

namespace Observer

def see (o : Observer) : Notice → Observer
  | .exit states => { o with leaving := states }
  | .enter states => { active := states.reverse ++ leave o.active o.leaving }
  | .pre .. | .transition .. | .post .. => o

def watch (o : Observer) (notices : List Notice) : Observer := notices.foldl see o

/-- What it may be told: the front of its list is left, and states are entered in order. -/
def Expects (parent : String → Option String) (o : Observer) : Notice → Prop
  | .exit states => states <+: o.active
  | .enter states => Admits parent (leave o.active o.leaving) states
  | .pre .. | .transition .. | .post .. => True

def Orderly (parent : String → Option String) : Observer → List Notice → Prop
  | _, [] => True
  | o, n :: rest => o.Expects parent n ∧ Orderly parent (o.see n) rest

theorem watch_snoc (o : Observer) (notices : List Notice) (n : Notice) :
    o.watch (notices ++ [n]) = (o.watch notices).see n := by
  rw [watch, List.foldl_append]
  rfl

theorem orderly_snoc (parent : String → Option String) (o : Observer) (notices : List Notice)
    (n : Notice) (orderly : o.Orderly parent notices)
    (expected : (o.watch notices).Expects parent n) : o.Orderly parent (notices ++ [n]) := by
  induction notices generalizing o with
  | nil => exact ⟨expected, trivial⟩
  | cons first rest ih =>
    obtain ⟨fine, later⟩ := orderly
    exact ⟨fine, ih (o.see first) later expected⟩

end Observer

theorem Plan.Of.charted {d : Definition} {p : Plan} (holds : p.Of d) (valid : d.Valid) :
    Charted d.parentOf? p.nodes := by
  refine ⟨holds.forest, fun n parent chain found => ?_⟩
  have member : n ∈ d.names :=
    (holds.names n).mp ((Hierarchy.contains_iff_kin _ _).mpr ⟨parent, chain, found⟩)
  obtain ⟨s, declared, rfl⟩ := List.mem_map.mp member
  obtain ⟨chain', kin⟩ := holds.kin s declared
  rw [found] at kin
  cases kin
  exact Definition.parent_of_unique valid.unique declared

/-- The observer is in step with the engine. -/
structure Tracks {σ : Type} (parent : String → Option String) (start : Observer) (r : Run σ)
    (current : String) : Prop where
  charted : Charted parent r.engine.states.nodes
  stands : r.engine.states.current = some current
  known : r.engine.states.nodes.contains current = true
  active : (start.watch r.notices).active = lineageIn r.engine.states.nodes current
  orderly : start.Orderly parent r.notices

namespace Tracks
variable {σ : Type} {parent : String → Option String} {start : Observer} {r r' : Run σ}
  {current : String}

/-- Without a change of the place the observer stays in step, if it is told in order. -/
theorem stay (tracks : Tracks parent start r current) (same : r'.engine.place = r.engine.place)
    (active : (start.watch r'.notices).active = (start.watch r.notices).active)
    (orderly : start.Orderly parent r'.notices) : Tracks parent start r' current := by
  obtain ⟨nodes, stands⟩ := Prod.mk.inj same
  constructor
  · rw [nodes]
    exact tracks.charted
  · rw [stands]
    exact tracks.stands
  · rw [nodes]
    exact tracks.known
  · rw [active, nodes]
    exact tracks.active
  · exact orderly

theorem move (tracks : Tracks parent start r current) (same : r'.engine.place = r.engine.place)
    (untold : r'.notices = r.notices) : Tracks parent start r' current :=
  tracks.stay same (by rw [untold]) (untold ▸ tracks.orderly)

theorem tell (tracks : Tracks parent start r current) {n : Notice}
    (expected : (start.watch r.notices).Expects parent n)
    (unmoved : ((start.watch r.notices).see n).active = (start.watch r.notices).active) :
    Tracks parent start (r.tell n).2 current := by
  refine tracks.stay (r.place_tell n) ?_
    (start.orderly_snoc parent r.notices n tracks.orderly expected)
  exact (congrArg Observer.active (start.watch_snoc r.notices n)).trans unmoved

theorem exit (tracks : Tracks parent start r current) (target : String) :
    Tracks parent start (r.tell (.exit (r.engine.states.path current target).exit)).2 current := by
  refine tracks.tell ?_ rfl
  have front := Path.exit_front (lineageIn r.engine.states.nodes current)
    (r.engine.states.lineageOrSelf target)
  simpa only [Observer.Expects, tracks.active, Hierarchy.path,
    Hierarchy.lineage_or_self_eq _ tracks.known] using front

/-- Once the front of its list is left, the entry of the target brings the observer there. -/
theorem enter (tracks : Tracks parent start r current) {target : String} {states : Hierarchy}
    (entered : r.engine.states.enter target r.engine.clock = .done states)
    (left : (start.watch r.notices).leaving = (r.engine.states.path current target).exit) :
    Tracks parent start ((r.withEngine fun e => { e with states }).tell
      (.enter (r.engine.states.path current target).enter)).2 target := by
  obtain ⟨known, frame⟩ := Hierarchy.enter_frame (.inl entered)
  obtain ⟨nodes, stands⟩ := Prod.mk.inj ((r.withEngine fun e => { e with states }).place_tell
    (.enter (r.engine.states.path current target).enter))
  replace nodes := nodes.trans (congrArg Hierarchy.nodes frame)
  replace stands := stands.trans (congrArg Hierarchy.current frame)
  have way : r.engine.states.path current target = Path.between
      (lineageIn r.engine.states.nodes current) (lineageIn r.engine.states.nodes target) := by
    rw [Hierarchy.path, Hierarchy.lineage_or_self_eq _ tracks.known,
      Hierarchy.lineage_or_self_eq _ known]
  constructor
  · rw [nodes]
    exact tracks.charted
  · exact stands
  · rw [nodes]
    exact known
  · rw [nodes]
    refine (congrArg Observer.active (start.watch_snoc r.notices _)).trans ?_
    rw [Observer.see, left, tracks.active, way]
    exact Path.between_leads _ _ (tracks.charted.lineage tracks.known).2
  · refine start.orderly_snoc parent r.notices _ tracks.orderly ?_
    rw [Observer.Expects, left, tracks.active, way]
    exact tracks.charted.admits_path tracks.known known

/-- Steps of which the observer does not take note keep it in step. -/
theorem unheeded (tracks : Tracks parent start r current) {steps : List Step}
    (passes : ∀ step ∈ steps, ∃ n : Notice, step = .tell n ∧ (n.role = .pre ∨ n.role = .post)) :
    Tracks parent start (r.follow steps) current := by
  induction steps generalizing r with
  | nil => exact tracks
  | cons step rest ih =>
    obtain ⟨n, rfl, role⟩ := passes step (List.mem_cons_self ..)
    have shown : Tracks parent start (r.tell n).2 current := by
      cases n <;> simp [Notice.role] at role <;> exact tracks.tell trivial rfl
    unfold Run.follow
    split
    · exact shown
    · exact ih shown fun step member => passes step (List.mem_cons_of_mem _ member)

/-- A rule that is followed brings the observer to its target, or leaves it where it is. -/
theorem attempt (tracks : Tracks parent start r current) (rule : Rule) (event : Event)
    (sound : (r.performed (r.attempt current rule event)).getLast?.any (·.isEntry) = false) :
    ∃ now, Tracks parent start (r.follow (r.attempt current rule event)) now := by
  have shown := tracks.tell (n := .transition (r.engine.states.path current rule.target).exit event
    (r.engine.states.path current rule.target).enter) trivial rfl
  have left := shown.exit rule.target
  rw [Run.path_tell] at left
  cases known : r.engine.states.contains rule.target with
  | false =>
    rw [Run.attempt_unknown known, Run.stumble, Run.follow]
    split
    · exact ⟨current, shown⟩
    rw [Run.follow]
    split
    · exact ⟨current, left⟩
    · refine ⟨current, left.unheeded fun step member => ?_⟩
      exact ⟨_, List.mem_singleton.mp member, .inr rfl⟩
  | true =>
    rw [Run.attempt_known known] at sound ⊢
    rw [Run.crossing] at sound ⊢
    rw [Run.follow]
    rw [Run.performed] at sound
    split
    · exact ⟨current, shown⟩
    next answers =>
    rw [if_neg answers, Run.performed] at sound
    rw [Run.follow]
    split
    · exact ⟨current, left⟩
    next answers' =>
    rw [if_neg answers', Run.performed] at sound
    rw [Run.follow]
    split
    · exact ⟨current, left⟩
    · next broken =>
      rw [broken] at sound
      cases sound
    · next states entered =>
      have arrived := left.enter entered (by
        rw [Run.path_tell, Run.path_tell]
        exact congrArg Observer.leaving (start.watch_snoc _ _))
      rw [Run.path_tell, Run.path_tell] at arrived
      rw [Run.follow]
      split
      · -- Even if the handler breaks down over the entry, the observer has been told of it.
        exact ⟨rule.target, arrived⟩
      · have recorded : Tracks parent start (Run.withEngine _ fun e =>
            { e with history := e.history.record (r.passage current rule event) }) rule.target :=
          arrived.move rfl rfl
        refine ⟨rule.target, recorded.unheeded fun step member => ?_⟩
        exact ⟨_, List.mem_singleton.mp member, .inr rfl⟩

theorem process (tracks : Tracks parent start r current) {event : Event}
    (whole : (r.process event).engine.isShared = false) (sound : r.overruns event = false) :
    ∃ now, Tracks parent start (r.process event) now := by
  rw [Run.process_whole whole]
  unfold Run.overruns Run.did at sound
  unfold Run.steps at sound ⊢
  rw [tracks.stands] at sound ⊢
  simp only at sound ⊢
  split
  · exact ⟨current, tracks⟩
  next fresh =>
  rw [if_neg fresh] at sound
  have shown := tracks.tell (n := .pre current event) trivial rfl
  rw [Run.follow]
  rw [Run.performed] at sound
  split
  · exact ⟨current, shown⟩
  next answers =>
  rw [if_neg answers] at sound
  have ends (handled : Bool) :
      ∃ now, Tracks parent start
        ((r.tell (.pre current event)).2.follow [.tell (.post event handled)]) now :=
    ⟨current, shown.unheeded fun step member => ⟨_, List.mem_singleton.mp member, .inr rfl⟩⟩
  split
  · next passes =>
    rw [if_pos passes] at sound
    split
    · exact ends false
    · next rule readings found =>
      simp only [found] at sound
      rw [← Run.attempt_tell r (.pre current event)] at sound ⊢
      exact shown.attempt rule event (Step.last_of_cons sound)
  · exact ends false

theorem work (tracks : Tracks parent start r current) {w : Work} (worked : Worked r w r')
    (alone : r.engine.pending = []) (whole : r'.engine.isShared = false)
    (sound : ∀ event events, w = .process → r.engine.events.pop? = some (event, events) →
      r.engine.pending.length < r.engine.workers →
      (r.withEngine fun e => { e with events }).overruns event = false) :
    ∃ now, Tracks parent start r' now := by
  cases worked with
  | derive popped =>
    refine ⟨current, tracks.move ?_ rfl⟩
    exact Engine.derive_frame Engine.place (fun _ _ => rfl) (fun _ _ _ => rfl) _ _
  | apply taken =>
    refine ⟨current, tracks.move ?_ rfl⟩
    rw [Run.withEngine, Engine.report_frame]
    rfl
  | take => exact ⟨current, tracks.move rfl rfl⟩
  | fire released =>
    refine ⟨current, tracks.move ?_ rfl⟩
    rw [Run.withEngine, Engine.report_frame]
    rfl
  | wake woken =>
    obtain ⟨nodes, stands⟩ := nodes_wake woken
    exact ⟨current, tracks.move (Prod.mk.injEq .. ▸ ⟨nodes, stands⟩) rfl⟩
  | wakeOverrun woken =>
    obtain ⟨nodes, stands⟩ := nodes_wake woken
    exact ⟨current, tracks.move (Prod.mk.injEq .. ▸ ⟨nodes, stands⟩) rfl⟩
  | @process event events free popped =>
    have taken : Tracks parent start (r.withEngine fun e => { e with events }) current :=
      tracks.move rfl rfl
    exact taken.process whole (sound event events rfl popped free)
  | carry here =>
    rw [alone] at here
    cases here
  | leave => exact ⟨current, tracks.move rfl rfl⟩

end Tracks

namespace Session
variable {σ : Type}

/-- Where the observer of a machine starts: at the initial state with its ancestors. -/
def onlooker (d : Definition) (s : Session σ) : Observer :=
  { active := s.engine.states.lineage d.initial }

section Acts
variable {parent : String → Option String} {start : Observer} {s : Session σ} {current : String}

theorem tracks_act (a : Action σ) (done : s.machine.stage ≠ .created)
    (settled : s.engine.pending = []) (whole : (s.act a).engine.isShared = false)
    (sound : ∀ taken, s.taken a = some taken → taken.1.overruns taken.2 = false)
    (tracks : Tracks parent start s.run current) :
    ∃ now, Tracks parent start (s.act a).run now := by
  rcases still_place.act_cases s a done with ⟨w, r, rfl, worked, same⟩ | ⟨same, untold, _⟩
  · rw [same, shared_adopt] at whole
    obtain ⟨now, later⟩ := tracks.work worked settled whole fun event events is popped free =>
      sound _ (is ▸ taken_of_popped free popped)
    refine ⟨now, later.move ?_ ?_⟩
    · rw [same]
      exact still_place.adopted s r
    · rw [same]
      rfl
  · exact ⟨current, tracks.move same untold⟩

theorem tracks_perform (actions : List (Action σ)) (done : s.machine.stage ≠ .created)
    (settled : s.engine.pending = []) (alone : s.Alone actions) (sound : s.InTime actions)
    (tracks : Tracks parent start s.run current) :
    ∃ now, Tracks parent start (s.perform actions).run now := by
  induction actions generalizing s current with
  | nil => exact ⟨current, tracks⟩
  | cons a rest ih =>
    obtain ⟨here, there⟩ := in_time_cons sound
    have whole := alone_first (alone_cons alone)
    obtain ⟨now, later⟩ := tracks_act a done settled whole here tracks
    exact ih (plan_act s a done).2 (settled_act a done settled whole) (alone_cons alone) there later

end Acts

/-- The exits and entries told so far lead from the lineage of the initial state to the lineage of
the current one, whatever the machine has been through, as long as one worker goes through the
events one after the other and no entry breaks down on the clock. Only active states have been left,
innermost first, and only inactive ones entered, each below an active parent. -/
theorem notices_reconstruct_configuration {d : Definition} {before : Session σ}
    (reached : before.Reachable) (vacant : before.machine.current = none)
    (ok : (before.machine.init d).1 = .done ()) (actions : List (Action σ))
    (alone : (before.act (.init d)).Alone actions)
    (sound : (before.act (.init d)).InTime actions) :
    let s := (before.act (.init d)).perform actions
    ∃ current, s.machine.current = some current ∧
      d.Ancestry d.initial (s.engine.states.lineage d.initial) ∧
      d.Ancestry current (s.engine.states.lineage current) ∧
      ((s.onlooker d).watch s.notices).active = s.engine.states.lineage current ∧
      (s.onlooker d).Orderly d.parentOf? s.notices := by
  intro s
  obtain ⟨valid, untold, e, result, begun, initial, _⟩ := accepted reached vacant ok
  have follows : (before.act (.init d)).Follows d := ⟨before, [], reached, vacant, ok, rfl⟩
  obtain ⟨_, _, done⟩ := follows.holds
  obtain ⟨_, holds, _⟩ := (follows.perform actions).holds
  have nodes : s.engine.states.nodes = (before.act (.init d)).engine.states.nodes :=
    congrArg Plan.nodes (plan_perform actions done)
  -- Nothing has been told before, and the lineage of the initial state is the active one.
  have first : Tracks d.parentOf? (s.onlooker d) (before.act (.init d)).run d.initial := by
    have known : e.states.nodes.contains d.initial = true := (begun.names _).mpr valid.initial
    rw [onlooker, Hierarchy.lineage_eq, nodes, result]
    constructor
    · exact begun.charted valid
    · exact initial
    · exact known
    · simp only [run, untold]
      rfl
    · simp only [run, untold]
      trivial
  have settled := accepted_settled reached vacant ok
  obtain ⟨current, tracks⟩ := tracks_perform actions done settled alone sound first
  have declared (name : String) (member : name ∈ d.names) :
      d.Ancestry name (s.engine.states.lineage name) := by
    obtain ⟨t, listed, rfl⟩ := List.mem_map.mp member
    exact holds.ancestry _ t listed (Hierarchy.lineage_eq _ _).symm
  refine ⟨current, tracks.stands, declared _ valid.initial,
    declared _ ((holds.names _).mp tracks.known), ?_, tracks.orderly⟩
  rw [Hierarchy.lineage_eq]
  exact tracks.active

/-- A lamp that is off, or on and then dim or bright. -/
def lamp : Definition where
  states := [{ name := "Off" }, { name := "On" }, { name := "Dim", parent := some "On" },
    { name := "Bright", parent := some "On" }]
  initial := "Off"
  rules := [.onEvent "Off" "Dim" "up", .onEvent "Dim" "Bright" "up", .onEvent "On" "Off" "down"]

/-- The lamp is turned on, stopped and started again, and then turned up. -/
def lighting : List (Action Unit) :=
  [.start, .submit { name := "up" }, .work .process, .stop, .submit { name := "up" }, .start,
    .work .process]

def lit : Session Unit := ((fresh "lamp" ()).act (.init lamp)).perform lighting

theorem lit_reconstructed : lit.machine.current = some "Bright" ∧
    ((lit.onlooker lamp).watch lit.notices).active = ["Bright", "On"] ∧
    (lit.onlooker lamp).Orderly lamp.parentOf? lit.notices := by
  have reached : (fresh "lamp" ()).Reachable := ⟨_, _, [], rfl⟩
  have ok : ((fresh "lamp" ()).machine.init lamp).1 = .done () := by decide +kernel
  obtain ⟨current, stands, _, _, active, orderly⟩ :=
    notices_reconstruct_configuration reached rfl ok lighting (by decide +kernel)
      (by decide +kernel)
  have bright : lit.machine.current = some "Bright" := by decide +kernel
  have lineage : lit.engine.states.lineage "Bright" = ["Bright", "On"] := by decide +kernel
  cases bright.symm.trans stands
  exact ⟨bright, active.trans lineage, orderly⟩

/-- An application that stops its machine and starts it again as it is told of a transition. -/
def meddler : Handler Bool := fun n meddled =>
  if n.role = .transition ∧ meddled = false then ({ requests := [.stop, .start] }, true)
  else ({}, meddled)

/-- The lamp is turned up twice. The worker that is to turn it on the first time is not waited for
by the stop, and another one comes in before it is done. -/
def crowded : Session Bool :=
  ((fresh "lamp" false).act (.init lamp)).perform <|
    [.install (·.delegateTo meddler), .start, .submit { name := "up" }, .submit { name := "up" },
      .work .process, .work .process, .work (.carry 1), .work (.carry 1), .work (.carry 1)] ++
    List.replicate 10 (.work (.carry 0))

/-- Two workers that share the mailbox have the lamp leave its first state twice, and the observer
is lost. -/
theorem crowded_misleads : crowded.Follows lamp ∧ crowded.engine.pending = [] ∧
    crowded.machine.current = some "Dim" ∧
    crowded.engine.states.lineage "Dim" = ["Dim", "On"] ∧
    ((crowded.onlooker lamp).watch crowded.notices).active = ["Dim", "On", "Dim", "On"] := by
  refine ⟨⟨fresh "lamp" false, _, ⟨_, _, [], rfl⟩, rfl, by decide +kernel, rfl⟩, ?_⟩
  refine ⟨?_, ?_, ?_, ?_⟩
  · decide +kernel
  · decide +kernel
  · decide +kernel
  · decide +kernel

end Session
end Statechart
