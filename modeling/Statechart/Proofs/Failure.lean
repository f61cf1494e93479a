import Statechart.Proofs.Attachments
import Statechart.Proofs.Course
/-!
Rules that lead nowhere. A rule is taken whether or not its target is a state. When such a rule is
chosen, the application is told of the transition and of the exit before the engine finds that there
is nothing to enter. The engine stays where it is, and the event counts as not handled. Of no other
event that is not handled a transition or an exit is told, and after no other exit an entry fails to
follow, unless a handler breaks down.
-/

namespace Statechart

namespace Run
variable {σ : Type}

theorem mem_tellings {n : Notice} {now : Option String} {current : String} {steps : List Step}
    (member : (n, now) ∈ Step.tellings current steps) : .tell n ∈ steps := by
  induction steps generalizing current with
  | nil => cases member
  | cons step rest ih =>
    refine List.mem_cons.mpr ?_
    cases step with
    | tell m =>
      rcases List.mem_cons.mp member with same | later
      · exact .inl (congrArg Step.tell (Prod.mk.inj same).1)
      · exact .inr (ih later)
    | enter state => exact .inr (ih member)
    | record p => exact .inr (ih member)

section Processing
variable {r : Run σ} {event : Event} {current : String}

/-- A state is entered only if it is registered, so all steps are taken unless something breaks
down. -/
theorem performs_did (event : Event) (stands : r.engine.states.current = some current) :
    r.Performs current (r.steps event) (r.did event) := by
  refine performs (r.steps event) stands fun state member => ?_
  have attempted (rule : Rule) (member : .enter state ∈ r.attempt current rule event) :
      r.engine.states.contains state = true := by
    unfold attempt at member
    split at member
    · next known =>
      have here : state = rule.target := by simpa [crossing] using member
      exact here ▸ known
    · simp [stumble] at member
  unfold steps at member
  simp only [stands] at member
  split at member
  · simp at member
  split at member
  · split at member
    · simp at member
    · next rule _ _ => exact attempted rule (by simpa using member)
  · simp at member

/-- The rule that is chosen is the one that decides the steps. -/
theorem steps_chosen {rule : Rule} (chosen : r.chosen event = some rule) :
    ∃ current readings, r.engine.states.current = some current ∧
      (r.tell (.pre current event)).2.engine.resolve current event.name = some (rule, readings) ∧
      r.steps event = .tell (.pre current event) :: r.attempt current rule event := by
  unfold Run.chosen chooses at chosen
  cases stands : r.engine.states.current with
  | none => simp [stands] at chosen
  | some current =>
    simp only [stands] at chosen
    split at chosen
    · cases chosen
    next apart =>
    split at chosen
    · cases chosen
    next goes =>
    simp only [Bool.or_eq_true, Bool.not_eq_true', not_or, Bool.not_eq_true,
      Bool.not_eq_false] at apart goes
    obtain ⟨⟨_, readings⟩, found, rfl⟩ := Option.map_eq_some_iff.mp chosen
    exact ⟨current, readings, rfl, found, by simp [steps, stands, apart.1, goes.1.2, found]⟩

variable (whole : (r.process event).engine.isShared = false)
include whole

/-- An event for which no rule is chosen comes and goes. -/
theorem passes_unchosen (stands : r.engine.states.current = some current)
    (unchosen : r.chosen event = none) :
    ∀ step ∈ r.did event, ∃ n, step = .tell n ∧ (n.role = .pre ∨ n.role = .post) := by
  unfold did steps
  unfold Run.chosen chooses at unchosen
  unfold process at whole
  simp only [stands] at unchosen whole ⊢
  split
  · simp [performed]
  next fresh =>
  rw [if_neg fresh] at whole
  have alone := onward_alone whole
  rw [onward_whole whole] at whole
  simp only [performed]
  split
  · simp [Notice.role]
  next answers =>
  split
  · next passes =>
    -- The event is shown and let pass, so it is the rules that do not have it.
    simp only [present, answers, passes] at whole
    have alone' := onward_alone whole
    have unmatched : (r.tell (.pre current event)).2.engine.resolve current event.name = none := by
      simpa [fresh, alone, answers, passes, alone'] using unchosen
    simp [unmatched, performed, Notice.role]
  · simp [performed, Notice.role]

theorem process_did (stands : r.engine.states.current = some current) :
    r.process event = r.follow (r.did event) :=
  (process_whole whole).trans (performs_did event stands).same

theorem tells_did (stands : r.engine.states.current = some current) :
    r.tells event = (Step.tellings current (r.did event)).map (·.1) := by
  rw [tells, process_did whole stands, notices_follow, List.drop_left,
    (performs_did event stands).told]

theorem tells_subset (stands : r.engine.states.current = some current) {n : Notice}
    (told : n ∈ r.tells event) : .tell n ∈ r.did event := by
  rw [tells_did whole stands] at told
  obtain ⟨⟨_, _⟩, member, rfl⟩ := List.mem_map.mp told
  exact mem_tellings member

theorem tells_vacant (vacant : r.engine.states.current = none) :
    r.tells event = [.post event false] ∧
      (r.process event).engine.trail = r.engine.trail ∧ r.chosen event = none := by
  have processed : r.process event = (r.tell (.post event false)).2 := by
    rw [process_whole whole]
    simp [steps, vacant, follow]
  refine ⟨?_, ?_, ?_⟩
  · rw [tells, processed]
    exact List.drop_left
  · rw [processed]
    exact r.trail_tell _
  · simp [Run.chosen, vacant]

/-- What is only told moves nothing. -/
theorem still_tells (stands : r.engine.states.current = some current)
    (only : ∀ step ∈ r.did event, ∃ n, step = .tell n) :
    (r.process event).engine.trail = r.engine.trail ∧
      (.start ∉ r.asked (r.steps event) →
        (r.process event).engine.states.armed = r.engine.states.armed) := by
  have performs := performs_did event stands
  rw [process_did whole stands]
  refine ⟨Prod.ext ?_ ?_, fun unasked => performs.armed (fun state member => ?_) unasked⟩
  · exact performs.current.trans
      ((congrArg some (Step.arrival_tells only current)).trans stands.symm)
  · rw [show (r.follow (r.did event)).engine.trail.2 = _ from performs.history,
      Step.passages_tells only]
    rfl
  · obtain ⟨n, told⟩ := only _ member
    cases told

end Processing

/-- A transition that is told of is made, and recorded. -/
structure Crosses (r : Run σ) (event : Event) (current : String) (rule : Rule) : Prop where
  told : let path := r.engine.states.path current rule.target
    r.tells event = [.pre current event, .transition path.exit event path.enter, .exit path.exit,
      .enter path.enter, .post event true]
  arrived : (r.process event).engine.states.current = some rule.target
  recorded : (r.process event).engine.history =
    r.engine.history.record (r.passage current rule event)

/-- A transition is told of, up to the exit, and nothing comes of it. -/
structure Stumbles (r : Run σ) (event : Event) (current : String) (rule : Rule) : Prop where
  told : let path := r.engine.states.path current rule.target
    r.tells event = [.pre current event, .transition path.exit event path.enter, .exit path.exit,
      .post event false]
  trail : (r.process event).engine.trail = r.engine.trail
  armed : .start ∉ r.asked (r.steps event) →
    (r.process event).engine.states.armed = r.engine.states.armed

section Failure
variable {r : Run σ} {event : Event} {rule : Rule}
  (whole : (r.process event).engine.isShared = false)
include whole

theorem idle_of_unchosen (unchosen : r.chosen event = none) {n : Notice}
    (told : n ∈ r.tells event) : n.role ≠ .transition ∧ n.role ≠ .exit := by
  cases stands : r.engine.states.current with
  | none =>
    rw [(tells_vacant whole stands).1, List.mem_singleton] at told
    simp [told, Notice.role]
  | some current =>
    obtain ⟨_, same, role⟩ :=
      passes_unchosen whole stands unchosen _ (tells_subset whole stands told)
    cases same
    rcases role with role | role <;> simp [role]

/-- A rule that leads nowhere moves nothing, whatever handlers do. -/
theorem still_of_unknown (chosen : r.chosen event = some rule)
    (unknown : r.engine.states.contains rule.target = false) :
    (r.process event).engine.trail = r.engine.trail ∧
      (.start ∉ r.asked (r.steps event) →
        (r.process event).engine.states.armed = r.engine.states.armed) := by
  obtain ⟨current, _, stands, _, decided⟩ := steps_chosen chosen
  refine still_tells whole stands fun step member => ?_
  have listed := (performs_did event stands).part.subset member
  rw [decided, attempt_unknown unknown] at listed
  simp only [stumble, List.mem_cons, List.not_mem_nil, or_false] at listed
  rcases listed with same | same | same | same <;> exact ⟨_, same⟩

theorem stumbles_of_did (chosen : r.chosen event = some rule)
    (unknown : r.engine.states.contains rule.target = false)
    (all : r.did event = r.steps event) :
    ∃ current, r.engine.states.current = some current ∧ r.Stumbles event current rule := by
  obtain ⟨current, _, stands, _, decided⟩ := steps_chosen chosen
  obtain ⟨trail, armed⟩ := still_of_unknown whole chosen unknown
  refine ⟨current, stands, ?_, trail, armed⟩
  rw [tells_did whole stands, all, decided, attempt_unknown unknown]
  rfl

/-- Once the end of the processing is told, all before it has been. -/
theorem did_of_post (chosen : r.chosen event = some rule)
    (unknown : r.engine.states.contains rule.target = false)
    (ended : .post event false ∈ r.tells event) : r.did event = r.steps event := by
  obtain ⟨current, _, stands, _, decided⟩ := steps_chosen chosen
  have last := tells_subset whole stands ended
  have part := (performs_did event stands).part
  rw [decided, attempt_unknown unknown] at part ⊢
  rcases List.prefix_concat_iff.mp
    (show r.did event <+: (_ :: [_, _]) ++ [_] from part) with all | early
  · exact all
  · simpa using early.subset last

theorem crosses_of_did (chosen : r.chosen event = some rule)
    (known : r.engine.states.contains rule.target = true)
    (all : r.did event = r.steps event) :
    ∃ current, r.engine.states.current = some current ∧ r.Crosses event current rule := by
  obtain ⟨current, _, stands, _, decided⟩ := steps_chosen chosen
  have performs := performs_did event stands
  have arrived := performs.current
  have recorded := performs.history
  rw [← process_did whole stands] at arrived recorded
  have told := tells_did whole stands
  rw [all, decided, attempt_known known] at told arrived recorded
  exact ⟨current, stands, told, arrived, recorded⟩

/-- A transition that is made does not end as not handled. -/
theorem unknown_of_post (chosen : r.chosen event = some rule)
    (ended : .post event false ∈ r.tells event) :
    r.engine.states.contains rule.target = false := by
  obtain ⟨current, _, stands, _, decided⟩ := steps_chosen chosen
  have listed := (performs_did event stands).part.subset (tells_subset whole stands ended)
  refine Bool.eq_false_iff.mpr fun known => ?_
  rw [decided, attempt_known known] at listed
  simp [crossing] at listed

/-- An event that is not handled moves nothing. -/
theorem trail_of_post (ended : .post event false ∈ r.tells event) :
    (r.process event).engine.trail = r.engine.trail := by
  cases stands : r.engine.states.current with
  | none => exact (tells_vacant whole stands).2.1
  | some current =>
    cases chosen : r.chosen event with
    | none =>
      exact (still_tells whole stands fun step member =>
        (passes_unchosen whole stands chosen step member).imp fun _ => And.left).1
    | some rule => exact (still_of_unknown whole chosen (unknown_of_post whole chosen ended)).1

end Failure

/-- An event that is not left off for another worker and that ends as not handled moves nothing. A
transition or an exit is told of it only if the chosen rule leads nowhere, and then it is. Where all
steps of the event are taken, with no handler and no entry breaking down, an exit is told exactly if
a rule is chosen; the transition is then made and recorded if the target of the rule is registered,
and else abandoned. In a machine every rule leads to a state, so there an event that is not handled
leaves no trace. -/
theorem told_in_vain_iff_target_unknown (r : Run σ) (event : Event)
    (whole : (r.process event).engine.isShared = false) :
    (.post event false ∈ r.tells event →
      (r.process event).engine.trail = r.engine.trail ∧
      ((∃ n ∈ r.tells event, n.role = .transition ∨ n.role = .exit) ↔
        ∃ rule, r.chosen event = some rule ∧ r.engine.states.contains rule.target = false)) ∧
    (r.did event = r.steps event →
      ((∃ states, .exit states ∈ r.tells event) ↔ ∃ rule, r.chosen event = some rule) ∧
      ∀ rule, r.chosen event = some rule → ∃ current, r.engine.states.current = some current ∧
        if r.engine.states.contains rule.target then r.Crosses event current rule
        else r.Stumbles event current rule) ∧
    ∀ (d : Definition) (s : Session σ) (a : Action σ), s.Follows d → s.taken a = some (r, event) →
      .post event false ∈ r.tells event →
      r.chosen event = none ∧ ∀ n ∈ r.tells event, n.role ≠ .transition ∧ n.role ≠ .exit := by
  refine ⟨fun ended => ⟨trail_of_post whole ended, ?_, ?_⟩, fun all => ?_, ?_⟩
  · rintro ⟨n, told, role⟩
    cases chosen : r.chosen event with
    | none => exact absurd role (not_or.mpr (idle_of_unchosen whole chosen told))
    | some rule => exact ⟨rule, rfl, unknown_of_post whole chosen ended⟩
  · rintro ⟨rule, chosen, unknown⟩
    obtain ⟨current, _, stumbles⟩ :=
      stumbles_of_did whole chosen unknown (did_of_post whole chosen unknown ended)
    rw [stumbles.told]
    exact ⟨_, .tail _ (.head _), .inl rfl⟩
  · have attempted (rule : Rule) (chosen : r.chosen event = some rule) :
        ∃ current, r.engine.states.current = some current ∧
          if r.engine.states.contains rule.target then r.Crosses event current rule
          else r.Stumbles event current rule := by
      cases known : r.engine.states.contains rule.target with
      | false => simpa using stumbles_of_did whole chosen known all
      | true => simpa using crosses_of_did whole chosen known all
    refine ⟨⟨?_, ?_⟩, attempted⟩
    · rintro ⟨states, told⟩
      cases chosen : r.chosen event with
      | none => exact absurd rfl (idle_of_unchosen whole chosen told).2
      | some rule => exact ⟨rule, rfl⟩
    · rintro ⟨rule, chosen⟩
      obtain ⟨current, _, attempted⟩ := attempted rule chosen
      split at attempted
      all_goals
        rw [attempted.told]
        exact ⟨_, .tail _ (.tail _ (.head _))⟩
  · intro d s a follows taken ended
    -- A rule that had been chosen would lead nowhere, but every rule of a machine leads somewhere.
    suffices unchosen : r.chosen event = none from
      ⟨unchosen, fun n told => idle_of_unchosen whole unchosen told⟩
    refine Option.eq_none_iff_forall_ne_some.mpr fun rule chosen => ?_
    obtain ⟨current, readings, _, found, _⟩ := steps_chosen chosen
    obtain ⟨_, _, events, _, rfl⟩ := Session.taken_cases taken
    have known := follows.aimed (Engine.steady_plan.tell _ _) found
    exact Bool.false_ne_true ((unknown_of_post whole chosen ended).symm.trans known)

/-- A lift that can be sent to a floor which is not there. -/
def lift : Run Unit :=
  (fresh ()).course [.register (.state { name := "Ground" }),
    .register (.state { name := "First" }), .register (.initial "Ground"),
    .register (.rule (.onEvent "Ground" "First" "up")),
    .register (.rule (.onEvent "First" "Second" "up")), .start .states, .start .values,
    .start .events]

def lifted : Run Unit := lift.course [.submit { name := "up" }, .work .process]

theorem lift_rises_to_last_floor :
    lift.Crosses { name := "up" } "Ground" (.onEvent "Ground" "First" "up") ∧
    lifted.Stumbles { name := "up" } "First" (.onEvent "First" "Second" "up") ∧
    ∃ n ∈ lifted.tells { name := "up" }, n.role = .transition ∨ n.role = .exit := by
  obtain ⟨_, rises, _⟩ :=
    told_in_vain_iff_target_unknown lift { name := "up" } (by decide +kernel)
  obtain ⟨vain, stays, _⟩ :=
    told_in_vain_iff_target_unknown lifted { name := "up" } (by decide +kernel)
  have chosen : lifted.chosen { name := "up" } = some (.onEvent "First" "Second" "up") := by
    decide +kernel
  refine ⟨?_, ?_, (vain (by decide +kernel)).2.mpr ⟨_, chosen, by decide +kernel⟩⟩
  · obtain ⟨current, stands, made⟩ := (rises (by decide +kernel)).2
      (.onEvent "Ground" "First" "up") (by decide +kernel)
    cases stands.symm.trans (show _ = some "Ground" by decide +kernel)
    rwa [if_pos (by decide +kernel)] at made
  · obtain ⟨current, stands, made⟩ := (stays (by decide +kernel)).2 _ chosen
    cases stands.symm.trans (show _ = some "First" by decide +kernel)
    rwa [if_neg (by decide +kernel)] at made

/-- The event is not handled and nothing is entered, but the application has been told that the
floor is left. -/
theorem lifted_told_in_vain :
    lifted.Reached ∧
    lifted.tells { name := "up" } = [.pre "First" { name := "up" },
      .transition ["First"] { name := "up" } ["Second"], .exit ["First"],
      .post { name := "up" } false] ∧
    (lifted.process { name := "up" }).engine.states.current = some "First" ∧
    (lifted.process { name := "up" }).engine.history.path = ["Ground", "First"] := by
  refine ⟨?_, by decide +kernel, by decide +kernel, by decide +kernel⟩
  exact Reached.course ⟨(), _, rfl⟩ _

end Run

end Statechart
