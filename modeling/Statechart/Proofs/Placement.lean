import Statechart.Proofs.Arrangement
import Statechart.Proofs.Diagnosis
/-!
What the order of the states comes to, whatever is wrong with a definition. The states that can be
placed come first, each behind a state of its parent's name; the others follow as they were
declared, and none of them has a parent among the first. Another pass, and ordering what is ordered,
change nothing. If no name is declared twice, the states left over are those from which no way leads
up to a root, and there are none exactly if validation finds no unknown parent and no cycle.
-/

namespace Statechart.Definition

open Relation

theorem is_unready_mono {placed more : List String} (within : placed ⊆ more) {s : State}
    (unready : isReady more s = false) : isReady placed s = false := by
  by_contra ready
  rw [is_ready_mono within s (by simpa using ready)] at unready
  cases unready

theorem placeable_at {placed : List String} (before : List State) {s : State} {after : List State}
    (fine : Placeable placed (before ++ s :: after)) :
    isReady (before.map (·.name) ++ placed) s = true := by
  induction before generalizing placed with
  | nil => exact fine.1
  | cons t rest ih =>
    refine is_ready_mono ?_ s (ih fine.2)
    intro name member
    simp only [List.map_cons, List.cons_append, List.mem_cons, List.mem_append] at member ⊢
    tauto

/-! Passes that change nothing. -/

theorem sweep_unready {placed : List String} {states : List State}
    (unready : ∀ s ∈ states, isReady placed s = false) : sweep placed states = ([], states) := by
  induction states with
  | nil => rfl
  | cons s rest ih =>
    have here := unready s (List.mem_cons_self ..)
    have later := ih fun t member => unready t (List.mem_cons_of_mem s member)
    simp [sweep, here, later]

theorem arrange_unready (passes : Nat) {placed : List String} {states : List State}
    (unready : ∀ s ∈ states, isReady placed s = false) :
    arrange passes placed states = ([], states) := by
  cases passes with
  | zero => rfl
  | succ passes => simp only [arrange, sweep_unready unready]

theorem left_shorter {placed : List String} {pending ready left : List State} {first : State}
    (swept : sweep placed pending = (first :: ready, left)) : left.length < pending.length := by
  have kept := length_sweep placed pending
  rw [swept] at kept
  simp only [List.length_cons] at kept
  omega

/-- As many passes as there are states are enough: further ones change nothing. -/
theorem arrange_enough (passes other : Nat) (placed : List String) (pending : List State)
    (enough : pending.length ≤ passes) (enough' : pending.length ≤ other) :
    arrange passes placed pending = arrange other placed pending := by
  induction passes generalizing other placed pending with
  | zero =>
    have empty : pending = [] := List.length_eq_zero_iff.mp (Nat.le_zero.mp enough)
    subst empty
    rw [arrange_unready 0 (by simp), arrange_unready other (by simp)]
  | succ passes ih =>
    cases other with
    | zero =>
      have empty : pending = [] := List.length_eq_zero_iff.mp (Nat.le_zero.mp enough')
      subst empty
      rw [arrange_unready _ (by simp), arrange_unready 0 (by simp)]
    | succ other =>
      unfold arrange
      rcases swept : sweep placed pending with ⟨ready, left⟩
      cases ready with
      | nil => rfl
      | cons first ready =>
        -- A pass that places something leaves fewer states, for which the passes left are enough.
        have shorter := left_shorter swept
        have same := ih other ((first :: ready).map (·.name) ++ placed) left (by omega) (by omega)
        simp only [same]

/-! Ordering what is ordered. -/

theorem sweep_arranged {placed : List String} {first tail : List State}
    (fine : Placeable placed first)
    (stuck : ∀ s ∈ tail, isReady (first.map (·.name) ++ placed) s = false) :
    sweep placed (first ++ tail) = (first, tail) := by
  induction first generalizing placed with
  | nil => exact sweep_unready stuck
  | cons s rest ih =>
    have later := ih fine.2 fun t member => by
      refine is_unready_mono ?_ (stuck t member)
      intro name known
      simp only [List.map_cons, List.cons_append, List.mem_cons, List.mem_append] at known ⊢
      tauto
    simp only [List.cons_append, sweep, fine.1, if_true, later]

theorem arrange_arranged (passes : Nat) {placed : List String} {first tail : List State}
    (fine : Placeable placed first)
    (stuck : ∀ s ∈ tail, isReady (first.map (·.name) ++ placed) s = false)
    (enough : (first ++ tail).length ≤ passes) :
    arrange passes placed (first ++ tail) = (first, tail) := by
  cases passes with
  | zero =>
    have empty := List.append_eq_nil_iff.mp (List.length_eq_zero_iff.mp (Nat.le_zero.mp enough))
    rw [empty.1, empty.2]
    rfl
  | succ passes =>
    have swept := sweep_arranged fine stuck
    cases first with
    | nil => simp only [arrange, swept]
    | cons s rest => simp only [arrange, swept, arrange_unready passes stuck, List.append_nil]

theorem parents_first_idempotent (d : Definition) :
    ({ d with states := d.parentsFirst } : Definition).parentsFirst = d.parentsFirst := by
  have stuck (s : State) (member : s ∈ d.unplaced) :
      isReady (d.placed.map (·.name) ++ []) s = false := by
    rw [List.append_nil]
    exact d.unplaced_unready member
  have again :=
    arrange_arranged d.parentsFirst.length d.placed_placeable stuck (Nat.le_refl _)
  rw [parents_first_eq, placed, unplaced]
  exact congrArg (fun parts => parts.1 ++ parts.2) again

/-! The states left over. -/

theorem sweep_left_sublist (placed : List String) (states : List State) :
    (sweep placed states).2.Sublist states := by
  induction states generalizing placed with
  | nil => exact .slnil
  | cons s rest ih =>
    by_cases ready : isReady placed s = true
    · simp only [sweep, ready, if_true]
      exact (ih _).cons s
    · simp only [sweep, ready]
      exact (ih _).cons_cons s

theorem arrange_left_sublist (passes : Nat) (placed : List String) (pending : List State) :
    (arrange passes placed pending).2.Sublist pending := by
  induction passes generalizing placed pending with
  | zero => exact .refl _
  | succ passes ih =>
    have remaining := sweep_left_sublist placed pending
    unfold arrange
    rcases swept : sweep placed pending with ⟨ready, left⟩
    rw [swept] at remaining
    cases ready with
    | nil => exact remaining
    | cons first ready => exact (ih _ left).trans remaining

/-- Following parents from a name leads up to a root. -/
def ReachesRoot (d : Definition) (name : String) : Prop :=
  ∃ root ∈ d.states, root.namedParent = none ∧ ReflTransGen (Under d.parentOf?) name root.name

section Circle
variable {parent : String → Option String} {name above : String}

/-- A name has one parent, so every way up from it leads through that parent. -/
theorem leads_on {top : String} (way : TransGen (Under parent) name top)
    (up : Under parent name above) : ReflTransGen (Under parent) above top := by
  obtain ⟨next, up', rest⟩ := TransGen.head'_iff.mp way
  have same : next = above := Option.some.inj (up'.symm.trans up)
  exact same ▸ rest

/-- From all that is above a name on a circle the way leads back to the name. -/
theorem circle_returns (circle : TransGen (Under parent) name name)
    (way : TransGen (Under parent) name above) : TransGen (Under parent) above name := by
  induction way with
  | single first => exact .trans_right (leads_on circle first) circle
  | tail _ last ih => exact .trans_right (leads_on ih last) circle

/-- All that is above a name on a circle is on it. -/
theorem circle_carries (circle : TransGen (Under parent) name name)
    (way : ReflTransGen (Under parent) name above) : TransGen (Under parent) above above := by
  rcases reflTransGen_iff_eq_or_transGen.mp way with rfl | up
  · exact circle
  · exact (circle_returns circle up).trans up

end Circle

section Unique
variable {d : Definition} (unique : d.names.Nodup)
include unique

/-- A state from which a way leads up to a root is placed, for so is all that is above it. -/
theorem placed_of_reaches {name : String} (reaches : d.ReachesRoot name) :
    name ∈ d.placed.map (·.name) := by
  have settled {s : State} (declared : s ∈ d.states)
      (above : ∀ p, s.namedParent = some p → p ∈ d.placed.map (·.name)) :
      s.name ∈ d.placed.map (·.name) := by
    rcases d.mem_placed_or_unplaced.mp declared with early | late
    · exact List.mem_map_of_mem early
    · obtain ⟨p, up, missing⟩ := d.unplaced_waits late
      exact absurd (above p up) missing
  obtain ⟨root, declared, free, way⟩ := reaches
  induction way using ReflTransGen.head_induction_on with
  | refl => exact settled declared fun p up => by rw [free] at up; cases up
  | @head name above up _ ih =>
    obtain ⟨s, listed, rfl⟩ := List.mem_map.mp (d.listed_of_parent up)
    have parent := (parent_of_unique unique listed).symm.trans up
    exact settled listed fun p other => by rw [parent] at other; cases other; exact ih

/-- A state that is placed stands below a root, since that is so for its parent. -/
theorem reaches_of_placeable {placed : List String} {states : List State}
    (fine : Placeable placed states) (within : states ⊆ d.states)
    (reach : ∀ name ∈ placed, d.ReachesRoot name) :
    ∀ s ∈ states, d.ReachesRoot s.name := by
  induction states generalizing placed with
  | nil => intro s member; cases member
  | cons s rest ih =>
    have declared := within (List.mem_cons_self ..)
    have here : d.ReachesRoot s.name := by
      cases up : s.namedParent with
      | none => exact ⟨s, declared, up, .refl⟩
      | some p =>
        obtain ⟨root, listed, free, way⟩ := reach p ((is_ready_iff _ s).mp fine.1 p up)
        exact ⟨root, listed, free, .head ((parent_of_unique unique declared).trans up) way⟩
    intro t member
    rcases List.mem_cons.mp member with rfl | member
    · exact here
    · refine ih fine.2 (fun u later => within (List.mem_cons_of_mem s later)) ?_ t member
      intro name known
      rcases List.mem_cons.mp known with rfl | known
      · exact here
      · exact reach name known

theorem reaches_of_placed {s : State} (member : s ∈ d.placed) : d.ReachesRoot s.name :=
  reaches_of_placeable unique d.placed_placeable
    (fun _ early => d.mem_placed_or_unplaced.mpr (.inl early)) (by simp) s member

theorem unplaced_iff {s : State} (declared : s ∈ d.states) :
    s ∈ d.unplaced ↔ ¬ d.ReachesRoot s.name := by
  constructor
  · intro left reaches
    -- Its name would be found among the placed ones, and stand in the order twice.
    have twice := (d.parents_first_perm.map State.name).nodup_iff.mpr unique
    rw [parents_first_eq, List.map_append, List.nodup_append] at twice
    exact twice.2.2 _ (placed_of_reaches unique reaches) _ (List.mem_map_of_mem left) rfl
  · intro lost
    rcases d.mem_placed_or_unplaced.mp declared with early | late
    · exact absurd (reaches_of_placed unique early) lost
    · exact late

/-- From a name whose parents lead back to it no root can be reached. -/
theorem circle_has_no_root {name : String} (circle : TransGen (Under d.parentOf?) name name) :
    ¬ d.ReachesRoot name := by
  rintro ⟨root, declared, free, way⟩
  obtain ⟨p, up, _⟩ := TransGen.head'_iff.mp (circle_carries circle way)
  rw [Under, parent_of_unique unique declared, free] at up
  cases up

end Unique

theorem mem_state_violations {d : Definition} {v : Violation} (other : v ≠ .noStates)
    (single : ∀ name, v ≠ .duplicateState name) :
    v ∈ d.stateViolations ↔ ∃ s ∈ d.states, d.parentViolation s.name = some v := by
  unfold stateViolations
  by_cases empty : d.states = []
  · simp [empty, other]
  · have repeats : v ∉ (repeated [] (d.states.map (·.name))).map .duplicateState := by
      intro member
      obtain ⟨name, _, same⟩ := List.mem_map.mp member
      exact single name same.symm
    simp [empty, repeats]

/-- Neither an unknown parent nor a cycle is found by the check of the states. -/
def Unfaulted (d : Definition) : Prop :=
  (∀ name parent, .unknownParent name parent ∉ d.stateViolations) ∧
    ∀ name, .parentCycle name ∉ d.stateViolations

theorem unfaulted_iff (d : Definition) :
    d.Unfaulted ↔ ∀ s ∈ d.states, d.parentViolation s.name = none := by
  constructor
  · intro fine s declared
    cases reported : d.parentViolation s.name with
    | none => rfl
    | some v =>
      rcases d.parent_violation_iff.mp reported with ⟨above, _, _, rfl⟩ | ⟨_, rfl⟩
      · exact absurd ((mem_state_violations (by simp) (by simp)).mpr ⟨s, declared, reported⟩)
          (fine.1 _ _)
      · exact absurd ((mem_state_violations (by simp) (by simp)).mpr ⟨s, declared, reported⟩)
          (fine.2 _)
  · intro fine
    have silent {v : Violation} (other : v ≠ .noStates)
        (single : ∀ name, v ≠ .duplicateState name) : v ∉ d.stateViolations := by
      intro member
      obtain ⟨s, declared, reported⟩ := (mem_state_violations other single).mp member
      rw [fine s declared] at reported
      cases reported
    exact ⟨fun _ _ => silent (by simp) (by simp), fun _ => silent (by simp) (by simp)⟩

theorem unplaced_nil_iff {d : Definition} (unique : d.names.Nodup) :
    d.unplaced = [] ↔ d.Unfaulted := by
  rw [unfaulted_iff]
  constructor
  · intro nothing s declared
    have reaches : d.ReachesRoot s.name := by
      by_contra lost
      have left := (unplaced_iff unique declared).mpr lost
      rw [nothing] at left
      cases left
    cases reported : d.parentViolation s.name with
    | none => rfl
    | some v =>
      rcases d.parent_violation_iff.mp reported with ⟨above, up, unlisted, _⟩ | ⟨circle, _⟩
      · -- On the way to a root the parent is passed, and it is declared.
        obtain ⟨root, listed, free, way⟩ := reaches
        rcases ReflTransGen.cases_head way with same | ⟨p, up', further⟩
        · rw [same, parent_of_unique unique listed, free] at up
          cases up
        · cases Option.some.inj (Eq.trans (Eq.symm up) up')
          rcases ReflTransGen.cases_head further with rfl | ⟨_, beyond, _⟩
          · exact absurd (List.mem_map_of_mem listed) unlisted
          · exact absurd (d.listed_of_parent beyond) unlisted
      · exact absurd reaches (circle_has_no_root unique circle)
  · intro fine
    have quiet (s : State) (declared : s ∈ d.states) (v : Violation) :
        d.parentViolation s.name ≠ some v := by
      rw [fine s declared]
      exact fun same => by cases same
    refine unplaced_nil unique (fun s declared p up => ?_) fun s declared circle => ?_
    · by_contra unlisted
      have above := (parent_of_unique unique declared).trans up
      exact quiet s declared _ (d.parent_violation_iff.mpr (.inl ⟨p, above, unlisted, rfl⟩))
    · exact quiet s declared _ (d.parent_violation_iff.mpr (.inr ⟨circle, rfl⟩))

/-- The order of the states of a definition, in which nothing need be right. -/
structure Arranged (d : Definition) : Prop where
  whole : d.parentsFirst = d.placed ++ d.unplaced
  perm : d.parentsFirst.Perm d.states
  /-- The passes come to an end: from some number on, further ones change nothing. -/
  ended : ∀ passes, d.states.length ≤ passes →
    arrange passes [] d.states = (d.placed, d.unplaced)
  behind : ∀ before s after, d.placed = before ++ s :: after →
    s.namedParent = none ∨ ∃ t ∈ before, s.namedParent = some t.name
  waiting : ∀ s ∈ d.unplaced, ∃ p, s.namedParent = some p ∧ ∀ t ∈ d.placed, t.name ≠ p
  declared : d.unplaced.Sublist d.states
  idempotent : ({ d with states := d.parentsFirst } : Definition).parentsFirst = d.parentsFirst

theorem arranged (d : Definition) : d.Arranged where
  whole := rfl
  perm := d.parents_first_perm
  ended passes enough := arrange_enough passes _ [] d.states enough (Nat.le_refl _)
  behind before s after parts := by
    have ready := placeable_at before (parts ▸ d.placed_placeable)
    cases up : s.namedParent with
    | none => exact .inl rfl
    | some p =>
      have known := (is_ready_iff _ s).mp ready p up
      rw [List.append_nil] at known
      obtain ⟨t, member, rfl⟩ := List.mem_map.mp known
      exact .inr ⟨t, member, rfl⟩
  waiting s left := by
    obtain ⟨p, up, missing⟩ := d.unplaced_waits left
    exact ⟨p, up, fun t member same => missing (List.mem_map.mpr ⟨t, member, same⟩)⟩
  declared := arrange_left_sublist _ _ _
  idempotent := d.parents_first_idempotent

/-- The order of the states of any definition is an arrangement with the parents first, as far as
that can be. If no name is declared twice, a state is left over exactly if following parents from it
never leads to a root, and no state is left over exactly if no parent is unknown and none in a
cycle. -/
theorem states_arranged (d : Definition) :
    d.Arranged ∧ (d.names.Nodup →
      (∀ s ∈ d.states, s ∈ d.unplaced ↔ ¬ d.ReachesRoot s.name) ∧
      (d.unplaced = [] ↔ d.Unfaulted)) :=
  ⟨d.arranged, fun unique => ⟨fun _ declared => unplaced_iff unique declared,
    unplaced_nil_iff unique⟩⟩

/-- A tree that is declared from the leaf up, with a state inside itself and one without a home. -/
def thicket : Definition where
  states := [{ name := "twig", parent := some "branch" },
    { name := "branch", parent := some "root" }, { name := "snake", parent := some "snake" },
    { name := "root", parent := some "" }, { name := "stray", parent := some "gone" }]
  initial := "root"

theorem thicket_arranged :
    thicket.parentsFirst.map (·.name) = ["root", "branch", "twig", "snake", "stray"] ∧
    thicket.unplaced.map (·.name) = ["snake", "stray"] ∧
    ¬ thicket.ReachesRoot "snake" ∧ ¬ thicket.Unfaulted := by
  have remaining : thicket.unplaced.map (·.name) = ["snake", "stray"] := by decide +kernel
  obtain ⟨_, law⟩ := states_arranged thicket
  obtain ⟨lost, faults⟩ := law (by decide +kernel)
  refine ⟨by decide +kernel, remaining, ?_, fun fine => ?_⟩
  · exact (lost ⟨"snake", some "snake", [], 0⟩ (by decide)).mp (by decide +kernel)
  · rw [faults.mpr fine] at remaining
    cases remaining

end Statechart.Definition
