import Statechart.Proofs.Placement
import Statechart.Table
/-!
The walk of the cycle check, round by round and without a bound. Over any table of parents it comes
to an answer in at most one round more than the table has names, and the answer is yes exactly if
the parents of the name that it set out from lead back to it. A circle that the name only hangs
below makes the walk end as well, with the answer no.
-/

namespace Statechart.Definition

open Relation

/-- The parent that a table has under a name; names that are not in it have none. -/
def parentIn? (parents : Table String (Option String)) (name : String) : Option String :=
  (parents.find? name).join

/-- The parents of a definition under the names of its states, put down one after the other. -/
def parentTable (d : Definition) : Table String (Option String) :=
  d.states.foldl (fun parents s => parents.put s.name s.namedParent) {}

theorem find_put_states (states : List State) (parents : Table String (Option String))
    (name : String) :
    (states.foldl (fun parents s => parents.put s.name s.namedParent) parents).find? name =
      ((states.reverse.find? (·.name == name)).map (·.namedParent)).or (parents.find? name) := by
  induction states generalizing parents with
  | nil => rfl
  | cons s rest ih =>
    rw [List.foldl_cons, ih, Table.find_put, List.reverse_cons, List.find?_append]
    by_cases here : s.name = name
    · cases rest.reverse.find? (·.name == name) <;> simp [here]
    · cases rest.reverse.find? (·.name == name) <;> simp [here, Ne.symm here]

theorem parent_in_parent_table (d : Definition) (name : String) :
    parentIn? d.parentTable name = d.parentOf? name := by
  rw [parentIn?, parentTable, find_put_states, parentOf?, parentAmong?]
  cases d.states.reverse.find? (·.name == name) <;> rfl

theorem listed_of_parent_in {parents : Table String (Option String)} {name above : String}
    (up : parentIn? parents name = some above) : name ∈ parents.keys := by
  refine (parents.contains_iff_mem_keys name).mp ?_
  cases entry : parents.find? name with
  | none => simp [parentIn?, entry] at up
  | some parent => simp [Table.contains, entry]

/-- Where a walk up the parents stands, and the names that it has met. -/
structure Climb where
  current : String
  met : List String := []
  deriving DecidableEq

namespace Climb
variable (parent : String → Option String) (start : String)

/-- One round of the walk: where it goes on, or what it answers. -/
def round (c : Climb) : Climb ⊕ Bool :=
  match parent c.current with
  | none => .inr false
  | some next =>
    if next = start then .inr true
    else if next ∈ c.met then .inr false
    else .inl { current := next, met := next :: c.met }

/-- What so many rounds of the walk come to, unless it ends before. -/
def rounds : Nat → Climb → Climb ⊕ Bool
  | 0, c => .inl c
  | n + 1, c =>
    match c.round parent start with
    | .inl next => rounds n next
    | .inr answer => .inr answer

end Climb

variable {parent : String → Option String} {start : String}

theorem round_goes_on {c next : Climb} (goes : c.round parent start = .inl next) :
    parent c.current = some next.current ∧ next.current ≠ start ∧ next.current ∉ c.met ∧
      next.met = next.current :: c.met := by
  unfold Climb.round at goes
  split at goes
  · cases goes
  next up =>
  split at goes
  · cases goes
  next apart =>
  split at goes
  · cases goes
  next unmet =>
  cases goes
  exact ⟨up, apart, unmet, rfl⟩

/-- The check is the walk, cut off with a no when its rounds are used up. -/
theorem cycle_from_rounds (fuel : Nat) (c : Climb) :
    cycleFrom parent start fuel c.met c.current =
      (c.rounds parent start fuel).elim (fun _ => false) id := by
  induction fuel generalizing c with
  | zero => rfl
  | succ fuel ih =>
    unfold cycleFrom Climb.rounds Climb.round
    cases parent c.current with
    | none => rfl
    | some next =>
      by_cases closes : next = start
      · simp [closes]
      by_cases again : next ∈ c.met
      · simp [closes, again]
      · simp only [closes, again, if_false]
        exact ih { current := next, met := next :: c.met }

/-- Every round that does not end the walk meets one name more. -/
theorem Walked.rounds {c last : Climb} (walked : Walked parent start c.current c.met) (n : Nat)
    (goes : c.rounds parent start n = .inl last) :
    Walked parent start last.current last.met ∧ last.met.length = c.met.length + n := by
  induction n generalizing c with
  | zero =>
    cases goes
    exact ⟨walked, rfl⟩
  | succ n ih =>
    unfold Climb.rounds at goes
    split at goes
    · next next on =>
      obtain ⟨up, apart, unmet, met⟩ := round_goes_on on
      have further : Walked parent start next.current next.met := met ▸ walked.step up apart unmet
      obtain ⟨walked', counted⟩ := ih further goes
      refine ⟨walked', ?_⟩
      rw [counted, met, List.length_cons]
      omega
    · cases goes

/-- Where only so many names have a parent, the walk ends in one round more. -/
theorem rounds_end (start : String) {known : List String}
    (complete : ∀ a b, parent a = some b → a ∈ known) : ∃ answer,
    Climb.rounds parent start (known.length + 1) { current := start } = .inr answer := by
  cases came : Climb.rounds parent start (known.length + 1) { current := start } with
  | inr answer => exact ⟨answer, rfl⟩
  | inl last =>
    -- It would have met more names than have a parent.
    obtain ⟨walked, met⟩ := (walked_nil parent start).rounds (c := { current := start }) _ came
    have few := walked.length_le complete
    rw [List.length_nil] at met
    omega

/-- A cycle is reported of the names that lie on one. -/
theorem cycle_reported_iff (d : Definition) (name : String) :
    .parentCycle name ∈ d.violations ↔ TransGen (Under d.parentOf?) name name := by
  have area : .parentCycle name ∈ d.violations ↔ .parentCycle name ∈ d.stateViolations := by
    rw [← List.count_pos_iff, d.count_violations]
    exact List.count_pos_iff
  rw [area, mem_state_violations (by simp) (by simp)]
  constructor
  · rintro ⟨s, _, reported⟩
    obtain ⟨rfl, circle⟩ := d.parent_violation_cycle_iff.mp reported
    exact circle
  · intro circle
    obtain ⟨_, up, _⟩ := d.circle_begins circle
    obtain ⟨s, member, named⟩ := List.mem_map.mp (d.listed_of_parent up)
    exact ⟨s, member, d.parent_violation_cycle_iff.mpr ⟨named, named ▸ circle⟩⟩

/-- Whatever parents are put down under names, and whatever name the walk sets out from: it ends in
at most one round more than there are names in the table, and bounding it by more rounds makes no
difference. It answers yes exactly if the parents of the name lead back to it. If they lead to a
name on a circle, but not from there to where the walk set out, the answer is no. What validation
reports of a definition with these parents is this answer. -/
theorem walk_ends_with_exact_answer (parents : Table String (Option String)) (start : String) :
    let above := Under (parentIn? parents)
    ∃ answer,
      Climb.rounds (parentIn? parents) start (parents.size + 1) { current := start } =
        .inr answer ∧
      (∀ fuel, parents.size < fuel →
        cycleFrom (parentIn? parents) start fuel [] start = answer) ∧
      (answer = true ↔ TransGen above start start) ∧
      (∀ name, TransGen above start name → TransGen above name name →
        ¬ TransGen above name start → answer = false) ∧
      ∀ d : Definition, d.parentTable = parents →
        d.inCycle start = answer ∧ (.parentCycle start ∈ d.violations ↔ answer = true) := by
  intro above
  -- A walk goes on from names of the table only, so there are no more rounds than names.
  have complete (a b : String) (up : parentIn? parents a = some b) : a ∈ parents.keys :=
    listed_of_parent_in up
  have count : parents.keys.length = parents.size := List.length_map ..
  have answers (fuel : Nat) (room : parents.size < fuel) :
      cycleFrom (parentIn? parents) start fuel [] start = true ↔ TransGen above start start :=
    cycle_from_iff complete fuel (walked_nil _ start) (by rw [count]; exact room)
  obtain ⟨answer, ended⟩ := rounds_end start complete
  rw [count] at ended
  have answered : cycleFrom (parentIn? parents) start (parents.size + 1) [] start = answer := by
    rw [cycle_from_rounds _ { current := start }, ended]
    rfl
  have circle : answer = true ↔ TransGen above start start :=
    answered ▸ answers _ (Nat.lt_succ_self _)
  refine ⟨answer, ended, fun fuel room => ?_, circle, fun name up _ below => ?_, ?_⟩
  · exact Bool.eq_iff_iff.mpr ((answers fuel room).trans circle.symm)
  · exact Bool.eq_false_iff.mpr fun yes => below (circle_returns (circle.mp yes) up)
  · rintro d rfl
    have same : above = Under d.parentOf? :=
      congrArg Under (funext d.parent_in_parent_table)
    rw [same] at circle
    exact ⟨Bool.eq_iff_iff.mpr ((d.in_cycle_iff start).trans circle.symm),
      (d.cycle_reported_iff start).trans circle.symm⟩

/-- A ring of two states, a state that is its own parent, a state that hangs below the ring, and one
whose parent is not declared. -/
def carousel : Definition where
  states := [{ name := "Gate" }, { name := "Horse", parent := some "Ring" },
    { name := "Ring", parent := some "Axle" }, { name := "Axle", parent := some "Ring" },
    { name := "Mirror", parent := some "Mirror" }, { name := "Stray", parent := some "Ghost" }]
  initial := "Gate"

theorem carousel_walked :
    .parentCycle "Ring" ∈ carousel.violations ∧ .parentCycle "Mirror" ∈ carousel.violations ∧
    .parentCycle "Horse" ∉ carousel.violations ∧ .parentCycle "Stray" ∉ carousel.violations := by
  let parent := parentIn? carousel.parentTable
  have onward : parent "Ring" = some "Axle" := by decide +kernel
  have back : parent "Axle" = some "Ring" := by decide +kernel
  have ring : TransGen (Under parent) "Ring" "Ring" := .tail (.single onward) back
  have below : ¬ TransGen (Under parent) "Ring" "Horse" := by
    intro up
    suffices inside : ∀ name, TransGen (Under parent) "Ring" name →
        name = "Axle" ∨ name = "Ring" from absurd (inside "Horse" up) (by decide)
    intro name up
    induction up with
    | single first => exact .inl (Option.some.inj (first.symm.trans onward))
    | tail _ last ih =>
      rcases ih with rfl | rfl
      · exact .inr (Option.some.inj (last.symm.trans back))
      · exact .inl (Option.some.inj (last.symm.trans onward))
  refine ⟨?_, ?_, ?_, ?_⟩
  · obtain ⟨_, _, _, circle, _, told⟩ := walk_ends_with_exact_answer carousel.parentTable "Ring"
    exact (told _ rfl).2.mpr (circle.mpr ring)
  · have own : parent "Mirror" = some "Mirror" := by decide +kernel
    obtain ⟨_, _, _, circle, _, told⟩ := walk_ends_with_exact_answer carousel.parentTable "Mirror"
    exact (told _ rfl).2.mpr (circle.mpr (.single own))
  · have hook : parent "Horse" = some "Ring" := by decide +kernel
    obtain ⟨_, _, _, _, hangs, told⟩ := walk_ends_with_exact_answer carousel.parentTable "Horse"
    rw [(told _ rfl).2, hangs "Ring" (.single hook) ring below]
    decide
  · obtain ⟨_, ended, _, _, _, told⟩ := walk_ends_with_exact_answer carousel.parentTable "Stray"
    have lost : Climb.rounds parent "Stray" 7 { current := "Stray" } = .inr false := by
      decide +kernel
    rw [(told _ rfl).2, ← Sum.inr.inj (lost.symm.trans ended)]
    decide

end Statechart.Definition
