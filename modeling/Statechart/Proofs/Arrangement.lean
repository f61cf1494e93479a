import Statechart.Proofs.Validity
/-!
Parents first. A pass over the states keeps all of them and places each only after its parent; the
passes end with states none of which has its parent placed. Where every parent is declared those
left over would have their parents among themselves, so without a circle nothing is left over.
-/

namespace Statechart.Definition

/-- Each of some states has its parent placed before it. -/
def Placeable : (placed : List String) → List State → Prop
  | _, [] => True
  | placed, s :: rest => isReady placed s = true ∧ Placeable (s.name :: placed) rest

theorem is_ready_iff (placed : List String) (s : State) :
    isReady placed s = true ↔ ∀ p, s.namedParent = some p → p ∈ placed := by
  unfold isReady
  cases s.namedParent <;> simp

theorem is_ready_mono {placed more : List String} (within : placed ⊆ more) (s : State)
    (ready : isReady placed s = true) : isReady more s = true :=
  (is_ready_iff more s).mpr fun p up => within ((is_ready_iff placed s).mp ready p up)

theorem placeable_mono {placed more : List String} (within : placed ⊆ more) (states : List State)
    (fine : Placeable placed states) : Placeable more states := by
  induction states generalizing placed more with
  | nil => trivial
  | cons s rest ih =>
    exact ⟨is_ready_mono within s fine.1, ih (List.cons_subset_cons _ within) fine.2⟩

theorem placeable_append (placed : List String) (first later : List State)
    (fine : Placeable placed first) (further : Placeable (first.map (·.name) ++ placed) later) :
    Placeable placed (first ++ later) := by
  induction first generalizing placed with
  | nil => exact further
  | cons s rest ih =>
    refine ⟨fine.1, ih _ fine.2 (placeable_mono ?_ later further)⟩
    intro name member
    simp only [List.map_cons, List.cons_append, List.mem_cons, List.mem_append] at member ⊢
    tauto

theorem sweep_perm (placed : List String) (states : List State) :
    ((sweep placed states).1 ++ (sweep placed states).2).Perm states := by
  induction states generalizing placed with
  | nil => exact .refl _
  | cons s rest ih =>
    by_cases ready : isReady placed s = true
    · simp only [sweep, ready, if_true, List.cons_append]
      exact (ih _).cons s
    · simp only [sweep, ready]
      exact List.perm_middle.trans ((ih _).cons s)

theorem sweep_placeable (placed : List String) (states : List State) :
    Placeable placed (sweep placed states).1 := by
  induction states generalizing placed with
  | nil => trivial
  | cons s rest ih =>
    by_cases ready : isReady placed s = true
    · simp only [sweep, ready, if_true]
      exact ⟨ready, ih _⟩
    · simp only [sweep, ready]
      exact ih _

theorem sweep_stuck (placed : List String) (states : List State)
    (stuck : (sweep placed states).1 = []) :
    (sweep placed states).2 = states ∧ ∀ s ∈ states, isReady placed s = false := by
  induction states generalizing placed with
  | nil => simp [sweep]
  | cons s rest ih =>
    by_cases ready : isReady placed s = true
    · simp [sweep, ready] at stuck
    · simp only [sweep, ready] at stuck ⊢
      obtain ⟨same, unready⟩ := ih _ stuck
      constructor
      · exact congrArg (s :: ·) same
      · intro s' member
        rcases List.mem_cons.mp member with rfl | member
        · exact Bool.eq_false_iff.mpr ready
        · exact unready s' member

/-- What the passes come to: all states are kept, those placed have their parents before them, and
none of those left over has its parent placed. -/
theorem arrange_spec (passes : Nat) (placed : List String) (pending : List State)
    (enough : pending.length ≤ passes) :
    ((arrange passes placed pending).1 ++ (arrange passes placed pending).2).Perm pending ∧
      Placeable placed (arrange passes placed pending).1 ∧
      ∀ s ∈ (arrange passes placed pending).2,
        isReady ((arrange passes placed pending).1.map (·.name) ++ placed) s = false := by
  induction passes generalizing placed pending with
  | zero =>
    have empty : pending = [] := List.length_eq_zero_iff.mp (Nat.le_zero.mp enough)
    subst empty
    exact ⟨.refl _, trivial, fun _ member => by cases member⟩
  | succ passes ih =>
    have perm := sweep_perm placed pending
    have fine := sweep_placeable placed pending
    have stuck := sweep_stuck placed pending
    unfold arrange
    rcases swept : sweep placed pending with ⟨ready, left⟩
    rw [swept] at perm fine stuck
    cases ready with
    | nil =>
      refine ⟨perm, trivial, fun s member => ?_⟩
      exact (stuck rfl).2 s ((stuck rfl).1 ▸ member)
    | cons first ready =>
      -- A pass that places a state leaves few enough for the passes that remain.
      have shorter : left.length ≤ passes := by
        have := perm.length_eq
        simp only [List.length_append, List.length_cons] at this
        omega
      obtain ⟨rest, later, unready⟩ := ih ((first :: ready).map (·.name) ++ placed) left shorter
      refine ⟨?_, placeable_append _ _ _ fine later, ?_⟩
      · rw [List.append_assoc]
        exact (List.Perm.append_left _ rest).trans perm
      · intro s member
        refine Bool.eq_false_iff.mpr fun readied => ?_
        refine Bool.eq_false_iff.mp (unready s member) (is_ready_mono ?_ s readied)
        intro name
        simp only [List.map_append, List.mem_append]
        tauto

/-- The states that are placed, each after its parent. -/
def placed (d : Definition) : List State := (arrange d.states.length [] d.states).1

/-- The states that are left over, for their parents are never placed. -/
def unplaced (d : Definition) : List State := (arrange d.states.length [] d.states).2

theorem parents_first_eq (d : Definition) : d.parentsFirst = d.placed ++ d.unplaced := rfl

theorem parents_first_perm (d : Definition) : d.parentsFirst.Perm d.states :=
  (arrange_spec d.states.length [] d.states (Nat.le_refl _)).1

theorem placed_placeable (d : Definition) : Placeable [] d.placed :=
  (arrange_spec d.states.length [] d.states (Nat.le_refl _)).2.1

theorem unplaced_unready (d : Definition) {s : State} (member : s ∈ d.unplaced) :
    isReady (d.placed.map (·.name)) s = false := by
  have unready := (arrange_spec d.states.length [] d.states (Nat.le_refl _)).2.2 s member
  rwa [List.append_nil] at unready

/-- A state that is left over has a parent, and its parent is not placed. -/
theorem unplaced_waits (d : Definition) {s : State} (member : s ∈ d.unplaced) :
    ∃ p, s.namedParent = some p ∧ p ∉ d.placed.map (·.name) := by
  have stays := d.unplaced_unready member
  cases up : s.namedParent with
  | none => simp [isReady, up] at stays
  | some p => exact ⟨p, rfl, by simpa [isReady, up] using stays⟩

theorem mem_placed_or_unplaced (d : Definition) {s : State} :
    s ∈ d.states ↔ s ∈ d.placed ∨ s ∈ d.unplaced := by
  rw [← d.parents_first_perm.mem_iff, parents_first_eq, List.mem_append]

/-- Where every parent is declared and no state is above itself, all states can be placed. -/
theorem unplaced_nil {d : Definition} (unique : d.names.Nodup)
    (parents : ∀ s ∈ d.states, ∀ p, s.namedParent = some p → p ∈ d.names)
    (acyclic : ∀ s ∈ d.states, ¬ Relation.TransGen (Under d.parentOf?) s.name s.name) :
    d.unplaced = [] := by
  by_contra leftover
  have closed (name : String) (member : name ∈ d.unplaced.map (·.name)) :
      ∃ above ∈ d.unplaced.map (·.name), d.parentOf? name = some above := by
    obtain ⟨s, left, rfl⟩ := List.mem_map.mp member
    have declared : s ∈ d.states := d.mem_placed_or_unplaced.mpr (.inr left)
    -- The parent is declared, so it has been placed or is left over; it has not been placed.
    obtain ⟨p, up, missing⟩ := d.unplaced_waits left
    obtain ⟨above, known, rfl⟩ := List.mem_map.mp (parents s declared p up)
    refine ⟨above.name, ?_, (parent_of_unique unique declared).trans up⟩
    rcases d.mem_placed_or_unplaced.mp known with early | late
    · exact absurd (List.mem_map_of_mem early) missing
    · exact List.mem_map_of_mem late
  obtain ⟨name, member, circle⟩ := exists_cycle (by simpa using leftover) closed
  obtain ⟨s, left, rfl⟩ := List.mem_map.mp member
  exact acyclic s (d.mem_placed_or_unplaced.mpr (.inr left)) circle

theorem Valid.unplaced_nil {d : Definition} (valid : d.Valid) : d.unplaced = [] :=
  Definition.unplaced_nil valid.unique valid.parents valid.acyclic

/-- In a valid definition every state can be placed after its parent. -/
theorem parents_first_placeable {d : Definition} (valid : d.Valid) :
    Placeable [] d.parentsFirst := by
  rw [parents_first_eq, valid.unplaced_nil, List.append_nil]
  exact d.placed_placeable

end Statechart.Definition
