import Mathlib.Logic.Relation
import Mathlib.Order.WellFounded
import Mathlib.Data.Fintype.EquivFin
import Statechart.Validation
/-!
Following parents. The walk of the cycle check meets a name twice exactly when the parents run in a
circle, and it answers yes exactly when that circle passes through the name it set out from. Among
finitely many names that all have their parent among them there is always such a circle.
-/

namespace Statechart.Definition

open Relation

def Under (parent : String → Option String) (name above : String) : Prop :=
  parent name = some above

/-- What is known of the names met on the way from `start` to `current`. -/
structure Walked (parent : String → Option String) (start current : String) (met : List String) :
    Prop where
  unrepeated : met.Nodup
  away : start ∉ met
  here : current = start ∧ met = [] ∨ current ∈ met
  left : ∀ a, a = start ∨ a ∈ met → a ≠ current → ∃ b ∈ met, parent a = some b
  above : ∀ a ∈ met, TransGen (Under parent) start a

variable {parent : String → Option String} {start current next : String} {met : List String}

theorem walked_nil (parent : String → Option String) (start : String) :
    Walked parent start start [] where
  unrepeated := List.nodup_nil
  away := List.not_mem_nil
  here := .inl ⟨rfl, rfl⟩
  left a passed moved := by
    rcases passed with same | member
    · exact absurd same moved
    · cases member
  above _ member := by cases member

theorem Walked.next_above (walked : Walked parent start current met)
    (up : parent current = some next) : TransGen (Under parent) start next := by
  rcases walked.here with ⟨rfl, _⟩ | member
  · exact .single up
  · exact .tail (walked.above current member) up

theorem Walked.step (walked : Walked parent start current met) (up : parent current = some next)
    (apart : next ≠ start) (unmet : next ∉ met) : Walked parent start next (next :: met) where
  unrepeated := List.nodup_cons.mpr ⟨unmet, walked.unrepeated⟩
  away := by
    intro member
    rcases List.mem_cons.mp member with same | member
    · exact apart same.symm
    · exact walked.away member
  here := .inr (List.mem_cons_self ..)
  left a passed moved := by
    by_cases last : a = current
    · exact ⟨next, List.mem_cons_self .., last ▸ up⟩
    · have earlier : a = start ∨ a ∈ met := by
        rcases passed with same | member
        · exact .inl same
        · exact .inr ((List.mem_cons.mp member).resolve_left moved)
      obtain ⟨b, known, leads⟩ := walked.left a earlier last
      exact ⟨b, List.mem_cons_of_mem _ known, leads⟩
  above a member := by
    rcases List.mem_cons.mp member with rfl | member
    · exact walked.next_above up
    · exact walked.above a member

/-- A walk that ends, or that runs into a name met before, has met all there is above its start. -/
theorem Walked.rests (walked : Walked parent start current met)
    (ends : ∀ b, parent current = some b → b ∈ met) : ¬ TransGen (Under parent) start start := by
  have covers (a : String) (passed : a = start ∨ a ∈ met) (b : String) (up : parent a = some b) :
      b ∈ met := by
    by_cases last : a = current
    · exact ends b (last ▸ up)
    · obtain ⟨b', known, leads⟩ := walked.left a passed last
      rw [up] at leads
      cases leads
      exact known
  intro circle
  -- All that is above the start has been met, and the start has not.
  suffices reached : ∀ b, TransGen (Under parent) start b → b ∈ met from
    walked.away (reached start circle)
  intro b reached
  induction reached with
  | single up => exact covers start (.inl rfl) _ up
  | tail _ up ih => exact covers _ (.inr ih) _ up

theorem Walked.length_le (walked : Walked parent start current met) {known : List String}
    (complete : ∀ a b, parent a = some b → a ∈ known) : met.length ≤ known.length := by
  rcases walked.here with ⟨_, rfl⟩ | member
  · exact Nat.zero_le _
  -- The name the walk stands at may have no parent; in the count the start takes its place.
  have distinct : (start :: met.erase current).Nodup :=
    List.nodup_cons.mpr ⟨fun m => walked.away (List.mem_of_mem_erase m),
      walked.unrepeated.erase current⟩
  have covered : start :: met.erase current ⊆ known := by
    intro a listed
    rcases List.mem_cons.mp listed with rfl | listed
    · obtain ⟨b, _, up⟩ := walked.left a (.inl rfl) fun same => walked.away (same ▸ member)
      exact complete a b up
    · have other := (walked.unrepeated.mem_erase_iff.mp listed)
      obtain ⟨b, _, up⟩ := walked.left a (.inr other.2) other.1
      exact complete a b up
  have bound := distinct.subperm covered |>.length_le
  rw [List.length_cons, List.length_erase_of_mem member] at bound
  have := List.length_pos_of_mem member
  omega

theorem cycle_from_iff {known : List String} (complete : ∀ a b, parent a = some b → a ∈ known)
    (fuel : Nat) (walked : Walked parent start current met)
    (room : known.length < fuel + met.length) :
    cycleFrom parent start fuel met current = true ↔ TransGen (Under parent) start start := by
  induction fuel generalizing current met with
  | zero =>
    -- Without fuel the walk would have met more names than have a parent.
    have := walked.length_le complete
    omega
  | succ fuel ih =>
    unfold cycleFrom
    cases up : parent current with
    | none =>
      have rests := walked.rests (fun b above => by rw [up] at above; cases above)
      simp [rests]
    | some next =>
      by_cases closes : next = start
      · have circle := walked.next_above up
        simp only [closes, if_true, true_iff]
        exact closes ▸ circle
      by_cases again : next ∈ met
      · have rests := walked.rests (fun b above => by rw [up] at above; cases above; exact again)
        simp [closes, again, rests]
      · simp only [closes, again, if_false]
        exact ih (walked.step up closes again) (by simp only [List.length_cons]; omega)

theorem declared_of_parent {states : List State} {a b : String}
    (up : parentAmong? states a = some b) : a ∈ states.map (·.name) := by
  obtain ⟨s, found, _⟩ := Option.bind_eq_some_iff.mp up
  have named := List.find?_some found
  exact List.mem_map.mpr ⟨s, List.mem_of_find?_eq_some found, beq_iff_eq.mp named⟩

/-- The check reports a name exactly when its parents lead back to it. -/
theorem in_cycle_iff (d : Definition) (name : String) :
    d.inCycle name = true ↔ TransGen (Under d.parentOf?) name name := by
  have complete (a b : String) (up : d.parentOf? a = some b) :
      a ∈ (d.states.reverse).map (·.name) := declared_of_parent up
  exact cycle_from_iff complete _ (walked_nil _ _) (by simp)

/-- Names of which each has its parent among them contain a circle. -/
theorem exists_cycle {names : List String} (nonempty : names ≠ [])
    (closed : ∀ a ∈ names, ∃ b ∈ names, parent a = some b) :
    ∃ a ∈ names, TransGen (Under parent) a a := by
  by_contra acyclic
  -- Without a circle there is a highest name, and it has no parent.
  have : IsTrans { a // a ∈ names } fun b a => TransGen (Under parent) a.1 b.1 :=
    ⟨fun _ _ _ first second => second.trans first⟩
  have : Std.Irrefl fun b a : { a // a ∈ names } => TransGen (Under parent) a.1 b.1 :=
    ⟨fun a circle => acyclic ⟨a.1, a.2, circle⟩⟩
  have founded := Finite.wellFounded_of_trans_of_irrefl
    fun b a : { a // a ∈ names } => TransGen (Under parent) a.1 b.1
  obtain ⟨a, member⟩ := List.exists_mem_of_ne_nil _ nonempty
  obtain ⟨top, _, highest⟩ := founded.has_min Set.univ ⟨⟨a, member⟩, trivial⟩
  obtain ⟨b, listed, up⟩ := closed top.1 top.2
  exact highest ⟨b, listed⟩ trivial (.single up)

end Statechart.Definition
