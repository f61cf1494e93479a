import Statechart.Proofs.Ancestry
/-!
What it means that nothing is wrong with a definition, said without the checks that find it out.
-/

namespace Statechart.Definition

open Relation

def names (d : Definition) : List String := d.states.map (·.name)

structure Valid (d : Definition) : Prop where
  unique : d.names.Nodup
  parents : ∀ s ∈ d.states, ∀ p, s.namedParent = some p → p ∈ d.names
  acyclic : ∀ s ∈ d.states, ¬ TransGen (Under d.parentOf?) s.name s.name
  initial : d.initial ∈ d.names
  endpoints : ∀ r ∈ d.rules, r.source ∈ d.names ∧ r.target ∈ d.names
  intervals : ∀ c ∈ d.conditions, c.intervals ≠ [] ∧ ∀ i ∈ c.intervals, i.isProper = true
  unreserved : ∀ t ∈ d.triggers, isReserved t.name = false
  distinct : (d.triggers.map (·.name)).Nodup

theorem declares_iff (d : Definition) (name : String) :
    d.declares name = true ↔ name ∈ d.names := by
  simp [declares, names]

theorem parent_of_agreeing {d : Definition}
    (agree : ∀ s ∈ d.states, ∀ t ∈ d.states, s.name = t.name → s.namedParent = t.namedParent)
    {s : State} (member : s ∈ d.states) : d.parentOf? s.name = s.namedParent := by
  unfold parentOf? parentAmong?
  cases found : d.states.reverse.find? (·.name == s.name) with
  | none =>
    have absent := List.find?_eq_none.mp found s (List.mem_reverse.mpr member)
    exact absurd (beq_self_eq_true s.name) absent
  | some t =>
    have listed := List.mem_reverse.mp (List.mem_of_find?_eq_some found)
    have named := List.find?_some found
    exact agree t listed s member (beq_iff_eq.mp named)

theorem parent_of_unique {d : Definition} (unique : d.names.Nodup) {s : State}
    (member : s ∈ d.states) : d.parentOf? s.name = s.namedParent :=
  parent_of_agreeing (fun _ here _ there same =>
    congrArg _ (List.inj_on_of_nodup_map unique here there same)) member

theorem repeated_nil (seen names : List String) (nothing : repeated seen names = []) :
    names.Nodup ∧ ∀ name ∈ names, name ∉ seen := by
  induction names generalizing seen with
  | nil => exact ⟨List.nodup_nil, fun _ member => by cases member⟩
  | cons name rest ih =>
    unfold repeated at nothing
    split at nothing
    · cases nothing
    · next new =>
      obtain ⟨unique, fresh⟩ := ih _ nothing
      constructor
      · refine List.nodup_cons.mpr ⟨?_, unique⟩
        intro member
        exact fresh name member (List.mem_cons_self ..)
      · intro other member
        rcases List.mem_cons.mp member with rfl | member
        · exact new
        · intro known
          exact fresh other member (List.mem_cons_of_mem _ known)

theorem naming_nil (seen : List String) (triggers : List Trigger)
    (nothing : namingViolations seen triggers = []) :
    (∀ t ∈ triggers, isReserved t.name = false) ∧ (triggers.map (·.name)).Nodup ∧
      ∀ t ∈ triggers, t.name ∉ seen := by
  induction triggers generalizing seen with
  | nil => simp
  | cons t rest ih =>
    simp only [namingViolations, List.append_eq_nil_iff, ite_eq_right_iff, imp_false,
      List.cons_ne_self, Bool.not_eq_true] at nothing
    obtain ⟨⟨free, new⟩, later⟩ := nothing
    obtain ⟨unreserved, unique, fresh⟩ := ih _ later
    have apart : t.name ∉ rest.map (·.name) := by
      intro member
      obtain ⟨t', listed, same⟩ := List.mem_map.mp member
      exact fresh t' listed (same ▸ List.mem_cons_self ..)
    refine ⟨?_, List.nodup_cons.mpr ⟨apart, unique⟩, ?_⟩
    · intro t' member
      rcases List.mem_cons.mp member with rfl | member
      · exact free
      · exact unreserved t' member
    · intro t' member
      rcases List.mem_cons.mp member with rfl | member
      · exact new
      · intro known
        exact fresh t' member (List.mem_cons_of_mem _ known)

theorem intervals_of_violations {c : Condition} (nothing : intervalViolations c = []) :
    c.intervals ≠ [] ∧ ∀ i ∈ c.intervals, i.isProper = true := by
  unfold intervalViolations at nothing
  split at nothing
  · cases nothing
  · next listed =>
    refine ⟨by simpa using listed, fun i member => ?_⟩
    have proper := List.filter_eq_nil_iff.mp (List.map_eq_nil_iff.mp nothing) i member
    simpa using proper

theorem parent_violation_none {d : Definition} {name p : String}
    (fine : d.parentViolation name = none) (up : d.parentOf? name = some p) :
    d.declares p = true ∧ d.inCycle name = false := by
  simp only [parentViolation, up] at fine
  split at fine
  · cases fine
  split at fine
  · cases fine
  · next declared acyclic =>
    exact ⟨by simpa using declared, Bool.eq_false_iff.mpr acyclic⟩

theorem valid_of_violations {d : Definition} (nothing : d.violations = []) : d.Valid := by
  simp only [violations, List.append_eq_nil_iff] at nothing
  obtain ⟨⟨⟨⟨states, initial⟩, rules⟩, conditions⟩, triggers⟩ := nothing
  unfold stateViolations at states
  split at states
  · cases states
  obtain ⟨repeats, parents⟩ := List.append_eq_nil_iff.mp states
  -- Names are unique, so what the checks look up under a name is the state itself.
  have unique : d.names.Nodup := (repeated_nil _ _ (List.map_eq_nil_iff.mp repeats)).1
  have upward (s : State) (member : s ∈ d.states) (p : String) (up : s.namedParent = some p) :
      d.declares p = true ∧ d.inCycle s.name = false :=
    parent_violation_none (List.filterMap_eq_nil_iff.mp parents s member)
      ((parent_of_unique unique member).trans up)
  have named := naming_nil _ _ triggers
  refine {
    unique
    parents := fun s member p up => (d.declares_iff p).mp (upward s member p up).1
    acyclic := ?_
    initial := ?_
    endpoints := ?_
    intervals := ?_
    unreserved := named.1
    distinct := named.2.1 }
  · -- A circle starts with a parent, and the check of that parent looks for circles.
    intro s member circle
    obtain ⟨p, up, _⟩ := TransGen.head'_iff.mp circle
    have free := (upward s member p ((parent_of_unique unique member).symm.trans up)).2
    rw [(d.in_cycle_iff s.name).mpr circle] at free
    cases free
  · unfold initialViolations at initial
    split at initial
    · cases initial
    split at initial
    · cases initial
    · next known =>
      unfold state? at known
      cases found : d.states.find? (·.name == d.initial) with
      | none => simp [found] at known
      | some s =>
        have named := List.find?_some found
        exact List.mem_map.mpr ⟨s, List.mem_of_find?_eq_some found, beq_iff_eq.mp named⟩
  · intro r member
    have ends := List.flatMap_eq_nil_iff.mp rules r member
    simp only [endpointViolations, List.append_eq_nil_iff, ite_eq_left_iff, imp_false,
      List.cons_ne_self, Bool.not_eq_true, Bool.not_eq_false] at ends
    exact ⟨(d.declares_iff _).mp ends.1, (d.declares_iff _).mp ends.2⟩
  · intro c member
    exact intervals_of_violations (List.flatMap_eq_nil_iff.mp conditions c member)

end Statechart.Definition
