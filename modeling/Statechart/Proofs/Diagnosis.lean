import Statechart.Proofs.Validity
/-!
What validation reports. Every kind of problem is looked for in one area of a definition, and each
occurrence of it is reported once: nothing is left out and nothing else is said. Where a name is
declared more than once the last declaration decides on the parent, also for the entries before it.
-/

namespace Statechart

/-- The areas of a definition, each with a check of its own. -/
inductive Area
  | states
  | initial
  | rules
  | conditions
  | triggers

def Violation.area : Violation → Area
  | .noStates | .duplicateState _ | .unknownParent .. | .parentCycle _ => .states
  | .missingInitialState | .unknownInitialState _ => .initial
  | .unknownRuleSource .. | .unknownRuleTarget .. => .rules
  | .emptyRanges _ | .invalidRange .. => .conditions
  | .reservedEventName _ | .duplicateTrigger _ => .triggers

namespace Definition

open Relation

variable (d : Definition)

/-- One name leads to another if an entry of the one has the other as its parent. -/
def Link (own : State → Option String) (name above : String) : Prop :=
  ∃ s ∈ d.states, s.name = name ∧ own s = some above

/-- The parent of an entry leads back to the name of the entry. -/
def LeadsBack (own : State → Option String) (s : State) : Prop :=
  ∃ parent, own s = some parent ∧ ReflTransGen (d.Link own) parent s.name

/-- The intervals of all conditions, each with the name of its condition. -/
def ranges : List (String × Interval) :=
  d.conditions.flatMap fun c => c.intervals.map fun i => (c.name, i)

open Classical in
/-- How often each problem occurs in a definition whose entries have these parents. -/
noncomputable def occurrences (own : State → Option String) : Violation → Nat
  | .noStates => if d.states = [] then 1 else 0
  | .duplicateState name => d.names.count name - 1
  | .unknownParent name parent =>
    d.states.countP fun s => s.name = name ∧ own s = some parent ∧ parent ∉ d.names
  | .parentCycle name => d.states.countP fun s => s.name = name ∧ d.LeadsBack own s
  | .missingInitialState => if d.initial = "" then 1 else 0
  | .unknownInitialState name => if d.initial = name ∧ name ≠ "" ∧ name ∉ d.names then 1 else 0
  | .unknownRuleSource source target =>
    d.rules.countP fun r => r.source = source ∧ r.target = target ∧ source ∉ d.names
  | .unknownRuleTarget source target =>
    d.rules.countP fun r => r.source = source ∧ r.target = target ∧ target ∉ d.names
  | .emptyRanges name => d.conditions.countP fun c => c.name = name ∧ c.intervals = []
  | .invalidRange name min max => d.ranges.countP fun r => r = (name, ⟨min, max⟩) ∧ max < min
  | .reservedEventName name => d.triggers.countP fun t => t.name = name ∧ isReserved name
  | .duplicateTrigger name => (d.triggers.map (·.name)).count name - 1

/-- What the check of an area reports. -/
def found : Area → List Violation
  | .states => d.stateViolations
  | .initial => d.initialViolations
  | .rules => d.ruleViolations
  | .conditions => d.conditionViolations
  | .triggers => d.triggerViolations

theorem listed_of_parent {name above : String} (up : d.parentOf? name = some above) :
    name ∈ d.names := by
  have listed := declared_of_parent up
  rwa [List.map_reverse, List.mem_reverse] at listed

/-- Where the parents of a name lead back to it, its parent is declared. -/
theorem circle_begins {name : String} (circle : TransGen (Under d.parentOf?) name name) :
    ∃ above, d.parentOf? name = some above ∧ above ∈ d.names := by
  obtain ⟨above, up, rest⟩ := TransGen.head'_iff.mp circle
  rcases ReflTransGen.cases_head rest with rfl | ⟨_, further, _⟩
  · exact ⟨_, up, d.listed_of_parent up⟩
  · exact ⟨_, up, d.listed_of_parent further⟩

/-- What can be wrong with the parent of a name. -/
theorem parent_violation_iff {name : String} {v : Violation} :
    d.parentViolation name = some v ↔
      (∃ above, d.parentOf? name = some above ∧ above ∉ d.names ∧ v = .unknownParent name above) ∨
      (TransGen (Under d.parentOf?) name name ∧ v = .parentCycle name) := by
  have known (above : String) := d.declares_iff above
  constructor
  · intro reported
    unfold parentViolation at reported
    split at reported
    · cases reported
    next above up =>
    split at reported
    · next unknown =>
      cases reported
      have unlisted : above ∉ d.names := fun listed => by simp [(known above).mpr listed] at unknown
      exact .inl ⟨above, up, unlisted, rfl⟩
    split at reported
    · next turns =>
      cases reported
      exact .inr ⟨(d.in_cycle_iff name).mp turns, rfl⟩
    · cases reported
  · rintro (⟨above, up, unlisted, rfl⟩ | ⟨circle, rfl⟩)
    · simp [parentViolation, up, known, unlisted]
    · obtain ⟨above, up, listed⟩ := d.circle_begins circle
      simp [parentViolation, up, known, listed, (d.in_cycle_iff name).mpr circle]

theorem parent_violation_unknown_iff {name other parent : String} :
    d.parentViolation other = some (.unknownParent name parent) ↔
      other = name ∧ d.parentOf? other = some parent ∧ parent ∉ d.names := by
  rw [parent_violation_iff]
  constructor
  · rintro (⟨above, up, unlisted, same⟩ | ⟨_, same⟩)
    · cases same
      exact ⟨rfl, up, unlisted⟩
    · cases same
  · rintro ⟨rfl, up, unlisted⟩
    exact .inl ⟨parent, up, unlisted, rfl⟩

theorem parent_violation_cycle_iff {name other : String} :
    d.parentViolation other = some (.parentCycle name) ↔
      other = name ∧ TransGen (Under d.parentOf?) other other := by
  rw [parent_violation_iff]
  constructor
  · rintro (⟨_, _, _, same⟩ | ⟨circle, same⟩)
    · cases same
    · cases same
      exact ⟨rfl, circle⟩
  · rintro ⟨rfl, circle⟩
    exact .inr ⟨circle, rfl⟩

section Areas
variable {d : Definition} {v : Violation}

theorem area_states (member : v ∈ d.stateViolations) : v.area = .states := by
  unfold stateViolations at member
  split at member
  · rw [List.mem_singleton.mp member]
    rfl
  rcases List.mem_append.mp member with repeats | parents
  · obtain ⟨name, _, rfl⟩ := List.mem_map.mp repeats
    rfl
  · obtain ⟨s, _, reported⟩ := List.mem_filterMap.mp parents
    rcases d.parent_violation_iff.mp reported with ⟨_, _, _, rfl⟩ | ⟨_, rfl⟩
    · rfl
    · rfl

theorem area_initial (member : v ∈ d.initialViolations) : v.area = .initial := by
  unfold initialViolations at member
  split at member
  · rw [List.mem_singleton.mp member]
    rfl
  split at member
  · rw [List.mem_singleton.mp member]
    rfl
  · cases member

theorem area_endpoints {r : Rule} (member : v ∈ d.endpointViolations r) : v.area = .rules := by
  simp only [endpointViolations, List.mem_append, List.mem_ite_nil_left, List.mem_singleton]
    at member
  rcases member with ⟨_, rfl⟩ | ⟨_, rfl⟩
  · rfl
  · rfl

theorem area_intervals {c : Condition} (member : v ∈ intervalViolations c) :
    v.area = .conditions := by
  unfold intervalViolations at member
  split at member
  · rw [List.mem_singleton.mp member]
    rfl
  · obtain ⟨i, _, rfl⟩ := List.mem_map.mp member
    rfl

theorem area_naming {seen : List String} {triggers : List Trigger}
    (member : v ∈ namingViolations seen triggers) : v.area = .triggers := by
  induction triggers generalizing seen with
  | nil => cases member
  | cons t rest ih =>
    simp only [namingViolations, List.mem_append, List.mem_ite_nil_right, List.mem_singleton]
      at member
    rcases member with (⟨_, rfl⟩ | ⟨_, rfl⟩) | later
    · rfl
    · rfl
    · exact ih later

/-- The check of an area reports what is wrong in that area only. -/
theorem area_found {a : Area} (member : v ∈ d.found a) : v.area = a := by
  cases a with
  | states => exact area_states member
  | initial => exact area_initial member
  | rules =>
    obtain ⟨r, _, reported⟩ := List.mem_flatMap.mp member
    exact area_endpoints reported
  | conditions =>
    obtain ⟨c, _, reported⟩ := List.mem_flatMap.mp member
    exact area_intervals reported
  | triggers => exact area_naming member

end Areas

theorem count_violations (v : Violation) : d.violations.count v = (d.found v.area).count v := by
  have elsewhere (a : Area) (other : v.area ≠ a) : (d.found a).count v = 0 :=
    List.count_eq_zero.mpr fun member => other (area_found member)
  have all : d.violations = d.found .states ++ d.found .initial ++ d.found .rules ++
    d.found .conditions ++ d.found .triggers := rfl
  rw [all]
  simp only [List.count_append]
  cases here : v.area <;> simp [elsewhere, here]

/-- Checks that report a problem once wherever it occurs report it as often as it occurs. -/
theorem count_each {α : Type} {v : Violation} {f : α → List Violation} {p : α → Bool}
    (once : ∀ a, (f a).count v = if p a then 1 else 0) (items : List α) :
    (items.flatMap f).count v = items.countP p := by
  induction items with
  | nil => rfl
  | cons a rest ih =>
    rw [List.flatMap_cons, List.count_append, once, ih, List.countP_cons, Nat.add_comm]

theorem count_repeated (name : String) (names : List String) (seen : List String) :
    (repeated seen names).count name =
      if name ∈ seen then names.count name else names.count name - 1 := by
  induction names generalizing seen with
  | nil => simp [repeated]
  | cons first rest ih =>
    rw [repeated]
    by_cases here : first = name
    · subst here
      by_cases known : first ∈ seen
      · simp [known, ih]
      · simp [known, ih]
    · by_cases known : first ∈ seen
      · simp [known, ih, here]
      · simp [known, ih, here, Ne.symm here]

theorem count_when {c : Prop} [Decidable c] (v reported : Violation) :
    (if c then [reported] else []).count v = if c ∧ reported = v then 1 else 0 := by
  by_cases found : c <;> by_cases same : reported = v <;> simp [found, same]

theorem count_reserved (name : String) (triggers : List Trigger) (seen : List String) :
    (namingViolations seen triggers).count (.reservedEventName name) =
      triggers.countP fun t => t.name = name ∧ isReserved name := by
  induction triggers generalizing seen with
  | nil => rfl
  | cons t rest ih =>
    rw [namingViolations, List.count_append, List.count_append, count_when, count_when, ih,
      List.countP_cons, Nat.add_comm]
    by_cases here : t.name = name <;> simp [here]

theorem count_duplicates (name : String) (triggers : List Trigger) (seen : List String) :
    (namingViolations seen triggers).count (.duplicateTrigger name) =
      if name ∈ seen then (triggers.map (·.name)).count name
      else (triggers.map (·.name)).count name - 1 := by
  induction triggers generalizing seen with
  | nil => simp [namingViolations]
  | cons t rest ih =>
    rw [namingViolations, List.count_append, List.count_append, count_when, count_when, ih]
    by_cases here : t.name = name
    · subst here
      by_cases known : t.name ∈ seen <;> simp [known, Nat.add_comm]
    · by_cases known : name ∈ seen <;> simp [known, here, Ne.symm here]

/-- The parent that the last entry of this name has. -/
def lastParent (s : State) : Option String := d.parentOf? s.name

theorem leads_back_iff {s : State} : d.LeadsBack d.lastParent s ↔
    TransGen (Under d.parentOf?) s.name s.name := by
  have same : d.Link d.lastParent = Under d.parentOf? := by
    funext name above
    apply propext
    constructor
    · rintro ⟨t, _, rfl, up⟩
      exact up
    · intro up
      obtain ⟨t, member, rfl⟩ := List.mem_map.mp (d.listed_of_parent up)
      exact ⟨t, member, rfl, up⟩
  rw [LeadsBack, same]
  exact (TransGen.head'_iff (r := Under d.parentOf?) (a := s.name) (c := s.name)).symm

/-- The violations of states: repeated names first, then what is wrong with the parents. -/
theorem count_states {v : Violation} (other : v ≠ .noStates) : d.stateViolations.count v =
    ((repeated [] d.names).map .duplicateState).count v +
      d.states.countP fun s => d.parentViolation s.name == some v := by
  unfold stateViolations
  split
  · next empty =>
    rw [List.isEmpty_iff.mp empty]
    simp [names, repeated, List.isEmpty_iff.mp empty, other.symm]
  · rw [List.count_append, List.count_filterMap]
    rfl

theorem count_duplicate_states (name : String) :
    d.stateViolations.count (.duplicateState name) = d.names.count name - 1 := by
  have upward : d.states.countP (fun s => d.parentViolation s.name == some (.duplicateState name)) =
      0 := by
    refine List.countP_eq_zero.mpr fun s _ reported => ?_
    rcases d.parent_violation_iff.mp (eq_of_beq reported) with ⟨_, _, _, same⟩ | ⟨_, same⟩
    · cases same
    · cases same
  rw [d.count_states (fun same => by cases same), upward, Nat.add_zero,
    List.count_map_of_injective _ _ (fun _ _ same => Violation.duplicateState.inj same),
    count_repeated, if_neg List.not_mem_nil]

/-- A problem with parents is reported for every entry that has it. -/
theorem count_parents {v : Violation} (other : v ≠ .noStates)
    (single : ∀ name, v ≠ .duplicateState name) {p : State → Bool}
    (reported : ∀ s, d.parentViolation s.name = some v ↔ p s = true) :
    d.stateViolations.count v = d.states.countP p := by
  have unrepeated : ((repeated [] d.names).map .duplicateState).count v = 0 := by
    refine List.count_eq_zero.mpr fun member => ?_
    obtain ⟨name, _, same⟩ := List.mem_map.mp member
    exact single name same.symm
  rw [d.count_states other, unrepeated, Nat.zero_add]
  exact List.countP_congr fun s _ => beq_iff_eq.trans (reported s)

theorem count_no_states :
    d.stateViolations.count .noStates = if d.states = [] then 1 else 0 := by
  unfold stateViolations
  by_cases empty : d.states = []
  · simp [empty]
  have listed : d.states.isEmpty = false := by simpa using empty
  rw [if_neg empty, listed, if_neg Bool.false_ne_true]
  refine List.count_eq_zero.mpr fun member => ?_
  rcases List.mem_append.mp member with repeats | parents
  · obtain ⟨name, _, same⟩ := List.mem_map.mp repeats
    cases same
  · obtain ⟨s, _, reported⟩ := List.mem_filterMap.mp parents
    rcases d.parent_violation_iff.mp reported with ⟨_, _, _, same⟩ | ⟨_, same⟩
    · cases same
    · cases same

theorem count_missing_initial :
    d.initialViolations.count .missingInitialState = if d.initial = "" then 1 else 0 := by
  unfold initialViolations
  split
  · rfl
  · split <;> rfl

theorem count_unless {c : Prop} [Decidable c] (v reported : Violation) :
    (if c then [] else [reported]).count v = if ¬c ∧ reported = v then 1 else 0 := by
  by_cases fine : c <;> by_cases same : reported = v <;> simp [fine, same]

theorem count_unknown_initial (name : String) :
    d.initialViolations.count (.unknownInitialState name) =
      if d.initial = name ∧ name ≠ "" ∧ name ∉ d.names then 1 else 0 := by
  have known : (d.state? d.initial).isNone = true ↔ d.initial ∉ d.names := by
    simp [state?, names]
  unfold initialViolations
  by_cases unnamed : d.initial = ""
  · rw [if_pos unnamed, if_neg fun both => both.2.1 (both.1.symm.trans unnamed)]
    rfl
  · by_cases here : d.initial = name
    · subst here
      by_cases listed : d.initial ∈ d.names <;> simp [unnamed, known, listed]
    · by_cases listed : d.initial ∈ d.names <;> simp [unnamed, known, listed, here]

theorem count_source (r : Rule) (source target : String) :
    (d.endpointViolations r).count (.unknownRuleSource source target) =
      if decide (r.source = source ∧ r.target = target ∧ source ∉ d.names) then 1 else 0 := by
  rw [endpointViolations, List.count_append, count_unless, count_unless]
  by_cases leaves : r.source = source <;> by_cases into : r.target = target <;>
    simp [declares_iff, leaves, into]

theorem count_target (r : Rule) (source target : String) :
    (d.endpointViolations r).count (.unknownRuleTarget source target) =
      if decide (r.source = source ∧ r.target = target ∧ target ∉ d.names) then 1 else 0 := by
  rw [endpointViolations, List.count_append, count_unless, count_unless]
  by_cases leaves : r.source = source <;> by_cases into : r.target = target <;>
    simp [declares_iff, leaves, into]

theorem count_empty_ranges (c : Condition) (name : String) :
    (intervalViolations c).count (.emptyRanges name) =
      if decide (c.name = name ∧ c.intervals = []) then 1 else 0 := by
  unfold intervalViolations
  by_cases empty : c.intervals = []
  · by_cases here : c.name = name <;> simp [empty, here]
  · have filled : c.intervals.isEmpty = false := by simpa using empty
    rw [filled, if_neg Bool.false_ne_true, if_neg (by simp [empty])]
    refine List.count_eq_zero.mpr fun member => ?_
    obtain ⟨i, _, same⟩ := List.mem_map.mp member
    cases same

theorem count_improper (c : Condition) (name : String) (min max : Int64) :
    (intervalViolations c).count (.invalidRange name min max) =
      (c.intervals.map fun i => (c.name, i)).countP
        fun r => r = (name, ⟨min, max⟩) ∧ max < min := by
  unfold intervalViolations
  split
  · next empty =>
    rw [List.isEmpty_iff.mp empty]
    rfl
  · rw [List.count_eq_countP, List.countP_map, List.countP_filter, List.countP_map]
    refine List.countP_congr fun i _ => ?_
    obtain ⟨low, high⟩ := i
    suffices same : c.name = name → low = min → high = max → (high < low ↔ max < min) by
      simpa [Interval.isProper, Int64.not_le] using same
    rintro _ rfl rfl
    rfl

theorem count_ranges (name : String) (min max : Int64) :
    d.conditionViolations.count (.invalidRange name min max) =
      d.ranges.countP fun r => r = (name, ⟨min, max⟩) ∧ max < min := by
  unfold conditionViolations ranges
  induction d.conditions with
  | nil => rfl
  | cons c rest ih =>
    rw [List.flatMap_cons, List.flatMap_cons, List.count_append, List.countP_append, ih,
      count_improper]

theorem occurrences_congr {own other : State → Option String}
    (same : ∀ s ∈ d.states, own s = other s) : d.occurrences own = d.occurrences other := by
  have link : d.Link own = d.Link other := by
    funext name above
    apply propext
    constructor
    · rintro ⟨s, member, named, up⟩
      exact ⟨s, member, named, (same s member).symm.trans up⟩
    · rintro ⟨s, member, named, up⟩
      exact ⟨s, member, named, (same s member).trans up⟩
  funext v
  cases v with
  | unknownParent name parent =>
    refine List.countP_congr fun s member => ?_
    rw [same s member]
  | parentCycle name =>
    classical
    refine List.countP_congr fun s member => ?_
    rw [decide_eq_true_iff, decide_eq_true_iff, LeadsBack, LeadsBack, link, same s member]
  | _ => rfl

theorem count_settled (v : Violation) : d.violations.count v = d.occurrences d.lastParent v := by
  rw [count_violations]
  cases v with
  | noStates => exact d.count_no_states
  | duplicateState name => exact d.count_duplicate_states name
  | unknownParent name parent =>
    refine d.count_parents (fun same => by cases same) (fun _ same => by cases same) fun s => ?_
    exact d.parent_violation_unknown_iff.trans decide_eq_true_iff.symm
  | parentCycle name =>
    classical
    refine d.count_parents (fun same => by cases same) (fun _ same => by cases same) fun s => ?_
    rw [decide_eq_true_iff, leads_back_iff]
    exact d.parent_violation_cycle_iff
  | missingInitialState => exact d.count_missing_initial
  | unknownInitialState name => exact d.count_unknown_initial name
  | unknownRuleSource source target => exact count_each (d.count_source · source target) d.rules
  | unknownRuleTarget source target => exact count_each (d.count_target · source target) d.rules
  | emptyRanges name => exact count_each (count_empty_ranges · name) d.conditions
  | invalidRange name min max => exact d.count_ranges name min max
  | reservedEventName name => exact count_reserved name d.triggers []
  | duplicateTrigger name =>
    exact (count_duplicates name d.triggers []).trans (if_neg List.not_mem_nil)

/-- Validation reports every problem exactly as often as it occurs, and nothing else, as long as
entries of one name agree on the parent. Where they do not, the parent of the last entry is taken
for the parent of each of them. -/
theorem problems_reported (d : Definition) :
    (∀ v, d.violations.count v = d.occurrences d.lastParent v) ∧
    ((∀ s ∈ d.states, ∀ t ∈ d.states, s.name = t.name → s.namedParent = t.namedParent) →
      ∀ v, d.violations.count v = d.occurrences State.namedParent v) := by
  constructor
  · exact d.count_settled
  · intro agree v
    rw [← d.occurrences_congr fun s member => parent_of_agreeing agree member]
    exact d.count_settled v

/-- A state that is declared twice, in the same way both times, and that is inside itself; the other
names are not declared. -/
def muddle : Definition where
  states := [{ name := "A", parent := some "A" }, { name := "B", parent := some "Ghost" },
    { name := "A", parent := some "A" }]
  initial := "C"
  rules := [{ source := "A", target := "D", conditions := [.between "x" 5 1] }]
  triggers := [{ name := internalEvent }, { name := internalEvent }]

theorem muddle_reported :
    muddle.occurrences State.namedParent (.parentCycle "A") = 2 ∧
    muddle.occurrences State.namedParent (.unknownParent "B" "Ghost") = 1 ∧
    muddle.occurrences State.namedParent (.duplicateTrigger internalEvent) = 1 := by
  obtain ⟨_, reported⟩ := problems_reported muddle
  have agree := reported (by decide)
  rw [← agree, ← agree, ← agree]
  decide +kernel

/-- The first entry of a name has a parent that is not declared, the second has none. -/
def masked : Definition where
  states := [{ name := "A", parent := some "Ghost" }, { name := "A" }]
  initial := "A"

/-- The unknown parent of an entry is not reported if a later entry of the same name has none. -/
theorem masked_unreported :
    masked.violations = [.duplicateState "A"] ∧
    masked.occurrences State.namedParent (.unknownParent "A" "Ghost") = 1 ∧
    ¬ ∀ v, masked.violations.count v = masked.occurrences State.namedParent v := by
  have reported : masked.violations = [.duplicateState "A"] := by decide +kernel
  have occurs : masked.occurrences State.namedParent (.unknownParent "A" "Ghost") = 1 := by
    decide +kernel
  refine ⟨reported, occurs, fun every => ?_⟩
  have unreported := every (.unknownParent "A" "Ghost")
  rw [reported, occurs] at unreported
  exact absurd unreported (by decide)

end Definition
end Statechart
