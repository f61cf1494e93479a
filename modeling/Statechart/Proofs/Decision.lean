import Statechart.Check
/-!
The meaning of a check. The first condition of a list that is decisive makes the outcome alone: one
whose name has no value, one that is unmet under `and`, one that is met under `or`. Without such a
condition every one is met under `and`, and none under `or`. So as long as every name has a value
the order of the conditions makes no difference to whether they are met.
-/

namespace Statechart

namespace Signal

/-- The value lies in one of the intervals, and has stood for as long as the condition asks. -/
structure Meets (s : Signal) (c : Condition) (now : Nat) : Prop where
  inside : ∃ i ∈ c.intervals, i.min ≤ s.value ∧ s.value ≤ i.max
  stood : c.duration ≤ now - s.changed

theorem satisfies_iff (s : Signal) (c : Condition) (now : Nat) :
    s.satisfies c now = true ↔ s.Meets c now := by
  simp only [satisfies, Bool.and_eq_true, decide_eq_true_eq, Condition.accepts, List.any_eq_true,
    Interval.holds_iff]
  exact ⟨fun met => ⟨met.1, met.2⟩, fun met => ⟨met.inside, met.stood⟩⟩

instance (s : Signal) (c : Condition) (now : Nat) : Decidable (s.Meets c now) :=
  decidable_of_iff _ (s.satisfies_iff c now)

end Signal

namespace Condition

section Decision
variable (signal? : String → Option Signal) (now : Nat) (k : Connective)

/-- The condition makes the outcome, whatever stands behind it in the list. -/
def decides (c : Condition) : Bool :=
  match signal? c.name, k with
  | none, _ => true
  | some s, .and => !decide (s.Meets c now)
  | some s, .or => decide (s.Meets c now)

/-- What there is to be seen of a condition: the value of its name, and how long that has stood. -/
def shown? (c : Condition) : Option Reading :=
  (signal? c.name).map fun s => { name := c.name, value := s.value, elapsed := now - s.changed }

/-- The outcome that a decisive condition makes. -/
def ruling (c : Condition) : Except Error Verdict :=
  match shown? signal? now c, k with
  | none, _ => .error (.unknownCondition c.name)
  | some _, .and => .ok { met := false, matched := [] }
  | some seen, .or => .ok { met := true, matched := [seen] }

/-- The outcome for a list in which no condition is decisive. -/
def unopposed (cs : List Condition) : Except Error Verdict :=
  if k = .and ∨ cs = [] then .ok { met := true, matched := cs.filterMap (shown? signal? now) }
  else .ok { met := false, matched := [] }

/-- The outcome of a check, as its first decisive condition has it. -/
def decision (cs : List Condition) : Except Error Verdict :=
  match cs.find? (decides signal? now k) with
  | some c => ruling signal? now k c
  | none => unopposed signal? now k cs

end Decision

variable {signal? : String → Option Signal} {now : Nat} {k : Connective}

/-- Under `and` the conditions before a decisive one were met and have been noted. -/
theorem check_from_and (cs : List Condition) (matched : List Reading) :
    checkFrom signal? now .and matched cs =
      match cs.find? (decides signal? now .and) with
      | some c => ruling signal? now .and c
      | none => .ok { met := true, matched := matched ++ cs.filterMap (shown? signal? now) } := by
  induction cs generalizing matched with
  | nil => simp [checkFrom]
  | cons c rest ih =>
    cases here : signal? c.name with
    | none => simp [checkFrom, here, decides, ruling, shown?]
    | some s =>
      by_cases met : s.Meets c now
      · have satisfied := (s.satisfies_iff c now).mpr met
        simp [checkFrom, here, decides, satisfied, met, ih, shown?, reading, Signal.heldFor]
      · have unsatisfied := mt (s.satisfies_iff c now).mp met
        simp [checkFrom, here, decides, unsatisfied, met, ruling, shown?, Verdict.unmet]

/-- Under `or` the conditions before a decisive one were unmet, so nothing has been noted. -/
theorem check_from_or (cs : List Condition) :
    checkFrom signal? now .or [] cs =
      match cs.find? (decides signal? now .or) with
      | some c => ruling signal? now .or c
      | none => .ok { met := false, matched := [] } := by
  induction cs with
  | nil => rfl
  | cons c rest ih =>
    cases here : signal? c.name with
    | none => simp [checkFrom, here, decides, ruling, shown?]
    | some s =>
      by_cases met : s.Meets c now
      · have satisfied := (s.satisfies_iff c now).mpr met
        simp [checkFrom, here, decides, satisfied, met, ruling, shown?, reading, Signal.heldFor]
      · have unsatisfied := mt (s.satisfies_iff c now).mp met
        simp [checkFrom, here, decides, unsatisfied, met, ih]

theorem check_decision (cs : List Condition) :
    check signal? now k cs = decision signal? now k cs := by
  cases cs with
  | nil => simp [check, decision, unopposed]
  | cons c rest =>
    rw [check, decision]
    · cases k with
      | and => rw [check_from_and]; simp [unopposed]
      | or => rw [check_from_or]; simp [unopposed]
    · intro empty
      cases empty

/-- A condition that is not decisive has been seen. -/
theorem shown_of_undecided {c : Condition} (passed : decides signal? now k c = false) :
    ∃ seen : Reading, shown? signal? now c = some seen ∧ seen.name = c.name := by
  cases here : signal? c.name with
  | none => simp [decides, here] at passed
  | some s => exact ⟨_, by rw [shown?, here, Option.map_some], rfl⟩

theorem names_of_undecided {cs : List Condition}
    (passed : ∀ c ∈ cs, decides signal? now k c = false) :
    (cs.filterMap (shown? signal? now)).map (·.name) = cs.map (·.name) := by
  induction cs with
  | nil => rfl
  | cons c rest ih =>
    obtain ⟨seen, here, same⟩ := shown_of_undecided (passed c (List.mem_cons_self ..))
    rw [List.filterMap_cons_some here, List.map_cons, List.map_cons, same,
      ih fun later member => passed later (List.mem_cons_of_mem _ member)]

/-- What a decision is, case by case. -/
theorem decision_cases {cs : List Condition} {v : Verdict}
    (decided : decision signal? now k cs = .ok v) :
    v = { met := false, matched := [] } ∨
    (v.met = true ∧ k = .or ∧ v.matched.length = 1 ∧ cs ≠ []) ∨
    (v.met = true ∧ (k = .and ∨ cs = []) ∧ v.matched.map (·.name) = cs.map (·.name)) := by
  unfold decision at decided
  split at decided
  · next c first =>
    have listed := List.mem_of_find?_eq_some first
    unfold ruling at decided
    split at decided
    · cases decided
    · cases decided
      exact .inl rfl
    · cases decided
      exact .inr (.inl ⟨rfl, rfl, rfl, List.ne_nil_of_mem listed⟩)
  · next nothing =>
    have passed : ∀ c ∈ cs, decides signal? now k c = false := by
      simpa using List.find?_eq_none.mp nothing
    unfold unopposed at decided
    split at decided
    · next all =>
      cases decided
      exact .inr (.inr ⟨rfl, all, names_of_undecided passed⟩)
    · cases decided
      exact .inl rfl

/-- The name of the condition has a value that meets it. -/
def IsMet (signal? : String → Option Signal) (now : Nat) (c : Condition) : Prop :=
  ∃ s, signal? c.name = some s ∧ s.Meets c now

theorem decides_known (now : Nat) (k : Connective) {c : Condition}
    (known : signal? c.name ≠ none) :
    decides signal? now k c = true ↔ match k with
      | .and => ¬ IsMet signal? now c
      | .or => IsMet signal? now c := by
  obtain ⟨s, here⟩ := Option.ne_none_iff_exists'.mp known
  cases k <;> simp [decides, IsMet, here]

/-- A decisive condition whose name has a value is met under `or` and unmet under `and`. -/
theorem ruling_known (now : Nat) (k : Connective) {c : Condition}
    (known : signal? c.name ≠ none) :
    ∃ v, ruling signal? now k c = .ok v ∧ (v.met = true ↔ k = .or) := by
  obtain ⟨s, here⟩ := Option.ne_none_iff_exists'.mp known
  cases k <;> simp [ruling, shown?, here]

/-- Where every name has a value the check comes out, and whether it is met is a matter of which
conditions there are. -/
theorem check_known (now : Nat) (k : Connective) {cs : List Condition}
    (known : ∀ c ∈ cs, signal? c.name ≠ none) :
    ∃ v, check signal? now k cs = .ok v ∧ (v.met = true ↔ match k with
      | .and => ∀ c ∈ cs, IsMet signal? now c
      | .or => cs = [] ∨ ∃ c ∈ cs, IsMet signal? now c) := by
  rw [check_decision, decision]
  cases first : cs.find? (decides signal? now k) with
  | none =>
    have passed : ∀ c ∈ cs, ¬ decides signal? now k c = true := List.find?_eq_none.mp first
    cases k with
    | and =>
      refine ⟨_, if_pos (.inl rfl), iff_of_true rfl fun c member => ?_⟩
      exact Classical.not_not.mp
        (mt (decides_known now .and (known c member)).mpr (passed c member))
    | or =>
      have unmet (c : Condition) (member : c ∈ cs) : ¬ IsMet signal? now c :=
        mt (decides_known now .or (known c member)).mpr (passed c member)
      by_cases empty : cs = []
      · exact ⟨_, if_pos (.inr empty), iff_of_true rfl (.inl empty)⟩
      · refine ⟨_, if_neg (by simp [empty]), iff_of_false Bool.false_ne_true ?_⟩
        rintro (nothing | ⟨c, member, met⟩)
        · exact empty nothing
        · exact unmet c member met
  | some c =>
    -- One decisive condition settles the check either way, whatever comes behind it.
    have member := List.mem_of_find?_eq_some first
    have decisive := (decides_known now k (known c member)).mp (List.find?_some first)
    obtain ⟨v, ruled, met⟩ := ruling_known now k (known c member)
    refine ⟨v, ruled, met.trans ?_⟩
    cases k with
    | and => exact iff_of_false (by decide) fun all => decisive (all c member)
    | or => exact iff_of_true rfl (.inr ⟨c, member, decisive⟩)

/-- A check comes out as its first decisive condition has it. So when it is met under `and` it has
seen every condition, in order. As long as every name has a value the order of the conditions makes
no difference to whether they are met, and something was seen exactly if they are met and there are
any. -/
theorem check_made_by_first_decisive (signal? : String → Option Signal) (now : Nat) (k : Connective)
    (cs : List Condition) :
    check signal? now k cs = decision signal? now k cs ∧
    (∀ v, check signal? now k cs = .ok v → v.met = true → k = .and →
      v.matched.map (·.name) = cs.map (·.name)) ∧
    ((∀ c ∈ cs, signal? c.name ≠ none) →
      (∀ cs', cs.Perm cs' → ∃ v v', check signal? now k cs = .ok v ∧
        check signal? now k cs' = .ok v' ∧ v.met = v'.met) ∧
      ∀ v, check signal? now k cs = .ok v → (v.matched ≠ [] ↔ v.met = true ∧ cs ≠ [])) := by
  refine ⟨check_decision cs, ?_, fun known => ⟨?_, ?_⟩⟩
  · intro v done met both
    rw [check_decision] at done
    rcases decision_cases done with rfl | ⟨_, either, _⟩ | ⟨_, _, names⟩
    · cases met
    · cases both.symm.trans either
    · exact names
  · intro cs' permuted
    have known' : ∀ c ∈ cs', signal? c.name ≠ none :=
      fun c member => known c (permuted.mem_iff.mpr member)
    obtain ⟨v, done, met⟩ := check_known now k known
    obtain ⟨v', done', met'⟩ := check_known now k known'
    refine ⟨v, v', done, done', Bool.eq_iff_iff.mpr (met.trans (Iff.trans ?_ met'.symm))⟩
    have empty : cs = [] ↔ cs' = [] := by
      rw [← List.length_eq_zero_iff, permuted.length_eq, List.length_eq_zero_iff]
    cases k <;> simp [permuted.mem_iff, empty]
  · intro v done
    rw [check_decision] at done
    rcases decision_cases done with rfl | ⟨met, _, one, present⟩ | ⟨met, _, names⟩
    · simp
    · exact iff_of_true (List.ne_nil_of_length_pos (by omega)) ⟨met, present⟩
    · have lengths := congrArg List.length names
      simp only [List.length_map] at lengths
      simp only [met, true_and, ne_eq, ← List.length_eq_zero_iff, lengths]

/-- A boiler that has stood at sixty degrees for a while, and a pump that was just switched on. -/
def boiler : String → Option Signal
  | "heat" => some { value := 60, updated := 70, changed := 40 }
  | "pump" => some { value := 1, updated := 90, changed := 90 }
  | _ => none

def warm : Condition := ((between "heat" 0 10).orBetween 50 70).sustained 50

def pumping : Condition := equals "pump" 1

/-- All is met in either order, and a condition that stands twice in the list is seen twice. -/
theorem boiler_decided :
    (∀ c ∈ [warm, pumping, warm], boiler c.name ≠ none) ∧
    check boiler 100 .and [warm, pumping, warm] =
      .ok { met := true, matched := [⟨"heat", 60, 60⟩, ⟨"pump", 1, 10⟩, ⟨"heat", 60, 60⟩] } ∧
    (∃ v v', check boiler 100 .and [warm, pumping, warm] = .ok v ∧
      check boiler 100 .and [pumping, warm, warm] = .ok v' ∧ v.met = v'.met) ∧
    ["heat", "pump", "heat"] = [warm, pumping, warm].map (·.name) := by
  obtain ⟨_, names, orders⟩ :=
    check_made_by_first_decisive boiler 100 .and [warm, pumping, warm]
  have known : ∀ c ∈ [warm, pumping, warm], boiler c.name ≠ none := by decide
  have done : check boiler 100 .and [warm, pumping, warm] =
      .ok { met := true, matched := [⟨"heat", 60, 60⟩, ⟨"pump", 1, 10⟩, ⟨"heat", 60, 60⟩] } := by
    rfl
  exact ⟨known, done, (orders known).1 _ (List.Perm.swap ..), names _ done rfl rfl⟩

/-- An unknown name matters only if nothing before it is decisive. -/
example : check boiler 100 .or [pumping, equals "valve" 0] =
      .ok { met := true, matched := [⟨"pump", 1, 10⟩] } ∧
    check boiler 100 .or [equals "valve" 0, pumping] = .error (.unknownCondition "valve") := by
  exact ⟨rfl, rfl⟩

end Condition
end Statechart
