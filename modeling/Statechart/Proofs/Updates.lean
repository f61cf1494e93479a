import Statechart.Proofs.Setup
/-!
Applying an update. The value is written; if that changes it, a timer is set for every duration
that a registered condition accepting it asks for. The write is reported unless all conditions that
accept a changed value are timed. A timer whose end the clock has no number for is fatal to the
worker: it comes neither to the timers behind that one nor to the report.
-/

namespace Statechart

/-- A change to this value is not reported at once: conditions accept it, and all these are timed.
-/
def Definition.Withholds (d : Definition) (name : String) (value : Int64) : Prop :=
  (∃ c ∈ d.conditions, c.name = name ∧ c.accepts value = true) ∧
    ∀ c ∈ d.conditions, c.name = name → c.accepts value = true → c.isTimed = true

/-- A condition that accepts this value asks for a timer that the clock cannot count to. -/
def Definition.Overruns (d : Definition) (name : String) (value : Int64) (time : Nat) : Prop :=
  ∃ c ∈ d.conditions, c.name = name ∧ c.accepts value = true ∧ c.isTimed = true ∧
    Clock.horizon ≤ time + c.duration

instance (d : Definition) (name : String) (value : Int64) (time : Nat) :
    Decidable (d.Overruns name value time) :=
  inferInstanceAs (Decidable (∃ c ∈ d.conditions, c.name = name ∧ c.accepts value = true ∧
    c.isTimed = true ∧ Clock.horizon ≤ time + c.duration))

/-- A timer is set that will confirm this value once it has stood for a duration. -/
def Holding.Awaits (h : Holding) (name : String) (value : Int64) (time duration : Nat) : Prop :=
  ∃ s, h.signal? name = some s ∧ s.value = value ∧ s.changed = time ∧
    ∃ e ∈ h.timers.entries, e.time = time + duration ∧
      e.item = ⟨name, value, duration, s.generation⟩

namespace Agenda
variable {α : Type}

theorem mem_schedule (a : Agenda α) (time : Nat) (item : α) (e : Due α) :
    e ∈ (a.schedule time item).entries ↔ e = ⟨time, a.issued, item⟩ ∨ e ∈ a.entries :=
  (perm_insert _ _).mem_iff.trans List.mem_cons

end Agenda

namespace Holding

/-- All timers are set exactly if the clock has a number for the end of each. -/
theorem set_timers_all (item : Nat → HoldTimer) (time : Nat) (spans : List Nat)
    (a : Agenda HoldTimer) :
    (setTimers item time spans a).1 = !spans.any fun d => Clock.horizon ≤ time + d := by
  induction spans generalizing a with
  | nil => rfl
  | cons d rest ih =>
    unfold setTimers Clock.after?
    by_cases near : time + d < Clock.horizon
    · simp [near, ih]
    · simp [near, Nat.le_of_not_lt near]

/-- Setting timers drops none that are there. If all are set there is one for each length of time.
-/
theorem mem_set_timers (item : Nat → HoldTimer) (time : Nat) (spans : List Nat)
    (a : Agenda HoldTimer) :
    (∀ e ∈ a.entries, e ∈ (setTimers item time spans a).2.entries) ∧
    ((setTimers item time spans a).1 = true → ∀ span ∈ spans,
      ∃ e ∈ (setTimers item time spans a).2.entries,
        e.time = time + span ∧ e.item = item span) := by
  induction spans generalizing a with
  | nil => exact ⟨fun e member => member, fun _ span member => by cases member⟩
  | cons d rest ih =>
    unfold setTimers
    cases told : Clock.after? time d with
    | none => exact ⟨fun e member => member, fun set => by cases set⟩
    | some due =>
      cases Clock.after_eq told
      obtain ⟨kept, added⟩ := ih (a.schedule (time + d) (item d))
      constructor
      · intro e member
        exact kept e ((Agenda.mem_schedule a _ _ e).mpr (.inr member))
      · intro set span member
        rcases List.mem_cons.mp member with rfl | later
        · exact ⟨_, kept _ ((Agenda.mem_schedule a _ _ _).mpr (.inl rfl)), rfl, rfl⟩
        · exact added set span later

/-- The worker breaks down as it applies this value. -/
def overruns (h : Holding) (u : Update) : Bool :=
  (h.waits u).any fun d => Clock.horizon ≤ u.time + d

/-- The timers after a value was applied. -/
def timersFor (h : Holding) (u : Update) : Agenda HoldTimer :=
  (setTimers (⟨u.name, u.value, ·,
    (((h.signal? u.name).getD (.create 0 u.time)).write u.value u.time).generation⟩)
    u.time (h.waits u) h.timers).2

theorem apply_frame (h : Holding) (u : Update) : (h.apply u).1 = { h with
    signals := (h.apply u).1.signals
    timers := h.timersFor u
    batch := (h.apply u).1.batch
    broken := (h.apply u).1.broken } := by
  simp only [apply, timersFor]
  split <;> rfl

theorem timers_apply (h : Holding) (u : Update) : (h.apply u).1.timers = h.timersFor u := by
  rw [h.apply_frame u]

theorem apply_overrun {h : Holding} {u : Update} (far : h.overruns u = true) :
    h.apply u = ({ h with
      signals := (h.apply u).1.signals
      timers := h.timersFor u
      batch := []
      broken := true }, none) := by
  rw [overruns] at far
  simp [apply, set_timers_all, far, timersFor]

theorem apply_sound {h : Holding} {u : Update} (near : h.overruns u = false) :
    h.apply u = ({ h with signals := (h.apply u).1.signals, timers := h.timersFor u },
      (h.apply u).2) := by
  rw [overruns] at near
  simp [apply, set_timers_all, near, timersFor]

theorem signal_apply (h : Holding) (u : Update) (name : String) :
    (h.apply u).1.signal? name = if name = u.name then
      some (((h.signal? u.name).getD (.create 0 u.time)).write u.value u.time)
    else h.signal? name := by
  rw [signal?, signals_apply]
  exact Table.find_put _ _ _ _

/-- Whether a write changes a value that is there is seen from the value. -/
theorem differs_iff (h : Holding) (u : Update) :
    ((h.signal? u.name).getD (.create 0 u.time)).differs u.value = true ↔
      h.value u.name ≠ u.value := by
  unfold value
  cases h.signal? u.name <;> simp [Signal.differs, Signal.create]

theorem value_of_signal {h : Holding} {name : String} {s : Signal}
    (here : h.signal? name = some s) : h.value name = s.value := by
  simp [value, here]

def written (h : Holding) (u : Update) : Change where
  name := u.name
  value := u.value
  accepted := (h.registeredFor u.name).any (·.accepts u.value)

/-- Some conditions accept a value, and all that do are timed. -/
def AllTimed (conditions : List Condition) (value : Int64) : Prop :=
  (∃ c ∈ conditions, c.accepts value = true) ∧
    ∀ c ∈ conditions, c.accepts value = true → c.isTimed = true

theorem gate_iff (conditions : List Condition) (value : Int64) :
    ((durations (conditions.filter (·.accepts value))).isEmpty ||
      (conditions.filter (·.accepts value)).any (!·.isTimed)) = true ↔
      ¬ AllTimed conditions value := by
  constructor
  · rintro opened ⟨⟨c, registered, accepted⟩, timed⟩
    rcases Bool.or_eq_true_iff.mp opened with unawaited | now
    · have listed : c ∈ conditions.filter (·.accepts value) :=
        List.mem_filter.mpr ⟨registered, accepted⟩
      have waits := (mem_durations _ _).mpr ⟨c, listed, timed c registered accepted, rfl⟩
      rw [List.isEmpty_iff.mp unawaited] at waits
      cases waits
    · obtain ⟨k, listed, untimed⟩ := List.any_eq_true.mp now
      obtain ⟨registered, accepted⟩ := List.mem_filter.mp listed
      rw [timed k registered accepted] at untimed
      cases untimed
  · -- Behind a closed gate some duration is waited for, and nothing is accepted without one.
    intro free
    by_contra closed
    obtain ⟨awaited, later⟩ := not_or.mp (mt Bool.or_eq_true_iff.mpr closed)
    apply free
    constructor
    · obtain ⟨span, waits⟩ := List.exists_mem_of_ne_nil _ (mt List.isEmpty_iff.mpr awaited)
      obtain ⟨c, listed, _⟩ := (mem_durations _ _).mp waits
      exact ⟨c, List.mem_filter.mp listed⟩
    · intro c registered accepted
      by_contra untimed
      refine later (List.any_eq_true.mpr ⟨c, List.mem_filter.mpr ⟨registered, accepted⟩, ?_⟩)
      simpa using untimed

theorem accepted_eq (h : Holding) (u : Update) :
    (!((h.registeredFor u.name).filter (·.accepts u.value)).isEmpty) =
      (h.registeredFor u.name).any (·.accepts u.value) := by
  rw [Bool.eq_iff_iff]
  simp

theorem waits_changed {h : Holding} {u : Update} (changes : h.value u.name ≠ u.value) :
    h.waits u = durations ((h.registeredFor u.name).filter (·.accepts u.value)) := by
  simp only [waits, (h.differs_iff u).mpr changes, if_true]

theorem waits_same {h : Holding} {u : Update} (same : h.value u.name = u.value) :
    h.waits u = [] := by
  have unchanged : ((h.signal? u.name).getD (.create 0 u.time)).differs u.value = false :=
    Bool.eq_false_iff.mpr fun differs => (h.differs_iff u).mp differs same
  simp only [waits, unchanged, Bool.false_eq_true, if_false]

/-- The worker breaks down over a changed value that a timed condition accepts, if the clock has no
number for the end of the condition's duration. -/
theorem overruns_iff (h : Holding) (u : Update) : h.overruns u = true ↔
    h.value u.name ≠ u.value ∧ ∃ c ∈ h.registeredFor u.name, c.accepts u.value = true ∧
      c.isTimed = true ∧ Clock.horizon ≤ u.time + c.duration := by
  by_cases same : h.value u.name = u.value
  · simp [overruns, waits_same same, same]
  · rw [overruns, waits_changed same, List.any_eq_true]
    constructor
    · rintro ⟨span, waits, far⟩
      obtain ⟨c, listed, timed, rfl⟩ := (mem_durations _ _).mp waits
      obtain ⟨registered, accepted⟩ := List.mem_filter.mp listed
      exact ⟨same, c, registered, accepted, timed, of_decide_eq_true far⟩
    · rintro ⟨_, c, registered, accepted, timed, far⟩
      refine ⟨c.duration, (mem_durations _ _).mpr ?_, decide_eq_true far⟩
      exact ⟨c, List.mem_filter.mpr ⟨registered, accepted⟩, timed, rfl⟩

/-- A changed value is reported at once unless all conditions that accept it are timed. -/
theorem report_apply {h : Holding} {u : Update} (changes : h.value u.name ≠ u.value)
    (near : h.overruns u = false) :
    (AllTimed (h.registeredFor u.name) u.value ∧ (h.apply u).2 = none) ∨
    (¬ AllTimed (h.registeredFor u.name) u.value ∧ (h.apply u).2 = some (h.written u)) := by
  rw [overruns, waits_changed changes] at near
  simp only [apply, set_timers_all, waits_changed changes, near, Bool.not_false, if_true,
    accepted_eq]
  split
  · next opened => exact .inr ⟨(gate_iff _ _).mp opened, rfl⟩
  · next closed => exact .inl ⟨not_not.mp (mt (gate_iff _ _).mpr closed), rfl⟩

theorem apply_redundant (h : Holding) (u : Update) (same : h.value u.name = u.value) :
    (h.apply u).2 = some (h.written u) ∧ (h.apply u).1.timers = h.timers := by
  simp [apply, waits_same same, setTimers, ← accepted_eq, written]

/-- A changed value has a timer set for every timed condition that accepts it. -/
theorem apply_awaits {h : Holding} {u : Update} (changes : h.value u.name ≠ u.value)
    (near : h.overruns u = false) {c : Condition} (registered : c ∈ h.registeredFor u.name)
    (accepted : c.accepts u.value = true)
    (timed : c.isTimed = true) : (h.apply u).1.Awaits u.name u.value u.time c.duration := by
  have differs := (h.differs_iff u).mpr changes
  have waits : c.duration ∈ h.waits u := by
    rw [waits_changed changes]
    exact (mem_durations _ _).mpr ⟨c, List.mem_filter.mpr ⟨registered, accepted⟩, timed, rfl⟩
  refine ⟨_, (h.signal_apply u u.name).trans (if_pos rfl), Signal.value_write _ _ _, ?_, ?_⟩
  · rw [Signal.changed_write, if_pos differs]
  · rw [apply_sound near]
    refine (mem_set_timers _ u.time (h.waits u) h.timers).2 ?_ _ waits
    rw [set_timers_all]
    exact Bool.not_eq_true' _ ▸ near

end Holding

theorem Plan.Of.all_timed_iff {σ : Type} {d : Definition} {e : Engine σ} (holds : e.plan.Of d)
    (name : String) (value : Int64) :
    Holding.AllTimed (e.values.registeredFor name) value ↔ d.Withholds name value := by
  have listed (c : Condition) := holds.registered name c
  constructor
  · rintro ⟨⟨c, registered, accepted⟩, timed⟩
    obtain ⟨declared, named⟩ := (listed c).mp registered
    constructor
    · exact ⟨c, declared, named, accepted⟩
    · intro k member here
      exact timed k ((listed k).mpr ⟨member, here⟩)
  · rintro ⟨⟨c, declared, named, accepted⟩, timed⟩
    constructor
    · exact ⟨c, (listed c).mpr ⟨declared, named⟩, accepted⟩
    · intro k registered
      obtain ⟨member, here⟩ := (listed k).mp registered
      exact timed k member here

theorem Plan.Of.overruns_iff {σ : Type} {d : Definition} {e : Engine σ} (holds : e.plan.Of d)
    (u : Update) : e.values.overruns u = true ↔
      e.values.value u.name ≠ u.value ∧ d.Overruns u.name u.value u.time := by
  rw [e.values.overruns_iff]
  refine and_congr_right fun _ => ?_
  constructor
  · rintro ⟨c, registered, accepted⟩
    obtain ⟨declared, named⟩ := (holds.registered u.name c).mp registered
    exact ⟨c, declared, named, accepted⟩
  · rintro ⟨c, declared, named, accepted⟩
    exact ⟨c, (holds.registered u.name c).mpr ⟨declared, named⟩, accepted⟩

namespace Session
variable {σ : Type}

theorem values_adopt (s : Session σ) (r : Run σ) : (s.adopt r).engine.values = r.engine.values :=
  view_adopt Engine.values (fun _ _ => rfl) s r

theorem clock_adopt (s : Session σ) (r : Run σ) : (s.adopt r).engine.clock = r.engine.clock :=
  view_adopt Engine.clock (fun _ _ => rfl) s r

theorem values_report (e : Engine σ) (change : Option Change) :
    (e.report change).values = e.values := by
  cases change <;> rfl

theorem clock_report (e : Engine σ) (change : Option Change) :
    (e.report change).clock = e.clock := by
  cases change <;> rfl

theorem act_apply {s : Session σ} {u : Update} {rest : List Update}
    (queued : s.engine.values.batch = u :: rest) :
    s.reported (.work .apply) = ({ s.engine.values with batch := rest }.apply u).2 ∧
    ∃ handler, (s.act (.work .apply)).engine =
      { { s.engine with values := ({ s.engine.values with batch := rest }.apply u).1 }.report
        ({ s.engine.values with batch := rest }.apply u).2 with handler } := by
  constructor
  · simp only [reported, queued]
  · simp only [act, Run.work?, run, queued]
    exact engine_adopt s _

end Session
end Statechart
