import Statechart.Proofs.Derivation
/-!
Edges and reports. An edge of a trigger is raised by the next pass over the triggers, and there is a
pass for every report. Whether a changed value is reported is decided by all conditions on its name,
those of other rules and triggers among them: if conditions accept it and all of them are timed, the
report waits for their timers. All this goes for updates that the worker gets to the end of.
-/

namespace Statechart.Session
variable {σ : Type}

/-- A change of a value is reported exactly unless all conditions that accept it are timed, as long
as the clock has a number for the end of every timer that it asks for. If it is reported, the next
pass over the triggers raises every edge that the new value makes, of any trigger that reads no
value of one before it. If it is not, a timer stands for each of those conditions. -/
theorem edges_reported_unless_withheld {d : Definition} {s : Session σ} (follows : s.Follows d)
    {u : Update} {rest : List Update} (queued : s.engine.values.batch = u :: rest)
    (changes : s.engine.values.value u.name ≠ u.value)
    (near : ¬ d.Overruns u.name u.value u.time) :
    (d.Withholds u.name u.value → s.reported (.work .apply) = none ∧
      ∀ c ∈ d.conditions, c.name = u.name → c.accepts u.value = true →
        (s.act (.work .apply)).engine.values.Awaits u.name u.value u.time c.duration) ∧
    (¬ d.Withholds u.name u.value → ∃ change, s.reported (.work .apply) = some change ∧
      change.name = u.name ∧ change.value = u.value ∧ change.duration = 0 ∧
      (s.act (.work .apply)).engine.changes.items = s.engine.changes.items ++ [change] ∧
      ∀ before t after, d.triggers = before ++ t :: after →
        (∀ k ∈ before, ∀ c ∈ t.conditions, k.name ≠ c.name) →
        ∀ v, (s.act (.work .apply)).engine.Pending t v → ∀ next,
          ((s.act (.work .apply)).engine.derive next).isArmed t = v.met ∧
          ∀ event, Engine.edge? t v = some event →
            event ∈ ((s.act (.work .apply)).engine.derive next).events.items) := by
  obtain ⟨valid, holds, done⟩ := follows.holds
  obtain ⟨reports, handler, applied⟩ := act_apply queued
  have sound : ({ s.engine.values with batch := rest } : Holding).overruns u = false :=
    Bool.eq_false_iff.mpr fun far => near ((holds.overruns_iff u).mp far).2
  -- Whether the change is told at once is for the gate of the applied update to say.
  have gate := Holding.report_apply (h := { s.engine.values with batch := rest }) changes sound
  have timed := holds.all_timed_iff u.name u.value
  have plan := (plan_act s (.work .apply) done).1
  constructor
  · intro withheld
    rcases gate with ⟨_, silent⟩ | ⟨reported, _⟩
    · constructor
      · exact reports.trans silent
      · intro c declared named accepted
        have registered := (holds.registered u.name c).mpr ⟨declared, named⟩
        rw [applied, silent]
        exact Holding.apply_awaits (h := { s.engine.values with batch := rest }) changes sound
          registered accepted
          (withheld.2 c declared named accepted)
    · exact absurd (timed.mpr withheld) reported
  · intro free
    rcases gate with ⟨closed, _⟩ | ⟨_, told⟩
    · exact absurd (timed.mp closed) free
    · have triggers : (s.act (.work .apply)).engine.triggers = d.triggers :=
        (congrArg Plan.triggers plan).trans holds.triggers
      refine ⟨_, reports.trans told, rfl, rfl, rfl, ?_, ?_⟩
      · rw [applied, told]
        rfl
      · intro before t after order apart v pending next
        exact Engine.derive_pending _ (triggers ▸ valid.distinct) (triggers.trans order) next apart
          pending

/-- Hot while the value is low. The rule of `sauna` waits for a high value to stand, which withholds
the report of one. -/
def hot : Trigger := { name := "hot", conditions := [.between "x" 1 10] }

/-- The value has been high for a tenth of a second. -/
def stuffy : Condition := (Condition.between "x" 20 30).sustained 100000

def sauna : Definition where
  states := [{ name := "A" }]
  initial := "A"
  rules := [{
    source := "A"
    target := "A"
    events := ["vent"]
    conditions := [stuffy] }]
  triggers := [hot]

/-- The value was low, the trigger is armed, and a high value waits to be applied. -/
def heated : Session Unit :=
  ((fresh "sauna" ()).act (.init sauna)).perform [.start, .assign "x" 5, .work .take, .work .apply,
    .work .derive, .assign "x" 25, .work .take]

/-- A trigger that reads the value of the one before it. -/
def warm : Trigger := { name := "warm", conditions := [.between "x" 1 10] }

def dawning : Trigger :=
  { name := "dawning", conditions := [.between "x" 1 10, .equals "warm" 0] }

def morning : Definition where
  states := [{ name := "A" }]
  initial := "A"
  triggers := [warm, dawning]

def dawn : Session Unit :=
  ((fresh "morning" ()).act (.init morning)).perform [.start, .assign "x" 5, .work .take]

theorem heated_follows : heated.Follows sauna :=
  ⟨fresh "sauna" (), _, ⟨_, _, [], rfl⟩, rfl, by decide +kernel, rfl⟩

theorem dawn_follows : dawn.Follows morning :=
  ⟨fresh "morning" (), _, ⟨_, _, [], rfl⟩, rfl, by decide +kernel, rfl⟩

/-- The first value is withheld and awaited, the second reported and its edge raised. -/
theorem edges_heated_and_dawn :
    heated.reported (.work .apply) = none ∧
    (heated.act (.work .apply)).engine.values.Awaits "x" 25 0 100000 ∧
    ∃ change, dawn.reported (.work .apply) = some change ∧
      { name := "warm", conditions := [⟨"x", 5, 0⟩] } ∈
        ((dawn.act (.work .apply)).engine.derive change).events.items := by
  have closed : sauna.Withholds "x" 25 := by
    constructor
    · exact ⟨stuffy, by decide +kernel, rfl, by decide⟩
    · decide +kernel
  have opened : ¬ morning.Withholds "x" 5 := by
    intro closed
    have timed := closed.2 (.between "x" 1 10) (by decide) rfl (by decide)
    cases timed
  have high : heated.engine.values.batch = [⟨"x", 25, 0⟩] := by decide +kernel
  have low : dawn.engine.values.batch = [⟨"x", 5, 0⟩] := by decide +kernel
  have near : ¬ sauna.Overruns "x" 25 0 := by
    decide +kernel
  have near' : ¬ morning.Overruns "x" 5 0 := by
    decide +kernel
  obtain ⟨waits, _⟩ := edges_reported_unless_withheld heated_follows high (by decide +kernel) near
  obtain ⟨_, tells⟩ := edges_reported_unless_withheld dawn_follows low (by decide +kernel) near'
  obtain ⟨silent, awaited⟩ := waits closed
  obtain ⟨change, told, _, _, _, _, raises⟩ := tells opened
  have pending : (dawn.act (.work .apply)).engine.Pending warm
      { met := true, matched := [⟨"x", 5, 0⟩] } := ⟨by decide +kernel, by decide +kernel⟩
  have first : ∀ k ∈ ([] : List Trigger), ∀ c ∈ warm.conditions, k.name ≠ c.name := by
    intro k member
    cases member
  obtain ⟨_, raised⟩ := raises [] warm [dawning] rfl first _ pending change
  exact ⟨silent, awaited stuffy (by decide +kernel) rfl (by decide), change, told, raised _ rfl⟩

/-- Not every edge is raised. The report of a changed value is withheld while the conditions of an
armed trigger do not hold; and a reported one raises no edge of a trigger that a trigger before it
turns off. -/
theorem edges_lost :
    (heated.Follows sauna ∧ heated.machine.stage = .running ∧
      heated.engine.values.batch = [⟨"x", 25, 0⟩] ∧ heated.engine.values.value "x" = 5 ∧
      (heated.act (.work .apply)).engine.Pending hot .unmet ∧
      (heated.act (.work .apply)).engine.values.value "hot" = 1 ∧
      heated.reported (.work .apply) = none) ∧
    (dawn.Follows morning ∧ dawn.machine.stage = .running ∧
      dawn.engine.values.batch = [⟨"x", 5, 0⟩] ∧ dawn.engine.values.value "x" = 0 ∧
      (dawn.act (.work .apply)).engine.Pending dawning
        { met := true, matched := [⟨"x", 5, 0⟩, ⟨"warm", 0, 0⟩] } ∧
      ((dawn.act (.work .apply)).act (.work .derive)).engine.events.items.map (·.name) =
        ["warm", internalEvent]) := by
  refine ⟨⟨heated_follows, ?_⟩, dawn_follows, ?_⟩
  · refine ⟨by decide +kernel, by decide +kernel, by decide +kernel, ⟨by decide +kernel, ?_⟩, ?_⟩
    · decide +kernel
    · exact ⟨by decide +kernel, by decide +kernel⟩
  · refine ⟨by decide +kernel, by decide +kernel, by decide +kernel, ⟨by decide +kernel, ?_⟩, ?_⟩
    · decide +kernel
    · decide +kernel

end Statechart.Session
