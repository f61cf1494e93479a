import Statechart.Proofs.Derivation
/-!
Values that stand. An update that changes a value sets a timer for it, which is due when the value
has stood for the duration asked for. As long as the value stays the timer stays, whatever else
happens, until it is handled; and handling it confirms the value. A write of the value that is there
already sets no timer.
-/

namespace Statechart

namespace Holding
variable {h h' : Holding} {name : String} {v : Int64} {time duration : Nat}

theorem Awaits.congr (awaits : h.Awaits name v time duration) (signals : h'.signals = h.signals)
    (entries : h'.timers.entries = h.timers.entries) : h'.Awaits name v time duration := by
  unfold Awaits signal? at awaits ⊢
  rwa [signals, entries]

theorem entries_apply (h : Holding) (u : Update) (e : Due HoldTimer)
    (member : e ∈ h.timers.entries) : e ∈ (h.apply u).1.timers.entries := by
  rw [timers_apply]
  exact (mem_set_timers _ u.time (h.waits u) h.timers).1 e member

/-- An update that leaves the value in place leaves the timer in place. -/
theorem Awaits.apply (awaits : h.Awaits name v time duration) (u : Update)
    (stays : (h.apply u).1.value name = v) : (h.apply u).1.Awaits name v time duration := by
  obtain ⟨s, here, value, changed, e, member, due, item⟩ := awaits
  have kept := entries_apply h u e member
  by_cases same : name = u.name
  · -- The value stays, so it is written again: its age and its generation stay too.
    subst same
    rw [value_apply] at stays
    have redundant : s.differs u.value = false := by simp [Signal.differs, value, stays]
    have signal := h.signal_apply u u.name
    rw [if_pos rfl, here, Option.getD_some] at signal
    refine ⟨_, signal, ?_, ?_, e, kept, due, ?_⟩
    · rw [Signal.value_write, stays]
    · rw [Signal.changed_write, redundant, changed]
      rfl
    · rw [item, Signal.generation_write, redundant]
      rfl
  · have signal := h.signal_apply u name
    rw [if_neg same] at signal
    exact ⟨s, signal.trans here, value, changed, e, kept, due, item⟩

theorem Awaits.fire (awaits : h.Awaits name v time duration) (t : HoldTimer) (now : Nat) :
    (h.fire t now).1.Awaits name v time duration := by
  obtain ⟨s, here, value, changed, pending⟩ := awaits
  rcases h.fire_cases t now with same | ⟨k, found, _, same⟩
  · rw [same]
    exact ⟨s, here, value, changed, pending⟩
  rw [same]
  by_cases own : name = t.name
  · subst own
    rw [here] at found
    cases found
    exact ⟨s.confirm, by simp [signal?, Table.find_put], value, changed, pending⟩
  · refine ⟨s, ?_, value, changed, pending⟩
    simpa [signal?, Table.find_put, own] using here

theorem fire_own {s : Signal} {now : Nat} (here : h.signal? name = some s) (value : s.value = v)
    (changed : s.changed = time) (due : time + duration ≤ now) :
    h.fire ⟨name, v, duration, s.generation⟩ now =
      ({ h with signals := h.signals.put name s.confirm },
        some { name, value := v, duration, accepted := true }) := by
  have stood : duration ≤ s.heldFor now := by
    rw [Signal.heldFor, changed]
    omega
  have confirmed : confirms s ⟨name, v, duration, s.generation⟩ now = true := by
    simp [confirms, value, stood]
  simp only [fire, here, confirmed, if_true]

end Holding

namespace Session
variable {σ : Type}

theorem finds_iff (s : Session σ) (c : Condition) {k : Signal}
    (here : s.engine.values.signal? c.name = some k) :
    s.Finds c ↔ c.accepts k.value = true ∧ c.duration ≤ k.heldFor s.engine.clock := by
  have satisfied : k.satisfies c s.engine.clock = true ↔
      c.accepts k.value = true ∧ c.duration ≤ k.heldFor s.engine.clock := by
    simp [Signal.satisfies]
  rw [← satisfied]
  unfold Finds Holding.check Condition.check
  simp only [Condition.checkFrom, here]
  cases k.satisfies c s.engine.clock <;> simp [Verdict.unmet]

section Waiting
variable {name : String} {v : Int64} {time duration : Nat}

/-- The engine has handled the timer, and the value stands. -/
def Confirmed (s : Session σ) (name : String) (v : Int64) (time duration : Nat) : Prop :=
  time + duration ≤ s.engine.clock ∧
    ∃ k, s.engine.values.signal? name = some k ∧ k.value = v ∧ k.changed = time

/-- Handling a timer leaves the timer in place, unless it is that timer. -/
theorem awaits_fire {s : Session σ} {timer : HoldTimer} {timers : Agenda HoldTimer}
    (released : s.engine.values.timers.release? s.engine.clock = some (timer, timers))
    (awaits : s.engine.values.Awaits name v time duration) :
    ({ s.engine.values with timers }.fire timer s.engine.clock).1.Awaits name v time duration ∨
      time + duration ≤ s.engine.clock ∧
      ∃ k, s.engine.values.signal? name = some k ∧ k.value = v ∧ k.changed = time ∧
        { s.engine.values with timers }.fire timer s.engine.clock =
          ({ s.engine.values with timers, signals := s.engine.values.signals.put name k.confirm },
            some { name, value := v, duration, accepted := true }) := by
  obtain ⟨first, entries, item, reached, _⟩ := Agenda.release_cases released
  obtain ⟨k, here, value, changed, e, member, due, own⟩ := awaits
  rw [entries] at member
  -- The released timer is the first of all; this one is it or stands behind it.
  rcases List.mem_cons.mp member with rfl | later
  · right
    rw [due] at reached
    rw [own] at item
    subst item
    exact ⟨reached, k, here, value, changed, Holding.fire_own here value changed reached⟩
  · left
    exact Holding.Awaits.fire (h := { s.engine.values with timers })
      ⟨k, here, value, changed, e, later, due, own⟩ timer s.engine.clock

/-- Whatever a worker does while the value stays: the timer stays too, or it has been handled and
the value confirmed. -/
theorem awaits_work {s : Session σ} {r : Run σ} {w : Work} (worked : Worked s.run w r)
    (unique : (s.engine.triggers.map (·.name)).Nodup)
    (awaits : s.engine.values.Awaits name v time duration)
    (stays : r.engine.values.value name = v) :
    r.engine.values.Awaits name v time duration ∨
      (s.adopt r).Confirmed name v time duration ∧
        s.reported (.work w) = some { name, value := v, duration, accepted := true } := by
  have quiet := worked.memory
  have remembered {e : Engine σ} (same : e.memory = s.engine.memory) :
      e.values.Awaits name v time duration :=
    awaits.congr (congrArg Prod.fst same) (congrArg Prod.snd same)
  cases worked with
  | @derive change changes popped =>
    left
    obtain ⟨k, here, value, changed, pending⟩ := awaits
    have timers : (Engine.derive { s.engine with changes } change).values.timers =
        s.engine.values.timers :=
      Engine.derive_frame (·.values.timers) (fun _ _ => rfl) (fun _ _ _ => rfl) _ change
    -- A pass writes a value only to turn it over, and this one has stayed.
    rcases Engine.signal_derive { s.engine with changes } unique change name with kept | turned
    · exact ⟨k, kept.trans here, value, changed, timers ▸ pending⟩
    · exact absurd (stays.trans (value ▸ (Holding.value_of_signal here).symm)) turned
  | @apply u batch taken =>
    left
    simp only [Run.withEngine, values_report] at stays ⊢
    exact Holding.Awaits.apply (h := { s.engine.values with batch }) (awaits.congr rfl rfl) u stays
  | take => exact .inl (remembered (quiet (by decide)))
  | fire released =>
    rcases awaits_fire released awaits with still | ⟨reached, k, here, value, changed, fired⟩
    · left
      rw [Run.withEngine, values_report]
      exact still
    · right
      refine ⟨⟨?_, k.confirm, ?_, value, changed⟩, ?_⟩
      · rw [clock_adopt, Run.withEngine, clock_report]
        exact reached
      · rw [values_adopt, Run.withEngine, values_report]
        simp only [run, fired, Holding.signal?, Table.find_put, if_true]
      · simp only [reported]
        rw [show s.engine.values.timers.release? s.engine.clock = _ from released]
        simp only [fired]
  | wake woken | wakeOverrun woken => exact .inl (remembered (quiet (by decide)))
  | process _ popped => exact .inl (remembered (quiet (by decide)))
  | carry here => exact .inl (remembered (quiet (by simp)))
  | leave => exact .inl (remembered (quiet (by decide)))

theorem awaits_act {d : Definition} {s : Session σ} (follows : s.Follows d) (a : Action σ)
    (awaits : s.engine.values.Awaits name v time duration)
    (stays : (s.act a).engine.values.value name = v) :
    (s.act a).engine.values.Awaits name v time duration ∨
      (s.act a).Confirmed name v time duration ∧
        s.reported a = some { name, value := v, duration, accepted := true } := by
  obtain ⟨valid, holds, done⟩ := follows.holds
  rcases still_memory.act_cases s a done with ⟨w, r, rfl, worked, same⟩ | ⟨same, _, _⟩
  · have unique : (s.engine.triggers.map (·.name)).Nodup :=
      (congrArg (·.map (·.name)) holds.triggers) ▸ valid.distinct
    rw [same, values_adopt] at stays ⊢
    exact awaits_work worked unique awaits stays
  · exact .inl (awaits.congr (congrArg Prod.fst same) (congrArg Prod.snd same))

/-- In the course of a run throughout which the value stays the timer is handled, or it stays. -/
theorem awaits_perform {d : Definition} (more : List (Action σ)) :
    ∀ s : Session σ, s.Follows d → s.engine.values.Awaits name v time duration →
      (∀ first, first <+: more → (s.perform first).engine.values.value name = v) →
      (s.perform more).engine.values.Awaits name v time duration ∨
        ∃ report ∈ s.reports more,
          report.1 = { name, value := v, duration, accepted := true } ∧
            report.2.Confirmed name v time duration := by
  induction more with
  | nil => exact fun s _ awaits _ => .inl awaits
  | cons a rest ih =>
    intro s follows awaits stays
    have next : (s.act a).engine.values.value name = v :=
      stays [a] (List.cons_prefix_cons.mpr ⟨rfl, List.nil_prefix⟩)
    rcases awaits_act follows a awaits next with still | ⟨confirmed, told⟩
    · have later (first : List (Action σ)) (part : first <+: rest) :
          ((s.act a).perform first).engine.values.value name = v :=
        stays (a :: first) (List.cons_prefix_cons.mpr ⟨rfl, part⟩)
      rcases ih (s.act a) (follows.act a) still later with kept | ⟨report, listed, found⟩
      · exact .inl kept
      · exact .inr ⟨report, List.mem_append_right _ listed, found⟩
    · refine .inr ⟨(_, s.act a), List.mem_append_left _ ?_, rfl, confirmed⟩
      rw [told]
      exact List.mem_singleton_self _

end Waiting

/-- Once an update has changed a value that a timed condition accepts, and set all the timers that
it asks for, and the value has stayed for the duration and until no due timer is left, a report has
been made at a moment when the condition is met, however often the value was written again
meanwhile. A write of the value that is there already sets no timer: it is reported at once, and the
condition is met then if the value has stood for the duration. -/
theorem sustained_value_confirmed {d : Definition} {s : Session σ} (follows : s.Follows d)
    {u : Update} {rest : List Update} (queued : s.engine.values.batch = u :: rest)
    {c : Condition} (declared : c ∈ d.conditions) (named : c.name = u.name)
    (timed : c.isTimed = true) (accepted : c.accepts u.value = true) :
    (s.engine.values.value u.name ≠ u.value → ¬ d.Overruns u.name u.value u.time →
      ∀ more : List (Action σ),
      (∀ first, first <+: more →
        ((s.act (.work .apply)).perform first).engine.values.value u.name = u.value) →
      u.time + c.duration ≤ ((s.act (.work .apply)).perform more).engine.clock →
      (∀ e ∈ ((s.act (.work .apply)).perform more).engine.values.timers.entries,
        ((s.act (.work .apply)).perform more).engine.clock < e.time) →
      ∃ report ∈ (s.act (.work .apply)).reports more, report.1.name = c.name ∧
        report.1.value = u.value ∧ report.1.duration = c.duration ∧
        u.time + c.duration ≤ report.2.engine.clock ∧ report.2.Finds c) ∧
    (s.engine.values.value u.name = u.value →
      (s.act (.work .apply)).engine.values.timers = s.engine.values.timers ∧
      ∃ change k, s.reported (.work .apply) = some change ∧ change.name = c.name ∧
        change.value = u.value ∧ s.engine.values.signal? c.name = some k ∧
        ((s.act (.work .apply)).Finds c ↔ c.duration ≤ k.heldFor s.engine.clock)) := by
  obtain ⟨_, holds, _⟩ := follows.holds
  obtain ⟨reports, handler, applied⟩ := act_apply queued
  constructor
  · intro changes near more stays held processed
    have sound : ({ s.engine.values with batch := rest } : Holding).overruns u = false :=
      Bool.eq_false_iff.mpr fun far => near ((holds.overruns_iff u).mp far).2
    have awaits : (s.act (.work .apply)).engine.values.Awaits u.name u.value u.time c.duration := by
      rw [applied, values_report]
      refine Holding.apply_awaits (h := { s.engine.values with batch := rest }) changes sound ?_
        accepted timed
      exact (holds.registered u.name c).mpr ⟨declared, named⟩
    rcases awaits_perform more _ (follows.act _) awaits stays with
      still | ⟨report, listed, told, found⟩
    · -- The timer would be due, but no due timer is left.
      obtain ⟨_, _, _, _, e, member, due, _⟩ := still
      have waits := processed e member
      omega
    · obtain ⟨reached, k, here, value, changed⟩ := found
      rw [← named] at here
      refine ⟨report, listed, ?_, ?_, ?_, reached, (finds_iff _ c here).mpr ⟨value ▸ accepted, ?_⟩⟩
      · rw [told, named]
      · rw [told]
      · rw [told]
      · rw [Signal.heldFor, changed]
        omega
  · -- A redundant write: the signal keeps the time of its last change.
    intro same
    obtain ⟨k, here⟩ := Option.isSome_iff_exists.mp (follows.known c declared)
    have redundant := Holding.apply_redundant { s.engine.values with batch := rest } u same
    have value : k.value = u.value := by
      rw [← same, ← named]
      exact (Holding.value_of_signal here).symm
    have after : (s.act (.work .apply)).engine.values.signal? c.name =
        some (k.write u.value u.time) := by
      rw [applied, values_report, Holding.signal_apply, if_pos named, ← named]
      exact congrArg (fun old : Option Signal => some ((old.getD _).write u.value u.time)) here
    refine ⟨?_, _, k, reports.trans redundant.1, named.symm, rfl, here, ?_⟩
    · rw [applied, values_report]
      exact redundant.2
    · have clock : (s.act (.work .apply)).engine.clock = s.engine.clock := by
        rw [applied, clock_report]
      have unchanged : k.differs u.value = false := by simp [Signal.differs, value]
      have held : (k.write u.value u.time).heldFor s.engine.clock = k.heldFor s.engine.clock := by
        rw [Signal.heldFor, Signal.changed_write, unchanged]
        rfl
      rw [finds_iff _ c after, clock, held, Signal.value_write]
      exact and_iff_right accepted

/-- The value has been low for a tenth of a second. -/
def settled : Condition := (Condition.between "x" 0 10).sustained 100000

def kettle : Definition where
  states := [{ name := "A" }]
  initial := "A"
  rules := [.whenCondition "A" "A" settled]

def simmering : Session Unit :=
  ((fresh "kettle" ()).act (.init kettle)).perform [.start, .assign "x" 5, .work .take]

/-- The low value that is there from the beginning waits to be applied. -/
def resting : Session Unit :=
  ((fresh "kettle" ()).act (.init kettle)).perform [.start, .assign "x" 0, .work .take]

theorem simmering_follows : simmering.Follows kettle :=
  ⟨fresh "kettle" (), _, ⟨_, _, [], rfl⟩, rfl, by decide +kernel, rfl⟩

theorem resting_follows : resting.Follows kettle :=
  ⟨fresh "kettle" (), _, ⟨_, _, [], rfl⟩, rfl, by decide +kernel, rfl⟩

theorem sustained_simmering_and_resting :
    (∃ report ∈ (simmering.act (.work .apply)).reports [.pass 100000, .work .fire],
      report.1.name = "x" ∧ report.1.value = 5 ∧ report.1.duration = 100000 ∧
        100000 ≤ report.2.engine.clock ∧ report.2.Finds settled) ∧
    (resting.act (.work .apply)).engine.values.timers = resting.engine.values.timers ∧
    ¬ (resting.act (.work .apply)).Finds settled := by
  have declared : settled ∈ kettle.conditions := by decide +kernel
  have new : simmering.engine.values.batch = [⟨"x", 5, 0⟩] := by decide +kernel
  have old : resting.engine.values.batch = [⟨"x", 0, 0⟩] := by decide +kernel
  obtain ⟨confirms, _⟩ := sustained_value_confirmed simmering_follows new declared rfl (by decide)
    (by decide)
  obtain ⟨_, ignores⟩ := sustained_value_confirmed resting_follows old declared rfl (by decide)
    (by decide)
  obtain ⟨timers, _, k, _, _, _, here, found⟩ := ignores (by decide +kernel)
  refine ⟨?_, timers, fun met => ?_⟩
  · refine confirms (by decide +kernel) (by decide +kernel) [.pass 100000, .work .fire] ?_
      (by decide +kernel)
      (by decide +kernel)
    intro first part
    rcases List.prefix_cons_iff.mp part with rfl | ⟨_, rfl, passed⟩
    · decide +kernel
    rcases List.prefix_cons_iff.mp passed with rfl | ⟨_, rfl, fired⟩
    · decide +kernel
    · rw [List.prefix_nil.mp fired]
      decide +kernel
  · have created : resting.engine.values.signal? settled.name = some (.create 0 0) := by
      decide +kernel
    rw [here] at created
    cases created
    exact absurd (found.mp met) (by decide +kernel)

/-- Not every value that stands is confirmed. The value that is there from the beginning is written
again, reported before it has stood long enough, and no timer is set. And a value that has stood
long enough is taken back just before its timer is handled. -/
theorem sustained_unconfirmed :
    (settled ∈ kettle.conditions ∧ settled.isTimed = true ∧ settled.accepts 0 = true ∧
      settled.accepts 5 = true ∧ settled.accepts 20 = false) ∧
    (resting.Follows kettle ∧ resting.machine.stage = .running ∧
      resting.engine.values.batch = [⟨"x", 0, 0⟩] ∧ resting.engine.values.value "x" = 0 ∧
      (resting.reports [.work .apply, .pass 300000]).map (·.1) =
        [{ name := "x", value := 0, accepted := true }] ∧
      (resting.act (.work .apply)).engine.values.check [settled] .and 0 = .ok .unmet ∧
      (resting.perform [.work .apply, .pass 300000]).engine.clock = 300000 ∧
      (resting.perform [.work .apply, .pass 300000]).engine.values.value "x" = 0 ∧
      (resting.perform [.work .apply, .pass 300000]).engine.values.timers.entries = []) ∧
    (simmering.Follows kettle ∧ simmering.machine.stage = .running ∧
      simmering.engine.values.batch = [⟨"x", 5, 0⟩] ∧ simmering.engine.values.value "x" = 0 ∧
      (simmering.perform [.work .apply, .pass 100000]).engine.values.value "x" = 5 ∧
      (simmering.perform [.work .apply, .pass 100000]).engine.clock = 100000 ∧
      (simmering.reports [.work .apply, .pass 100000, .assign "x" 20, .work .take, .work .apply,
        .work .fire]).map (·.1) = [{ name := "x", value := 20, accepted := false }] ∧
      (simmering.perform [.work .apply, .pass 100000, .assign "x" 20, .work .take, .work .apply,
        .work .fire]).engine.values.timers.entries = []) := by
  refine ⟨by decide +kernel, ⟨resting_follows, ?_⟩, simmering_follows, ?_⟩
  · decide +kernel
  · decide +kernel

end Session
end Statechart
