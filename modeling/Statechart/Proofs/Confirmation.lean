import Statechart.Proofs.Course
import Statechart.Proofs.Sustained
/-!
Confirmations. A timer carries the generation of the value that it was set for, and the generation
rises with every change. So a timer whose generation is still the live one was set for the value as
it is and when it changed last; handled when it is due, it confirms the value exactly if there was
no change since. There is at most one pending timer for a name, a generation and a duration, and
none is set for a generation that is past; so no change is confirmed twice.
-/

namespace Statechart

/-- All that can happen to a signal in one go. -/
inductive Signal.Step (s : Signal) : Signal → Prop
  | keep : Step s s
  | confirm : Step s s.confirm
  | write (value : Int64) (time : Nat) : Step s (s.write value time)

/-- The signal stands as it was, or its value is another one, of a later generation. -/
theorem Signal.Step.stands_or_turns {s s' : Signal} (step : s.Step s') :
    (s'.generation = s.generation ∧ s'.value = s.value ∧ s'.changed = s.changed) ∨
      (s.generation < s'.generation ∧ s'.value ≠ s.value) := by
  cases step with
  | keep => exact .inl ⟨rfl, rfl, rfl⟩
  | confirm => exact .inl ⟨rfl, rfl, rfl⟩
  | write value time =>
    rw [Signal.generation_write, Signal.changed_write, Signal.value_write]
    by_cases same : s.value = value
    · simp [Signal.differs, same]
    · right
      simp [Signal.differs, same, Ne.symm same]

theorem Signal.Step.generation_le {s s' : Signal} (step : s.Step s') :
    s.generation ≤ s'.generation := by
  rcases step.stands_or_turns with ⟨same, _⟩ | ⟨later, _⟩
  · exact Nat.le_of_eq same.symm
  · exact Nat.le_of_lt later

/-- Every signal of the one table is in the other, at most one step further. -/
def Stepped (signals signals' : Table String Signal) : Prop :=
  ∀ name s, signals.find? name = some s → ∃ s', signals'.find? name = some s' ∧ s.Step s'

theorem stepped_refl (signals : Table String Signal) : Stepped signals signals :=
  fun _ s here => ⟨s, here, .keep⟩

theorem Stepped.to {signals signals' same : Table String Signal}
    (stepped : Stepped signals signals') (eq : same = signals') : Stepped signals same :=
  eq ▸ stepped

theorem stepped_put {signals : Table String Signal} {key : String} {next : Signal}
    (step : ∀ s, signals.find? key = some s → s.Step next) :
    Stepped signals (signals.put key next) := by
  intro name s here
  rw [Table.find_put]
  by_cases same : name = key
  · subst same
    exact ⟨next, if_pos rfl, step s here⟩
  · exact ⟨s, (if_neg same).trans here, .keep⟩

theorem stepped_ensured (signals : Table String Signal) (key : String) (now : Nat) :
    Stepped signals (Holding.ensured signals key now) := by
  unfold Holding.ensured
  split
  · exact stepped_refl signals
  · next unknown =>
    refine stepped_put fun s here => absurd ?_ unknown
    rw [Table.contains, here]
    rfl

namespace Holding

theorem stepped_store (h : Holding) (key : String) (value : Int64) (now : Nat) :
    Stepped h.signals (h.store key value now).signals := by
  refine stepped_put fun s here => ?_
  rw [signal?, here]
  exact .write value now

theorem stepped_apply (h : Holding) (u : Update) : Stepped h.signals (h.apply u).1.signals := by
  rw [signals_apply]
  refine stepped_put fun s here => ?_
  rw [signal?, here]
  exact .write u.value u.time

/-- What a timer confirms is the live value that it was set for, and that has stood. -/
theorem fire_confirms {h : Holding} {t : HoldTimer} {now : Nat} {c : Change}
    (made : (h.fire t now).2 = some c) :
    c = { name := t.name, value := t.value, duration := t.duration, accepted := true } ∧
    ∃ s, h.signal? t.name = some s ∧ s.generation = t.generation ∧ s.value = t.value ∧
      t.duration ≤ s.heldFor now := by
  rcases h.fire_cases t now with same | ⟨s, here, met, same⟩
  · rw [same] at made
    cases made
  · rw [same] at made
    exact ⟨(Option.some.inj made).symm, s, here, (confirms_iff s t now).mp met⟩

theorem stepped_fire (h : Holding) (timer : HoldTimer) (now : Nat) :
    Stepped h.signals (h.fire timer now).1.signals := by
  rcases h.fire_cases timer now with same | ⟨s, here, _, same⟩
  · rw [same]
    exact stepped_refl _
  · rw [same]
    refine stepped_put fun k found => ?_
    rw [signal?, found] at here
    cases here
    exact .confirm

end Holding

namespace Engine
variable {σ : Type}

theorem Checked.signal {e e' : Engine σ} {t : Trigger} {outcome : Except Error Verdict}
    {raised : List Event} (checked : Checked e t outcome raised e') :
    e'.values.signals = e.values.signals ∨
      ∃ v, e'.values.signals = (e.values.store t.name v e.clock).signals := by
  cases checked with
  | failed => exact .inl rfl
  | rise => exact .inr ⟨1, rfl⟩
  | again => exact .inl rfl
  | silent => exact .inl rfl
  | fall => exact .inr ⟨0, rfl⟩
  | lapse => exact .inr ⟨0, rfl⟩
  | idle => exact .inl rfl

theorem stepped_check (e : Engine σ) (t : Trigger) :
    Stepped e.values.signals (e.checkTrigger t).values.signals := by
  rcases (e.checked t).signal with same | ⟨v, stored⟩
  · rw [same]
    exact stepped_refl _
  · rw [stored]
    exact e.values.stepped_store t.name v e.clock

/-- Each trigger writes its own value only, so a pass takes a signal at most one step further. -/
theorem stepped_derive (e : Engine σ) (unique : (e.triggers.map (·.name)).Nodup)
    (change : Change) : Stepped e.values.signals (e.derive change).values.signals := by
  intro name s here
  by_cases listed : ∃ t ∈ e.triggers, t.name = name
  · obtain ⟨t, member, rfl⟩ := listed
    obtain ⟨before, after, order⟩ := List.append_of_mem member
    obtain ⟨own, done⟩ := own_turn e unique order change
    obtain ⟨s', found, step⟩ := stepped_check (before.foldl checkTrigger e) t t.name s
      (own.trans here)
    exact ⟨s', done.trans found, step⟩
  · refine ⟨s, ?_, .keep⟩
    exact (signal_pass e.triggers e fun t member same => listed ⟨t, member, same⟩).trans here

end Engine

/-- What tells a timer from the others. -/
def HoldTimer.key (t : HoldTimer) : String × Nat × Nat := (t.name, t.generation, t.duration)

/-- The pending timers go with the live values: none is ahead of its name, one that is not behind
was set for the value as it is, and no two are alike. -/
structure Sound (signals : Table String Signal) (pending : List (Due HoldTimer)) : Prop where
  timed : ∀ e ∈ pending, ∃ s, signals.find? e.item.name = some s ∧
    e.item.generation ≤ s.generation ∧ (e.item.generation = s.generation →
      e.item.value = s.value ∧ e.time = s.changed + e.item.duration)
  apart : (pending.map (·.item.key)).Nodup

theorem Sound.steps {signals signals' : Table String Signal}
    {pending pending' : List (Due HoldTimer)} (sound : Sound signals pending)
    (stepped : Stepped signals signals') (fewer : pending'.Sublist pending) :
    Sound signals' pending' := by
  constructor
  · intro e member
    obtain ⟨s, here, behind, live⟩ := sound.timed e (fewer.subset member)
    obtain ⟨s', there, step⟩ := stepped e.item.name s here
    refine ⟨s', there, Nat.le_trans behind step.generation_le, fun same => ?_⟩
    rcases step.stands_or_turns with ⟨generation, value, changed⟩ | ⟨later, _⟩
    · rw [value, changed]
      exact live (same.trans generation)
    · -- A changed value leaves all timers behind.
      omega
  · exact sound.apart.sublist (fewer.map _)

namespace Holding

theorem nodup_durations (accepting : List Condition) : (durations accepting).Nodup := by
  have gathered (l seen : List Nat) (unique : seen.Nodup) :
      (l.foldl (fun seen d => if d ∈ seen then seen else seen ++ [d]) seen).Nodup := by
    induction l generalizing seen with
    | nil => exact unique
    | cons first rest ih =>
      rw [List.foldl_cons]
      split
      · exact ih seen unique
      · next new =>
        refine ih _ (List.nodup_append.mpr ⟨unique, by simp, ?_⟩)
        rintro d known _ last rfl
        exact new (List.mem_singleton.mp last ▸ known)
  exact gathered _ [] List.nodup_nil

theorem nodup_waits (h : Holding) (u : Update) : (h.waits u).Nodup := by
  simp only [waits]
  split
  · exact nodup_durations _
  · exact List.nodup_nil

section Timers
variable (item : Nat → HoldTimer) (time : Nat) (spans : List Nat) (a : Agenda HoldTimer)

theorem mem_set_timers_cases {e : Due HoldTimer}
    (member : e ∈ (setTimers item time spans a).2.entries) :
    e ∈ a.entries ∨ ∃ span ∈ spans, e.time = time + span ∧ e.item = item span := by
  induction spans generalizing a with
  | nil => exact .inl member
  | cons span rest ih =>
    unfold setTimers at member
    cases told : Clock.after? time span with
    | none =>
      rw [told] at member
      exact .inl member
    | some due =>
      cases Clock.after_eq told
      rw [told] at member
      rcases ih _ member with old | ⟨other, listed, set⟩
      · rcases (Agenda.mem_schedule a _ _ e).mp old with rfl | older
        · exact .inr ⟨span, List.mem_cons_self .., rfl, rfl⟩
        · exact .inl older
      · exact .inr ⟨other, List.mem_cons_of_mem span listed, set⟩

/-- The timers that are set are those for the first of the spans. -/
theorem perm_set_timers : ∃ set, set <+: spans ∧
    ((setTimers item time spans a).2.entries.map (·.item)).Perm
      (set.map item ++ a.entries.map (·.item)) := by
  induction spans generalizing a with
  | nil => exact ⟨[], List.prefix_rfl, .refl _⟩
  | cons span rest ih =>
    unfold setTimers
    cases told : Clock.after? time span with
    | none => exact ⟨[], List.nil_prefix, .refl _⟩
    | some due =>
      obtain ⟨set, part, perm⟩ := ih (a.schedule due (item span))
      have one : ((a.schedule due (item span)).entries.map (·.item)).Perm
          (item span :: a.entries.map (·.item)) := (Agenda.perm_insert _ _).map (·.item)
      exact ⟨span :: set, List.cons_prefix_cons.mpr ⟨rfl, part⟩,
        perm.trans ((one.append_left _).trans List.perm_middle)⟩

end Timers

/-- The timers that applying an update sets are of the generation that lives then. -/
theorem perm_timers (h : Holding) (u : Update) {s : Signal}
    (there : (h.apply u).1.signal? u.name = some s) : ∃ set, set <+: h.waits u ∧
      ((h.apply u).1.timers.entries.map (·.item)).Perm
        (set.map (HoldTimer.mk u.name u.value · s.generation) ++
          h.timers.entries.map (·.item)) := by
  rw [signal_apply, if_pos rfl] at there
  cases there
  rw [timers_apply]
  exact perm_set_timers _ _ _ _

theorem waits_turn (h : Holding) (u : Update) {d : Nat} (waited : d ∈ h.waits u) {s : Signal}
    (there : (h.apply u).1.signal? u.name = some s) : s.value = u.value ∧ s.changed = u.time ∧
      ∀ k, h.signal? u.name = some k → k.generation < s.generation := by
  rw [signal_apply, if_pos rfl] at there
  cases there
  have differs : ((h.signal? u.name).getD (.create 0 u.time)).differs u.value = true := by
    simp only [waits] at waited
    split at waited
    · assumption
    · cases waited
  refine ⟨Signal.value_write _ _ _, ?_, ?_⟩
  · rw [Signal.changed_write, if_pos differs]
  · intro k here
    rw [here, Option.getD_some] at differs ⊢
    rw [Signal.generation_write, if_pos differs]
    exact Nat.lt_succ_self _

/-- A timer is set for the value and the generation that live once the update has been applied. -/
theorem apply_sets (h : Holding) (u : Update) {e : Due HoldTimer}
    (set : e ∈ (h.apply u).1.timers.entries) (new : e ∉ h.timers.entries) :
    ∃ s, (h.apply u).1.signal? e.item.name = some s ∧ e.item.generation = s.generation ∧
      e.item.value = s.value ∧ e.time = s.changed + e.item.duration ∧
      ∀ k, h.signal? e.item.name = some k → k.generation < s.generation := by
  have there := (h.signal_apply u u.name).trans (if_pos rfl)
  rw [timers_apply] at set
  rcases mem_set_timers_cases _ _ _ _ set with old | ⟨d, waited, time, item⟩
  · exact absurd old new
  obtain ⟨value, changed, turned⟩ := h.waits_turn u waited there
  rw [item]
  exact ⟨_, there, rfl, value.symm, by rw [time, changed], turned⟩

end Holding

theorem Sound.apply {h : Holding} (sound : Sound h.signals h.timers.entries) (u : Update) :
    Sound (h.apply u).1.signals (h.apply u).1.timers.entries := by
  have old := sound.steps (h.stepped_apply u) (List.Sublist.refl _)
  constructor
  · intro e member
    by_cases known : e ∈ h.timers.entries
    · exact old.timed e known
    · obtain ⟨s, there, generation, value, time, _⟩ := h.apply_sets u member known
      exact ⟨s, there, Nat.le_of_eq generation, fun _ => ⟨value, time⟩⟩
  · have there := (h.signal_apply u u.name).trans (if_pos rfl)
    generalize ((h.signal? u.name).getD _).write _ _ = s at there
    obtain ⟨set, part, perm⟩ := h.perm_timers u there
    have keys := perm.map HoldTimer.key
    rw [List.map_map, List.map_append, List.map_map, List.map_map] at keys
    refine keys.nodup_iff.mpr (List.nodup_append.mpr ⟨?_, sound.apart, ?_⟩)
    · refine List.Nodup.map ?_ ((h.nodup_waits u).sublist part.sublist)
      intro d d' same
      exact congrArg (·.2.2) same
    · -- The new timers are of a generation that no timer set before can have.
      intro key new key' pending same
      obtain ⟨d, waited, rfl⟩ := List.mem_map.mp new
      obtain ⟨e, member, rfl⟩ := List.mem_map.mp pending
      obtain ⟨k, here, behind, _⟩ := sound.timed e member
      have named : u.name = e.item.name := congrArg (·.1) same
      have alike : s.generation = e.item.generation := congrArg (·.2.1) same
      have later := (h.waits_turn u (part.subset waited) there).2.2 k (named ▸ here)
      omega

namespace Run
variable {σ : Type} {r r' : Run σ} {a : Turn σ}

theorem Turned.stepped (turned : Turned r a r') (unique : (r.engine.triggers.map (·.name)).Nodup) :
    Stepped r.engine.values.signals r'.engine.values.signals := by
  cases turned with
  | still _ _ _ same _ => exact (stepped_refl _).to (congrArg Prod.fst same)
  | @passed _ _ e change _ _ _ memory triggers _ after =>
    rw [after]
    have stepped := Engine.stepped_derive e (triggers ▸ unique) change
    rwa [show e.values.signals = r.engine.values.signals from congrArg Prod.fst memory] at stepped
  | applied _ same _ => exact (Holding.stepped_apply _ _).to (congrArg Prod.fst same)
  | @fired _ timer timers _ same _ =>
    have stepped := Holding.stepped_fire { r.engine.values with timers } timer r.engine.clock
    exact stepped.to (congrArg Prod.fst same)
  | stored same _ => exact (Holding.stepped_store _ _ _ _).to (congrArg Prod.fst same)
  | ensured same _ => exact (stepped_ensured _ _ _).to (congrArg Prod.fst same)
  | enrolled _ _ same _ => exact (stepped_ensured _ _ _).to (congrArg Prod.fst same)

/-- Unless the turn applies an update, it sets no timer. -/
theorem Turned.timers (turned : Turned r a r') :
    r'.engine.values.timers.entries.Sublist r.engine.values.timers.entries ∨
      ∃ u, a = .work .apply ∧ r.engine.values.batch.head? = some u ∧
        r'.engine.values.signals = (r.engine.values.apply u).1.signals ∧
        r'.engine.values.timers.entries = (r.engine.values.apply u).1.timers.entries := by
  have kept (same : r'.engine.values.timers.entries = r.engine.values.timers.entries) :
      r'.engine.values.timers.entries.Sublist r.engine.values.timers.entries :=
    same ▸ List.Sublist.refl _
  cases turned with
  | still _ _ _ same _ => exact .inl (kept (congrArg Prod.snd same))
  | @passed _ _ e change _ _ _ memory _ _ after =>
    have timers : (e.derive change).values.timers = e.values.timers :=
      Engine.derive_frame (·.values.timers) (fun _ _ => rfl) (fun _ _ _ => rfl) e change
    refine .inl (kept ?_)
    rw [after, timers]
    exact congrArg Prod.snd memory
  | @applied _ u _ taken same _ =>
    exact .inr ⟨u, rfl, congrArg List.head? taken, congrArg Prod.fst same, congrArg Prod.snd same⟩
  | @fired _ timer timers released same _ =>
    left
    obtain ⟨e, entries, _⟩ := Agenda.release_cases released
    rw [entries, show r'.engine.values.timers.entries = timers.entries from congrArg Prod.snd same]
    exact List.sublist_cons_self e timers.entries
  | stored same _ => exact .inl (kept (congrArg Prod.snd same))
  | ensured same _ => exact .inl (kept (congrArg Prod.snd same))
  | enrolled _ _ same _ => exact .inl (kept (congrArg Prod.snd same))

theorem Turned.sound (turned : Turned r a r') (unique : (r.engine.triggers.map (·.name)).Nodup)
    (sound : Sound r.engine.values.signals r.engine.values.timers.entries) :
    Sound r'.engine.values.signals r'.engine.values.timers.entries := by
  rcases turned.timers with fewer | ⟨u, _, _, signals, entries⟩
  · exact sound.steps (turned.stepped unique) fewer
  · rw [signals, entries]
    exact sound.apply u

theorem Reached.sound (reached : r.Reached) :
    Sound r.engine.values.signals r.engine.values.timers.entries := by
  suffices kept : Enlisted r.engine.triggers ∧
      Sound r.engine.values.signals r.engine.values.timers.entries from kept.2
  refine reached.keeps (P := fun r => Enlisted r.engine.triggers ∧
    Sound r.engine.values.signals r.engine.values.timers.entries) ?_ ?_
  · intro client
    have new : (fresh client).Reached := ⟨client, [], rfl⟩
    refine ⟨new.enlisted, ?_, List.nodup_nil⟩
    intro e member
    cases member
  · rintro r a ⟨enlisted, sound⟩
    exact ⟨(r.turned a).enlisted enlisted, (r.turned a).sound enlisted.distinct sound⟩

/-- A timer that a turn sets is of the generation that lives after the turn. -/
theorem Turned.sets (turned : Turned r a r') {e : Due HoldTimer}
    (set : e ∈ r'.engine.values.timers.entries) (new : e ∉ r.engine.values.timers.entries) :
    ∃ s, r'.engine.values.signal? e.item.name = some s ∧ e.item.generation = s.generation ∧
      e.item.value = s.value ∧ e.time = s.changed + e.item.duration ∧
      ∀ k, r.engine.values.signal? e.item.name = some k → k.generation < s.generation := by
  rcases turned.timers with fewer | ⟨u, _, _, signals, entries⟩
  · exact absurd (fewer.subset set) new
  · rw [entries] at set
    rw [Holding.signal?, signals]
    exact r.engine.values.apply_sets u set new

/-- The value of the name is this one, now and after each of these turns. -/
def Stands (r : Run σ) (name : String) (value : Int64) : List (Turn σ) → Prop
  | [] => r.engine.values.value name = value
  | a :: rest => r.engine.values.value name = value ∧ (r.turn a).Stands name value rest

instance decidableStands (r : Run σ) (name : String) (value : Int64) :
    (turns : List (Turn σ)) → Decidable (r.Stands name value turns)
  | [] => inferInstanceAs (Decidable (_ = _))
  | a :: rest =>
    have := decidableStands (r.turn a) name value rest
    inferInstanceAs (Decidable (_ ∧ _))

theorem stands_head {name : String} {value : Int64} {turns : List (Turn σ)}
    (stands : r.Stands name value turns) : r.engine.values.value name = value := by
  cases turns with
  | nil => exact stands
  | cons => exact stands.1

/-- The generation tells whether a value has stood in the course of some turns. -/
theorem Reached.signal_course (reached : r.Reached) {name : String} {s : Signal}
    (here : r.engine.values.signal? name = some s) (turns : List (Turn σ)) :
    ∃ s', (r.course turns).engine.values.signal? name = some s' ∧
      ((s'.generation = s.generation ∧ s'.value = s.value ∧ s'.changed = s.changed ∧
        r.Stands name s.value turns) ∨
      (s.generation < s'.generation ∧ ¬ r.Stands name s.value turns)) := by
  have value := Holding.value_of_signal here
  induction turns generalizing r s with
  | nil => exact ⟨s, here, .inl ⟨rfl, rfl, rfl, value⟩⟩
  | cons a rest ih =>
    obtain ⟨k, next, step⟩ := (r.turned a).stepped reached.enlisted.distinct name s here
    have value' := Holding.value_of_signal next
    obtain ⟨s', found, later⟩ := ih (reached.turn a) next value'
    refine ⟨s', found, ?_⟩
    -- Once the value has changed the generation is a later one, even if the value comes back.
    rcases step.stands_or_turns with ⟨generation, same, changed⟩ | ⟨turned, other⟩
    · rw [generation, same, changed] at later
      rcases later with ⟨generation', same', changed', stands⟩ | ⟨turned', falls⟩
      · exact .inl ⟨generation', same', changed', value, stands⟩
      · exact .inr ⟨turned', fun stands => falls stands.2⟩
    · right
      constructor
      · rcases later with ⟨generation', _⟩ | ⟨turned', _⟩ <;> omega
      · intro stands
        exact other (value'.symm.trans (stands_head stands.2))

theorem confirmed_cases {c : Change} (made : r.confirmed a = some c) :
    ∃ timer timers s, a = .work .fire ∧
      r.engine.values.timers.release? r.engine.clock = some (timer, timers) ∧
      r.engine.values.signal? timer.name = some s ∧ s.generation = timer.generation ∧
      s.value = timer.value ∧
      c = { name := timer.name, value := timer.value, duration := timer.duration,
            accepted := true } := by
  unfold confirmed at made
  split at made
  · split at made
    · cases made
    · next timer timers released =>
      obtain ⟨rfl, s, here, generation, value, _⟩ := Holding.fire_confirms made
      exact ⟨timer, timers, s, rfl, released, here, generation, value, rfl⟩
  · cases made

/-- A confirmation is handed on to the worker that checks the triggers. -/
theorem confirmed_reported {c : Change} (made : r.confirmed a = some c) :
    (r.turn a).engine.changes.items = r.engine.changes.items ++ [c] := by
  unfold confirmed at made
  split at made
  · split at made
    · cases made
    · next timer timers released =>
      simp only [turn, work?, released, Option.map_some, Option.getD_some, withEngine, made,
        Engine.report, Mailbox.items_push]
  · cases made

/-- A confirmation is of the live value, and with it the timer is spent: no other pending timer is
like it. -/
theorem Reached.confirmed_spends (reached : r.Reached) {c : Change}
    (made : r.confirmed a = some c) :
    ∃ s, r.engine.values.signal? c.name = some s ∧ s.value = c.value ∧
      (∃ e ∈ r.engine.values.timers.entries, e.item.key = (c.name, s.generation, c.duration)) ∧
      ∀ e ∈ (r.turn a).engine.values.timers.entries,
        e.item.key ≠ (c.name, s.generation, c.duration) := by
  obtain ⟨timer, timers, s, rfl, released, here, generation, value, rfl⟩ := confirmed_cases made
  obtain ⟨first, entries, rfl, _⟩ := Agenda.release_cases released
  have key : first.item.key = (first.item.name, s.generation, first.item.duration) := by
    rw [HoldTimer.key, generation]
  have apart := reached.sound.apart
  rw [entries, List.map_cons, List.nodup_cons] at apart
  have remaining : (r.turn (.work .fire)).engine.values.timers.entries = timers.entries := by
    cases r.turned (.work .fire) with
    | still _ _ silent => rw [made] at silent; cases silent
    | passed impossible => cases impossible
    | fired released' same _ =>
      cases released.symm.trans released'
      exact congrArg Prod.snd same
  refine ⟨s, here, value, ⟨first, ?_, key⟩, ?_⟩
  · rw [entries]
    exact List.mem_cons_self ..
  · intro e member alike
    rw [remaining] at member
    -- A timer like it would have been pending twice.
    exact apart.1 (key ▸ alike ▸ List.mem_map_of_mem member)

theorem Reached.spent_course (reached : r.Reached) {name : String} {generation duration : Nat}
    {s : Signal} (here : r.engine.values.signal? name = some s) (past : generation ≤ s.generation)
    (spent : ∀ e ∈ r.engine.values.timers.entries, e.item.key ≠ (name, generation, duration))
    (turns : List (Turn σ)) : ∀ e ∈ (r.course turns).engine.values.timers.entries,
      e.item.key ≠ (name, generation, duration) := by
  induction turns generalizing r s with
  | nil => exact spent
  | cons a rest ih =>
    have turned := r.turned a
    obtain ⟨k, next, step⟩ := turned.stepped reached.enlisted.distinct name s here
    refine ih (reached.turn a) next (Nat.le_trans past step.generation_le) ?_
    intro e member alike
    by_cases old : e ∈ r.engine.values.timers.entries
    · exact spent e old alike
    · -- A new timer is of a generation that begins with it.
      obtain ⟨k', _, live, _, _, later⟩ := turned.sets member old
      have named : e.item.name = name := congrArg (·.1) alike
      have turn : e.item.generation = generation := congrArg (·.2.1) alike
      have := later s (named ▸ here)
      omega

/-- A timer that is handled when it is due confirms its value if that has stood ever since the timer
was set, and nothing otherwise. -/
theorem Reached.fire_set (reached : r.Reached) {e : Due HoldTimer}
    (set : e ∈ (r.turn a).engine.values.timers.entries)
    (new : e ∉ r.engine.values.timers.entries) (turns : List (Turn σ)) {now : Nat}
    (due : e.time ≤ now) :
    ((r.turn a).Stands e.item.name e.item.value turns →
      (((r.turn a).course turns).engine.values.fire e.item now).2 = some
        { name := e.item.name, value := e.item.value, duration := e.item.duration,
          accepted := true }) ∧
    (¬ (r.turn a).Stands e.item.name e.item.value turns →
      (((r.turn a).course turns).engine.values.fire e.item now).2 = none) := by
  obtain ⟨s, here, generation, value, time, _⟩ := (r.turned a).sets set new
  obtain ⟨s', there, later⟩ := (reached.turn a).signal_course here turns
  rw [← value] at later
  simp only [Holding.fire, there]
  -- Either the value has stood, or its change has left the generation of the timer behind.
  rcases later with ⟨generation', value', changed', stands⟩ | ⟨turned, falls⟩
  · have stood : e.item.duration ≤ now - s'.changed := by omega
    have confirms : Holding.confirms s' e.item now = true := by
      simp [Holding.confirms, Signal.heldFor, generation', value', generation, stood]
    constructor
    · intro _
      simp only [confirms, if_true]
    · intro falls
      exact absurd stands falls
  · have other : s'.generation ≠ e.item.generation := by omega
    have stale : Holding.confirms s' e.item now = false := by
      simp [Holding.confirms, other]
    constructor
    · intro stands
      exact absurd stands falls
    · intro _
      simp [stale]

/-- After a confirmation the value must change before it is confirmed for that duration again. -/
theorem Reached.confirmed_apart (reached : r.Reached) {c c' : Change}
    (made : r.confirmed a = some c) {turns : List (Turn σ)} {b : Turn σ}
    (made' : ((r.turn a).course turns).confirmed b = some c') (name : c'.name = c.name)
    (duration : c'.duration = c.duration) : ¬ (r.turn a).Stands c.name c.value turns := by
  intro stands
  obtain ⟨s, here, value, _, spent⟩ := reached.confirmed_spends made
  obtain ⟨k, next, step⟩ := (r.turned a).stepped reached.enlisted.distinct c.name s here
  rcases step.stands_or_turns with ⟨generation, same, _⟩ | ⟨_, other⟩
  · obtain ⟨s', there, later⟩ := (reached.turn a).signal_course next turns
    rw [same, value] at later
    rcases later with ⟨generation', _⟩ | ⟨_, falls⟩
    · -- The generation stands with the value, so the second timer would be the spent one.
      obtain ⟨k', found, _, ⟨e, member, alike⟩, _⟩ :=
        ((reached.turn a).course turns).confirmed_spends made'
      rw [name, there] at found
      cases found
      have past : s.generation ≤ k.generation := Nat.le_of_eq generation.symm
      refine (reached.turn a).spent_course next past spent turns e member ?_
      rw [alike, name, duration, generation', generation]
    · exact falls stands
  · exact other ((Holding.value_of_signal next).symm.trans ((stands_head stands).trans value.symm))

/-- The generation of a pending timer is the live one only if the live value is the one that it was
set for, and it is due when that has stood for the duration. So at any time from then on, handling
it confirms the value if that has stood ever since the timer was set, and nothing otherwise. And two
confirmations of a name for the same duration have a change of the value between them. -/
theorem timers_confirm_once_per_change (reached : r.Reached) :
    (∀ e ∈ r.engine.values.timers.entries, ∃ s,
      r.engine.values.signal? e.item.name = some s ∧ (e.item.generation = s.generation →
        e.item.value = s.value ∧ e.time = s.changed + e.item.duration)) ∧
    (∀ a e, e ∈ (r.turn a).engine.values.timers.entries → e ∉ r.engine.values.timers.entries →
      ∀ turns now, e.time ≤ now →
        ((r.turn a).Stands e.item.name e.item.value turns →
          (((r.turn a).course turns).engine.values.fire e.item now).2 = some
            { name := e.item.name, value := e.item.value, duration := e.item.duration,
              accepted := true }) ∧
        (¬ (r.turn a).Stands e.item.name e.item.value turns →
          (((r.turn a).course turns).engine.values.fire e.item now).2 = none)) ∧
    (∀ a c, r.confirmed a = some c →
      (r.turn a).engine.changes.items = r.engine.changes.items ++ [c] ∧
      r.engine.values.value c.name = c.value ∧
      ∀ turns b c', ((r.turn a).course turns).confirmed b = some c' → c'.name = c.name →
        c'.duration = c.duration → ¬ (r.turn a).Stands c.name c.value turns) := by
  refine ⟨?_, ?_, ?_⟩
  · intro e member
    obtain ⟨s, here, _, live⟩ := reached.sound.timed e member
    exact ⟨s, here, live⟩
  · intro a e set new turns now due
    exact reached.fire_set set new turns due
  · intro a c made
    obtain ⟨s, here, value, _⟩ := reached.confirmed_spends made
    refine ⟨confirmed_reported made, (Holding.value_of_signal here).trans value, ?_⟩
    intro turns b c' made' name duration
    exact reached.confirmed_apart made made' name duration

/-- A value is about to be applied that a condition wants to stand for a tenth of a second. -/
def filled : Run Unit :=
  (fresh ()).course [.register (.condition ((Condition.between "level" 5 10).sustained 100000)),
    .start .values, .assign "level" 5 0, .work .take]

/-- The value is given up after half of that time and taken up again at once. -/
def spilled : List (Turn Unit) :=
  [.pass 50000, .assign "level" 0 0, .work .take, .work .apply, .assign "level" 5 0, .work .take,
    .work .apply, .pass 50000]

theorem filled_confirmed_spilled_not :
    (filled.turn (.work .apply)).engine.values.timers.entries =
      [⟨100000, 0, ⟨"level", 5, 100000, 1⟩⟩] ∧
    (((filled.turn (.work .apply)).course [.pass 100000]).engine.values.fire
      ⟨"level", 5, 100000, 1⟩ 100000).2 = some ⟨"level", 5, 100000, true⟩ ∧
    (((filled.turn (.work .apply)).course spilled).engine.values.fire
      ⟨"level", 5, 100000, 1⟩ 100000).2 = none := by
  have reached : filled.Reached := ⟨(), _, rfl⟩
  have entries : (filled.turn (.work .apply)).engine.values.timers.entries =
      [⟨100000, 0, ⟨"level", 5, 100000, 1⟩⟩] := by decide +kernel
  have new : (⟨100000, 0, ⟨"level", 5, 100000, 1⟩⟩ : Due HoldTimer) ∉
      filled.engine.values.timers.entries := by decide +kernel
  obtain ⟨_, fires, _⟩ := timers_confirm_once_per_change reached
  have handled := fires (.work .apply) ⟨100000, 0, ⟨"level", 5, 100000, 1⟩⟩
    (entries ▸ List.mem_cons_self ..) new
  refine ⟨entries, ?_, ?_⟩
  · exact (handled [.pass 100000] 100000 (Nat.le_refl _)).1 (by decide +kernel)
  · exact (handled spilled 100000 (Nat.le_refl _)).2 (by decide +kernel)

end Run
end Statechart
