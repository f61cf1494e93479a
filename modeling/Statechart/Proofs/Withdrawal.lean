import Statechart.Proofs.Alternation
import Statechart.Proofs.Confirmation
import Statechart.Proofs.Script
/-!
Withdrawals. A value is confirmed if it has stood for its duration, and what stands is what has been
applied so far. Updates are applied in the order in which they were submitted, so whatever was
submitted after the confirmed value and would have changed it has not been applied: an update that
withdraws the value in time can be late, but only by waiting in the queue. Or else the worker was
about to apply it when it broke down over another one.
-/

namespace Statechart

namespace Engine
variable {σ : Type}

/-- The updates that have not been applied, oldest first: those taken, then those in the mailbox. -/
def waiting (e : Engine σ) : List Update := e.values.batch ++ e.values.updates.items

theorem waiting_report (e : Engine σ) (change : Option Change) :
    (e.report change).waiting = e.waiting := by
  cases change <;> rfl

theorem waiting_derive (e : Engine σ) (change : Change) : (e.derive change).waiting = e.waiting :=
  derive_frame waiting (fun _ _ => rfl) (fun _ _ _ => rfl) e change

end Engine

namespace Holding

theorem take_waiting (h : Holding) :
    h.take.batch ++ h.take.updates.items = h.batch ++ h.updates.items := by
  unfold take
  split
  · next empty => rw [empty, List.nil_append, Mailbox.items_drain]
  · next taken => rw [taken]

/-- A timer is set by an update that changes the value, for the duration from its submission. -/
theorem apply_sets_for (h : Holding) (u : Update) {e : Due HoldTimer}
    (set : e ∈ (h.apply u).1.timers.entries) (new : e ∉ h.timers.entries) :
    ∃ s d, (h.apply u).1.signal? u.name = some s ∧ s.value = u.value ∧ e.time = u.time + d ∧
      e.item = ⟨u.name, u.value, d, s.generation⟩ ∧ h.value u.name ≠ u.value := by
  have there := (h.signal_apply u u.name).trans (if_pos rfl)
  rw [timers_apply] at set
  rcases mem_set_timers_cases _ _ _ _ set with old | ⟨d, waited, time, item⟩
  · exact absurd old new
  · obtain ⟨written, _⟩ := h.waits_turn u waited there
    refine ⟨_, d, there, written, time, item, fun same => ?_⟩
    rw [waits_same same] at waited
    cases waited

end Holding

namespace Run
variable {σ : Type}

/-- The update that a turn applies. -/
def applied (r : Run σ) : Turn σ → List Update
  | .work .apply => r.engine.values.batch.head?.toList
  | _ => []

/-- The updates that are lost in a turn: the worker breaks down over the one that it applies, and
they were to be next. -/
def lost (r : Run σ) : Turn σ → List Update
  | .work .apply =>
    match r.engine.values.batch with
    | [] => []
    | u :: rest => if r.engine.values.overruns u then rest else []
  | _ => []

/-- The updates with which the worker is through in a turn. -/
def spent (r : Run σ) (a : Turn σ) : List Update := r.applied a ++ r.lost a

/-- The updates that are submitted in a turn, by the application or by its handlers. -/
def submitted (r : Run σ) : Turn σ → List Update
  | .assign name value lag => [⟨name, value, r.engine.clock - lag⟩]
  | .work .process =>
    (r.turn (.work .process)).engine.values.updates.items.drop r.engine.values.updates.items.length
  | .work (.carry i) =>
    (r.turn (.work (.carry i))).engine.values.updates.items.drop
      r.engine.values.updates.items.length
  | _ => []

/-- What becomes of the updates when an event is processed: some may be added. -/
def Grows (e e' : Engine σ) : Prop :=
  e'.values.batch = e.values.batch ∧ e.values.updates.items <+: e'.values.updates.items

theorem Grows.refl (e : Engine σ) : Grows e e := ⟨rfl, List.prefix_refl _⟩

theorem Grows.trans {e e' e'' : Engine σ} (first : Grows e e') (later : Grows e' e'') :
    Grows e e'' :=
  ⟨later.1.trans first.1, first.2.trans later.2⟩

theorem grows_started {e : Engine σ} {ending : Ending (Engine σ)} (started : e.Started ending) :
    Grows e (ending.left e) := by
  cases started with
  | up done =>
    rw [Ending.left, Engine.start_events_frame]
    simp only [Grows, Engine.startValues, Holding.start]
    split <;> exact Grows.refl e
  | overrun broken => exact Grows.refl e

theorem grows_perform (e : Engine σ) (q : Request) : Grows e ((e.perform q).left e) := by
  have performed := e.performed q
  generalize e.perform q = ending at performed ⊢
  cases performed with
  | submit | stop | stopped | running => exact Grows.refl e
  | assign name value => exact ⟨rfl, List.prefix_append _ _⟩
  | start _ started => exact grows_started started

/-- The processing of an event only adds to the updates that wait. -/
theorem updates_advance : Advances fun r r' : Run σ => Grows r.engine r'.engine where
  refl _ := .refl _
  trans first later := first.trans later
  tell r n := tell_advances Grows.refl Grows.trans grows_perform (fun _ => .refl _) r n
  enter _ _ _ _ := .refl _
  falls _ := .refl _
  record _ _ := .refl _
  park _ _ := .refl _

theorem waiting_register (r : Run σ) (x : Registration) :
    (r.turn (.register x)).engine.waiting = r.engine.waiting := by
  simp only [turn, withEngine]
  cases answer : x.perform r.engine with
  | refused cause => rfl
  | done e | broken e =>
    have enrolled : Enrolled r.engine e := Registration.enrolled (by
      rw [answer]
      simp [Ending.Leaves])
    simp only [Engine.waiting, Ending.left, enrolled.batch, enrolled.updates]

theorem waiting_still {r r' : Run σ} {a : Turn σ} (unsubmitted : r.submitted a = [])
    (unspent : r.spent a = []) (same : r'.engine.waiting = r.engine.waiting) :
    r.engine.waiting ++ r.submitted a = r.spent a ++ r'.engine.waiting := by
  rw [unsubmitted, unspent, same, List.append_nil, List.nil_append]

theorem waiting_idle {r : Run σ} {w : Work} (idle : r.work? w = none) :
    r.engine.waiting ++ r.submitted (.work w) = r.spent (.work w) ++ r.engine.waiting := by
  cases w with
  | apply =>
    have empty : r.engine.values.batch = [] := by
      simp only [work?] at idle
      split at idle
      · assumption
      · cases idle
    exact waiting_still rfl (by simp [spent, applied, lost, empty]) rfl
  | process | carry => exact waiting_still (by simp [submitted, turn, idle]) rfl rfl
  | derive | take | fire | wake | leave => exact waiting_still rfl rfl rfl

/-- Those behind an update that is applied wait on, or the worker broke down and they are lost. -/
theorem waiting_apply {r : Run σ} {u : Update} {batch : List Update}
    (taken : r.engine.values.batch = u :: batch) : batch ++ r.engine.values.updates.items =
      r.lost (.work .apply) ++ Engine.waiting { r.engine with
        values := ({ r.engine.values with batch }.apply u).1 } := by
  simp only [lost, taken, Engine.waiting]
  by_cases far : r.engine.values.overruns u = true
  · rw [Holding.apply_overrun (h := { r.engine.values with batch }) far, if_pos far]
    simp
  · rw [Holding.apply_sound (h := { r.engine.values with batch }) (Bool.eq_false_iff.mpr far),
      if_neg far]
    simp

/-- Events only add updates at the end of those that wait. -/
theorem waiting_grows {r r' : Run σ} (grows : Grows r.engine r'.engine) :
    r.engine.waiting ++
      r'.engine.values.updates.items.drop r.engine.values.updates.items.length =
        r'.engine.waiting := by
  obtain ⟨batch, new, more⟩ := grows
  rw [Engine.waiting, Engine.waiting, ← more, batch]
  simp

/-- Work takes updates from the front only, and its handlers add them at the end. -/
theorem waiting_worked {r r' : Run σ} {w : Work} (did : r.work? w = some r') :
    r.engine.waiting ++ r.submitted (.work w) = r.spent (.work w) ++ r'.engine.waiting := by
  have next : r.turn (.work w) = r' := by simp only [turn, did, Option.getD_some]
  cases worked_of_work did with
  | derive popped => exact waiting_still rfl rfl (Engine.waiting_derive _ _)
  | @apply update batch taken =>
    -- The update is the first of those that wait, and a report adds none.
    have left := Engine.waiting_report { r.engine with values :=
      ({ r.engine.values with batch }.apply update).1 }
      ({ r.engine.values with batch }.apply update).2
    have waits := waiting_apply taken
    simp only [spent, applied, submitted, taken, withEngine]
    rw [left, List.append_nil, List.append_assoc, ← waits, Engine.waiting, taken]
    rfl
  | take => exact waiting_still rfl rfl r.engine.values.take_waiting
  | @fire timer timers released =>
    refine waiting_still rfl rfl ((Engine.waiting_report _ _).trans ?_)
    rw [Engine.waiting, Holding.fire_frame]
    rfl
  | wake woken | wakeOverrun woken => exact waiting_still rfl rfl rfl
  | @process event events _ popped =>
    rw [submitted, next]
    exact waiting_grows (updates_advance.process (r.withEngine fun e => { e with events }) event)
  | @carry index p here =>
    rw [submitted, next]
    exact waiting_grows (updates_advance.carryOn (fun _ _ => .refl _)
      (r.withEngine fun e => { e with pending := e.pending.eraseIdx index }) p)
  | leave => exact waiting_still rfl rfl rfl

/-- Updates are applied in the order in which they were submitted. -/
theorem waiting_turn (r : Run σ) (a : Turn σ) :
    r.engine.waiting ++ r.submitted a = r.spent a ++ (r.turn a).engine.waiting := by
  cases a with
  | register x => exact waiting_still rfl rfl (r.waiting_register x)
  | handle h =>
    refine waiting_still rfl rfl ?_
    simp only [turn, withEngine, Engine.setHandler]
    split <;> rfl
  | relieve h => exact waiting_still rfl rfl rfl
  | closeRules => exact waiting_still rfl rfl rfl
  | openRules => exact waiting_still rfl rfl rfl
  | start p =>
    refine waiting_still rfl rfl ?_
    simp only [turn, withEngine]
    cases p <;> simp only [Engine.startPart, Engine.startStates, Engine.startValues, Holding.start,
      Engine.startEvents]
    · cases r.engine.states.start r.engine.clock <;> rfl
    · split <;> rfl
    · split <;> rfl
  | stop p => exact waiting_still rfl rfl (by cases p <;> rfl)
  | submit event => exact waiting_still rfl rfl rfl
  | assign name value lag => exact List.append_assoc _ _ _
  | store name value => exact waiting_still rfl rfl rfl
  | derive change => exact waiting_still rfl rfl (r.engine.waiting_derive change)
  | pass span => exact waiting_still rfl rfl rfl
  | work w =>
    cases did : r.work? w with
    | none =>
      rw [show r.turn (.work w) = r by simp only [turn, did, Option.getD_none]]
      exact waiting_idle did
    | some r' =>
      rw [show r.turn (.work w) = r' by simp only [turn, did, Option.getD_some]]
      exact waiting_worked did

theorem waiting_course (turns : List (Turn σ)) (r : Run σ) :
    r.engine.waiting ++ r.along submitted turns =
      r.along spent turns ++ (r.course turns).engine.waiting := by
  induction turns generalizing r with
  | nil => simp [along, noted, course]
  | cons a rest ih =>
    rw [along_cons, along_cons, ← List.append_assoc, r.waiting_turn a, List.append_assoc, ih,
      List.append_assoc]
    rfl

theorem memory_apply {r : Run σ} {u : Update} (head : r.engine.values.batch.head? = some u) :
    (r.turn (.work .apply)).engine.memory =
      ((r.engine.values.apply u).1.signals, (r.engine.values.apply u).1.timers.entries) := by
  obtain ⟨rest, taken⟩ := List.head?_eq_some_iff.mp head
  cases r.turned (.work .apply) with
  | still _ unwritten => simp [written, head] at unwritten
  | passed made => cases made
  | applied taken' same =>
    cases taken.symm.trans taken'
    exact same

/-- Only the application of an update sets timers. -/
theorem Turned.set_by {r r' : Run σ} {a : Turn σ} (turned : Turned r a r') {e : Due HoldTimer}
    (set : e ∈ r'.engine.values.timers.entries) (new : e ∉ r.engine.values.timers.entries) :
    a = .work .apply ∧ ∃ u, r.engine.values.batch.head? = some u ∧
      e ∈ (r.engine.values.apply u).1.timers.entries := by
  rcases turned.timers with fewer | ⟨u, applied, head, _, entries⟩
  · exact absurd (fewer.subset set) new
  · exact ⟨applied, u, head, entries ▸ set⟩

theorem mem_along_spent (turns : List (Turn σ)) (r : Run σ) {u : Update} :
    u ∈ r.along spent turns ↔ u ∈ r.along applied turns ∨ u ∈ r.along lost turns := by
  induction turns generalizing r with
  | nil => simp [along, noted]
  | cons a rest ih =>
    simp only [along_cons, spent, List.mem_append, ih]
    tauto

/-- While a value stands, no update that is applied writes another one. -/
theorem stands_applied {name : String} {value : Int64} (turns : List (Turn σ)) {r : Run σ}
    (stands : r.Stands name value turns) :
    ∀ u ∈ r.along applied turns, u.name = name → u.value = value := by
  induction turns generalizing r with
  | nil =>
    intro u member
    cases member
  | cons a rest ih =>
    intro u member named
    rcases List.mem_append.mp member with now | later
    · cases a with
      | work w =>
        cases w with
        | apply =>
          have memory := memory_apply (Option.mem_toList.mp now)
          have written := stands_head stands.2
          rw [value_congr (congrArg Prod.fst memory), ← named, Holding.value_apply] at written
          exact written
        | derive | take | fire | wake | process | carry | leave => cases now
      | register | handle | relieve | closeRules | openRules | start | stop | submit | assign
      | store | derive | pass => cases now
    · exact ih stands.2 u later named

/-- A timer that is pending was set by the update that was applied in some turn. -/
theorem set_by_update {client : σ} (turns : List (Turn σ)) {e : Due HoldTimer}
    (pending : e ∈ ((fresh client).course turns).engine.values.timers.entries) :
    ∃ first later u, turns = first ++ .work .apply :: later ∧
      ((fresh client).course first).engine.values.batch.head? = some u ∧
      e ∈ (((fresh client).course first).engine.values.apply u).1.timers.entries ∧
      e ∉ ((fresh client).course first).engine.values.timers.entries := by
  -- From the end: the last turn set the timer unless it was pending before.
  induction turns using List.reverseRecOn with
  | nil => cases pending
  | append_singleton before a ih =>
    by_cases old : e ∈ ((fresh client).course before).engine.values.timers.entries
    · obtain ⟨first, later, u, rfl, head, set, new⟩ := ih old
      exact ⟨first, later ++ [a], u, by simp, head, set, new⟩
    · rw [course_snoc] at pending
      obtain ⟨rfl, u, head, set⟩ := (turned _ _).set_by pending old
      exact ⟨before, [], u, rfl, head, set, old⟩

/-- A confirmed value was set by an update, at least the duration ago, and has stood since. -/
theorem confirmed_since (client : σ) (turns : List (Turn σ)) {a : Turn σ} {c : Change}
    (made : ((fresh client).course turns).confirmed a = some c) :
    ∃ first later u, turns = first ++ .work .apply :: later ∧
      ((fresh client).course first).engine.values.batch.head? = some u ∧
      u.name = c.name ∧ u.value = c.value ∧
      u.time + c.duration ≤ ((fresh client).course turns).engine.clock ∧
      ((fresh client).course first).engine.values.value c.name ≠ c.value ∧
      (((fresh client).course first).turn (.work .apply)).Stands c.name c.value later := by
  obtain ⟨timer, timers, s, rfl, released, here, generation, _, rfl⟩ := confirmed_cases made
  obtain ⟨e, entries, rfl, due, _⟩ := Agenda.release_cases released
  obtain ⟨first, later, u, parts, head, set, new⟩ :=
    set_by_update turns (entries ▸ List.mem_cons_self ..)
  obtain ⟨k, d, there, written, time, item, changes⟩ := Holding.apply_sets_for _ u set new
  have reached : (((fresh client).course first).turn (.work .apply)).Reached :=
    Reached.turn ⟨client, first, rfl⟩ _
  have next : (((fresh client).course first).turn (.work .apply)).engine.values.signal? u.name =
      some k := by
    have signals : (((fresh client).course first).turn (.work .apply)).engine.values.signals =
        (((fresh client).course first).engine.values.apply u).1.signals :=
      congrArg Prod.fst (memory_apply head)
    rw [Holding.signal?, signals]
    exact there
  obtain ⟨k', found, stood⟩ := reached.signal_course next later
  have last : s = k' := by
    rw [item, parts, course_append] at here
    exact Option.some.inj (here.symm.trans found)
  rw [item] at generation
  refine ⟨first, later, u, parts, head, ?_⟩
  rw [item]
  refine ⟨rfl, rfl, time ▸ due, changes, ?_⟩
  rcases stood with ⟨_, _, _, stands⟩ | ⟨turned, _⟩
  · rwa [written] at stands
  · -- The timer is of the generation that the update began, and that is the live one.
    rw [← last, generation] at turned
    exact absurd turned (Nat.lt_irrefl _)

/-- A value is confirmed on the strength of the updates applied so far: it was set by an update that
changed it, at least the duration ago, and has stood since. So every update to the name that was
submitted after that one, and would have changed the value, is still waiting, unless the worker
broke down before it came to it. -/
theorem withdrawals_wait_at_confirmation (client : σ) (turns : List (Turn σ)) {a : Turn σ}
    {c : Change} (made : ((fresh client).course turns).confirmed a = some c) :
    ∃ first later u since, turns = first ++ .work .apply :: later ∧
      u.name = c.name ∧ u.value = c.value ∧
      u.time + c.duration ≤ ((fresh client).course turns).engine.clock ∧
      ((fresh client).course first).engine.values.value c.name ≠ c.value ∧
      (((fresh client).course first).turn (.work .apply)).Stands c.name c.value later ∧
      (fresh client).along submitted turns = (fresh client).along spent first ++ u :: since ++
        ((fresh client).course turns).engine.waiting ∧
      ∀ u' ∈ since, u'.name = c.name → u'.value = c.value ∨
        u' ∈ ((fresh client).course first).along lost (.work .apply :: later) := by
  obtain ⟨first, later, u, parts, head, name, value, due, changes, stands⟩ :=
    confirmed_since client turns made
  have log : (fresh client).along submitted turns =
      (fresh client).along spent turns ++ ((fresh client).course turns).engine.waiting :=
    waiting_course turns (fresh client)
  have now : ((fresh client).course first).applied (.work .apply) = [u] := by
    rw [applied, head, Option.toList_some]
  -- Since then is what was lost or applied later, and all that was applied leaves the value as it
  -- is.
  refine ⟨first, later, u, ((fresh client).course first).lost (.work .apply) ++
    (((fresh client).course first).turn (.work .apply)).along spent later, parts, name, value, due,
    changes, stands, ?_, ?_⟩
  · rw [log, parts, along_append, along_cons, spent, now]
    simp
  · intro u' member named
    rcases List.mem_append.mp member with gone | rest
    · exact .inr (List.mem_append_left _ gone)
    rcases (mem_along_spent later _).mp rest with done | gone
    · exact .inl (stands_applied later stands u' done named)
    · exact .inr (List.mem_append_right _ gone)

/-- A value of the range is submitted, and half of the time later one that is not. By the time the
first is applied it has waited long enough. -/
def hasty : List (Turn Unit) :=
  [.register (.condition ((Condition.between "level" 1 10).sustained 100000)), .start .values,
    .assign "level" 5 0, .pass 50000, .assign "level" 20 0, .pass 50000, .work .take, .work .apply]

theorem hasty_withdrawal_waits :
    ((fresh ()).course hasty).confirmed (.work .fire) = some ⟨"level", 5, 100000, true⟩ ∧
    ⟨"level", 20, 50000⟩ ∈ ((fresh ()).course hasty).engine.waiting := by
  have made : ((fresh ()).course hasty).confirmed (.work .fire) =
      some ⟨"level", 5, 100000, true⟩ := by decide +kernel
  have submissions : (fresh ()).along submitted hasty =
      [⟨"level", 5, 0⟩, ⟨"level", 20, 50000⟩] := by decide +kernel
  obtain ⟨first, later, u, since, parts, _, value, _, _, _, log, same⟩ :=
    withdrawals_wait_at_confirmation () hasty made
  have nothing : ((fresh ()).course first).along lost (.work .apply :: later) = [] := by
    have none : (fresh ()).along lost hasty = [] := by decide +kernel
    rw [parts, along_append] at none
    exact (List.append_eq_nil_iff.mp none).2
  refine ⟨made, ?_⟩
  rw [submissions] at log
  -- The update that set the value is the first one, as the other has another value.
  cases earlier : (fresh ()).along spent first with
  | cons _ rest =>
    rw [earlier] at log
    cases rest with
    | nil =>
      obtain ⟨_, rfl, _⟩ := by simpa using log
      cases value
    | cons => simp at log
  | nil =>
    rw [earlier] at log
    cases since with
    | nil =>
      obtain ⟨_, waiting⟩ := by simpa using log
      exact waiting ▸ List.mem_cons_self ..
    | cons other _ =>
      obtain ⟨_, rfl, _⟩ := by simpa using log
      rcases same _ (List.mem_cons_self ..) rfl with alike | gone
      · cases alike
      · rw [nothing] at gone
        cases gone

theorem hasty_confirmed_though_withdrawn :
    ∃ c u u', ((fresh ()).course hasty).confirmed (.work .fire) = some c ∧
      (fresh ()).along applied hasty = [u] ∧ u.name = c.name ∧ u.value = c.value ∧
      u' ∈ (fresh ()).along submitted hasty ∧ u'.name = c.name ∧ u'.value ≠ c.value ∧
      u.time < u'.time ∧ u'.time < u.time + c.duration :=
  ⟨⟨"level", 5, 100000, true⟩, ⟨"level", 5, 0⟩, ⟨"level", 20, 50000⟩, by decide +kernel⟩

end Run
end Statechart
