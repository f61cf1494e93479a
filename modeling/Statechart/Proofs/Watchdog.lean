import Statechart.Proofs.Roster
import Statechart.Proofs.Timeouts
/-!
The watchdog under any sequence of calls. It is armed for the current state and for no other, with
the timeout of that state. The time runs from the last of three occasions: a state was entered, the
watchdog was started, or it spoke up. When the time is up while the watchdog runs, it speaks up at
its next look at the clock, and never before. All this holds as long as the clock has numbers for
what it is asked to wait for.
-/

namespace Statechart.Hierarchy

/-- The clock does not go back from one call to the next. -/
def InOrder (calls : List Call) : Prop := (calls.filterMap Call.time?).Pairwise (· ≤ ·)

instance (calls : List Call) : Decidable (InOrder calls) :=
  inferInstanceAs (Decidable (List.Pairwise _ _))

/-- Whom the watchdog names when it looks at the clock, if it speaks up. -/
def firing? (h : Hierarchy) (now : Nat) : Option Armed := (h.wake? now).bind (·.1)

/-- The clock has no number for the end of a timeout that a call starts. The call breaks down, or
the watchdog does as it looks at the clock. -/
def breaks (h : Hierarchy) : Call → Bool
  | .wake now => (h.wake? now).any (·.1.isNone)
  | c => (h.call c).1 = .broken ()

/-- None of these calls asks the clock for a number that it does not have. -/
def inRange (h : Hierarchy) : List Call → Bool
  | [] => true
  | c :: rest => !h.breaks c && (h.call c).2.inRange rest

/-- The instant from which the time runs anew after a call, if it does: a state is entered, the
watchdog is started while it stands still, or it speaks up. -/
def occasion? (h : Hierarchy) : Call → Option Nat
  | .enter name now => if h.contains name then some now else none
  | .start now => if h.running then none else some now
  | .wake now => if (h.firing? now).isSome then some now else none
  | .add _ | .stop => none

def occasions (h : Hierarchy) (calls : List Call) : List Nat :=
  noted (fun h c => (h.call c).2) (fun h c => (h.occasion? c).toList) h calls

theorem occasions_sublist (calls : List Call) (h : Hierarchy) :
    (h.occasions calls).Sublist (calls.filterMap Call.time?) := by
  induction calls generalizing h with
  | nil => exact List.Sublist.refl _
  | cons c rest ih =>
    have here : (h.occasion? c).toList.Sublist (Call.time? c).toList := by
      cases c <;> simp only [occasion?, Call.time?] <;> try split
      all_goals simp
    have times : (c :: rest).filterMap Call.time? =
        (Call.time? c).toList ++ rest.filterMap Call.time? := by
      cases time : Call.time? c <;> simp [time]
    rw [times]
    exact here.append (ih _)

/-- The watchdog after some calls, of which these were the occasions from which the time ran. -/
structure Punctual (h : Hierarchy) (log : List Nat) : Prop where
  wound : h.Wound
  posted : h.watching = h.running
  whole : h.broken = false
  deadline : ∀ a, h.armed = some a → ∃ t, log.getLast? = some t ∧ a.deadline = t + a.timeout

theorem deadline_armed_for (h : Hierarchy) (name : String) (now : Nat) (log : List Nat) (a : Armed)
    (armed : h.armedFor name now = some a) :
    ∃ t, (log ++ [now]).getLast? = some t ∧ a.deadline = t + a.timeout := by
  refine ⟨now, List.getLast?_concat, ?_⟩
  unfold armedFor at armed
  split at armed
  · cases armed
  · cases armed
    rfl

namespace Punctual
variable {h h' : Hierarchy} {log : List Nat} (punctual : h.Punctual log)
include punctual

theorem add (seated : h.Seated) {s : State} (added : h.add s = .ok h') : h'.Punctual log := by
  obtain ⟨_, _, frame, _⟩ := kin_add added
  refine ⟨wound_add punctual.wound seated added, ?_, ?_, ?_⟩
  · rw [frame]
    exact punctual.posted
  · rw [frame]
    exact punctual.whole
  · rw [frame]
    exact punctual.deadline

theorem enter {name : String} {now : Nat} (entered : h.enter name now = .done h') :
    h'.Punctual (log ++ [now]) := by
  have wound := wound_enter entered
  rw [enter_eq] at entered
  split at entered
  · cases entered
  split at entered <;> cases entered
  exact ⟨wound, punctual.posted, punctual.whole, deadline_armed_for h name now log⟩

theorem start (idle : h.running = false) {now : Nat} (started : h.start now = .done h') :
    h'.Punctual (log ++ [now]) := by
  have wound := wound_start punctual.wound (.inl started)
  rw [start_eq, if_neg (by simp [idle])] at started
  split at started
  · next stands =>
    cases started
    -- Nothing is armed where no state is current.
    refine ⟨wound, rfl, rfl, fun a armed => ?_⟩
    cases stands.symm.trans (punctual.wound.armed a armed).1
  · next name stands =>
    split at started <;> cases started
    exact ⟨wound, rfl, rfl, deadline_armed_for h name now log⟩

theorem wake {now : Nat} {a : Armed} (woken : h.wake? now = some (some a, h')) :
    h'.Punctual (log ++ [now]) := by
  have wound := wound_wake punctual.wound woken
  obtain ⟨_, _, _, _, _, ⟨_, _, rfl⟩ | ⟨silent, _⟩⟩ := wake_cases woken
  · refine ⟨wound, punctual.posted, punctual.whole, ?_⟩
    rintro a same
    cases same
    exact ⟨now, List.getLast?_concat, rfl⟩
  · cases silent

/-- What the watchdog keeps to through one call. -/
theorem call (seated : h.Seated) (c : Call) (fits : h.breaks c = false) :
    (h.call c).2.Punctual (log ++ (h.occasion? c).toList) := by
  have same : h.Punctual (log ++ []) := (List.append_nil log).symm ▸ punctual
  cases c with
  | add s =>
    simp only [Hierarchy.call]
    cases answer : h.add s with
    | error cause => exact same
    | ok h' => exact (List.append_nil log).symm ▸ punctual.add seated answer
  | enter name now =>
    simp only [Hierarchy.call, occasion?, breaks] at fits ⊢
    have known := h.enter_eq name now
    cases answer : h.enter name now with
    | refused cause =>
      rw [answer] at known
      split at known
      · next unknown =>
        rw [show h.contains name = false by simpa using unknown]
        exact same
      · split at known <;> cases known
    | broken h' => simp [answered, answer, Ending.map] at fits
    | done h' =>
      rw [answer] at known
      split at known
      · cases known
      · next listed =>
        simp only [Bool.not_eq_true', Bool.not_eq_false] at listed
        rw [listed]
        exact punctual.enter answer
  | start now =>
    simp only [Hierarchy.call, occasion?, breaks] at fits ⊢
    cases active : h.running with
    | true =>
      rw [show h.start now = .done h by simp [Hierarchy.start, active]]
      exact same
    | false =>
      cases answer : h.start now with
      | refused cause =>
        rw [start_eq] at answer
        repeat' split at answer
        all_goals cases answer
      | broken h' => simp [answered, answer, Ending.map] at fits
      | done h' => exact punctual.start active answer
  | stop =>
    exact ⟨⟨punctual.wound.armed, punctual.wound.asleep⟩, rfl, punctual.whole, same.deadline⟩
  | wake now =>
    -- A watchdog that speaks up makes an occasion; one that breaks down is excluded by `fits`.
    cases woken : h.wake? now with
    | none => simpa [Hierarchy.call, occasion?, firing?, woken] using punctual
    | some pair =>
      obtain ⟨spoken, h'⟩ := pair
      cases spoken with
      | none => simp [breaks, woken] at fits
      | some a => simpa [Hierarchy.call, occasion?, firing?, woken] using punctual.wake woken

end Punctual

/-- What the watchdog keeps to through one call it keeps to through any. -/
theorem punctual_after (calls : List Call) (h : Hierarchy) (log : List Nat)
    (punctual : h.Punctual log) (seated : h.Seated) (fits : h.inRange calls = true) :
    (h.afterCalls calls).Punctual (log ++ h.occasions calls) := by
  induction calls generalizing h log with
  | nil => simpa [afterCalls, occasions, noted] using punctual
  | cons c rest ih =>
    obtain ⟨one, rest⟩ := Bool.and_eq_true_iff.mp fits
    have later := ih _ _ (punctual.call seated c (by simpa using one)) ((h.called c).seated seated)
      rest
    rwa [List.append_assoc] at later

/-- A state that others are entered after, but not itself, is not current. -/
theorem elsewhere_after (calls : List Call) {h : Hierarchy} {old : String}
    (elsewhere : h.current ≠ some old) (unset : ∀ t, .enter old t ∉ calls) :
    (h.afterCalls calls).current ≠ some old := by
  induction calls generalizing h with
  | nil => exact elsewhere
  | cons c rest ih =>
    refine ih (h := (h.call c).2) ?_ fun t member => unset t (List.mem_cons_of_mem _ member)
    have called := h.called c
    generalize (h.call c).2 = h' at called
    cases called with
    | still _ _ same => exact same ▸ elsewhere
    | added added _ =>
      obtain ⟨_, _, frame, _⟩ := kin_add added
      rw [frame]
      exact elsewhere
    | @entered _ now _ _ _ current =>
      intro again
      cases current.symm.trans again
      exact unset now (List.mem_cons_self ..)

theorem made_punctual (calls : List Call) (fits : inRange {} calls = true) :
    (made calls).Punctual (occasions {} calls) := by
  have new : Punctual {} [] := ⟨wound_nil, rfl, rfl, fun _ armed => by cases armed⟩
  exact punctual_after calls {} [] new (fun _ stands => by cases stands) fits

theorem firing_cases {h : Hierarchy} {now : Nat} {a : Armed} (fired : h.firing? now = some a) :
    h.watching = true ∧ h.armed = some a ∧ a.deadline ≤ now := by
  obtain ⟨⟨_, h'⟩, woken, rfl⟩ := Option.bind_eq_some_iff.mp fired
  obtain ⟨_, watching, _, armed, due, ⟨spoken, _⟩ | ⟨silent, _⟩⟩ := wake_cases woken
  · cases spoken
    exact ⟨watching, armed, due⟩
  · cases silent

theorem Wound.armed_for {h : Hierarchy} (wound : h.Wound) :
    h.armed.map (fun a => (a.state, a.timeout)) =
      (h.current.map fun name => (name, h.allowance name)).filter (·.2 ≠ 0) := by
  cases armed : h.armed with
  | none =>
    cases stands : h.current with
    | none => rfl
    | some name => simp [wound.asleep armed name stands, Option.filter]
  | some a =>
    obtain ⟨stands, timeout, positive⟩ := wound.armed a armed
    simp [stands, ← timeout, Option.filter, Nat.pos_iff_ne_zero.mp positive]

/-- The laws of the watchdog after some calls on a new table. -/
structure Watch (calls : List Call) : Prop where
  /-- It is armed for the current state with its timeout, if that has one, and else not at all. -/
  armed : (made calls).armed.map (fun a => (a.state, a.timeout)) =
    ((made calls).current.map fun name => (name, (made calls).allowance name)).filter (·.2 ≠ 0)
  /-- The time is up one timeout after the last occasion. -/
  deadline : ∀ a, (made calls).armed = some a →
    ∃ t, (occasions {} calls).getLast? = some t ∧ a.deadline = t + a.timeout
  /-- When the time is up it speaks up. -/
  fires : (made calls).running = true → ∀ a, (made calls).armed = some a → ∀ now,
    a.deadline ≤ now → (made calls).breaks (.wake now) = false → (made calls).firing? now = some a
  /-- It speaks up only while it runs, for the current state, and not before a timeout has passed
  since each occasion. -/
  fired : ∀ now a, (made calls).firing? now = some a → (made calls).running = true ∧
    (made calls).current = some a.state ∧ a.timeout = (made calls).allowance a.state ∧
    ∀ t ∈ occasions {} calls, t + a.timeout ≤ now
  /-- It does not speak up for a state after another one was entered, unless that state was entered
  again. -/
  passed : ∀ before name t after old, calls = before ++ .enter name t :: after →
    (made before).contains name = true → old ≠ name → (∀ t, .enter old t ∉ after) →
    ∀ now a, (made calls).firing? now = some a → a.state ≠ old

/-- Whatever calls are made of a new table, in the order of time and within the clock's range: the
watchdog is armed for the current state; when the time is up and it runs it speaks up for that
state, and never before. The time runs from the last entry, start or word of the watchdog; a start
while it runs is none. -/
theorem watchdog_keeps_time (calls : List Call) (ordered : InOrder calls)
    (fits : inRange {} calls = true) : Watch calls := by
  have punctual := made_punctual calls fits
  constructor
  case armed => exact punctual.wound.armed_for
  case deadline => exact punctual.deadline
  case fires =>
    intro runs a armed now due near
    have watched : (made calls).isAlert = true := by
      simp [isAlert, punctual.posted.trans runs, punctual.whole]
    simp only [breaks, firing?, wake?, watched, armed, due, if_true] at near ⊢
    cases told : Clock.after? now a.timeout with
    | none => simp [told] at near
    | some deadline => rfl
  case fired =>
    intro now a fired
    obtain ⟨watching, armed, due⟩ := firing_cases fired
    obtain ⟨stands, timeout, _⟩ := punctual.wound.armed a armed
    refine ⟨punctual.posted.symm.trans watching, stands, timeout, fun t member => ?_⟩
    obtain ⟨last, ends, time⟩ := punctual.deadline a armed
    -- The last occasion is the latest.
    have sorted := ordered.sublist (occasions_sublist calls {})
    obtain ⟨earlier, parts⟩ := List.getLast?_eq_some_iff.mp ends
    rw [parts] at sorted member
    rcases List.mem_append.mp member with before | here
    · have order := (List.pairwise_append.mp sorted).2.2 t before last (List.mem_singleton_self _)
      omega
    · rw [List.mem_singleton.mp here]
      omega
  case passed =>
    rintro before name t after old rfl known other unset now a fired rfl
    obtain ⟨_, armed, _⟩ := firing_cases fired
    obtain ⟨stands, _, _⟩ := punctual.wound.armed a armed
    have parts : made (before ++ .enter name t :: after) =
        ((made before).call (.enter name t)).2.afterCalls after :=
      after_calls_append {} before (.enter name t :: after)
    refine elsewhere_after after ?_ unset (parts ▸ stands)
    have entered := (made before).enter_eq name t
    simp only [known, Bool.not_true, Bool.false_eq_true, if_false] at entered
    simp only [call, answered, entered]
    split <;> exact fun same => other (Option.some.inj same).symm

/-- An alarm that rings until it is silenced, is looked at too early and too late, and is stopped
and started in between. -/
def alarm : List Call :=
  [.add { name := "Ringing", timeout := 100 }, .add { name := "Silent" }, .enter "Broken" 5,
    .enter "Ringing" 10, .start 20, .wake 60, .wake 130, .stop, .enter "Silent" 140,
    .enter "Ringing" 150, .start 160, .wake 200]

theorem alarm_keeps_time :
    InOrder alarm ∧ inRange {} alarm = true ∧ Watch alarm ∧
    occasions {} alarm = [10, 20, 130, 140, 150, 160] ∧
    (made alarm).firing? 260 = some ⟨"Ringing", 100, 260⟩ ∧
    (∀ now a, (made alarm).firing? now = some a → 260 ≤ now ∧ a.state ≠ "Silent") := by
  have ordered : InOrder alarm := by decide
  have fits : inRange {} alarm = true := by decide +kernel
  have watch := watchdog_keeps_time alarm ordered fits
  have armed : (made alarm).armed = some ⟨"Ringing", 100, 260⟩ := rfl
  have logged : occasions {} alarm = [10, 20, 130, 140, 150, 160] := rfl
  refine ⟨ordered, fits, watch, logged, ?_, ?_⟩
  · exact watch.fires rfl _ armed 260 (Nat.le_refl _) (by decide +kernel)
  intro now a fired
  have same : a = ⟨"Ringing", 100, 260⟩ :=
    Option.some.inj ((firing_cases fired).2.1.symm.trans armed)
  obtain ⟨_, _, _, waited⟩ := watch.fired now a fired
  have latest := waited 160 (logged ▸ by decide)
  rw [same] at latest
  refine ⟨latest, watch.passed (alarm.take 9) "Ringing" 150 [.start 160, .wake 200] "Silent" rfl rfl
    (by decide) (fun t again => ?_) now a fired⟩
  simp at again

/-- A start while the watchdog runs does not make the time run anew: here it speaks up less than a
timeout after it was started for the last time. -/
theorem second_start_changes_nothing :
    let calls :=
      [.add { name := "Ringing", timeout := 100 }, .enter "Ringing" 0, .start 0, .start 60]
    InOrder (calls ++ [.wake 100]) ∧ (made calls).running = true ∧
    (made calls).firing? 100 = some ⟨"Ringing", 100, 100⟩ ∧ 100 < 60 + 100 := by
  exact ⟨by decide, rfl, rfl, by decide⟩

end Statechart.Hierarchy
