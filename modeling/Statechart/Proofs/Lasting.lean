import Statechart.Proofs.Confirmation
/-!
Confirmations that last. The live values are followed through whatever can happen to them, one deed
at a time; a timer that is due is taken in one deed and handled in another, so that anything may
come between. What a timer confirms a check finds met, at that instant and for as long as the value
stands; and a value is marked as confirmed only while a registered condition makes it so.
-/

namespace Statechart

/-- What a signal satisfies it satisfies for as long as it stands. -/
theorem Signal.satisfies_later {s s' : Signal} {c : Condition} {now later : Nat}
    (value : s'.value = s.value) (changed : s'.changed = s.changed) (passed : now ≤ later)
    (met : s.satisfies c now = true) : s'.satisfies c later = true := by
  simp only [satisfies, Bool.and_eq_true, decide_eq_true_eq] at met ⊢
  simp only [heldFor, changed] at met ⊢
  exact ⟨value.symm ▸ met.1, by omega⟩

namespace Condition
variable {signal? : String → Option Signal} {now later : Nat}

theorem check_from_later (passed : now ≤ later) (k : Connective) (cs : List Condition) {v : Verdict}
    {matched : List Reading} (done : checkFrom signal? now k matched cs = .ok v)
    (met : v.met = true) (matched' : List Reading) :
    ∃ v', checkFrom signal? later k matched' cs = .ok v' ∧ v'.met = true := by
  induction cs generalizing matched matched' with
  | nil =>
    cases done
    exact ⟨_, rfl, met⟩
  | cons c rest ih =>
    cases here : signal? c.name with
    | none =>
      simp only [checkFrom, here] at done
      cases done
    | some s =>
      simp only [checkFrom, here] at done ⊢
      by_cases satisfied : s.satisfies c now = true
      · have still := Signal.satisfies_later rfl rfl passed satisfied
        rw [if_pos satisfied] at done
        rw [if_pos still]
        cases k with
        | or => exact ⟨_, rfl, rfl⟩
        | and => exact ih done _
      · rw [if_neg satisfied] at done
        cases k with
        | and =>
          cases done
          cases met
        | or =>
          -- A condition that was not met may be by now; then the check ends with it.
          split
          · exact ⟨_, rfl, rfl⟩
          · exact ih done _

/-- Over the same values, what a check finds met at some instant it finds met at any later one. -/
theorem check_later (passed : now ≤ later) (k : Connective) (cs : List Condition) {v : Verdict}
    (done : check signal? now k cs = .ok v) (met : v.met = true) :
    ∃ v', check signal? later k cs = .ok v' ∧ v'.met = true := by
  cases cs with
  | nil => exact ⟨_, rfl, rfl⟩
  | cons => exact check_from_later passed k _ done met []

theorem check_single {c : Condition} {s : Signal} (here : signal? c.name = some s)
    (satisfied : s.satisfies c now = true) (k : Connective) :
    check signal? now k [c] = .ok { met := true, matched := [c.reading s now] } := by
  cases k <;> simp [check, checkFrom, here, satisfied]

end Condition

/-- The live values, the timer that has been taken and not handled yet, and the time. -/
structure Keeping where
  values : Holding := {}
  inHand : Option HoldTimer := none
  clock : Nat := 0

/-- What can happen to the live values. A value that is submitted or stored brings the time of the
call, and other deeds may have come in between. -/
inductive Deed
  | add (c : Condition) (time : Nat)
  | submit (name : String) (value : Int64) (time : Nat)
  | store (name : String) (value : Int64) (time : Nat)
  | start
  | stop
  | take
  | apply
  /-- The first timer that is due is taken. -/
  | release
  /-- The timer that has been taken is handled. -/
  | handle
  | pass (span : Nat)

/-- A registered condition asks for this value to be confirmed. -/
def Holding.Asks (h : Holding) (name : String) (value : Int64) (duration : Nat) : Prop :=
  ∃ c ∈ h.registeredFor name, c.name = name ∧ c.isTimed = true ∧ c.accepts value = true ∧
    c.duration = duration

namespace Keeping

def act (k : Keeping) : Deed → Keeping
  | .add c time =>
    match k.values.add c time with
    | .ok values => { k with values }
    | .error _ => k
  | .submit name value time => { k with values := k.values.submit name value time }
  | .store name value time => { k with values := k.values.store name value time }
  | .start => { k with values := k.values.start }
  | .stop => { k with values := k.values.stop }
  | .take => { k with values := k.values.take }
  | .apply =>
    match k.values.batch with
    | [] => k
    | u :: batch => { k with values := ({ k.values with batch }.apply u).1 }
  | .release =>
    match k.inHand, k.values.timers.release? k.clock with
    | none, some (timer, timers) =>
      { k with inHand := some timer, values := { k.values with timers } }
    | _, _ => k
  | .handle =>
    match k.inHand with
    | none => k
    | some timer => { k with inHand := none, values := (k.values.fire timer k.clock).1 }
  | .pass span => { k with clock := k.clock + span }

def perform (k : Keeping) (deeds : List Deed) : Keeping := deeds.foldl act k

def Reached (k : Keeping) : Prop := ∃ deeds, k = ({} : Keeping).perform deeds

/-- What handling the timer in hand confirms. -/
def confirmed (k : Keeping) : Option Change :=
  k.inHand.bind fun timer => (k.values.fire timer k.clock).2

/-- The timers that have not been handled yet. -/
def outstanding (k : Keeping) : List HoldTimer :=
  k.inHand.toList ++ k.values.timers.entries.map (·.item)

/-- The value of the name is this one, now and after each of these deeds. -/
def Stands (k : Keeping) (name : String) (value : Int64) : List Deed → Prop
  | [] => k.values.value name = value
  | d :: rest => k.values.value name = value ∧ (k.act d).Stands name value rest

instance decidableStands (k : Keeping) (name : String) (value : Int64) :
    (deeds : List Deed) → Decidable (k.Stands name value deeds)
  | [] => inferInstanceAs (Decidable (_ = _))
  | d :: rest =>
    have := decidableStands (k.act d) name value rest
    inferInstanceAs (Decidable (_ ∧ _))

/-- All that a deed can do: it takes a signal at most one step further, forgets no condition, sets
timers for values that are asked for, and marks a value only for a timer in hand. -/
structure Moved (k k' : Keeping) : Prop where
  stepped : Stepped k.values.signals k'.values.signals
  kept : ∀ name c, c ∈ k.values.registeredFor name → c ∈ k'.values.registeredFor name
  named : ∀ name c, c ∈ k'.values.registeredFor name →
    c ∈ k.values.registeredFor name ∨ c.name = name
  onward : k.clock ≤ k'.clock
  set : ∀ t ∈ k'.outstanding, t ∈ k.outstanding ∨
    ∃ c ∈ k.values.registeredFor t.name, c.isTimed = true ∧ c.accepts t.value = true ∧
      c.duration = t.duration
  marked : ∀ name s', k'.values.signal? name = some s' → s'.confirmed = true →
    (∃ s, k.values.signal? name = some s ∧ s.confirmed = true ∧ s'.value = s.value ∧
      s'.changed = s.changed) ∨
    ∃ t ∈ k.outstanding, t.name = name ∧ t.value = s'.value ∧ t.duration ≤ s'.heldFor k.clock

variable {k k' : Keeping}

theorem moved_still (signals : k'.values.signals = k.values.signals)
    (registered : k'.values.registered = k.values.registered) (onward : k.clock ≤ k'.clock)
    (fewer : k'.outstanding ⊆ k.outstanding) : Moved k k' where
  stepped := (stepped_refl _).to signals
  kept name c := by
    rw [Holding.registeredFor, Holding.registeredFor, registered]
    exact id
  named name c := by
    rw [Holding.registeredFor, Holding.registeredFor, registered]
    exact .inl
  onward := onward
  set t member := .inl (fewer member)
  marked name s' here flag := by
    rw [Holding.signal?, signals] at here
    exact .inl ⟨s', here, flag, rfl, rfl⟩

/-- A value that is written or stored is marked only if it was marked before. -/
theorem marked_write {signals : Table String Signal} {key : String} {fallback : Signal}
    (unmarked : fallback.confirmed = false) (value : Int64) (time : Nat) {name : String}
    {s' : Signal}
    (here : (signals.put key (((signals.find? key).getD fallback).write value time)).find? name =
      some s') (flag : s'.confirmed = true) :
    ∃ s, signals.find? name = some s ∧ s.confirmed = true ∧ s'.value = s.value ∧
      s'.changed = s.changed := by
  rw [Table.find_put] at here
  split at here
  · next same =>
    subst same
    cases here
    simp only [Signal.confirmed_write, Bool.and_eq_true, Bool.not_eq_true', Signal.differs,
      bne_eq_false_iff_eq] at flag
    -- A mark is left by a write that changes nothing, and the fallback has none.
    cases old : signals.find? name with
    | none =>
      rw [old, Option.getD_none, unmarked] at flag
      cases flag.1
    | some s =>
      rw [old, Option.getD_some] at flag
      refine ⟨s, rfl, flag.1, ?_, ?_⟩
      · rw [Signal.value_write, flag.2]
      · simp [Signal.changed_write, Signal.differs, flag.2]
  · exact ⟨s', here, flag, rfl, rfl⟩

theorem moved_store (k : Keeping) (name : String) (value : Int64) (time : Nat) :
    Moved k { k with values := k.values.store name value time } where
  stepped := k.values.stepped_store name value time
  kept _ _ := id
  named _ _ := .inl
  onward := Nat.le_refl _
  set _ := .inl
  marked _ _ here flag := .inl (marked_write (by rfl) value time here flag)

theorem moved_add {c : Condition} {time : Nat} {values : Holding}
    (added : k.values.add c time = .ok values) : Moved k { k with values } := by
  have listed := registered_add added
  obtain ⟨_, rfl⟩ := Holding.add_cases added
  refine {
    stepped := stepped_ensured _ _ _
    kept := fun name other known => (listed name other).mpr (.inl known)
    named := ?_
    onward := Nat.le_refl _
    set := fun _ => .inl
    marked := ?_ }
  · intro name other known
    rcases (listed name other).mp known with old | ⟨rfl, same⟩
    · exact .inl old
    · exact .inr same
  · intro name s' here flag
    left
    simp only [Holding.signal?, Holding.ensured] at here
    split at here
    · exact ⟨s', here, flag, rfl, rfl⟩
    · rw [Table.find_put] at here
      split at here
      · cases here
        cases flag
      · exact ⟨s', here, flag, rfl, rfl⟩

theorem moved_apply {u : Update} {batch : List Update} :
    Moved k { k with values := ({ k.values with batch }.apply u).1 } where
  stepped := ({ k.values with batch }).stepped_apply u
  kept _ _ := by
    simp only [Holding.registeredFor, registered_apply]
    exact id
  named _ _ := by
    simp only [Holding.registeredFor, registered_apply]
    exact .inl
  onward := Nat.le_refl _
  set t member := by
    let h : Holding := { k.values with batch }
    rcases List.mem_append.mp member with hand | pending
    · exact .inl (List.mem_append_left _ hand)
    obtain ⟨e, entry, rfl⟩ := List.mem_map.mp pending
    have timers := h.timers_apply u
    simp only [h] at timers
    rw [timers] at entry
    -- What is new has been set for a registered condition that accepts the value.
    rcases Holding.mem_set_timers_cases _ _ _ _ entry with old | ⟨d, waited, _, item⟩
    · exact .inl (List.mem_append_right _ (List.mem_map_of_mem old))
    · right
      simp only [Holding.waits] at waited
      split at waited
      · obtain ⟨c, listed, timed, same⟩ := (Holding.mem_durations _ _).mp waited
        obtain ⟨registered, accepted⟩ := List.mem_filter.mp listed
        rw [item]
        exact ⟨c, registered, timed, accepted, same⟩
      · cases waited
  marked _ _ here flag := by
    simp only [Holding.signal?, Holding.signals_apply] at here
    exact .inl (marked_write (by rfl) u.value u.time here flag)

theorem moved_handle {timer : HoldTimer} (hand : k.inHand = some timer) :
    Moved k { k with inHand := none, values := (k.values.fire timer k.clock).1 } where
  stepped := k.values.stepped_fire timer k.clock
  kept name c := by
    simp only [Holding.registeredFor, registered_fire]
    exact id
  named name c := by
    simp only [Holding.registeredFor, registered_fire]
    exact .inl
  onward := Nat.le_refl _
  set t member := by
    simp only [outstanding, timers_fire] at member ⊢
    exact .inl (List.mem_append_right _ member)
  marked name s' here flag := by
    have held : timer ∈ k.outstanding := by simp [outstanding, hand]
    rcases k.values.fire_cases timer k.clock with same | ⟨s, _, met, same⟩
    · rw [same] at here
      exact .inl ⟨s', here, flag, rfl, rfl⟩
    rw [same, Holding.signal?, Table.find_put] at here
    split at here
    · next own =>
      cases here
      obtain ⟨_, value, stood⟩ := (Holding.confirms_iff s timer k.clock).mp met
      exact .inr ⟨timer, held, own.symm, value.symm, stood⟩
    · exact .inl ⟨s', here, flag, rfl, rfl⟩

theorem moved (k : Keeping) (d : Deed) : Moved k (k.act d) := by
  have still : Moved k k := moved_still rfl rfl (Nat.le_refl _) (List.Subset.refl _)
  cases d with
  | add c time =>
    simp only [act]
    split
    · next added => exact moved_add added
    · exact still
  | submit name value time => exact moved_still rfl rfl (Nat.le_refl _) (List.Subset.refl _)
  | store name value time => exact k.moved_store name value time
  | start =>
    have same : (k.act .start).values.signals = k.values.signals ∧
        (k.act .start).values.registered = k.values.registered ∧
        (k.act .start).values.timers.entries = k.values.timers.entries := by
      simp only [act, Holding.start]
      split <;> exact ⟨rfl, rfl, rfl⟩
    refine moved_still same.1 same.2.1 (Nat.le_refl _) fun t member => ?_
    rwa [outstanding, same.2.2] at member
  | stop => exact moved_still rfl rfl (Nat.le_refl _) (List.Subset.refl _)
  | take =>
    simp only [act]
    rw [take_frame]
    exact moved_still rfl rfl (Nat.le_refl _) (List.Subset.refl _)
  | apply =>
    simp only [act]
    split
    · exact still
    · exact moved_apply
  | release =>
    simp only [act]
    split
    · next timer timers free released =>
      obtain ⟨first, entries, same, _⟩ := Agenda.release_cases released
      refine moved_still rfl rfl (Nat.le_refl _) fun t member => ?_
      simpa [outstanding, free, entries, same] using member
    · exact still
  | handle =>
    simp only [act]
    split
    · exact still
    · next hand => exact moved_handle hand
  | pass span => exact moved_still rfl rfl (Nat.le_add_right _ _) (List.Subset.refl _)

/-- The timers and the marks go with what is registered. -/
structure Faithful (k : Keeping) : Prop where
  named : ∀ name, ∀ c ∈ k.values.registeredFor name, c.name = name
  asked : ∀ t ∈ k.outstanding, k.values.Asks t.name t.value t.duration
  marked : ∀ name s, k.values.signal? name = some s → s.confirmed = true →
    ∃ duration, k.values.Asks name s.value duration ∧ duration ≤ s.heldFor k.clock

theorem Moved.asks (moved : Moved k k') {name : String} {value : Int64} {duration : Nat}
    (asks : k.values.Asks name value duration) : k'.values.Asks name value duration := by
  obtain ⟨c, registered, rest⟩ := asks
  exact ⟨c, moved.kept name c registered, rest⟩

theorem Moved.faithful (moved : Moved k k') (faithful : Faithful k) : Faithful k' where
  named name c registered := by
    rcases moved.named name c registered with old | same
    · exact faithful.named name c old
    · exact same
  asked t member := by
    rcases moved.set t member with old | ⟨c, registered, asked⟩
    · exact moved.asks (faithful.asked t old)
    · exact moved.asks ⟨c, registered, faithful.named _ c registered, asked⟩
  marked name s' here flag := by
    have onward := moved.onward
    rcases moved.marked name s' here flag with
      ⟨s, before, was, value, changed⟩ | ⟨t, held, rfl, value, stood⟩
    · obtain ⟨duration, asks, stood⟩ := faithful.marked name s before was
      refine ⟨duration, value ▸ moved.asks asks, ?_⟩
      rw [Signal.heldFor, changed]
      rw [Signal.heldFor] at stood
      omega
    · refine ⟨t.duration, value ▸ moved.asks (faithful.asked t held), ?_⟩
      rw [Signal.heldFor] at stood ⊢
      omega

theorem faithful_perform (deeds : List Deed) (k : Keeping) (faithful : Faithful k) :
    Faithful (k.perform deeds) := by
  induction deeds generalizing k with
  | nil => exact faithful
  | cons d rest ih => exact ih (k.act d) ((k.moved d).faithful faithful)

theorem Reached.faithful (reached : k.Reached) : Faithful k := by
  obtain ⟨deeds, rfl⟩ := reached
  refine faithful_perform deeds {} ⟨?_, ?_, ?_⟩
  · intro name c registered
    cases registered
  · intro t member
    cases member
  · intro name s here
    cases here

theorem stands_head {name : String} {value : Int64} {deeds : List Deed}
    (stands : k.Stands name value deeds) : k.values.value name = value := by
  cases deeds with
  | nil => exact stands
  | cons => exact stands.1

/-- While the value of a name stands, so does the time of its last change. -/
theorem stands_perform (deeds : List Deed) {k : Keeping} {name : String} {s : Signal}
    (here : k.values.signal? name = some s) (stands : k.Stands name s.value deeds) :
    k.clock ≤ (k.perform deeds).clock ∧ ∃ s', (k.perform deeds).values.signal? name = some s' ∧
      s'.value = s.value ∧ s'.changed = s.changed := by
  induction deeds generalizing k s with
  | nil => exact ⟨Nat.le_refl _, s, here, rfl, rfl⟩
  | cons d rest ih =>
    obtain ⟨next, there, step⟩ := (k.moved d).stepped name s here
    have value : next.value = s.value :=
      (Holding.value_of_signal there).symm.trans (stands_head stands.2)
    rcases step.stands_or_turns with ⟨_, _, changed⟩ | ⟨_, other⟩
    · obtain ⟨onward, s', found, same, unmoved⟩ := ih there (value.symm ▸ stands.2)
      exact ⟨Nat.le_trans (k.moved d).onward onward, s', found, same.trans value,
        unmoved.trans changed⟩
    · exact absurd value other

/-- What is confirmed is met, then and for as long as the value stands. -/
theorem confirmed_stays_met {c : Change} (made : k.confirmed = some c) (deeds : List Deed)
    (stands : (k.act .handle).Stands c.name c.value deeds) {condition : Condition}
    (on : condition.name = c.name) (accepts : condition.accepts c.value = true)
    (within : condition.duration ≤ c.duration) (connective : Connective) :
    ∃ v, ((k.act .handle).perform deeds).values.check [condition] connective
      ((k.act .handle).perform deeds).clock = .ok v ∧ v.met = true := by
  obtain ⟨timer, hand, made⟩ := Option.bind_eq_some_iff.mp made
  obtain ⟨rfl, s, here, _, value, stood⟩ := Holding.fire_confirms made
  have satisfied : s.satisfies condition k.clock = true := by
    simp only [Signal.satisfies, Bool.and_eq_true, decide_eq_true_eq]
    exact ⟨value.symm ▸ accepts, Nat.le_trans within stood⟩
  have stands' : k.Stands timer.name s.value (.handle :: deeds) :=
    ⟨Holding.value_of_signal here, value.symm ▸ stands⟩
  obtain ⟨onward, s', found, same, unmoved⟩ := stands_perform _ here stands'
  have found' : ((k.act .handle).perform deeds).values.signal? condition.name = some s' := by
    rw [on]
    exact found
  have satisfied' := Signal.satisfies_later same unmoved onward satisfied
  exact ⟨_, Condition.check_single found' satisfied' connective, rfl⟩

/-- What a timer confirms was asked for by a registered condition, and every condition on the value
for no longer than that is found met from then on, until the value changes. What any check finds met
it finds met later if the values are the same. And the live value is marked as confirmed only while
a registered timed condition is satisfied by it. -/
theorem confirmations_genuine_and_lasting (reached : k.Reached) :
    (∀ c, k.confirmed = some c →
      k.values.Asks c.name c.value c.duration ∧
      ∀ deeds, (k.act .handle).Stands c.name c.value deeds →
        ∀ condition, condition.name = c.name → condition.accepts c.value = true →
          condition.duration ≤ c.duration → ∀ connective, ∃ v,
            ((k.act .handle).perform deeds).values.check [condition] connective
              ((k.act .handle).perform deeds).clock = .ok v ∧ v.met = true) ∧
    (∀ conditions connective now later v, now ≤ later →
      k.values.check conditions connective now = .ok v → v.met = true →
        ∃ v', k.values.check conditions connective later = .ok v' ∧ v'.met = true) ∧
    (∀ name s, k.values.signal? name = some s → s.confirmed = true →
      ∃ c ∈ k.values.registeredFor name, c.name = name ∧ c.isTimed = true ∧
        s.satisfies c k.clock = true) := by
  have faithful := reached.faithful
  refine ⟨fun c made => ⟨?_, ?_⟩, ?_, ?_⟩
  · obtain ⟨timer, hand, made⟩ := Option.bind_eq_some_iff.mp made
    obtain ⟨rfl, _⟩ := Holding.fire_confirms made
    exact faithful.asked timer (by simp [outstanding, hand])
  · intro deeds stands condition on accepts within connective
    exact confirmed_stays_met made deeds stands on accepts within connective
  · intro conditions connective now later v passed done met
    exact Condition.check_later passed connective conditions done met
  · intro name s here flag
    obtain ⟨_, ⟨c, registered, on, timed, accepts, rfl⟩, stood⟩ := faithful.marked name s here flag
    refine ⟨c, registered, on, timed, ?_⟩
    simp [Signal.satisfies, accepts, stood]

/-- A tank is full when its level has stood for a while; the timer for that has been taken. -/
def brimming : Keeping :=
  ({} : Keeping).perform [.add ((Condition.between "level" 5 10).sustained 100000) 0,
    .add ((Condition.between "level" 0 7).sustained 30000) 0, .start, .submit "level" 5 0, .take,
    .apply, .pass 30000, .release, .handle, .pass 70000, .release]

/-- The same level is reported again, and the values are stopped. -/
def calm : List Deed := [.submit "level" 5 100000, .pass 1, .take, .apply, .stop, .pass 60000]

theorem brimming_stays_met :
    brimming.confirmed = some ⟨"level", 5, 100000, true⟩ ∧
    (∃ v, ((brimming.act .handle).perform calm).values.check
      [(Condition.equals "level" 5).sustained 99999] .or
      ((brimming.act .handle).perform calm).clock = .ok v ∧ v.met = true) ∧
    (∃ v, brimming.values.check [(Condition.equals "level" 5).sustained 100000] .and 100001 =
      .ok v ∧ v.met = true) ∧
    ∃ c ∈ brimming.values.registeredFor "level", c.name = "level" ∧ c.isTimed = true ∧
      (Signal.mk 5 0 0 true 1).satisfies c brimming.clock = true := by
  have made : brimming.confirmed = some ⟨"level", 5, 100000, true⟩ := by decide +kernel
  obtain ⟨confirms, lasts, marks⟩ := confirmations_genuine_and_lasting (k := brimming) ⟨_, rfl⟩
  refine ⟨made, ?_, ?_, marks "level" ⟨5, 0, 0, true, 1⟩ (by decide +kernel) rfl⟩
  · exact (confirms _ made).2 calm (by decide +kernel) _ rfl (by decide) (by decide) .or
  · exact lasts _ .and 100000 100001 ⟨true, [⟨"level", 5, 100000⟩]⟩ (by decide)
      (by decide +kernel) rfl

end Keeping
end Statechart
