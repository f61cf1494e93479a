import Statechart.Proofs.Course
import Mathlib.Data.List.Induction
/-!
What the checks of one trigger amount to. Its own value says at any time what the last of its checks
found, and tells the next check whether anything is new. So an edge trigger raises its event and its
reset event by turns, and a level trigger raises its event whenever a check is met. This needs that
nothing but the engine writes the trigger's value.
-/

namespace Statechart

/-- The checks of this trigger among some checks. -/
def checksOf (t : Trigger) (log : List Inspection) : List Inspection :=
  log.filter (·.trigger = t)

/-- What is known from some checks, made one after the other: nothing is met before the first. -/
def lastMet (log : List Inspection) : Bool := log.foldl Inspection.after false

/-- The names of the events that some checks raised, in order. -/
def raisedNames (log : List Inspection) : List String :=
  (log.flatMap (·.raised)).map (·.name)

theorem last_met_snoc (log : List Inspection) (i : Inspection) :
    lastMet (log ++ [i]) = i.after (lastMet log) := by
  simp [lastMet]

theorem raised_names_snoc (log : List Inspection) (i : Inspection) :
    raisedNames (log ++ [i]) = raisedNames log ++ i.raised.map (·.name) := by
  simp [raisedNames]

namespace Engine
variable {σ : Type} (e : Engine σ) {t : Trigger}

theorem checks_none (ts : List Trigger) (absent : t ∉ ts) :
    checksOf t (e.inspections ts) = [] := by
  refine List.filter_eq_nil_iff.mpr fun i member here => absent ?_
  rw [← map_trigger_inspections ts e]
  exact of_decide_eq_true here ▸ List.mem_map_of_mem member

/-- A pass checks a registered trigger once, with those before it checked already. -/
theorem checks_own (unique : (e.triggers.map (·.name)).Nodup) {before after : List Trigger}
    (order : e.triggers = before ++ t :: after) :
    checksOf t (e.inspections e.triggers) = [(before.foldl checkTrigger e).inspect t] := by
  rw [order] at unique ⊢
  obtain ⟨_, tail, across⟩ := List.nodup_append.mp unique.of_map
  have first := checks_none e before fun member => across t member t (List.mem_cons_self ..) rfl
  have later := checks_none ((before.foldl checkTrigger e).checkTrigger t) after
    (List.nodup_cons.mp tail).1
  unfold checksOf at first later ⊢
  rw [inspections_append, inspections, List.filter_append, List.filter_cons, first, later]
  simp [inspect]

end Engine

/-- The places of a list that is one longer are those of the list and the one at the end. -/
theorem at_places_snoc {α : Type} {P : Nat → α → Prop} {items : List α} {last : α} :
    (∀ k a, (items ++ [last])[k]? = some a → P k a) ↔
      (∀ k a, items[k]? = some a → P k a) ∧ P items.length last := by
  constructor
  · intro all
    constructor
    · intro k a found
      have early := (List.getElem?_eq_some_iff.mp found).1
      exact all k a ((List.getElem?_append_left early).trans found)
    · exact all items.length last List.getElem?_concat_length
  · rintro ⟨old, new⟩ k a found
    by_cases early : k < items.length
    · exact old k a ((List.getElem?_append_left early).symm.trans found)
    · have bound := (List.getElem?_eq_some_iff.mp found).1
      rw [List.length_append, List.length_singleton] at bound
      have here : k = items.length := by omega
      subst here
      rw [List.getElem?_concat_length] at found
      cases found
      exact new

/-- The event and the reset event of a trigger by turns, beginning with the event. -/
def Alternate (t : Trigger) (names : List String) : Prop :=
  ∀ (k : Nat) (name : String), names[k]? = some name →
    name = if k % 2 = 0 then t.name else t.resetName

theorem alternate_snoc {t : Trigger} {names : List String} {next : String}
    (alternate : Alternate t names)
    (due : next = if names.length % 2 = 0 then t.name else t.resetName) :
    Alternate t (names ++ [next]) :=
  at_places_snoc.mpr ⟨alternate, due⟩

theorem alternate_last {t : Trigger} {names : List String} (alternate : Alternate t names) :
    names.getLast? = some t.name ↔ names.length % 2 = 1 := by
  rw [List.getLast?_eq_getElem?]
  constructor
  · intro last
    have parity := alternate _ _ last
    have bound := (List.getElem?_eq_some_iff.mp last).1
    by_contra even
    rw [if_neg (by omega)] at parity
    exact t.reset_ne_name parity.symm
  · intro odd
    have found : names[names.length - 1]? = some names[names.length - 1] :=
      List.getElem?_eq_getElem (by omega)
    have parity := alternate _ _ found
    rw [if_pos (by omega)] at parity
    rw [found, parity]

theorem alternate_turning {t : Trigger} {names : List String} {before : Bool}
    (alternate : Alternate t names) (parity : before = true ↔ names.length % 2 = 1) (now : Bool) :
    Alternate t (names ++ t.turning before now) ∧
      (now = true ↔ (names ++ t.turning before now).length % 2 = 1) := by
  cases before with
  | false =>
    have even : names.length % 2 = 0 := by simpa using parity
    cases now with
    | false => simpa [Trigger.turning] using ⟨alternate, even⟩
    | true =>
      refine ⟨alternate_snoc alternate (if_pos even).symm, ?_⟩
      simp [Trigger.turning]
      omega
  | true =>
    have odd : names.length % 2 = 1 := parity.mp rfl
    cases now with
    | false =>
      refine ⟨alternate_snoc alternate (by rw [if_neg (by omega)]), ?_⟩
      simp [Trigger.turning]
      omega
    | true => simpa [Trigger.turning] using ⟨alternate, odd⟩

/-- Every check of an edge trigger raises what its turning calls for. -/
def Turns (t : Trigger) (log : List Inspection) : Prop :=
  ∀ (k : Nat) (i : Inspection), log[k]? = some i →
    i.raised.map (·.name) = t.turning (lastMet (log.take k)) (i.after (lastMet (log.take k)))

theorem turns_snoc {t : Trigger} {log : List Inspection} {i : Inspection} :
    Turns t (log ++ [i]) ↔ Turns t log ∧
      i.raised.map (·.name) = t.turning (lastMet log) (i.after (lastMet log)) := by
  unfold Turns
  rw [at_places_snoc, List.take_left]
  -- What comes before a place is the same in both lists.
  refine and_congr_left' (forall_congr' fun k => forall₂_congr fun j found => ?_)
  have early := (List.getElem?_eq_some_iff.mp found).1
  rw [List.take_append_of_le_length (Nat.le_of_lt early)]

/-- What is raised at turnings alternates, and tells at last whether the conditions are met. -/
theorem alternate_of_turns {t : Trigger} {log : List Inspection} (turns : Turns t log) :
    Alternate t (raisedNames log) ∧
      (lastMet log = true ↔ (raisedNames log).length % 2 = 1) := by
  induction log using List.reverseRecOn with
  | nil => simp [Alternate, lastMet, raisedNames]
  | append_singleton before i ih =>
    obtain ⟨turns', last⟩ := turns_snoc.mp turns
    obtain ⟨alternate, parity⟩ := ih turns'
    rw [last_met_snoc, raised_names_snoc, last]
    exact alternate_turning alternate parity _

/-- What the checks of a trigger so far amount to, with the trigger's value as it is now. -/
structure Abides (t : Trigger) (value : Int64) (log : List Inspection) : Prop where
  value : value = mark (lastMet log)
  level : t.mode = .level → ∀ i ∈ log, i.raised.map (·.name) = if i.met then [t.name] else []
  edge : t.mode = .edge → Turns t log

theorem abides_nil (t : Trigger) : Abides t 0 [] where
  value := rfl
  level _ i member := by cases member
  edge _ k i found := by cases found

theorem Abides.check {σ : Type} {e : Engine σ} {t : Trigger} {log : List Inspection}
    (abides : Abides t (e.values.value t.name) log) :
    Abides t ((e.checkTrigger t).values.value t.name) (log ++ [e.inspect t]) := by
  have checked := e.checked t
  have armed : e.isArmed t = lastMet log := by
    rw [Engine.isArmed, abides.value, mark_ne_zero]
  constructor
  · rw [last_met_snoc]
    exact checked.value abides.value
  · intro mode i member
    rcases List.mem_append.mp member with old | new
    · exact abides.level mode i old
    · rw [List.mem_singleton.mp new]
      exact checked.level mode
  · intro mode
    have raises := checked.edge mode
    rw [armed] at raises
    exact turns_snoc.mpr ⟨abides.edge mode, raises⟩

/-- A pass that checks the triggers settles each of them once, on its own value. -/
theorem Engine.derive_abides {σ : Type} (e : Engine σ) {t : Trigger}
    (unique : (e.triggers.map (·.name)).Nodup)
    (sole : ∀ k ∈ e.triggers, k.name = t.name → k = t) (change : Change) {log : List Inspection}
    (abides : Abides t (e.values.value t.name) log) :
    Abides t ((e.derive change).values.value t.name)
      (log ++ checksOf t (e.inspections e.triggers)) := by
  by_cases listed : t ∈ e.triggers
  · -- The value is written at the trigger's own turn of the pass and at no other.
    obtain ⟨before, after, order⟩ := List.append_of_mem listed
    obtain ⟨own, done⟩ := own_turn e unique order change
    rw [checks_own e unique order, Holding.value, done]
    rw [Holding.value, ← own] at abides
    exact abides.check
  · have kept : (e.derive change).values.value t.name = e.values.value t.name :=
      congrArg (fun s : Option Signal => (s.map (·.value)).getD 0)
        (signal_pass e.triggers e fun k member same => listed (sole k member same ▸ member))
    rw [checks_none e e.triggers listed, List.append_nil, kept]
    exact abides

theorem value_congr {h h' : Holding} (same : h'.signals = h.signals) (name : String) :
    h'.value name = h.value name := by
  simp only [Holding.value, Holding.signal?, same]

theorem value_fire (h : Holding) (timer : HoldTimer) (now : Nat) (name : String) :
    (h.fire timer now).1.value name = h.value name := by
  rcases h.fire_cases timer now with same | ⟨s, here, _, same⟩
  · rw [same]
  · rw [same]
    unfold Holding.value Holding.signal? at *
    rw [Table.find_put]
    split
    · next own => simp [own, here, Signal.confirm]
    · rfl

/-- A name that is heard of for the first time stands at zero, as it did before. -/
theorem value_ensured {h h' : Holding} {key : String} {now : Nat}
    (same : h'.signals = Holding.ensured h.signals key now) (name : String) :
    h'.value name = h.value name := by
  unfold Holding.ensured at same
  split at same
  · exact value_congr same name
  · next unknown =>
    have free : h.signals.find? key = none := by
      simpa [Table.contains] using unknown
    simp only [Holding.value, Holding.signal?, same, Table.find_put]
    split
    · next here => simp [here, free, Signal.create]
    · rfl

namespace Run
variable {σ : Type} {r r' : Run σ} {a : Turn σ} {t : Trigger}

/-- A value changes in a turn only if the turn writes it or checks the triggers. -/
theorem Turned.value (turned : Turned r a r') (quiet : r.pass? a = none) {name : String}
    (own : name ∉ r.written a) :
    r'.engine.values.value name = r.engine.values.value name := by
  cases turned with
  | still _ _ _ same _ => exact value_congr (congrArg Prod.fst same) name
  | passed made => rw [quiet] at made; cases made
  | @applied _ u rest taken same _ =>
    have other : name ≠ u.name := by simpa [written, taken] using own
    rw [value_congr (congrArg Prod.fst same) name, Holding.value, Holding.signal_apply,
      if_neg other]
    rfl
  | @fired _ timer timers _ same _ =>
    rw [value_congr (congrArg Prod.fst same) name]
    exact value_fire { r.engine.values with timers } timer r.engine.clock name
  | @stored _ key value same _ =>
    have other : name ≠ key := by simpa [written] using own
    rw [value_congr (congrArg Prod.fst same) name]
    simp [Holding.value, Holding.signal?, Holding.store, Table.find_put, other]
  | ensured same _ => exact value_ensured (congrArg Prod.fst same) name
  | enrolled _ _ same _ => exact value_ensured (congrArg Prod.fst same) name

/-- A turn checks a registered trigger once or not at all, and writes its value at no other time. -/
theorem Turned.abides (turned : Turned r a r') (unique : (r.engine.triggers.map (·.name)).Nodup)
    (sole : ∀ k ∈ r.engine.triggers, k.name = t.name → k = t) (own : t.name ∉ r.written a)
    {log : List Inspection} (abides : Abides t (r.engine.values.value t.name) log) :
    Abides t (r'.engine.values.value t.name) (log ++ checksOf t (r.inspected a)) := by
  cases made : r.pass? a with
  | none =>
    rw [turned.value made own]
    simpa [inspected, made, checksOf] using abides
  | some pass =>
    obtain ⟨e, change⟩ := pass
    obtain ⟨memory, triggers, _, after⟩ := turned.of_pass made
    rw [← triggers] at unique sole
    rw [← value_congr (congrArg Prod.fst memory)] at abides
    rw [inspected, made, after]
    exact Engine.derive_abides e unique sole change abides

theorem course_abides (client : σ) (turns : List (Turn σ))
    (sole : ∀ k ∈ ((fresh client).course turns).engine.triggers, k.name = t.name → k = t)
    (own : t.name ∉ (fresh client).writes turns) :
    Abides t (((fresh client).course turns).engine.values.value t.name)
      (checksOf t ((fresh client).inspections turns)) := by
  induction turns using List.reverseRecOn with
  | nil => exact abides_nil t
  | append_singleton before a ih =>
    -- Triggers only become more, so at every turn before the name is this trigger's or nobody's.
    have reached : ((fresh client).course before).Reached := ⟨client, before, rfl⟩
    have turned := ((fresh client).course before).turned a
    rw [writes, along_snoc, List.mem_append, not_or] at own
    rw [course_snoc] at sole ⊢
    have sole' (k : Trigger) (member : k ∈ ((fresh client).course before).engine.triggers)
        (same : k.name = t.name) : k = t := sole k (turned.triggers_subset member) same
    rw [inspections, along_snoc, checksOf, List.filter_append]
    exact turned.abides reached.enlisted.distinct sole' own.2 (ih sole' own.1)

/-- A pass raises what its checks raise, in the order in which the triggers were registered, and
after all that the internal event with the change. -/
theorem Reached.pass_in_order (reached : r.Reached) {e : Engine σ} {change : Change}
    (made : r.pass? a = some (e, change)) :
    (r.inspected a).map (·.trigger) = r.engine.triggers ∧
    (r.turn a).engine.events.items = r.engine.events.items ++
      (r.inspected a).flatMap (·.raised) ++ [.internal change.reading] ∧
    ∀ i ∈ r.inspected a, i.raised.length ≤ 1 ∧ ∀ event ∈ i.raised,
      (event.name = i.trigger.name ∨ event.name = i.trigger.resetName) ∧
        event.isInternal = false := by
  have enlisted := reached.enlisted
  obtain ⟨_, triggers, events, after⟩ := (r.turned a).of_pass made
  simp only [inspected, made]
  rw [after, ← events, ← triggers]
  refine ⟨Engine.map_trigger_inspections _ _, e.events_derive change, ?_⟩
  intro i member
  obtain ⟨before, t, after, order, rfl⟩ := Engine.mem_inspections member
  obtain ⟨single, names⟩ := ((before.foldl Engine.checkTrigger e).checked t).raises
  have free := enlisted.unreserved t (by simp [← triggers, order])
  refine ⟨single, fun event raised => ⟨names event raised, ?_⟩⟩
  rcases names event raised with own | reset
  · have other : t.name ≠ internalEvent := by
      intro same
      simp [isReserved, same] at free
    simpa [Event.isInternal, own] using other
  · simpa [Event.isInternal, reset] using t.reset_ne_internal

/-- Over a whole course, with the value of a trigger written by the engine alone: it is 0 or 1. An
edge trigger raises its event and its reset event by turns, the event first, and its value is 1
exactly while the event was the last of them. A level trigger raises its event at the checks that
are met, and nothing else. Every pass raises in the order of the triggers. -/
theorem edges_alternate_and_levels_repeat (client : σ) (turns : List (Turn σ)) {t : Trigger}
    (listed : t ∈ ((fresh client).course turns).engine.triggers)
    (own : t.name ∉ (fresh client).writes turns) :
    let r := (fresh client).course turns
    let checks := checksOf t ((fresh client).inspections turns)
    (r.engine.values.value t.name = 0 ∨ r.engine.values.value t.name = 1) ∧
    (t.mode = .edge → Alternate t (raisedNames checks) ∧
      (r.engine.values.value t.name = 1 ↔ (raisedNames checks).getLast? = some t.name)) ∧
    (t.mode = .level → ∀ i ∈ checks, i.raised.map (·.name) = if i.met then [t.name] else []) ∧
    ∀ a e change, r.pass? a = some (e, change) →
      (r.inspected a).map (·.trigger) = r.engine.triggers ∧
      (r.turn a).engine.events.items = r.engine.events.items ++
        (r.inspected a).flatMap (·.raised) ++ [.internal change.reading] ∧
      ∀ i ∈ r.inspected a, i.raised.length ≤ 1 ∧ ∀ event ∈ i.raised,
        (event.name = i.trigger.name ∨ event.name = i.trigger.resetName) ∧
          event.isInternal = false := by
  have reached : ((fresh client).course turns).Reached := ⟨client, turns, rfl⟩
  -- Triggers have names of their own, so no other trigger writes this value.
  have sole (k : Trigger) (member : k ∈ ((fresh client).course turns).engine.triggers)
      (same : k.name = t.name) : k = t :=
    List.inj_on_of_nodup_map reached.enlisted.distinct member listed same
  have abides := course_abides client turns sole own
  refine ⟨?_, ?_, abides.level, fun a e change made => reached.pass_in_order made⟩
  · rw [abides.value]
    cases lastMet (checksOf t ((fresh client).inspections turns))
    · exact .inl rfl
    · exact .inr rfl
  · intro mode
    obtain ⟨alternate, parity⟩ := alternate_of_turns (abides.edge mode)
    refine ⟨alternate, ?_⟩
    rw [alternate_last alternate, ← parity, abides.value]
    cases lastMet (checksOf t ((fresh client).inspections turns)) <;> decide

/-- Two triggers on one range of a value, one of each mode. -/
def brisk : Trigger := { name := "brisk", conditions := [.between "x" 1 10] }

def steady : Trigger := { brisk with name := "steady", mode := .level }

/-- A value goes into the range, stays, goes out and comes back; the first check comes before there
is a value. -/
def breeze : List (Turn Unit) :=
  [.register (.trigger brisk), .register (.trigger steady), .start .values, .start .events,
    .derive ⟨"x", 0, 0, false⟩] ++
  [5, 6, 20, 7].flatMap fun value => [.assign "x" value 0, .work .take, .work .apply, .work .derive]

theorem brisk_alternates_steady_repeats :
    brisk.name ∉ (fresh ()).writes breeze ∧ steady.name ∉ (fresh ()).writes breeze ∧
    raisedNames (checksOf brisk ((fresh ()).inspections breeze)) =
      ["brisk", "brisk_RESET", "brisk"] ∧
    ((fresh ()).course breeze).engine.values.value "brisk" = 1 ∧
    ∀ i ∈ checksOf steady ((fresh ()).inspections breeze),
      i.raised.map (·.name) = if i.met then ["steady"] else [] := by
  have own : brisk.name ∉ (fresh ()).writes breeze := by decide +kernel
  have own' : steady.name ∉ (fresh ()).writes breeze := by decide +kernel
  have names : raisedNames (checksOf brisk ((fresh ()).inspections breeze)) =
      ["brisk", "brisk_RESET", "brisk"] := by decide +kernel
  obtain ⟨_, edge, _⟩ := edges_alternate_and_levels_repeat () breeze (t := brisk)
    (by decide +kernel) own
  obtain ⟨_, _, level, _⟩ := edges_alternate_and_levels_repeat () breeze (t := steady)
    (by decide +kernel) own'
  have last := (edge rfl).2.mpr (by rw [names]; rfl)
  exact ⟨own, own', names, last, level rfl⟩

end Run
end Statechart
