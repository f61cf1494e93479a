import Mathlib.Algebra.GroupWithZero.Nat
import Statechart.Proofs.Confirmation
import Statechart.Proofs.Lifecycle
import Statechart.Proofs.Timeouts
/-!
Coming to rest. Updates set timers and are reported, timers are reported, reports raise events, and
events move the machine and wind its watchdog up; none of this leads back. A worker that leaves an
event in the middle has fewer points of it ahead. So if the application submits nothing and the
clock stands still, the workers run out of work in any order: each piece of work costs less than it
took off the load.
-/

namespace Statechart

/-- The application submits nothing. It may refuse events, stop the machine, start it again and
break down. -/
def Handler.Mute {σ : Type} (h : Handler σ) : Prop :=
  ∀ n client, ∀ q ∈ (h n client).1.requests, q = .stop ∨ q = .start

/-- All that the workers have yet to deal with. -/
structure Inventory where
  events : List Event
  changes : List Change
  batch : List Update
  updates : List Update
  timers : List HoldTimer
  /-- What the watchdog waits for, if it is at its post. -/
  watch : Option Armed
  /-- What is left of the events in the middle of which workers are. -/
  errands : List Errand
  strays : Nat

/-- The durations for which the timed conditions of a name ask. -/
def Definition.durationsOf (d : Definition) (name : String) : List Nat :=
  Holding.durations (d.conditions.filter (·.name = name))

namespace Inventory

/-- What a report may come to: an event of each trigger and the internal one. An event counts for
its points and for a worker that a stop does not wait for. -/
def perChange (d : Definition) : Nat := 18 * (d.triggers.length + 1) + 1

/-- What an update may come to: a report, and for every duration a timer, which may come to another
report. -/
def perUpdate (d : Definition) (u : Update) : Nat :=
  perChange d + (perChange d + 1) * (d.durationsOf u.name).length

/-- An upper bound on the pieces of work that are left at some instant. A watchdog whose time is up
counts for its event and for speaking up. -/
def load (d : Definition) (now : Nat) (i : Inventory) : Nat :=
  18 * i.events.length + (i.errands.map fun errand => 2 * errand.rank).sum + i.strays +
    perChange d * i.changes.length + (perChange d + 1) * i.timers.length +
    (i.batch.map fun u => perUpdate d u + 1).sum + (i.updates.map fun u => perUpdate d u + 2).sum +
    if i.watch.any (·.deadline ≤ now) then 19 else 0

theorem sum_updates (d : Definition) (updates : List Update) :
    (updates.map fun u => perUpdate d u + 2).sum =
      (updates.map fun u => perUpdate d u + 1).sum + updates.length := by
  induction updates with
  | nil => rfl
  | cons u rest ih =>
    simp only [List.map_cons, List.sum_cons, List.length_cons, ih]
    omega

end Inventory

theorem Holding.sorted_set_timers (item : Nat → HoldTimer) (time : Nat) (spans : List Nat)
    (a : Agenda HoldTimer) (sorted : a.entries.Pairwise fun x y => x.time ≤ y.time) :
    (setTimers item time spans a).2.entries.Pairwise fun x y => x.time ≤ y.time := by
  induction spans generalizing a with
  | nil => exact sorted
  | cons span rest ih =>
    unfold setTimers
    split
    · exact sorted
    · exact ih _ (Agenda.sorted_insert _ _ sorted)

/-- In an open agenda that is in order nothing that is due is kept back. -/
theorem Agenda.release_due {α : Type} {a : Agenda α} (opened : a.isOpen = true)
    (sorted : a.entries.Pairwise fun x y => x.time ≤ y.time) {e : Due α} (member : e ∈ a.entries)
    {now : Nat} (due : e.time ≤ now) : a.release? now ≠ none := by
  obtain ⟨entries, issued, isOpen⟩ := a
  subst opened
  cases entries with
  | nil => cases member
  | cons first rest =>
    have early : first.time ≤ now := by
      rcases List.mem_cons.mp member with rfl | later
      · exact due
      · exact Nat.le_trans ((List.pairwise_cons.mp sorted).1 e later) due
    simp [release?, early]

theorem Mailbox.empty_of_pop {α : Type} {m : Mailbox α} (opened : m.isOpen = true)
    (nothing : m.pop? = none) : m.items = [] := by
  obtain ⟨items, isOpen⟩ := m
  subst opened
  cases items with
  | nil => rfl
  | cons => cases nothing

namespace Hierarchy
variable {h h' : Hierarchy} {now : Nat}

/-- What the watchdog waits for, if it is at its post. -/
def watch? (h : Hierarchy) : Option Armed := if h.isAlert then h.armed else none

theorem armed_for_later {name : String} {a : Armed} (armed : h.armedFor name now = some a) :
    now < a.deadline := by
  unfold armedFor at armed
  split at armed
  · cases armed
  · cases armed
    simp only
    omega

/-- A watchdog that is wound up waits for a later instant. -/
theorem watch_enter {name : String} (leaves : (h.enter name now).Leaves h') {a : Armed}
    (waits : h'.watch? = some a) : h.watch? = some a ∨ now < a.deadline := by
  unfold watch? at waits ⊢
  rw [enter_eq] at leaves
  split at leaves
  · rcases leaves with same | same <;> cases same
  split at leaves <;> rcases leaves with same | same <;> cases same
  · exact .inl waits
  · split at waits
    · exact .inr (armed_for_later waits)
    · cases waits

theorem watch_start (stands : h.current ≠ none) (leaves : (h.start now).Leaves h') {a : Armed}
    (waits : h'.watch? = some a) : h.watch? = some a ∨ now < a.deadline := by
  unfold watch? at waits ⊢
  rw [start_eq] at leaves
  split at leaves
  · rcases leaves with same | same <;> cases same
    exact .inl waits
  split at leaves
  · next vacant => exact absurd vacant stands
  split at leaves <;> rcases leaves with same | same <;> cases same
  · exact .inl waits
  · exact .inr (armed_for_later waits)

end Hierarchy

namespace Engine
variable {σ : Type}

def inventory (e : Engine σ) : Inventory where
  events := e.events.items
  changes := e.changes.items
  batch := e.values.batch
  updates := e.values.updates.items
  timers := e.values.timers.entries.map (·.item)
  watch := e.states.watch?
  errands := e.pending.map (·.errand)
  strays := e.strays

def load (d : Definition) (e : Engine σ) : Nat := e.inventory.load d e.clock

/-- What each piece of work takes off the inventory, and what it adds. -/
inductive Spends (d : Definition) (e : Engine σ) : Work → Engine σ → Prop
  /-- A report enqueues an event of each trigger at most, and the internal event in any case. -/
  | derive {e' : Engine σ} {change : Change} {rest : List Change} {raised : List Event} :
    e.inventory.changes = change :: rest → raised.length ≤ d.triggers.length →
    e'.inventory = { e.inventory with
      changes := rest
      events := e.inventory.events ++ (raised ++ [.internal change.reading]) } →
    Spends d e .derive e'
  /-- An update makes one report at most, and sets no two timers for one duration. If it breaks the
  worker down it makes none, and what else had been taken is lost. -/
  | apply {e' : Engine σ} {u : Update} {rest left : List Update} {spans : List Nat}
    {generation : Nat} {timers : List HoldTimer} {report : Option Change} :
    e.inventory.batch = u :: rest → left = rest ∨ left = [] ∧ report = none →
    spans.Nodup → (∀ span ∈ spans, span ∈ d.durationsOf u.name) →
    timers.Perm (spans.map (⟨u.name, u.value, ·, generation⟩) ++ e.inventory.timers) →
    e'.inventory = { e.inventory with
      batch := left, timers, changes := e.inventory.changes ++ report.toList } →
    Spends d e .apply e'
  | take {e' : Engine σ} : e.inventory.batch = [] → e.inventory.updates ≠ [] →
    e'.inventory = { e.inventory with batch := e.inventory.updates, updates := [] } →
    e'.memory = e.memory → Spends d e .take e'
  /-- A timer makes one report at most. -/
  | fire {e' : Engine σ} {timer : HoldTimer} {rest : List HoldTimer} {report : Option Change} :
    e.inventory.timers = timer :: rest →
    e'.inventory = { e.inventory with
      timers := rest, changes := e.inventory.changes ++ report.toList } →
    Spends d e .fire e'
  | wake {e' : Engine σ} {a : Armed} : e.inventory.watch = some a → a.deadline ≤ e.clock →
    0 < a.timeout → e'.inventory = { e.inventory with
      watch := some { a with deadline := e.clock + a.timeout }
      events := e.inventory.events ++ [.stateTimeout a.state] } →
    e'.memory = e.memory → Spends d e .wake e'
  /-- The watchdog breaks down. -/
  | overrun {e' : Engine σ} {a : Armed} : e.inventory.watch = some a → a.deadline ≤ e.clock →
    e'.inventory = { e.inventory with watch := none } → e'.memory = e.memory →
    Spends d e .wake e'
  /-- An event enqueues nothing, and leaves all values and timers alone. -/
  | process {e' : Engine σ} {event : Event} {rest : List Event} {parked : Option Errand}
    {watch : Option Armed} {strays : Nat} :
    e.inventory.events = event :: rest → (∀ errand ∈ parked, errand.rank < 9) →
    (∀ a, watch = some a → e.inventory.watch = some a ∨ e.clock < a.deadline) →
    strays ≤ e.inventory.strays + 1 →
    e'.inventory = { e.inventory with
      events := rest, watch, errands := e.inventory.errands ++ parked.toList, strays } →
    e'.memory = e.memory → Spends d e .process e'
  /-- Nor does the rest of one. What is left of it then is less than before. -/
  | carry {e' : Engine σ} {index : Nat} {errand : Errand} {parked : Option Errand}
    {watch : Option Armed} {strays : Nat} :
    e.inventory.errands[index]? = some errand → (∀ left ∈ parked, left.rank < errand.rank) →
    (∀ a, watch = some a → e.inventory.watch = some a ∨ e.clock < a.deadline) →
    strays ≤ e.inventory.strays + 1 →
    e'.inventory = { e.inventory with
      watch, errands := e.inventory.errands.eraseIdx index ++ parked.toList, strays } →
    e'.memory = e.memory → Spends d e (.carry index) e'
  | leave {e' : Engine σ} : 0 < e.inventory.strays →
    e'.inventory = { e.inventory with strays := e.inventory.strays - 1 } →
    e'.memory = e.memory → Spends d e .leave e'

theorem Spends.congr {d : Definition} {e e' e'' : Engine σ} {w : Work} (spends : e.Spends d w e')
    (inventory : e''.inventory = e'.inventory) (memory : e''.memory = e'.memory) :
    e.Spends d w e'' := by
  cases spends with
  | derive taken few after => exact .derive taken few (inventory.trans after)
  | apply taken lost apart asked same after =>
    exact .apply taken lost apart asked same (inventory.trans after)
  | take emptied waits after kept =>
    exact .take emptied waits (inventory.trans after) (memory.trans kept)
  | fire taken after => exact .fire taken (inventory.trans after)
  | wake armed due waits after kept =>
    exact .wake armed due waits (inventory.trans after) (memory.trans kept)
  | overrun armed due after kept =>
    exact .overrun armed due (inventory.trans after) (memory.trans kept)
  | process taken ranks waits few after kept =>
    exact .process taken ranks waits few (inventory.trans after) (memory.trans kept)
  | carry here ranks waits few after kept =>
    exact .carry here ranks waits few (inventory.trans after) (memory.trans kept)
  | leave strayed after kept => exact .leave strayed (inventory.trans after) (memory.trans kept)

theorem due_of_watch {now : Nat} {before after : Option Armed}
    (waits : ∀ a, after = some a → before = some a ∨ now < a.deadline) :
    (if after.any (·.deadline ≤ now) then 19 else 0) ≤
      if before.any (·.deadline ≤ now) then 19 else 0 := by
  cases after with
  | none => simp
  | some a =>
    rcases waits a rfl with rfl | later
    · exact Nat.le_refl _
    · simp [Nat.not_le_of_lt later]

theorem rank_pos (errand : Errand) : 0 < errand.rank := by
  cases errand <;> exact Nat.succ_pos _

theorem sum_parked {k : Nat} {parked : Option Errand} (less : ∀ errand ∈ parked, errand.rank < k)
    (positive : 0 < k) : (parked.toList.map fun errand => 2 * errand.rank).sum + 2 ≤ 2 * k := by
  cases parked with
  | none => simp; omega
  | some errand =>
    have := less errand rfl
    simp
    omega

/-- Each piece of work makes the load less. -/
theorem Spends.lt {d : Definition} {e e' : Engine σ} {w : Work} (spends : e.Spends d w e')
    (clock : e'.clock = e.clock) : e'.load d < e.load d := by
  have reported (report : Option Change) :
      Inventory.perChange d * report.toList.length ≤ Inventory.perChange d := by
    cases report <;> simp
  unfold load
  rw [clock]
  cases spends with
  | derive taken few after =>
    rw [after]
    simp only [Inventory.load, taken, List.length_append, List.length_cons, List.length_nil,
      Nat.mul_add, Inventory.perChange]
    omega
  | @apply _ u rest left spans _ timers report taken lost apart asked same after =>
    have spared : spans.length ≤ (d.durationsOf u.name).length :=
      (List.subperm_of_subset apart asked).length_le
    have costs := Nat.mul_le_mul_left (Inventory.perChange d + 1) spared
    have reported := reported report
    have kept : (left.map fun u => Inventory.perUpdate d u + 1).sum ≤
        (rest.map fun u => Inventory.perUpdate d u + 1).sum := by
      rcases lost with rfl | ⟨rfl, _⟩
      · exact Nat.le_refl _
      · exact Nat.zero_le _
    rw [after]
    simp only [Inventory.load, taken, same.length_eq, List.length_append, List.length_map,
      List.map_cons, List.sum_cons, Nat.mul_add]
    simp only [Inventory.perUpdate] at kept ⊢
    omega
  | take emptied waits after =>
    have taken := List.length_pos_iff.mpr waits
    rw [after]
    simp only [Inventory.load, emptied, Inventory.sum_updates, List.map_nil, List.sum_nil]
    omega
  | @fire _ _ _ report taken after =>
    have reported := reported report
    rw [after]
    simp only [Inventory.load, taken, List.length_append, List.length_cons, Nat.mul_add]
    omega
  | @wake _ a armed due waits after =>
    have later : ¬ e.clock + a.timeout ≤ e.clock := by omega
    rw [after]
    simp only [Inventory.load, armed, due, later, List.length_append, List.length_singleton,
      Option.any_some, decide_true, decide_false, if_true, Bool.false_eq_true, if_false]
    omega
  | @overrun _ a armed due after =>
    rw [after]
    simp only [Inventory.load, armed, due, Option.any_some, Option.any_none, decide_true, if_true,
      Bool.false_eq_true, if_false]
    omega
  | process taken ranks waits few after =>
    have due := due_of_watch waits
    have parked := sum_parked ranks (by decide)
    rw [after]
    simp only [Inventory.load, taken, List.length_cons, List.map_append, List.sum_append]
    omega
  | @carry _ index errand parked _ _ here ranks waits few after =>
    have due := due_of_watch waits
    have parked := sum_parked ranks (rank_pos errand)
    obtain ⟨bound, same⟩ := List.getElem?_eq_some_iff.mp here
    have parts :=
      ((List.getElem_cons_eraseIdx_perm bound).map fun errand => 2 * errand.rank).sum_nat
    rw [same, List.map_cons, List.sum_cons] at parts
    rw [after]
    simp only [Inventory.load, List.map_append, List.sum_append]
    omega
  | leave strayed after =>
    rw [after]
    simp only [Inventory.load]
    omega

theorem length_synthesized (ts : List Trigger) (e : Engine σ) :
    (e.synthesized ts).length ≤ ts.length := by
  induction ts generalizing e with
  | nil => exact Nat.le_refl _
  | cons t rest ih =>
    have one : (e.raises? t).toList.length ≤ 1 := by cases e.raises? t <;> simp
    have later := ih (e.checkTrigger t)
    simp only [synthesized, List.length_append, List.length_cons]
    omega

theorem inventory_derive (e : Engine σ) (change : Change) : (e.derive change).inventory =
    { e.inventory with events := e.inventory.events ++
        (e.synthesized e.triggers ++ [.internal change.reading]) } := by
  have kept := derive_frame (fun e : Engine σ => { e.inventory with events := [] })
    (fun _ _ => rfl) (fun _ _ _ => rfl) e change
  have events : (e.derive change).inventory.events =
      e.inventory.events ++ (e.synthesized e.triggers ++ [.internal change.reading]) :=
    congrArg Traffic.events (e.backlog_derive change)
  rw [← events]
  exact congrArg (fun i : Inventory => { i with events := (e.derive change).inventory.events }) kept

theorem inventory_report (e : Engine σ) (change : Option Change) : (e.report change).inventory =
    { e.inventory with changes := e.inventory.changes ++ change.toList } := by
  cases change with
  | none => simp [report, inventory]
  | some change => rfl

/-- What an event may do apart from being left in the middle, if the application submits nothing.
All waiting work stays as it is. The watchdog may be wound up or called off, and a stop may leave
the worker behind. -/
structure Calm (e e' : Engine σ) : Prop where
  clock : e'.clock = e.clock
  handler : e'.handler = e.handler
  pending : e'.pending = e.pending
  stands : e'.states.current ≠ none
  inventory : e'.inventory = { e.inventory with watch := e'.states.watch?, strays := e'.strays }
  watch : ∀ a, e'.states.watch? = some a → e.states.watch? = some a ∨ e.clock < a.deadline
  strays : e'.strays ≤ max e.strays (e.pending.length + 1)

theorem Calm.of_same {e e' : Engine σ} (stands : e.states.current ≠ none)
    (clock : e'.clock = e.clock) (handler : e'.handler = e.handler)
    (pending : e'.pending = e.pending) (current : e'.states.current = e.states.current)
    (inventory : e'.inventory = e.inventory) : e.Calm e' where
  clock := clock
  handler := handler
  pending := pending
  stands := current ▸ stands
  inventory := by
    rw [show e'.states.watch? = e.states.watch? from congrArg Inventory.watch inventory,
      show e'.strays = e.strays from congrArg Inventory.strays inventory]
    exact inventory
  watch a waits := .inl ((congrArg Inventory.watch inventory).symm.trans waits)
  strays := (congrArg Inventory.strays inventory).le.trans (Nat.le_max_left ..)

theorem Calm.trans {e e' e'' : Engine σ} (first : e.Calm e') (later : e'.Calm e'') :
    e.Calm e'' where
  clock := later.clock.trans first.clock
  handler := later.handler.trans first.handler
  pending := later.pending.trans first.pending
  stands := later.stands
  inventory := by rw [later.inventory, first.inventory]
  watch a waits := by
    rcases later.watch a waits with same | wound
    · exact first.watch a same
    · exact .inr (first.clock ▸ wound)
  strays := by
    have one := first.strays
    have two := later.strays
    rw [first.pending] at two
    omega

theorem calm_fall {e : Engine σ} (stands : e.states.current ≠ none) : e.Calm e.fall where
  clock := rfl
  handler := rfl
  pending := rfl
  stands := stands
  inventory := rfl
  watch _ waits := .inl waits
  strays := (Nat.sub_le ..).trans (Nat.le_max_left ..)

theorem inventory_up (e : Engine σ) : e.startValues.startEvents.inventory = e.inventory := by
  unfold startEvents startValues Holding.start
  split <;> split <;> rfl

theorem calm_start {e : Engine σ} (stands : e.states.current ≠ none) :
    e.Calm (e.start.left e) := by
  have current := Session.still_current.starts e
  have started := e.started
  generalize e.start = ending at current started ⊢
  cases started with
  | @up states done =>
    have inventory := inventory_up { e with rules := e.rules.close, states := states }
    rw [Ending.left] at current ⊢
    rw [start_events_frame, start_values_frame] at current inventory ⊢
    refine ⟨rfl, rfl, rfl, ?_, inventory, fun a => Hierarchy.watch_start stands (.inl done), ?_⟩
    · exact fun vacant => stands (current.symm.trans vacant)
    · exact Nat.le_max_left ..
  | overrun broken =>
    refine ⟨rfl, rfl, rfl, ?_, rfl, fun a => Hierarchy.watch_start stands (.inr broken), ?_⟩
    · exact fun vacant => stands (current.symm.trans vacant)
    · exact Nat.le_max_left ..

theorem calm_enter {e : Engine σ} {name : String} {states : Hierarchy}
    (leaves : (e.states.enter name e.clock).Leaves states) : e.Calm { e with states } where
  clock := rfl
  handler := rfl
  pending := rfl
  stands := by
    rw [(Hierarchy.enter_frame leaves).2]
    exact Option.some_ne_none name
  inventory := rfl
  watch _ := Hierarchy.watch_enter leaves
  strays := Nat.le_max_left ..

theorem calm_perform {e : Engine σ} (stands : e.states.current ≠ none) {q : Request}
    (mute : q = .stop ∨ q = .start) : e.Calm ((e.perform q).left e) := by
  have same : e.Calm e := .of_same stands rfl rfl rfl rfl rfl
  rcases mute with rfl | rfl
  · simp only [perform]
    split
    · refine ⟨rfl, rfl, rfl, stands, rfl, fun a waits => ?_, Nat.le_refl _⟩
      cases waits
    · exact same
  · simp only [perform]
    split
    · exact same
    · exact calm_start stands

/-- An event comes to an end, or is left in the middle with less than `k` points of it ahead. -/
def Yields (k : Nat) (e e' : Engine σ) : Prop :=
  ∃ (calm : Engine σ) (parked : Option (Statechart.Pending σ)), e.Calm calm ∧
    (∀ p ∈ parked, p.errand.rank < k ∧ p.handler = e.handler) ∧
    e' = { calm with pending := calm.pending ++ parked.toList }

theorem Yields.of_calm {k : Nat} {e e' : Engine σ} (calm : e.Calm e') : e.Yields k e' :=
  ⟨e', none, calm, nofun, by simp⟩

theorem Yields.after {k : Nat} {e e' e'' : Engine σ} (yields : e'.Yields k e'')
    (calm : e.Calm e') : e.Yields k e'' := by
  obtain ⟨later, parked, calm', ranks, after⟩ := yields
  exact ⟨later, parked, calm.trans calm', calm.handler ▸ ranks, after⟩

section Yields
variable {k : Nat} {e e' : Engine σ} (yields : e.Yields k e')
include yields

theorem Yields.inventory : ∃ parked : Option Errand, (∀ errand ∈ parked, errand.rank < k) ∧
    (∀ a, e'.states.watch? = some a → e.states.watch? = some a ∨ e.clock < a.deadline) ∧
    e'.strays ≤ max e.strays (e.pending.length + 1) ∧
    e'.inventory = { e.inventory with
      watch := e'.states.watch?
      errands := e.inventory.errands ++ parked.toList
      strays := e'.strays } := by
  obtain ⟨calm, parked, idle, ranks, rfl⟩ := yields
  refine ⟨parked.map Statechart.Pending.errand, ?_, idle.watch, idle.strays, ?_⟩
  · intro errand here
    obtain ⟨p, there, rfl⟩ := Option.map_eq_some_iff.mp here
    exact (ranks p there).1
  · have after := congrArg (fun i : Inventory => { i with
      errands := i.errands ++ (parked.map Statechart.Pending.errand).toList }) idle.inventory
    refine Eq.trans ?_ after
    simp only [Engine.inventory, List.map_append, Option.toList_map]

theorem Yields.handler : e'.handler = e.handler := by
  obtain ⟨calm, parked, idle, ranks, rfl⟩ := yields
  exact idle.handler

theorem Yields.hands : ∀ p ∈ e'.pending, p ∈ e.pending ∨ p.handler = e.handler := by
  obtain ⟨calm, parked, idle, ranks, rfl⟩ := yields
  intro p member
  rcases List.mem_append.mp member with old | new
  · exact .inl (idle.pending ▸ old)
  · exact .inr (ranks p (Option.mem_toList.mp new)).2

end Yields

/-! No more workers are in the middle of events than there are. -/

def Crewed (e : Engine σ) : Prop := e.pending.length ≤ e.workers

/-- As long as there is a worker to spare there still is one. -/
def Spares (e e' : Engine σ) : Prop :=
  e.pending.length < e.workers → e'.pending.length < e'.workers

theorem workers_le (e : Engine σ) : e.workers ≤ e.strays + 1 := by
  unfold workers
  split <;> omega

theorem workers_up (e : Engine σ) : e.workers ≤ e.startEvents.workers := by
  unfold startEvents
  split
  · exact Nat.le_refl _
  · next off => simp [workers, off]

theorem workers_start (e : Engine σ) : e.workers ≤ (e.start.left e).workers := by
  have started := e.started
  generalize e.start = ending at started ⊢
  cases started with
  | @up states => exact workers_up { e with rules := e.rules.close, states := states }.startValues
  | overrun broken => exact Nat.le_refl _

theorem spares_perform (e : Engine σ) (q : Request) : e.Spares ((e.perform q).left e) := by
  intro spare
  cases q with
  | submit event => exact spare
  | assign name value => exact spare
  | stop =>
    simp only [perform]
    split
    · exact Nat.lt_of_lt_of_le (Nat.lt_of_succ_le (Nat.le_max_right ..)) (Nat.le_add_right ..)
    · exact spare
  | start =>
    simp only [perform]
    split
    · exact spare
    · have pending := Session.still_pending.starts e
      rw [pending]
      exact Nat.lt_of_lt_of_le spare e.workers_start

theorem crewed_fall {e : Engine σ} (spare : e.pending.length < e.workers) : e.fall.Crewed := by
  unfold Crewed fall workers at *
  by_cases last : e.strays = 0
  · simp only [last] at spare ⊢
    split at spare <;> omega
  · have more : (e.strays == 0) = false := by simpa using last
    cases on : e.running <;> cases down : e.broken <;>
      simp only [on, down, more] at spare ⊢ <;> simp at spare ⊢ <;> omega

end Engine

namespace Run
variable {σ : Type}

theorem calm_tell {r : Run σ} (mute : r.engine.handler.Mute)
    (stands : r.engine.states.current ≠ none) (n : Notice) :
    r.engine.Calm (r.tell n).2.engine := by
  refine tell_asked (R := fun e e' => e.states.current ≠ none → e.Calm e')
    (fun e stands => .of_same stands rfl rfl rfl rfl rfl)
    (fun first later stands => (first stands).trans (later (first stands).stands))
    (fun e => Engine.calm_fall) r n (fun e q asked stands => ?_) stands
  exact Engine.calm_perform stands (mute n r.client q asked)

/-- What may become of the rest of an event that is of some rank, if the application submits
nothing: the worker leaves it at a later point, or comes to its end. -/
def Untroubled (k : Nat) (r r' : Run σ) : Prop :=
  r.engine.handler.Mute → r.engine.states.current ≠ none → r.engine.Yields k r'.engine

theorem untroubled_descends : Descends (Untroubled (σ := σ)) where
  refl _ _ _ stands := .of_calm (.of_same stands rfl rfl rfl rfl rfl)
  tell n _ later mute stands :=
    have calm := calm_tell mute stands n
    (later (calm.handler ▸ mute) calm.stands).after calm
  fails n _ mute stands := .of_calm (calm_tell mute stands n)
  enter _ _ done later mute _ :=
    have calm := Engine.calm_enter (.inl done)
    (later mute calm.stands).after calm
  overrun _ _ broken _ _ :=
    have calm := Engine.calm_enter (.inr broken)
    .of_calm (calm.trans (Engine.calm_fall calm.stands))
  record _ later mute stands :=
    (later mute stands).after (.of_same stands rfl rfl rfl rfl rfl)
  park r errand less _ stands := by
    refine ⟨r.engine, some ⟨errand, r.engine.handler⟩, .of_same stands rfl rfl rfl rfl rfl, ?_, rfl⟩
    intro p here
    cases here
    exact ⟨less, rfl⟩

theorem crewed_descends :
    Descends fun _ (r r' : Run σ) => r.engine.pending.length < r.engine.workers →
      r'.engine.Crewed := by
  have heeded (r : Run σ) (qs : List Request) : r.engine.Spares (r.engine.heed qs).2 :=
    heed_advances (R := Engine.Spares) (fun _ => id) (fun first later => later ∘ first) r.engine qs
      fun e q _ => e.spares_perform q
  constructor
  · exact fun _ _ => Nat.le_of_lt
  · intro k r r' n answers later spare
    refine later ?_
    have spare := heeded r (r.engine.handler n r.client).1.requests spare
    simp only [tell] at answers ⊢
    simpa only [answers, Bool.false_eq_true, if_false] using spare
  · intro k r n fails spare
    have spare := heeded r (r.engine.handler n r.client).1.requests spare
    simp only [tell] at fails ⊢
    simpa only [fails, if_true] using Engine.crewed_fall spare
  · exact fun _ _ _ later spare => later spare
  · exact fun _ _ _ spare => Engine.crewed_fall spare
  · exact fun _ later spare => later spare
  · intro k r errand less spare
    exact (List.length_append ..).trans_le spare

end Run

theorem Worked.crewed {σ : Type} {r r' : Run σ} {w : Work} (worked : Worked r w r')
    (crewed : r.engine.Crewed) : r'.engine.Crewed := by
  cases worked with
  | @derive change changes popped =>
    exact Engine.derive_frame (f := fun e : Engine σ => e.Crewed) (fun _ _ => rfl)
      (fun _ _ _ => rfl) { r.engine with changes } change ▸ crewed
  | apply | fire =>
    rw [Run.withEngine, Engine.report_frame]
    exact crewed
  | take | wake | wakeOverrun => exact crewed
  | @process event events free popped =>
    exact Run.crewed_descends.process (r.withEngine fun e => { e with events }) event free
  | @carry index p here =>
    refine Run.crewed_descends.goOn p.errand _ ?_
    obtain ⟨bound, _⟩ := List.getElem?_eq_some_iff.mp here
    have fewer : (r.engine.pending.eraseIdx index).length < r.engine.pending.length := by
      rw [List.length_eraseIdx_of_lt bound]
      omega
    exact Nat.lt_of_lt_of_le fewer crewed
  | leave _ strayed =>
    simp only [Engine.Crewed, Run.withEngine, Engine.dismiss, Engine.workers]
    omega

/-- A handler that a worker may yet call submits nothing, and there is a current state. -/
structure Run.Quiet {σ : Type} (r : Run σ) : Prop where
  handler : r.engine.handler.Mute
  pending : ∀ p ∈ r.engine.pending, p.handler.Mute
  stands : r.engine.states.current ≠ none

section Work
variable {σ : Type} {d : Definition} {r r' : Run σ}

theorem Run.waits_declared (holds : r.engine.plan.Of d) (u : Update) :
    ∀ span ∈ r.engine.values.waits u, span ∈ d.durationsOf u.name := by
  intro span waited
  simp only [Holding.waits] at waited
  split at waited
  · obtain ⟨c, listed, timed, duration⟩ := (Holding.mem_durations _ _).mp waited
    obtain ⟨declared, named⟩ := (holds.registered _ _).mp (List.mem_filter.mp listed).1
    exact (Holding.mem_durations _ _).mpr
      ⟨c, List.mem_filter.mpr ⟨declared, by simpa using named⟩, timed, duration⟩
  · cases waited

theorem Run.spends_apply (holds : r.engine.plan.Of d) {u : Update} {batch : List Update}
    (taken : r.engine.values.batch = u :: batch) :
    r.engine.Spends d .apply ({ r.engine with
      values := ({ r.engine.values with batch }.apply u).1 }.report
        ({ r.engine.values with batch }.apply u).2) := by
  have there := ({ r.engine.values with batch }.signal_apply u u.name).trans (if_pos rfl)
  obtain ⟨spans, part, perm⟩ := Holding.perm_timers { r.engine.values with batch } u there
  have apart := (Holding.nodup_waits { r.engine.values with batch } u).sublist part.sublist
  have asked (span : Nat) (set : span ∈ spans) := waits_declared holds u span (part.subset set)
  have reported := Engine.inventory_report
    { r.engine with values := ({ r.engine.values with batch }.apply u).1 }
    ({ r.engine.values with batch }.apply u).2
  have lost : ({ r.engine.values with batch }.apply u).1.batch = batch ∨
      ({ r.engine.values with batch }.apply u).1.batch = [] ∧
        ({ r.engine.values with batch }.apply u).2 = none := by
    cases far : Holding.overruns { r.engine.values with batch } u with
    | true =>
      rw [Holding.apply_overrun far]
      exact .inr ⟨rfl, rfl⟩
    | false =>
      rw [Holding.apply_sound far]
      exact .inl rfl
  refine .apply taken lost apart asked perm (reported.trans ?_)
  rw [Holding.apply_frame]
  rfl

theorem Run.spends_take (did : r.work? .take = some r') : r.engine.Spends d .take r'.engine := by
  have memory := (worked_of_work did).memory (by decide)
  simp only [work?] at did
  split at did
  · next ready =>
    cases did
    simp only [Bool.and_eq_true, Mailbox.hasWork, Bool.not_eq_true', List.isEmpty_eq_false_iff,
      List.isEmpty_iff] at ready
    obtain ⟨⟨⟨opened, queued⟩, applied⟩, _⟩ := ready
    refine .take applied queued ?_ memory
    simp [withEngine, Engine.inventory, Holding.take, applied, Mailbox.drain, opened]
  · cases did

theorem Run.spends_fire {timer : HoldTimer} {timers : Agenda HoldTimer}
    (released : r.engine.values.timers.release? r.engine.clock = some (timer, timers)) :
    r.engine.Spends d .fire ({ r.engine with
      values := ({ r.engine.values with timers }.fire timer r.engine.clock).1 }.report
        ({ r.engine.values with timers }.fire timer r.engine.clock).2) := by
  obtain ⟨first, entries, rfl, _⟩ := Agenda.release_cases released
  let fired := { r.engine.values with timers }.fire first.item r.engine.clock
  have items : r.engine.inventory.timers = first.item :: timers.entries.map (·.item) :=
    congrArg (List.map Due.item) entries
  have spent : Engine.inventory { r.engine with values := fired.1 } =
      { r.engine.inventory with timers := timers.entries.map (·.item) } := by
    simp only [fired]
    rw [Holding.fire_frame]
    rfl
  have after := Engine.inventory_report { r.engine with values := fired.1 } fired.2
  rw [spent] at after
  exact .fire items after

/-- A watchdog that speaks up, or breaks down over it, had something to wait for, and that was
due. -/
theorem Run.spends_wake (waits : ∀ a, r.engine.states.armed = some a → 0 < a.timeout)
    (worked : Worked r .wake r') : r.engine.Spends d .wake r'.engine := by
  have memory := worked.memory (by decide)
  have watched {a : Armed} (posted : r.engine.states.watching = true)
      (whole : r.engine.states.broken = false) (armed : r.engine.states.armed = some a) :
      r.engine.states.watch? = some a := by
    simp [Hierarchy.watch?, Hierarchy.isAlert, posted, whole, armed]
  cases worked with
  | wake woken =>
    obtain ⟨a, watching, whole, armed, due, ⟨spoken, _, rfl⟩ | ⟨silent, _⟩⟩ :=
      Hierarchy.wake_cases woken
    · cases spoken
      refine .wake (watched watching whole armed) due (waits _ armed) ?_ memory
      simp [withEngine, Engine.submit, Engine.inventory, Hierarchy.watch?, Hierarchy.isAlert,
        watching, whole, Mailbox.push]
    · cases silent
  | wakeOverrun woken =>
    obtain ⟨a, watching, whole, armed, due, ⟨spoken, _⟩ | ⟨_, _, rfl⟩⟩ :=
      Hierarchy.wake_cases woken
    · cases spoken
    · refine .overrun (watched watching whole armed) due ?_ memory
      simp [withEngine, Engine.inventory, Hierarchy.watch?, Hierarchy.isAlert]

theorem Run.spends_process (quiet : r.Quiet) {event : Event} {events : Mailbox Event}
    (free : r.engine.pending.length < r.engine.workers)
    (popped : r.engine.events.pop? = some (event, events)) :
    r.engine.Spends d .process
      ((r.withEngine fun e => { e with events }).process event).engine := by
  obtain ⟨items, _⟩ := Mailbox.items_of_pop _ _ _ popped
  obtain ⟨parked, ranks, watch, strays, after⟩ := (untroubled_descends.process
    (r.withEngine fun e => { e with events }) event quiet.handler quiet.stands).inventory
  have few := r.engine.workers_le
  have once : max r.engine.strays (r.engine.pending.length + 1) ≤ r.engine.strays + 1 := by
    omega
  exact .process items ranks watch (strays.trans once) after
    ((Worked.process free popped).memory (by decide))

theorem Run.spends_carry (quiet : r.Quiet) (crewed : r.engine.Crewed) {index : Nat} {p : Pending σ}
    (here : r.engine.pending[index]? = some p) :
    r.engine.Spends d (.carry index) ((r.withEngine fun e =>
      { e with pending := e.pending.eraseIdx index }).carryOn p).engine := by
  obtain ⟨parked, ranks, watch, strays, after⟩ := (untroubled_descends.goOn p.errand
    (r.withEngine fun e => { e with pending := e.pending.eraseIdx index, handler := p.handler })
    (quiet.pending p (List.mem_of_getElem? here)) quiet.stands).inventory
  -- The worker that goes on is one of those there are, so a stop leaves one more behind at most.
  obtain ⟨bound, _⟩ := List.getElem?_eq_some_iff.mp here
  have few := r.engine.workers_le
  have once : max r.engine.strays ((r.engine.pending.eraseIdx index).length + 1) ≤
      r.engine.strays + 1 := by
    rw [List.length_eraseIdx_of_lt bound]
    unfold Engine.Crewed at crewed
    omega
  have listed : r.engine.inventory.errands[index]? = some p.errand := by
    simp [Engine.inventory, here]
  refine .carry listed ranks watch (strays.trans once) (after.trans ?_)
    ((Worked.carry here).memory (by simp))
  simp [withEngine, Engine.inventory, List.eraseIdx_map]

theorem Run.spends_work (holds : r.engine.plan.Of d)
    (waits : ∀ a, r.engine.states.armed = some a → 0 < a.timeout) (quiet : r.Quiet)
    (crewed : r.engine.Crewed) {w : Work} (did : r.work? w = some r') :
    r.engine.Spends d w r'.engine := by
  have worked := worked_of_work did
  cases w with
  | take => exact spends_take did
  | wake => exact spends_wake waits worked
  | derive =>
    cases worked with
    | @derive change changes popped =>
      obtain ⟨items, _⟩ := Mailbox.items_of_pop _ _ _ popped
      have few := Engine.length_synthesized r.engine.triggers { r.engine with changes }
      rw [show r.engine.triggers.length = _ from congrArg List.length holds.triggers] at few
      exact .derive items few (Engine.inventory_derive _ _)
  | apply =>
    cases worked with
    | apply taken => exact spends_apply holds taken
  | fire =>
    cases worked with
    | fire released => exact spends_fire released
  | process =>
    cases worked with
    | process free popped => exact spends_process quiet free popped
  | carry index =>
    cases worked with
    | carry here => exact spends_carry quiet crewed here
  | leave =>
    cases worked with
    | leave shut strayed =>
      exact .leave (Nat.lt_of_le_of_lt (Nat.zero_le _) strayed) rfl
        ((Worked.leave shut strayed).memory (by decide))

/-- Whoever goes on with an event does so with a handler that was in force before. -/
theorem Worked.hands {w : Work} (worked : Worked r w r') (quiet : r.Quiet) :
    ∀ p ∈ r'.engine.pending, p.handler.Mute := by
  cases worked with
  | @derive change changes popped =>
    exact Engine.derive_frame (f := fun e : Engine σ => ∀ p ∈ e.pending, p.handler.Mute)
      (fun _ _ => rfl) (fun _ _ _ => rfl) { r.engine with changes } change ▸ quiet.pending
  | apply | fire =>
    rw [Run.withEngine, Engine.report_frame]
    exact quiet.pending
  | take | wake | wakeOverrun | leave => exact quiet.pending
  | @process event events free popped =>
    intro p member
    rcases (Run.untroubled_descends.process (r.withEngine fun e => { e with events }) event
      quiet.handler quiet.stands).hands p member with old | new
    · exact quiet.pending p old
    · exact new ▸ quiet.handler
  | @carry index q here =>
    have hand := quiet.pending q (List.mem_of_getElem? here)
    intro p member
    rcases (Run.untroubled_descends.goOn q.errand
      (r.withEngine fun e => { e with pending := e.pending.eraseIdx index, handler := q.handler })
      hand quiet.stands).hands p member with old | new
    · exact quiet.pending p (List.mem_of_mem_eraseIdx old)
    · exact new ▸ hand

end Work

namespace Run
variable {σ : Type}

/-- The pending timers are in the order in which they fall due. -/
theorem Reached.sorted {r : Run σ} (reached : r.Reached) :
    r.engine.values.timers.entries.Pairwise fun x y => x.time ≤ y.time := by
  refine reached.keeps (P := fun r => r.engine.values.timers.entries.Pairwise
    fun x y => x.time ≤ y.time) (fun _ => .nil) ?_
  intro r a sorted
  rcases (r.turned a).timers with fewer | ⟨u, _, _, _, entries⟩
  · exact sorted.sublist fewer
  · rw [entries]
    rw [Holding.timers_apply]
    exact Holding.sorted_set_timers _ _ _ _ sorted

end Run

/-- Nothing is left to be done, now or before the clock moves on. Only where a worker has broken
down is something left for it. -/
structure Engine.Resting {σ : Type} (e : Engine σ) : Prop where
  events : 0 < e.workers → e.events.items = []
  pending : e.pending = []
  changes : e.changes.items = []
  updates : e.values.broken = false → e.waiting = []
  timers : ∀ t ∈ e.values.timers.entries, e.clock < t.time
  watchdog : e.states.isAlert = true → ∀ a, e.states.armed = some a → e.clock < a.deadline

namespace Session
variable {σ : Type}

/-- Some pieces of work, one after the other. -/
def labour (s : Session σ) (works : List Work) : Session σ := s.perform (works.map .work)

/-- Each piece of work is there to be done when its turn comes. -/
def labours (s : Session σ) : List Work → Bool
  | [] => true
  | w :: rest => (s.run.work? w).isSome && (s.act (.work w)).labours rest

theorem act_did {s : Session σ} {w : Work} {r : Run σ} (did : s.run.work? w = some r) :
    s.act (.work w) = s.adopt r := by
  simp only [act, did]

/-- No handler that a worker may yet call submits anything: neither the one in force, nor the one
that a handler may put in force by a start, nor any with which a worker is in the middle of an
event. -/
structure Mute (s : Session σ) : Prop where
  handler : s.engine.handler.Mute
  callbacks : s.machine.callbacks.handler.Mute
  pending : ∀ p ∈ s.engine.pending, p.handler.Mute

theorem Mute.of_settled {s : Session σ} (handler : s.engine.handler.Mute)
    (callbacks : s.machine.callbacks.handler.Mute) (settled : s.engine.pending = []) : s.Mute :=
  ⟨handler, callbacks, fun p member => by simp [settled] at member⟩

theorem Mute.adopt {s : Session σ} (mute : s.Mute) {r : Run σ}
    (handler : r.engine.handler = s.engine.handler)
    (pending : ∀ p ∈ r.engine.pending, p.handler.Mute) : (s.adopt r).Mute := by
  have hand : r.engine.handler.Mute := handler ▸ mute.handler
  unfold Session.adopt Machine.resume
  split
  · exact ⟨hand, mute.callbacks, pending⟩
  · exact ⟨mute.callbacks, mute.callbacks, pending⟩
  · exact ⟨hand, mute.callbacks, pending⟩

theorem Reachable.crewed {s : Session σ} (reached : s.Reachable) : s.engine.Crewed := by
  obtain ⟨name, client, actions, rfl⟩ := reached
  refine perform_keeps (P := fun s => s.engine.Crewed) ?_ _ _ (Nat.le_refl 0)
  intro s a crewed
  have setUp (d : Definition) : (s.machine.init d).2.engine.Crewed :=
    init_keeps (P := Engine.Crewed)
      (fun e e' enrolled crewed => by rw [enrolled.rest]; exact crewed) s.machine d crewed
  have acted := s.acted a
  generalize s.act a = after at acted ⊢
  cases acted with
  | idle | submit | assign | install | pass => exact crewed
  | init d => exact setUp d
  | load d => exact setUp d
  | @start engine _ _ _ started | @overrun engine _ _ _ started =>
    have more := Engine.workers_start { s.engine with handler := s.machine.callbacks.handler }
    have same :=
      still_pending.starts { s.engine with handler := s.machine.callbacks.handler }
    rw [started] at more same
    exact (congrArg List.length same).le.trans (crewed.trans more)
  | stop => exact (Nat.le_max_right ..).trans (Nat.le_add_right ..)
  | @work w r worked =>
    exact view_adopt Engine.Crewed (fun _ _ => rfl) s r ▸ worked.crewed crewed

section Mute
variable {d : Definition} {s : Session σ} (follows : s.Follows d) (mute : s.Mute)
include follows mute

theorem quiet_run : s.run.Quiet := by
  obtain ⟨current, stands, _⟩ := follows.current_declared
  exact ⟨mute.handler, mute.pending, fun vacant => Option.some_ne_none _ (stands.symm.trans vacant)⟩

theorem spends_act {w : Work} (there : (s.run.work? w).isSome = true) :
    s.engine.Spends d w (s.act (.work w)).engine ∧
      (s.act (.work w)).engine.clock = s.engine.clock ∧ (s.act (.work w)).Mute := by
  obtain ⟨r, did⟩ := Option.isSome_iff_exists.mp there
  have worked := worked_of_work did
  have quiet := quiet_run follows mute
  rw [act_did did]
  refine ⟨?_, ?_, mute.adopt worked.handler (worked.hands quiet)⟩
  · have spends : s.engine.Spends d w r.engine := Run.spends_work (r := s.run) follows.holds.2.1
      follows.reachable.aimed.waits quiet follows.reachable.crewed did
    exact spends.congr (view_adopt Engine.inventory (fun _ _ => rfl) s r)
      (view_adopt Engine.memory (fun _ _ => rfl) s r)
  · rw [clock_adopt]
    exact worked.states.1

/-- What has been done and what is left to do was all there to begin with. -/
theorem labours_spend {works : List Work} (labours : s.labours works = true) :
    (s.labour works).engine.clock = s.engine.clock ∧ (s.labour works).Mute ∧
      works.length + (s.labour works).engine.load d ≤ s.engine.load d := by
  induction works generalizing s with
  | nil => exact ⟨rfl, mute, Nat.le_of_eq (Nat.zero_add _)⟩
  | cons w rest ih =>
    obtain ⟨there, later⟩ := Bool.and_eq_true_iff.mp labours
    obtain ⟨spends, clock, mute'⟩ := spends_act follows mute there
    obtain ⟨clock', mute', bound⟩ := ih (follows.act (.work w)) mute' later
    have less := spends.lt clock
    refine ⟨clock'.trans clock, mute', ?_⟩
    rw [List.length_cons]
    change rest.length + 1 + ((s.act (.work w)).labour rest).engine.load d ≤ _
    omega

/-- Whoever goes on as long as there is something to do comes to an end. -/
theorem labours_end : ∃ works, s.labours works = true ∧
    ∀ w, (s.labour works).run.work? w = none := by
  -- The load is what the induction is on.
  generalize bound : s.engine.load d = n
  induction n using Nat.strong_induction_on generalizing s with
  | h n ih =>
    by_cases idle : ∀ w, s.run.work? w = none
    · exact ⟨[], rfl, idle⟩
    · obtain ⟨w, busy⟩ := not_forall.mp idle
      have there := Option.isSome_iff_ne_none.mpr busy
      obtain ⟨spends, clock, mute'⟩ := spends_act follows mute there
      obtain ⟨works, labours, ends⟩ :=
        ih _ (bound ▸ spends.lt clock) (follows.act (.work w)) mute' rfl
      exact ⟨w :: works, Bool.and_eq_true_iff.mpr ⟨there, labours⟩, ends⟩

end Mute

/-- The mailboxes and the timers of a machine that runs are open. -/
theorem Reachable.opened {s : Session σ} (reached : s.Reachable)
    (runs : s.machine.stage = .running) : s.engine.values.updates.isOpen = true ∧
      s.engine.values.timers.isOpen = true ∧ s.engine.events.isOpen = true ∧
      s.engine.changes.isOpen = true := by
  have up := reached.sorted.geared.up (reached.sorted.running.mp runs)
  simp only [Engine.switches, List.cons.injEq] at up
  obtain ⟨_, _, _, updates, timers, _, events, changes, _⟩ := up
  exact ⟨updates, timers, events, changes⟩

/-- If a running machine has no work for any worker it is at rest. -/
theorem resting_of_idle {d : Definition} {s : Session σ} (follows : s.Follows d)
    (runs : s.machine.stage = .running) (idle : ∀ w, s.run.work? w = none) :
    s.engine.Resting := by
  obtain ⟨updates, timers, events, changes⟩ := follows.reachable.opened runs
  have applied : s.engine.values.batch = [] := by
    have nothing := idle .apply
    simp only [Run.work?] at nothing
    split at nothing
    · assumption
    · cases nothing
  have settled : s.engine.pending = [] := by
    have nothing := Option.map_eq_none_iff.mp (idle (.carry 0))
    exact List.length_eq_zero_iff.mp (Nat.le_zero.mp (List.getElem?_eq_none_iff.mp nothing))
  constructor
  · intro staffed
    have nothing := idle .process
    simp only [Run.work?, run, settled, List.length_nil, staffed, if_true, Option.map_eq_none_iff]
      at nothing
    exact Mailbox.empty_of_pop events nothing
  · exact settled
  · exact Mailbox.empty_of_pop changes (Option.map_eq_none_iff.mp (idle .derive))
  · intro whole
    have nothing := idle .take
    simp only [Run.work?, run, Mailbox.hasWork, updates, applied, whole, Bool.true_and,
      List.isEmpty_nil, Bool.and_true, Bool.not_false, Bool.not_eq_true',
      List.isEmpty_eq_false_iff, ite_not] at nothing
    split at nothing
    · next empty => rw [Engine.waiting, applied, empty]; rfl
    · cases nothing
  · intro t waits
    -- A timer that is due would be released.
    by_contra due
    have nothing := Option.map_eq_none_iff.mp (idle .fire)
    have sorted : s.engine.values.timers.entries.Pairwise fun x y => x.time ≤ y.time :=
      follows.reachable.run_reached.sorted
    exact Agenda.release_due timers sorted waits (Nat.le_of_not_lt due) nothing
  · intro alert a armed
    by_contra due
    have nothing := Option.map_eq_none_iff.mp (idle .wake)
    simp only [run, Hierarchy.wake?, alert, armed, Nat.le_of_not_lt due, if_true] at nothing
    split at nothing <;> cases nothing

/-- A piece of work takes one item off the inventory. A report enqueues at least one event and at
most one more than there are triggers, an update makes at most one report and sets at most one timer
for each duration asked for under its name, a timer makes at most one report, and an event enqueues
nothing and writes no value. So if the application submits nothing and the clock stands still, the
workers run out of work whatever the order in which they are given it, after no more pieces of work
than the load was to begin with. If the machine still runs then it is at rest: nothing waits in any
queue and nothing is due. Only events are left behind if there is no worker for them any more, and
updates if the worker for those has broken down. -/
theorem workers_come_to_rest {d : Definition} {s : Session σ} (follows : s.Follows d)
    (mute : s.Mute) :
    (∀ w, (s.run.work? w).isSome = true → s.engine.Spends d w (s.act (.work w)).engine) ∧
    ∀ works, s.labours works = true →
      let after := s.labour works
      after.engine.clock = s.engine.clock ∧
      works.length + after.engine.load d ≤ s.engine.load d ∧
      (∃ more, after.labours more = true ∧ ∀ w, (after.labour more).run.work? w = none) ∧
      (after.machine.stage = .running → (∀ w, after.run.work? w = none) →
        after.engine.Resting) := by
  refine ⟨fun w there => (spends_act follows mute there).1, ?_⟩
  intro works labours after
  obtain ⟨clock, mute', bound⟩ := labours_spend follows mute labours
  have follows' : after.Follows d := follows.perform _
  exact ⟨clock, bound, labours_end follows' mute', resting_of_idle follows'⟩

/-- A boiler that is switched off as it gets hot, and looked after as long as it is on. -/
def boiler : Definition where
  states := [{ name := "On", timeout := 100000 }, { name := "Off" }]
  initial := "On"
  rules := [.onEvent "On" "Off" "hot", .onEvent "On" "On" timeoutEvent,
    .whenCondition "Off" "On" ((Condition.equals "heat" 0).sustained 50000)]
  triggers := [{ name := "hot", conditions := [(Condition.between "heat" 5 10).sustained 100000] }]

/-- The boiler has got hot, and its worker has only just begun to take this in. -/
def boiling : Session Unit :=
  ((fresh "boiler" ()).act (.init boiler)).perform
    [.start, .assign "heat" 7, .work .take, .work .apply, .assign "heat" 8, .pass 100000]

theorem boiling_comes_to_rest :
    let works : List Work :=
      [.wake, .process, .take, .apply, .fire, .fire, .derive, .process, .process]
    boiling.labours works = true ∧ boiling.engine.load boiler = 172 ∧
    (boiling.labour works).machine.current = some "Off" ∧
    (boiling.labour works).engine.Resting := by
  intro works
  have follows : boiling.Follows boiler :=
    ⟨fresh "boiler" (), _, ⟨_, _, [], rfl⟩, rfl, by decide +kernel, rfl⟩
  have silent : boiling.machine.callbacks.handler.Mute := by
    intro n client q asked
    cases n <;> cases asked
  have mute : boiling.Mute := .of_settled silent silent (List.isEmpty_iff.mp (by decide +kernel))
  have labours : boiling.labours works = true := by decide +kernel
  obtain ⟨_, runs⟩ := workers_come_to_rest follows mute
  obtain ⟨_, _, _, rests⟩ := runs works labours
  refine ⟨labours, by decide +kernel, by decide +kernel, rests (by decide +kernel) ?_⟩
  intro w
  cases w with
  | carry index => exact Run.carry_none (List.isEmpty_iff.mp (by decide +kernel)) index
  | _ => exact Option.isNone_iff_eq_none.mp (by decide +kernel)

/-- An application that submits nothing may yet break down. The event behind the one at which it
does so is left, and no worker finds anything to do. -/
theorem lamp_left_with_event :
    let s := (lampWith clumsy).perform [.submit { name := "up" }, .submit { name := "down" }]
    s.Follows lamp ∧ s.machine.stage = .running ∧ s.Mute ∧
    s.labours [.process] = true ∧ (s.labour [.process]).machine.stage = .running ∧
    (∀ w, (s.labour [.process]).run.work? w = none) ∧
    (s.labour [.process]).engine.events.items = [{ name := "down" }] := by
  intro s
  have silent : s.machine.callbacks.handler.Mute := by
    intro n client q asked
    cases n <;> cases asked
  have mute : s.Mute := .of_settled silent silent (List.isEmpty_iff.mp (by decide +kernel))
  refine ⟨(lamp_with_follows clumsy).perform _, by decide +kernel, mute, by decide +kernel,
    by decide +kernel, ?_, by decide +kernel⟩
  intro w
  cases w with
  | carry index => exact Run.carry_none (List.isEmpty_iff.mp (by decide +kernel)) index
  | _ => exact Option.isNone_iff_eq_none.mp (by decide +kernel)

end Session
end Statechart
