import Statechart.Proofs.Updates
/-!
Deriving events from a change. Each trigger is checked once. The check writes no value but the
trigger's own, and that only if it turns it over; so what a check finds is what it would have found
before the pass, unless it reads the value of a trigger checked before it.
-/

namespace Statechart

namespace Condition

/-- A check looks at nothing but the names of its conditions. -/
theorem check_congr {f g : String → Option Signal} (now : Nat) (k : Connective)
    (conditions : List Condition) (same : ∀ c ∈ conditions, f c.name = g c.name) :
    check f now k conditions = check g now k conditions := by
  have rest (cs : List Condition) (same : ∀ c ∈ cs, f c.name = g c.name) (matched : List Reading) :
      checkFrom f now k matched cs = checkFrom g now k matched cs := by
    induction cs generalizing matched with
    | nil => rfl
    | cons c cs ih =>
      have later := ih fun c member => same c (List.mem_cons_of_mem _ member)
      simp only [checkFrom, same c (List.mem_cons_self ..), later]
  cases conditions with
  | nil => rfl
  | cons c cs => exact rest _ same []

end Condition

namespace Engine
variable {σ : Type}

/-- The event of an edge: the trigger's own as its conditions start to hold, the reset event of an
edge trigger as they cease to. -/
def edge? (t : Trigger) (v : Verdict) : Option Event :=
  if v.met then some (raised t v.matched)
  else if t.mode = .edge then some { name := t.resetName }
  else none

/-- A check of the trigger would come out as `v`, which its own value does not say yet. -/
def Pending (e : Engine σ) (t : Trigger) (v : Verdict) : Prop :=
  e.values.check t.conditions t.connective e.clock = .ok v ∧ v.met ≠ e.isArmed t

theorem signal_track (e : Engine σ) (t : Trigger) (v : Int64) {name : String}
    (other : name ≠ t.name) : (e.track t v).values.signal? name = e.values.signal? name := by
  simp [track, Holding.store, Holding.signal?, Table.find_put, other]

theorem value_track (e : Engine σ) (t : Trigger) (v : Int64) :
    (e.track t v).values.value t.name = v :=
  Holding.value_store _ _ _ _

/-- A check that settles a pending trigger raises the event of the edge and remembers it. -/
theorem settle_pending (e : Engine σ) (t : Trigger) (v : Verdict) (turns : v.met ≠ e.isArmed t) :
    (e.settleTrigger t v).isArmed t = v.met ∧
      ∀ event, edge? t v = some event → event ∈ (e.settleTrigger t v).events.items := by
  have armed (o : Int64) : (e.track t o).isArmed t = (o != 0) := by rw [isArmed, value_track]
  unfold settleTrigger edge?
  cases met : v.met with
  | true =>
    have idle : e.isArmed t = false := by
      rw [met] at turns
      exact Bool.eq_false_iff.mpr turns.symm
    rw [idle]
    refine ⟨armed 1, fun event raises => ?_⟩
    cases raises
    exact List.mem_append_right _ (List.mem_singleton_self _)
  | false =>
    have busy : e.isArmed t = true := by
      rw [met] at turns
      exact Bool.not_eq_false _ ▸ turns.symm
    rw [busy]
    simp only
    split
    · refine ⟨armed 0, fun event raises => ?_⟩
      cases raises
      exact List.mem_append_right _ (List.mem_singleton_self _)
    · exact ⟨armed 0, fun event raises => by cases raises⟩

theorem signal_check_trigger (e : Engine σ) (t : Trigger) {name : String} (other : name ≠ t.name) :
    (e.checkTrigger t).values.signal? name = e.values.signal? name := by
  have stored (v : Int64) := signal_track e t v other
  unfold checkTrigger
  split
  · rfl
  · unfold settleTrigger
    split
    · exact stored 1
    · split <;> rfl
    · simp only
      split <;> exact stored 0
    · rfl

/-- A check that writes the trigger's own value turns it over. -/
theorem own_check_trigger (e : Engine σ) (t : Trigger) :
    (e.checkTrigger t).values.signal? t.name = e.values.signal? t.name ∨
      (e.checkTrigger t).values.value t.name ≠ e.values.value t.name := by
  unfold checkTrigger
  split
  · exact .inl rfl
  · next v _ =>
    by_cases turns : v.met = e.isArmed t
    · left
      unfold settleTrigger
      cases met : v.met <;> rw [met] at turns <;> rw [← turns]
      simp only
      split <;> rfl
    · right
      have turned := (settle_pending e t v turns).1
      intro same
      rw [isArmed, same] at turned
      exact turns turned.symm

theorem events_check_trigger (e : Engine σ) (t : Trigger) :
    e.events.items <+: (e.checkTrigger t).events.items := by
  unfold checkTrigger
  split
  · exact List.prefix_rfl
  · unfold settleTrigger
    split
    · exact List.prefix_append _ _
    · split
      · exact List.prefix_append _ _
      · exact List.prefix_rfl
    · simp only
      split
      · exact List.prefix_append _ _
      · exact List.prefix_rfl
    · exact List.prefix_rfl

section Pass
variable (ts : List Trigger) (e : Engine σ)

theorem signal_pass {name : String} (other : ∀ t ∈ ts, t.name ≠ name) :
    (ts.foldl checkTrigger e).values.signal? name = e.values.signal? name := by
  induction ts generalizing e with
  | nil => rfl
  | cons t rest ih =>
    have later (u : Trigger) (member : u ∈ rest) : u.name ≠ name :=
      other u (List.mem_cons_of_mem t member)
    rw [List.foldl_cons, ih (e.checkTrigger t) later]
    exact signal_check_trigger e t (other t (List.mem_cons_self ..)).symm

theorem events_pass : e.events.items <+: (ts.foldl checkTrigger e).events.items := by
  induction ts generalizing e with
  | nil => exact List.prefix_rfl
  | cons t rest ih => exact (events_check_trigger e t).trans (ih _)

end Pass

section Turn
variable (e : Engine σ) (unique : (e.triggers.map (·.name)).Nodup) {before after : List Trigger}
  {t : Trigger} (order : e.triggers = before ++ t :: after) (change : Change)
include unique order

/-- Within a pass a trigger's own value is written at the trigger's turn and at no other. -/
theorem own_turn :
    (before.foldl checkTrigger e).values.signal? t.name = e.values.signal? t.name ∧
    (e.derive change).values.signal? t.name =
      ((before.foldl checkTrigger e).checkTrigger t).values.signal? t.name := by
  rw [order, List.map_append, List.map_cons] at unique
  obtain ⟨_, tail, across⟩ := List.nodup_append.mp unique
  constructor
  · refine signal_pass before e fun k member => ?_
    exact across k.name (List.mem_map_of_mem member) t.name (List.mem_cons_self ..)
  · rw [derive, order, List.foldl_append, List.foldl_cons]
    refine signal_pass after _ fun k member same => ?_
    exact (List.nodup_cons.mp tail).1 (same ▸ List.mem_map_of_mem member)

/-- A pass over the triggers raises every pending edge, whatever change it is made for, unless the
trigger reads the value of one that comes before it. -/
theorem derive_pending (apart : ∀ k ∈ before, ∀ c ∈ t.conditions, k.name ≠ c.name) {v : Verdict}
    (pending : e.Pending t v) :
    (e.derive change).isArmed t = v.met ∧
      ∀ event, edge? t v = some event → event ∈ (e.derive change).events.items := by
  obtain ⟨own, done⟩ := own_turn e unique order change
  -- At its turn the trigger finds the values it would have found before the pass.
  have armed : (before.foldl checkTrigger e).isArmed t = e.isArmed t := by
    simp only [isArmed, Holding.value, own]
  have found : (before.foldl checkTrigger e).checkTrigger t =
      (before.foldl checkTrigger e).settleTrigger t v := by
    have clock : (before.foldl checkTrigger e).clock = e.clock :=
      pass_frame (·.clock) (fun _ _ => rfl) (fun _ _ _ => rfl) before e
    have same : (before.foldl checkTrigger e).values.check t.conditions t.connective
        (before.foldl checkTrigger e).clock = .ok v := by
      rw [clock, ← pending.1]
      exact Condition.check_congr _ _ _ fun c member =>
        signal_pass before e fun k listed => apart k listed c member
    rw [checkTrigger, same]
  obtain ⟨turned, raises⟩ := settle_pending (before.foldl checkTrigger e) t v (armed ▸ pending.2)
  constructor
  · rw [← turned, ← found]
    simp only [isArmed, Holding.value, done]
  · intro event edge
    rw [derive, order, List.foldl_append, List.foldl_cons, found]
    exact List.mem_append_left _ ((events_pass after _).subset (raises event edge))

theorem own_derive : (e.derive change).values.signal? t.name = e.values.signal? t.name ∨
    (e.derive change).values.value t.name ≠ e.values.value t.name := by
  obtain ⟨own, done⟩ := own_turn e unique order change
  rcases own_check_trigger (before.foldl checkTrigger e) t with kept | turned
  · left
    rw [done, kept, own]
  · right
    simpa only [Holding.value, done, own] using turned

end Turn

theorem signal_derive (e : Engine σ) (unique : (e.triggers.map (·.name)).Nodup) (change : Change)
    (name : String) : (e.derive change).values.signal? name = e.values.signal? name ∨
      (e.derive change).values.value name ≠ e.values.value name := by
  by_cases listed : ∃ t ∈ e.triggers, t.name = name
  · obtain ⟨t, member, rfl⟩ := listed
    obtain ⟨before, after, order⟩ := List.append_of_mem member
    exact own_derive e unique order change
  · left
    exact signal_pass e.triggers e fun t member same => listed ⟨t, member, same⟩

theorem contains_pass (ts : List Trigger) (e : Engine σ) {name : String}
    (known : e.values.contains name = true) :
    (ts.foldl checkTrigger e).values.contains name = true := by
  have checked (e : Engine σ) (t : Trigger) (known : e.values.contains name = true) :
      (e.checkTrigger t).values.contains name = true := by
    have stored (v : Int64) : (e.track t v).values.contains name = true := by
      have there := Table.contains_put e.values.signals t.name
        (((e.values.signal? t.name).getD (.create v e.clock)).write v e.clock) name
      exact there.trans (Bool.or_eq_true_iff.mpr (.inr known))
    -- Whatever the branch, nothing but the trigger's own value is written.
    unfold checkTrigger settleTrigger
    simp only
    repeat' split
    all_goals first | exact known | exact stored _
  induction ts generalizing e with
  | nil => exact known
  | cons t rest ih => exact ih _ (checked e t known)

end Engine

theorem contains_fire {h : Holding} {name : String} (known : h.contains name = true) (t : HoldTimer)
    (now : Nat) : (h.fire t now).1.contains name = true := by
  rcases h.fire_cases t now with same | ⟨_, _, _, same⟩
  · rwa [same]
  · rw [same]
    exact (Table.contains_put _ _ _ name).trans (Bool.or_eq_true_iff.mpr (.inr known))

namespace Session
variable {σ : Type}

/-- A name that has a value has one for good. -/
theorem contains_act {s : Session σ} (a : Action σ) (done : s.machine.stage ≠ .created)
    {name : String} (known : s.engine.values.contains name = true) :
    (s.act a).engine.values.contains name = true := by
  have remembered {e : Engine σ} (same : e.memory = s.engine.memory) :
      e.values.contains name = true := by
    simp only [Holding.contains, show e.values.signals = _ from congrArg Prod.fst same]
    exact known
  rcases still_memory.act_cases s a done with ⟨w, r, _, worked, same⟩ | ⟨same, _, _⟩
  · rw [same]
    have quiet := worked.memory
    have kept : (s.adopt r).engine.values.contains name = r.engine.values.contains name :=
      view_adopt (fun e => e.values.contains name) (fun _ _ => rfl) s r
    have still (idle : r.engine.memory = s.engine.memory) :=
      remembered ((still_memory.adopted s r).trans idle)
    cases worked with
    | derive popped =>
      exact kept.trans (Engine.contains_pass _ { s.engine with changes := _ } known)
    | apply taken =>
      refine kept.trans ((congrArg (·.contains name) (values_report _ _)).trans ?_)
      rw [Holding.contains, Holding.signals_apply]
      exact (Table.contains_put _ _ _ name).trans (Bool.or_eq_true_iff.mpr (.inr known))
    | take => exact still (quiet (by decide))
    | @fire timer timers released =>
      refine kept.trans ((congrArg (·.contains name) (values_report _ _)).trans ?_)
      exact contains_fire (h := { s.engine.values with timers }) known timer s.engine.clock
    | wake woken | wakeOverrun woken => exact still (quiet (by decide))
    | process _ popped => exact still (quiet (by decide))
    | carry here => exact still (quiet (by simp))
    | leave => exact still (quiet (by decide))
  · exact remembered same

theorem Follows.known {d : Definition} {s : Session σ} (follows : s.Follows d) (c : Condition)
    (declared : c ∈ d.conditions) : s.engine.values.contains c.name = true := by
  suffices kept : s.machine.stage ≠ .created ∧ s.engine.values.contains c.name = true from kept.2
  refine follows.keeps
    (P := fun s => s.machine.stage ≠ .created ∧ s.engine.values.contains c.name = true) ?_ ?_
  · intro before reached vacant ok
    obtain ⟨_, _, e, result, _, _, held⟩ := Session.accepted reached vacant ok
    rw [result]
    exact ⟨fun same => (by cases same), held c declared⟩
  · rintro s a ⟨done, known⟩
    exact ⟨(plan_act s a done).2, contains_act a done known⟩

end Session
end Statechart
