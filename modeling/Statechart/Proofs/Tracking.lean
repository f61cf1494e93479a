import Statechart.Proofs.Alternation
/-!
Triggers of a machine. In a machine that was set up from a definition every check of a trigger
comes out, and the trigger's value says what the last one found, as long as no update of that name
has been applied. The engine does not keep the names of triggers to itself: whoever submits a value
under such a name overwrites what the engine remembers.
-/

namespace Statechart

/-- A check comes out if all its names have values. -/
theorem Condition.check_total {signal? : String → Option Signal} (now : Nat) (k : Connective)
    (conditions : List Condition) (known : ∀ c ∈ conditions, (signal? c.name).isSome = true) :
    ∃ v, check signal? now k conditions = .ok v := by
  have rest (cs : List Condition) (known : ∀ c ∈ cs, (signal? c.name).isSome = true)
      (matched : List Reading) : ∃ v, checkFrom signal? now k matched cs = .ok v := by
    induction cs generalizing matched with
    | nil => exact ⟨_, rfl⟩
    | cons c cs ih =>
      obtain ⟨s, here⟩ := Option.isSome_iff_exists.mp (known c (List.mem_cons_self ..))
      have later := ih fun c member => known c (List.mem_cons_of_mem _ member)
      simp only [checkFrom, here]
      cases s.satisfies c now <;> cases k
      · exact ⟨_, rfl⟩
      · exact later _
      · exact later _
      · exact ⟨_, rfl⟩
  cases conditions with
  | nil => exact ⟨_, rfl⟩
  | cons c cs => exact rest _ known []

/-- Where every check came out, what is known is what the last one found. -/
theorem last_met_eq (log : List Inspection) (decided : ∀ i ∈ log, ∃ v, i.outcome = .ok v) :
    lastMet log = log.getLast?.any (·.met) := by
  induction log using List.reverseRecOn with
  | nil => rfl
  | append_singleton before i _ =>
    obtain ⟨v, out⟩ := decided i (by simp)
    rw [last_met_snoc, List.getLast?_append]
    simp [Inspection.after, Inspection.met, out]

theorem Granted.value {σ : Type} {rs : List Registration} {r : Run σ} {e : Engine σ}
    (granted : Granted rs r.engine e) (name : String) :
    e.values.value name = r.engine.values.value name := by
  induction rs generalizing r with
  | nil =>
    cases granted
    rfl
  | cons x rest ih =>
    obtain ⟨e₁, taken, granted⟩ := granted_uncons granted
    have kept : (r.turn (.register x)).engine.values.value name = r.engine.values.value name :=
      (r.turned (.register x)).value rfl List.not_mem_nil
    have made : (r.turn (.register x)).engine = e₁ := by
      simp only [Run.turn, Run.withEngine, taken, Ending.left]
    exact (ih (r := r.turn (.register x)) (made ▸ granted)).trans kept

namespace Session
variable {σ : Type}

/-- The checks of the triggers that an action makes. -/
def inspected (s : Session σ) : Action σ → List Inspection
  | .work w => s.run.inspected (.work w)
  | _ => []

/-- The name of the update that an action applies. -/
def written (s : Session σ) : Action σ → List String
  | .work w => s.run.written (.work w)
  | _ => []

def inspections (s : Session σ) : List (Action σ) → List Inspection
  | [] => []
  | a :: rest => s.inspected a ++ (s.act a).inspections rest

def writes (s : Session σ) : List (Action σ) → List String
  | [] => []
  | a :: rest => s.written a ++ (s.act a).writes rest

theorem values_work (s : Session σ) (w : Work) :
    (s.act (.work w)).engine.values = (s.run.turn (.work w)).engine.values := by
  simp only [act, Run.turn]
  cases s.run.work? w with
  | none => rfl
  | some r => exact values_adopt s r

/-- An action that is not a piece of work leaves values and timers as they are. -/
theorem act_still (s : Session σ) (a : Action σ) (done : s.machine.stage ≠ .created)
    (idle : ∀ w, a ≠ .work w) : (s.act a).engine.memory = s.engine.memory := by
  rcases still_memory.act_cases s a done with ⟨w, _, working, _⟩ | ⟨same, _⟩
  · exact absurd working (idle w)
  · exact same

section Checks
variable {d : Definition} {s : Session σ} (follows : s.Follows d)
include follows

theorem Follows.abides {t : Trigger} (declared : t ∈ d.triggers) {log : List Inspection}
    {a : Action σ} (own : t.name ∉ s.written a)
    (abides : Abides t (s.engine.values.value t.name) log) :
    Abides t ((s.act a).engine.values.value t.name) (log ++ checksOf t (s.inspected a)) := by
  obtain ⟨valid, holds, done⟩ := follows.holds
  have triggers : s.run.engine.triggers = d.triggers := holds.triggers
  have kept (idle : ∀ w, a ≠ .work w) (silent : s.inspected a = []) :
      Abides t ((s.act a).engine.values.value t.name) (log ++ checksOf t (s.inspected a)) := by
    rw [value_congr (congrArg Prod.fst (act_still s a done idle)), silent]
    simpa [checksOf] using abides
  cases a with
  | work w =>
    rw [values_work]
    refine (s.run.turned (.work w)).abides (triggers ▸ valid.distinct) ?_ own abides
    intro k member same
    exact List.inj_on_of_nodup_map valid.distinct (triggers ▸ member) declared same
  | init | load | start | stop | submit | assign | install | pass =>
    exact kept (fun _ same => by cases same) rfl

theorem Follows.decided {a : Action σ} {i : Inspection} (member : i ∈ s.inspected a) :
    ∃ v, i.outcome = .ok v := by
  obtain ⟨_, holds, _⟩ := follows.holds
  cases a with
  | work w =>
    simp only [inspected, Run.inspected] at member
    split at member
    · cases member
    · next e change made =>
      -- Every name that a trigger reads was registered with it, and a pass forgets no name.
      obtain ⟨memory, triggers, _⟩ := (s.run.turned (.work w)).of_pass made
      obtain ⟨before, t, after, order, rfl⟩ := Engine.mem_inspections member
      refine Condition.check_total _ _ _ fun c read => ?_
      have declared : t ∈ d.triggers := by
        rw [← show e.triggers = d.triggers from triggers.trans holds.triggers, order]
        simp
      have known := follows.known c
        (List.mem_append_right _ (List.mem_flatMap.mpr ⟨t, declared, read⟩))
      refine Engine.contains_pass before e ?_
      rw [Holding.contains, show e.values.signals = _ from congrArg Prod.fst memory]
      exact known
  | init | load | start | stop | submit | assign | install | pass => cases member

theorem Follows.abides_all {t : Trigger} (declared : t ∈ d.triggers) (actions : List (Action σ))
    (own : t.name ∉ s.writes actions) {log : List Inspection}
    (abides : Abides t (s.engine.values.value t.name) log) :
    Abides t ((s.perform actions).engine.values.value t.name)
      (log ++ checksOf t (s.inspections actions)) := by
  induction actions generalizing s log with
  | nil =>
    rw [inspections, checksOf, List.filter_nil, List.append_nil]
    exact abides
  | cons a rest ih =>
    rw [writes, List.mem_append, not_or] at own
    have later := ih (follows.act a) own.2 (follows.abides declared own.1 abides)
    rw [inspections, checksOf, List.filter_append, ← List.append_assoc]
    exact later

theorem Follows.decided_all (actions : List (Action σ)) :
    ∀ i ∈ s.inspections actions, ∃ v, i.outcome = .ok v := by
  induction actions generalizing s with
  | nil =>
    intro i member
    cases member
  | cons a rest ih =>
    intro i member
    rcases List.mem_append.mp member with now | later
    · exact follows.decided now
    · exact ih (follows.act a) i later

end Checks

theorem init_granted {m : Machine σ} {d : Definition} (accepted : (m.init d).1 = .done ()) :
    m.stage = .created ∧ Granted d.registrations m.engine (m.init d).2.engine := by
  unfold Machine.init at accepted ⊢
  split at accepted
  · cases accepted
  next created =>
  split at accepted
  · cases accepted
  next valid =>
  rw [if_neg created, if_neg valid]
  split at accepted
  · next engine all => exact ⟨not_not.mp created, all⟩
  · cases accepted
  · cases accepted

/-- Every value of a machine that was just set up is zero. -/
theorem value_init {d : Definition} {before : Session σ} (reached : before.Reachable)
    (vacant : before.machine.current = none)
    (accepted : (before.machine.init d).1 = .done ()) (name : String) :
    (before.act (.init d)).engine.values.value name = 0 := by
  obtain ⟨created, granted⟩ := init_granted accepted
  obtain ⟨⟨updates, events, clock, blank⟩, _⟩ := created_blank reached created vacant
  have kept := Granted.value (r := before.run) granted name
  refine kept.trans ?_
  rw [show before.run.engine = _ from blank]
  rfl

/-- In a machine that was set up from a definition the value of a trigger says what the last of its
checks found, and is 0 before the first, as long as no update of that name is applied. Then an edge
trigger raises an event exactly at the checks that find other than the one before, and a level
trigger at those that are met. -/
theorem tracking_value_records_last_check {d : Definition} {before : Session σ}
    (reached : before.Reachable) (vacant : before.machine.current = none)
    (accepted : (before.machine.init d).1 = .done ())
    (actions : List (Action σ)) {t : Trigger} (declared : t ∈ d.triggers)
    (own : t.name ∉ (before.act (.init d)).writes actions) :
    let checks := checksOf t ((before.act (.init d)).inspections actions)
    (∀ i ∈ checks, ∃ v, i.outcome = .ok v) ∧
    ((before.act (.init d)).perform actions).engine.values.value t.name =
      mark (checks.getLast?.any (·.met)) ∧
    (t.mode = .edge → ∀ k i, checks[k]? = some i → i.raised.map (·.name) =
      t.turning ((checks.take k).getLast?.any (·.met)) i.met) ∧
    (t.mode = .level → ∀ i ∈ checks, i.raised.map (·.name) = if i.met then [t.name] else []) := by
  have follows : (before.act (.init d)).Follows d := ⟨before, [], reached, vacant, accepted, rfl⟩
  have start : Abides t ((before.act (.init d)).engine.values.value t.name) [] := by
    rw [value_init reached vacant accepted]
    exact abides_nil t
  have abides := follows.abides_all declared actions own start
  rw [List.nil_append] at abides
  have decided (i : Inspection)
      (member : i ∈ checksOf t ((before.act (.init d)).inspections actions)) :
      ∃ v, i.outcome = .ok v := follows.decided_all actions i (List.mem_filter.mp member).1
  refine ⟨decided, ?_, ?_, abides.level⟩
  · rw [abides.value, last_met_eq _ decided]
  · intro mode k i found
    have law := abides.edge mode k i found
    rw [last_met_eq _ fun j member => decided j (List.mem_of_mem_take member)] at law
    obtain ⟨v, out⟩ := decided i (List.mem_of_getElem? found)
    simpa [Inspection.after, Inspection.met, out] using law

def terrace : Definition where
  states := [{ name := "A" }]
  initial := "A"
  triggers := [Run.brisk, Run.steady]

/-- A value is submitted, applied and reported. -/
def telling (name : String) (value : Int64) : List (Action Unit) :=
  [.assign name value, .work .take, .work .apply, .work .derive]

/-- A machine for the terrace that has been used in this way. -/
def onTerrace (actions : List (Action Unit)) : Session Unit :=
  ((fresh "terrace" ()).act (.init terrace)).perform actions

theorem on_terrace_follows (actions : List (Action Unit)) : (onTerrace actions).Follows terrace :=
  ⟨fresh "terrace" (), _, ⟨_, _, [], rfl⟩, rfl, by decide +kernel, rfl⟩

theorem tracking_value_windy_then_calm :
    (onTerrace (.start :: telling "x" 5)).engine.values.value "brisk" = 1 ∧
    (onTerrace (.start :: telling "x" 5 ++ telling "x" 20)).engine.values.value "brisk" = 0 := by
  have reached : (fresh "terrace" ()).Reachable := ⟨_, _, [], rfl⟩
  have ok : ((fresh "terrace" ()).machine.init terrace).1 = .done () := by decide +kernel
  have declared : Run.brisk ∈ terrace.triggers := by decide
  have recorded (actions : List (Action Unit))
      (own : "brisk" ∉ ((fresh "terrace" ()).act (.init terrace)).writes actions) :=
    (tracking_value_records_last_check reached rfl ok actions declared own).2.1
  constructor
  · exact (recorded (.start :: telling "x" 5) (by decide +kernel)).trans (by decide +kernel)
  · exact (recorded (.start :: telling "x" 5 ++ telling "x" 20) (by decide +kernel)).trans
      (by decide +kernel)

/-- A submitted 1 makes the engine raise the reset event of a trigger none of whose checks was ever
met, and a submitted 7 is what the engine then takes for the outcome of a check that was met. -/
theorem tracking_value_overwritten :
    terrace.violations = [] ∧
    (let actions := .start :: telling "brisk" 1
    let checks :=
      checksOf Run.brisk (((fresh "terrace" ()).act (.init terrace)).inspections actions)
    (onTerrace actions).Follows terrace ∧ checks.map (·.met) = [false] ∧
      raisedNames checks = ["brisk_RESET"]) ∧
    (let actions := .start :: telling "x" 5 ++ telling "brisk" 7
    let checks :=
      checksOf Run.brisk (((fresh "terrace" ()).act (.init terrace)).inspections actions)
    (onTerrace actions).Follows terrace ∧ checks.map (·.met) = [true, true] ∧
      (onTerrace actions).engine.values.value "brisk" = 7) := by
  refine ⟨by decide +kernel, ⟨on_terrace_follows _, ?_⟩, on_terrace_follows _, ?_⟩
  · exact ⟨by decide +kernel, by decide +kernel⟩
  · exact ⟨by decide +kernel, by decide +kernel⟩

end Session
end Statechart
