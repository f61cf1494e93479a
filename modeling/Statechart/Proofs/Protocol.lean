import Statechart.Proofs.Observer
import Statechart.Proofs.Resolution
import Statechart.Proofs.Tracking
/-!
The protocol of a machine. Every filed rule of a machine leads to a declared state, so any event
that is not left off for another worker is processed by one of the scripts. As long as one worker
goes through the events one after the other, all that the application is told is a sequence of such
accounts, one for each event that was taken up; nothing else tells anything or moves the engine.
-/

namespace Statechart

namespace Engine
variable {σ : Type}

theorem candidates_registered {e : Engine σ} {rules : List Rule}
    (filed : Filed rules e.rules.buckets) {current event : String} {rule : Rule}
    (candidate : rule ∈ e.candidates current event) : rule ∈ rules := by
  obtain ⟨state, _, listed⟩ := List.mem_flatMap.mp candidate
  rw [RuleIndex.find, filed.find] at listed
  exact (List.mem_filter.mp listed).1

theorem resolve_registered {e : Engine σ} {rules : List Rule} (filed : Filed rules e.rules.buckets)
    {current event : String} {rule : Rule} {readings : List Reading}
    (found : e.resolve current event = some (rule, readings)) : rule ∈ rules := by
  unfold resolve at found
  rw [first_met_eq] at found
  obtain ⟨r, candidate, accepted⟩ := List.exists_of_findSome?_eq_some found
  obtain ⟨_, _, _, answer⟩ := (e.accepts_iff r _).mp accepted
  cases answer
  exact candidates_registered filed candidate

end Engine

theorem Definition.registered_rules (d : Definition) :
    d.registrations.filterMap (·.rule?) = d.rules := by
  simp [registrations, List.filterMap_append, List.filterMap_map, Registration.rule?]

namespace Session
variable {σ : Type}

/-- The rules of a machine are filed as they were declared. -/
theorem Follows.filed {d : Definition} {s : Session σ} (follows : s.Follows d) :
    Filed d.rules s.engine.rules.buckets := by
  suffices kept : s.machine.stage ≠ .created ∧ Filed d.rules s.engine.rules.buckets from kept.2
  refine follows.keeps
    (P := fun s => s.machine.stage ≠ .created ∧ Filed d.rules s.engine.rules.buckets) ?_ ?_
  · intro before reached vacant ok
    obtain ⟨created, granted⟩ := init_granted ok
    obtain ⟨⟨updates, events, clock, blank⟩, _⟩ := created_blank reached created vacant
    obtain ⟨_, _, _, result, _⟩ := accepted reached vacant ok
    rw [show before.machine.engine = _ from blank] at granted
    have filed := (granted.built_and_filed .new .none).2
    rw [d.registered_rules, List.nil_append] at filed
    refine ⟨?_, filed⟩
    rw [result]
    exact fun same => by cases same
  · rintro s a ⟨done, filed⟩
    obtain ⟨same, done'⟩ := plan_act s a done
    refine ⟨done', ?_⟩
    rw [show (s.act a).engine.rules.buckets = s.engine.rules.buckets from
      congrArg Plan.buckets same]
    exact filed

theorem Follows.aimed {d : Definition} {s : Session σ} (follows : s.Follows d) {e : Engine σ}
    (same : e.plan = s.engine.plan) {current event : String} {rule : Rule} {readings : List Reading}
    (found : e.resolve current event = some (rule, readings)) :
    s.engine.states.nodes.contains rule.target = true := by
  obtain ⟨valid, holds, _⟩ := follows.holds
  have filed : Filed d.rules e.rules.buckets := by
    rw [show e.rules.buckets = s.engine.rules.buckets from congrArg Plan.buckets same]
    exact follows.filed
  exact (holds.names _).mpr (valid.endpoints _ (Engine.resolve_registered filed found)).2

/-- Any event is processed by a script, whatever else waits to be processed, unless it is left off
for another worker. -/
theorem Follows.outcome {d : Definition} {s : Session σ} (follows : s.Follows d)
    (events : Mailbox Event) (event : Event)
    (whole :
      ((s.run.withEngine fun e => { e with events }).process event).engine.isShared = false) :
    ∃ current, s.machine.current = some current ∧
      (s.run.withEngine fun e => { e with events }).Outcome current event := by
  obtain ⟨current, stands, _⟩ := follows.current_declared
  refine ⟨current, stands, Run.outcome whole stands fun rule readings found => ?_⟩
  refine follows.aimed (e := ((s.run.withEngine fun e => { e with events }).tell
    (.pre current event)).2.engine) ?_ found
  exact Engine.steady_plan.tell _ _

/-- Where no event is taken up and none is in the middle of being processed, nothing is told and the
engine does not move. -/
theorem act_untaken {s : Session σ} {a : Action σ} (done : s.machine.stage ≠ .created)
    (settled : s.engine.pending = []) (idle : s.taken a = none) :
    (s.act a).engine.trail = s.engine.trail ∧ (s.act a).notices = s.notices := by
  rcases still_trail.act_cases s a done with ⟨w, r, rfl, worked, same⟩ | ⟨same, untold, _⟩
  · -- The processing of an event is ruled out; the other workers have no hand on the states.
    by_cases process : w = .process
    · rw [process] at idle ⊢
      rw [act_process_idle idle]
      exact ⟨rfl, rfl⟩
    rw [same]
    have kept := still_trail.adopted s r
    cases worked with
    | derive popped =>
      refine ⟨kept.trans ?_, rfl⟩
      exact Engine.derive_frame Engine.trail (fun _ _ => rfl) (fun _ _ _ => rfl) _ _
    | apply taken | fire taken =>
      refine ⟨kept.trans ?_, rfl⟩
      rw [Run.withEngine, Engine.report_frame]
      rfl
    | take | leave => exact ⟨kept, rfl⟩
    | wake woken | wakeOverrun woken =>
      exact ⟨kept.trans (congrArg (·, s.engine.history) (nodes_wake woken).2), rfl⟩
    | process _ popped => exact absurd rfl process
    | carry here =>
      rw [show s.run.engine.pending = [] from settled] at here
      cases here
  · exact ⟨same, untold⟩

/-- An event that is taken up, and not left off, is processed by a script, and the session goes on
from there. -/
theorem Follows.outcome_taken {d : Definition} {s : Session σ} (follows : s.Follows d)
    {a : Action σ} (whole : (s.act a).engine.isShared = false) {r : Run σ} {event : Event}
    (taken : s.taken a = some (r, event)) :
    (∃ handler, (s.act a).run =
      (r.process event).withEngine fun e => { e with handler }) ∧
    r.engine.states = s.engine.states ∧ r.engine.trail = s.engine.trail ∧ r.notices = s.notices ∧
      ∃ current, s.machine.current = some current ∧ r.Outcome current event := by
  obtain ⟨_, result, events, _, rfl⟩ := taken_cases taken
  rw [result, shared_adopt] at whole
  refine ⟨?_, rfl, rfl, rfl, follows.outcome events event whole⟩
  rw [result]
  exact run_adopt s _

/-- The notices of the processing of an event. -/
def Account (taken : Run σ × Event) (block : List Notice) : Prop :=
  ∃ current, taken.1.Outcome current taken.2 ∧
    block = (Step.tellings current (taken.1.did taken.2)).map (·.1)

theorem Account.once {taken : Run σ × Event} {block : List Notice} (account : Account taken block)
    (role : Role) : block.countP (·.role = role) ≤ 1 := by
  obtain ⟨current, outcome, rfl⟩ := account
  exact outcome.script.once outcome.performs.part role

/-- What an action tells is the account of the event that it takes up, if any. -/
theorem Follows.accounts_act {d : Definition} {s : Session σ} (follows : s.Follows d)
    (a : Action σ) (settled : s.engine.pending = []) (whole : (s.act a).engine.isShared = false) :
    ∃ blocks : List (List Notice), (s.act a).notices = s.notices ++ blocks.flatten ∧
      List.Forall₂ Account (s.taken a).toList blocks := by
  obtain ⟨_, _, done⟩ := follows.holds
  cases taken : s.taken a with
  | none => exact ⟨[], by simp [(act_untaken done settled taken).2], .nil⟩
  | some taking =>
    obtain ⟨r, event⟩ := taking
    obtain ⟨⟨handler, result⟩, _, _, before, current, _, outcome⟩ :=
      follows.outcome_taken whole taken
    refine ⟨[(Step.tellings current (r.did event)).map (·.1)], ?_, ?_⟩
    · rw [List.flatten_singleton, ← before, ← outcome.notices]
      exact congrArg Run.notices result
    · exact .cons ⟨current, outcome, rfl⟩ .nil

theorem Follows.accounts {d : Definition} {s : Session σ} (follows : s.Follows d)
    (actions : List (Action σ)) (settled : s.engine.pending = []) (alone : s.Alone actions) :
    ∃ blocks : List (List Notice), (s.perform actions).notices = s.notices ++ blocks.flatten ∧
      List.Forall₂ Account (s.processed actions) blocks := by
  induction actions generalizing s with
  | nil => exact ⟨[], by simp [Session.perform], .nil⟩
  | cons a rest ih =>
    obtain ⟨_, _, done⟩ := follows.holds
    have whole := alone_first (alone_cons alone)
    obtain ⟨first, told, here⟩ := follows.accounts_act a settled whole
    obtain ⟨later, told', there⟩ :=
      ih (follows.act a) (settled_act a done settled whole) (alone_cons alone)
    refine ⟨first ++ later, ?_, List.rel_append here there⟩
    rw [List.flatten_append, ← List.append_assoc, ← told]
    exact told'

theorem count_accounts {taken : List (Run σ × Event)} {blocks : List (List Notice)}
    (accounts : List.Forall₂ Account taken blocks) (role : Role) :
    blocks.flatten.countP (·.role = role) ≤ taken.length := by
  induction accounts with
  | nil => simp
  | cons here _ ih =>
    have one := here.once role
    rw [List.flatten_cons, List.countP_append, List.length_cons]
    omega

/-- Any event, taken up in any state that a machine gets into, is processed by one of four scripts,
to its end, or to a notice whose handler breaks down, or to an entry that the clock has no number
for. Before the entry of a transition nothing moves; the whole transition leads to the target of the
rule and adds one record to the history. Values, timers and all that was registered stay as they
are. This goes for an event that is not left off because a handler has brought another worker in. As
long as there is one worker at a time, all that a machine tells is a sequence of such accounts, one
for each event processed, none inside another; and there is at most one notice of each kind for an
event. -/
theorem events_processed_by_script {d : Definition} {s : Session σ} (follows : s.Follows d) :
    (∀ (events : Mailbox Event) (event : Event),
      ((s.run.withEngine fun e => { e with events }).process event).engine.isShared = false →
      ∃ current, s.machine.current = some current ∧
        (s.run.withEngine fun e => { e with events }).Outcome current event) ∧
    (s.engine.pending = [] → ∀ actions : List (Action σ), s.Alone actions →
      (∃ blocks : List (List Notice),
        (s.perform actions).notices = s.notices ++ blocks.flatten ∧
        List.Forall₂ Account (s.processed actions) blocks) ∧
      ∀ role, (s.perform actions).notices.countP (·.role = role) ≤
        s.notices.countP (·.role = role) + (s.processed actions).length) := by
  refine ⟨follows.outcome, fun settled actions alone => ?_⟩
  obtain ⟨blocks, told, accounts⟩ := follows.accounts actions settled alone
  refine ⟨⟨blocks, told, accounts⟩, fun role => ?_⟩
  have counted := count_accounts accounts role
  rw [told, List.countP_append]
  omega

/-- A lamp in use by an application with this handler. -/
def lampWith (h : Handler Unit) : Session Unit :=
  ((fresh "lamp" ()).act (.init lamp)).perform [.install (·.delegateTo h), .start]

theorem lamp_with_follows (h : Handler Unit) : (lampWith h).Follows lamp :=
  ⟨fresh "lamp" (), _, ⟨_, _, [], rfl⟩, rfl, by decide +kernel, rfl⟩

theorem lamp_turned_up_by_script :
    (lampWith .quiet).Follows lamp ∧
    ((lampWith .quiet).run.Outcome "Off" { name := "up" } ∧
      (Step.tellings "Off" ((lampWith .quiet).run.did { name := "up" })).map (·.1) =
        [.pre "Off" { name := "up" }, .transition ["Off"] { name := "up" } ["On", "Dim"],
          .exit ["Off"], .enter ["On", "Dim"], .post { name := "up" } true]) ∧
    ((lampWith .quiet).perform [.submit { name := "up" }, .work .process,
      .work .process]).notices.countP (·.role = .enter) ≤ 1 := by
  have follows := lamp_with_follows .quiet
  obtain ⟨processed, runs⟩ := events_processed_by_script follows
  refine ⟨follows, ?_, ?_⟩
  · obtain ⟨current, stands, outcome⟩ :=
      processed (lampWith .quiet).engine.events { name := "up" } (by decide +kernel)
    have off : (lampWith .quiet).machine.current = some "Off" := by decide +kernel
    cases off.symm.trans stands
    exact ⟨outcome, by decide +kernel⟩
  · have counted := (runs (by decide +kernel) [.submit { name := "up" }, .work .process,
      .work .process] (by decide +kernel)).2 .enter
    exact counted

/-- An application that breaks down as it is told of an exit. -/
def clumsy : Handler Unit := fun n _ => ({ fails := decide (n.role = .exit) }, ())

/-- No whole script is told if a handler breaks down: here the account ends with the exit, and the
state is never entered. -/
theorem lamp_account_broken_off :
    (lampWith clumsy).Follows lamp ∧
    ((lampWith clumsy).run.process { name := "up" }).notices =
      [.pre "Off" { name := "up" }, .transition ["Off"] { name := "up" } ["On", "Dim"],
        .exit ["Off"]] ∧
    ((lampWith clumsy).run.process { name := "up" }).engine.states.current = some "Off" ∧
    ∀ steps, (lampWith clumsy).run.Script "Off" { name := "up" } steps →
      ((lampWith clumsy).run.process { name := "up" }).notices ≠
        (lampWith clumsy).run.notices ++ (Step.tellings "Off" steps).map (·.1) := by
  have told : ((lampWith clumsy).run.process { name := "up" }).notices =
      [.pre "Off" { name := "up" }, .transition ["Off"] { name := "up" } ["On", "Dim"],
        .exit ["Off"]] := by decide +kernel
  refine ⟨lamp_with_follows clumsy, told, by decide +kernel, ?_⟩
  intro steps script same
  rw [told] at same
  have lengths := congrArg List.length same
  have untold : (lampWith clumsy).run.notices = [] := rfl
  cases script <;> simp [untold, Run.crossing, Step.tellings] at lengths

end Session
end Statechart
