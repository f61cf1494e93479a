import Statechart.Proofs.Frame
/-!
Two runs abreast. If two runs stand in a relation that telling, entering, recording and leaving off
preserve, and that settles every choice on the way, then what one event makes of either stands in
the relation again. The events may differ, as long as this makes no difference to a choice.
-/

namespace Statechart

/-- The same notice, but for the event that it is about. -/
inductive Notice.Like (E : Event → Event → Prop) : Notice → Notice → Prop
  | pre (state : String) {event event' : Event} : E event event' →
    Like E (.pre state event) (.pre state event')
  | transition (exited entered : List String) {event event' : Event} : E event event' →
    Like E (.transition exited event entered) (.transition exited event' entered)
  | exit (states : List String) : Like E (.exit states) (.exit states)
  | enter (states : List String) : Like E (.enter states) (.enter states)
  | post (handled : Bool) {event event' : Event} : E event event' →
    Like E (.post event handled) (.post event' handled)

/-- The same errand, but for the event that it is about. -/
inductive Errand.Like (E : Event → Event → Prop) : Errand → Errand → Prop
  | present (current : String) {event event' : Event} : E event event' →
    Like E (.present current event) (.present current event')
  | resolve (current : String) {event event' : Event} : E event event' →
    Like E (.resolve current event) (.resolve current event')
  | commit (current : String) (rule : Rule) {event event' : Event} : E event event' →
    Like E (.commit current rule event) (.commit current rule event')
  | leave (current : String) (rule : Rule) (path : Path) {event event' : Event} : E event event' →
    Like E (.leave current rule event path) (.leave current rule event' path)
  | move (current : String) (rule : Rule) (path : Path) {event event' : Event} : E event event' →
    Like E (.move current rule event path) (.move current rule event' path)
  | greet (current : String) (rule : Rule) (path : Path) {event event' : Event} : E event event' →
    Like E (.greet current rule event path) (.greet current rule event' path)
  | record (current : String) (rule : Rule) (path : Path) {event event' : Event} :
    E event event' → Like E (.record current rule event path) (.record current rule event' path)
  | finish (handled : Bool) {event event' : Event} : E event event' →
    Like E (.finish event handled) (.finish event' handled)

theorem Notice.Like.eq {n n' : Notice} (same : n.Like Eq n') : n' = n := by
  cases same with
  | pre _ same | transition _ _ same | post _ same => rw [same]
  | exit | enter => rfl

theorem Errand.Like.eq {errand errand' : Errand} (same : errand.Like Eq errand') :
    errand' = errand := by
  cases same <;> next same => rw [same]

theorem Errand.Like.of_eq (errand : Errand) : errand.Like Eq errand := by
  cases errand <;> constructor <;> rfl

/-- Two calls come to the same end, with related results. -/
inductive Ending.Like {α β : Type} (P : α → β → Prop) : Ending α → Ending β → Prop
  | done {a : α} {b : β} : P a b → Like P (.done a) (.done b)
  | refused (cause : Error) : Like P (.refused cause) (.refused cause)
  | broken {a : α} {b : β} : P a b → Like P (.broken a) (.broken b)

namespace Run
variable {σ : Type}

/-- A relation between runs, and one between events, that tell all that an event depends on. -/
structure Abreast (E : Event → Event → Prop) (R : Run σ → Run σ → Prop) : Prop where
  name : ∀ {event event'}, E event event' → event'.name = event.name
  stale : ∀ {event event'}, E event event' → ∀ current,
    Engine.isStale current event' = Engine.isStale current event
  current : ∀ {r r'}, R r r' → r'.engine.states.current = r.engine.states.current
  shared : ∀ {r r'}, R r r' → r'.engine.isShared = r.engine.isShared
  path : ∀ {r r'}, R r r' → ∀ source target,
    r'.engine.states.path source target = r.engine.states.path source target
  resolve : ∀ {r r'}, R r r' → ∀ current name,
    r'.engine.resolve current name = r.engine.resolve current name
  tell : ∀ {r r'}, R r r' → ∀ {n n'}, Notice.Like E n n' →
    (r'.tell n').1.fails = (r.tell n).1.fails ∧ R (r.tell n).2 (r'.tell n').2
  accepts : ∀ {r r'}, R r r' → ∀ {event event'}, E event event' → ∀ current,
    (r'.tell (.pre current event')).1.accepts = (r.tell (.pre current event)).1.accepts
  enter : ∀ {r r'}, R r r' → ∀ name, Ending.Like
    (fun states states' => R (r.withEngine fun e => { e with states })
      (r'.withEngine fun e => { e with states := states' }))
    (r.engine.states.enter name r.engine.clock) (r'.engine.states.enter name r'.engine.clock)
  falls : ∀ {r r'}, R r r' → R (r.withEngine Engine.fall) (r'.withEngine Engine.fall)
  record : ∀ {r r'}, R r r' → ∀ passage : Timestamp → Passage,
    R (r.withEngine fun e => { e with history := e.history.record (passage (.ofMicros e.clock)) })
      (r'.withEngine fun e => { e with history := e.history.record (passage (.ofMicros e.clock)) })
  park : ∀ {r r'}, R r r' → ∀ {errand errand'}, Errand.Like E errand errand' →
    R (r.park errand) (r'.park errand')

namespace Abreast
variable {E : Event → Event → Prop} {R : Run σ → Run σ → Prop} (abreast : Abreast E R)
  {r r' : Run σ} (related : R r r') {event event' : Event} (alike : E event event')
include abreast related

theorem onward {errand errand' : Errand} (same : errand.Like E errand') {next next' : Run σ → Run σ}
    (goes : R (next r) (next' r')) : R (r.onward errand next) (r'.onward errand' next') := by
  unfold Run.onward
  rw [abreast.shared related]
  split
  · exact abreast.park related same
  · exact goes

/-- Both handlers break down, or both runs go on. -/
theorem told {n n' : Notice} (same : n.Like E n') {next next' : Run σ}
    (goes : R (r.tell n).2 (r'.tell n').2 → R next next') :
    R (if (r.tell n).1.fails = true then (r.tell n).2 else next)
      (if (r'.tell n').1.fails = true then (r'.tell n').2 else next') := by
  obtain ⟨fails, later⟩ := abreast.tell related same
  rw [fails]
  split
  · exact later
  · exact goes later

include alike

theorem finish (handled : Bool) : R (r.finish event handled) (r'.finish event' handled) :=
  (abreast.tell related (.post handled alike)).2

theorem recording (current : String) (rule : Rule) (path : Path) :
    R (r.record current rule event path) (r'.record current rule event' path) := by
  unfold Run.record
  rw [abreast.name alike]
  have recorded := abreast.record related
    (Passage.mk current rule.target event.name path.exit path.enter)
  exact abreast.onward recorded (.finish true alike) (abreast.finish recorded alike true)

theorem greet (current : String) (rule : Rule) (path : Path) :
    R (r.greet current rule event path) (r'.greet current rule event' path) := by
  refine abreast.told related (.enter path.enter) fun greeted => ?_
  exact abreast.onward greeted (.record current rule path alike)
    (abreast.recording greeted alike current rule path)

theorem move (current : String) (rule : Rule) (path : Path) :
    R (r.move current rule event path) (r'.move current rule event' path) := by
  have entered := abreast.enter related rule.target
  unfold Run.move
  generalize r.engine.states.enter rule.target r.engine.clock = ending,
    r'.engine.states.enter rule.target r'.engine.clock = ending' at entered ⊢
  cases entered with
  | done moved =>
    exact abreast.onward moved (.greet current rule path alike)
      (abreast.greet moved alike current rule path)
  | refused cause =>
    exact abreast.onward related (.finish false alike) (abreast.finish related alike false)
  | broken moved => exact abreast.falls moved

theorem leave (current : String) (rule : Rule) (path : Path) :
    R (r.leave current rule event path) (r'.leave current rule event' path) := by
  refine abreast.told related (.exit path.exit) fun left => ?_
  exact abreast.onward left (.move current rule path alike)
    (abreast.move left alike current rule path)

theorem commit (current : String) (rule : Rule) :
    R (r.commit current rule event) (r'.commit current rule event') := by
  unfold Run.commit
  rw [abreast.path related]
  generalize r.engine.states.path current rule.target = path
  refine abreast.told related (.transition path.exit path.enter alike) fun told => ?_
  exact abreast.onward told (.leave current rule path alike)
    (abreast.leave told alike current rule path)

theorem resolving (current : String) :
    R (r.resolve current event) (r'.resolve current event') := by
  unfold Run.resolve
  rw [abreast.name alike, abreast.resolve related]
  split
  · exact abreast.onward related (.finish false alike) (abreast.finish related alike false)
  · next rule _ _ =>
    exact abreast.onward related (.commit current rule alike)
      (abreast.commit related alike current rule)

theorem present (current : String) :
    R (r.present current event) (r'.present current event') := by
  simp only [Run.present]
  refine abreast.told related (.pre current alike) fun shown => ?_
  rw [abreast.accepts related alike current]
  split
  · exact abreast.onward shown (.resolve current alike) (abreast.resolving shown alike current)
  · exact abreast.onward shown (.finish false alike) (abreast.finish shown alike false)

theorem process : R (r.process event) (r'.process event') := by
  unfold Run.process
  rw [abreast.current related]
  split
  · exact abreast.onward related (.finish false alike) (abreast.finish related alike false)
  next current _ =>
  rw [abreast.stale alike current]
  split
  · exact related
  · exact abreast.onward related (.present current alike) (abreast.present related alike current)

omit alike in
theorem goOn {errand errand' : Errand} (same : errand.Like E errand') :
    R (r.goOn errand) (r'.goOn errand') := by
  cases same with
  | present current alike => exact abreast.present related alike current
  | resolve current alike => exact abreast.resolving related alike current
  | commit current rule alike => exact abreast.commit related alike current rule
  | leave current rule path alike => exact abreast.leave related alike current rule path
  | move current rule path alike => exact abreast.move related alike current rule path
  | greet current rule path alike => exact abreast.greet related alike current rule path
  | record current rule path alike => exact abreast.recording related alike current rule path
  | finish handled alike => exact abreast.finish related alike handled

end Abreast
end Run
end Statechart
