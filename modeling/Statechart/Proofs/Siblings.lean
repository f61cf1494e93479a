import Statechart.Proofs.Placement
import Statechart.Proofs.Reordering
/-!
The order of siblings. A state can be placed from the moment at which its parent is, also in the
middle of a pass: those declared behind the parent are placed in the same pass, those declared
before it have to wait for the next one. So two siblings keep the order in which they are declared
unless their parent is declared between them; then the later one comes first, and also in the list
of children that the parent has once a machine is set up.
-/

namespace Statechart

namespace Definition

/-- A sweep over some states and then over others. -/
theorem sweep_append (placed : List String) (first later : List State) :
    sweep placed (first ++ later) =
      ((sweep placed first).1 ++
        (sweep (((sweep placed first).1.map (·.name)).reverse ++ placed) later).1,
      (sweep placed first).2 ++
        (sweep (((sweep placed first).1.map (·.name)).reverse ++ placed) later).2) := by
  induction first generalizing placed with
  | nil => rfl
  | cons s rest ih =>
    by_cases ready : isReady placed s = true
    · simp [sweep, ready, ih]
    · simp [sweep, ready, ih]

theorem mem_sweep {placed : List String} {states : List State} {s : State} :
    s ∈ states ↔ s ∈ (sweep placed states).1 ∨ s ∈ (sweep placed states).2 := by
  rw [← (sweep_perm placed states).mem_iff, List.mem_append]

/-- A pass that places something is followed by the others, and one that does not is the last. -/
theorem arrange_succ (passes : Nat) (placed : List String) (pending : List State)
    (progress : (sweep placed pending).1 ≠ []) :
    let swept := sweep placed pending
    let later := arrange passes (swept.1.map (·.name) ++ placed) swept.2
    arrange (passes + 1) placed pending = (swept.1 ++ later.1, later.2) := by
  simp only
  rw [arrange]
  rcases swept : sweep placed pending with ⟨ready, left⟩
  rw [swept] at progress
  cases ready with
  | nil => exact absurd rfl progress
  | cons first ready => rfl

theorem left_fits {passes : Nat} {placed : List String} {pending : List State}
    (progress : (sweep placed pending).1 ≠ []) (enough : pending.length ≤ passes + 1) :
    (sweep placed pending).2.length ≤ passes := by
  have whole := length_sweep placed pending
  have ready := List.length_pos_iff.mpr progress
  omega

section Kinds
variable {kind : State → Bool}

/-- Of states that are all ready a sweep leaves none. -/
theorem sweep_ready {placed : List String} {states : List State}
    (ready : ∀ s ∈ states, kind s = true → isReady placed s = true) :
    (sweep placed states).1.filter kind = states.filter kind ∧
      (sweep placed states).2.filter kind = [] := by
  induction states generalizing placed with
  | nil => exact ⟨rfl, rfl⟩
  | cons s rest ih =>
    have later {more : List String} (within : placed ⊆ more) :=
      ih fun t member same =>
        is_ready_mono within t (ready t (List.mem_cons_of_mem s member) same)
    by_cases here : isReady placed s = true
    · obtain ⟨taken, left⟩ := later (List.subset_cons_self s.name placed)
      simp only [sweep, here, if_true, List.filter_cons, taken, left, and_self]
    · have other : kind s = false := by
        by_contra same
        exact here (ready s (List.mem_cons_self ..) (by simpa using same))
      obtain ⟨taken, left⟩ := later (List.Subset.refl placed)
      simp [sweep, here, other, taken, left]

theorem arrange_ready (passes : Nat) {placed : List String} {pending : List State}
    (ready : ∀ s ∈ pending, kind s = true → isReady placed s = true)
    (enough : pending.length ≤ passes) :
    (arrange passes placed pending).1.filter kind = pending.filter kind := by
  obtain ⟨taken, left⟩ := sweep_ready ready
  cases passes with
  | zero =>
    rw [List.length_eq_zero_iff.mp (Nat.le_zero.mp enough)]
    rfl
  | succ passes =>
    by_cases stuck : (sweep placed pending).1 = []
    · rw [arrange_unready _ (sweep_stuck placed pending stuck).2, ← taken, stuck]
    · have spent : (arrange passes ((sweep placed pending).1.map (·.name) ++ placed)
          (sweep placed pending).2).1.filter kind = [] := by
        have kept := (arrange_spec passes ((sweep placed pending).1.map (·.name) ++ placed)
          (sweep placed pending).2 (left_fits stuck enough)).1
        refine List.filter_eq_nil_iff.mpr fun s member => ?_
        exact List.filter_eq_nil_iff.mp left s (kept.subset (List.mem_append_left _ member))
      rw [arrange_succ passes placed pending stuck]
      simp only [List.filter_append, taken, spent, List.append_nil]

end Kinds

/-- The states have this parent. -/
abbrev isUnder (parent : String) (s : State) : Bool := s.namedParent = some parent

/-- Without their parent children have to wait. -/
theorem sweep_orphans {parent : String} {placed : List String} {states : List State}
    (unmet : parent ∉ placed) (absent : parent ∉ states.map (·.name)) :
    (sweep placed states).1.filter (isUnder parent) = [] ∧
      (sweep placed states).2.filter (isUnder parent) = states.filter (isUnder parent) := by
  induction states generalizing placed with
  | nil => exact ⟨rfl, rfl⟩
  | cons s rest ih =>
    rw [List.map_cons, List.mem_cons, not_or] at absent
    by_cases here : isReady placed s = true
    · have other : ¬ s.namedParent = some parent := fun up =>
        unmet ((is_ready_iff placed s).mp here parent up)
      obtain ⟨taken, left⟩ := @ih (s.name :: placed) (by simp [absent.1, unmet]) absent.2
      simp [sweep, here, other, taken, left]
    · obtain ⟨taken, left⟩ := ih unmet absent.2
      simp [sweep, here, taken, left, List.filter_cons]

/-- All that a pass can do for the children of a state that stands between other states. -/
inductive Passed (before : List State) (p : State) (after : List State) :
    List State × List State → Prop
  | placed {ready left : List State} : p ∈ ready →
    ready.filter (isUnder p.name) = after.filter (isUnder p.name) →
    left.filter (isUnder p.name) = before.filter (isUnder p.name) →
    Passed before p after (ready, left)
  | waits {ready before' after' : List State} : ready.filter (isUnder p.name) = [] →
    before'.filter (isUnder p.name) = before.filter (isUnder p.name) →
    after'.filter (isUnder p.name) = after.filter (isUnder p.name) →
    Passed before p after (ready, before' ++ p :: after')

section Children
variable {placed : List String} {before after : List State} {p : State}

theorem children_ready (known : p.name ∈ placed) (states : List State) :
    ∀ s ∈ states, isUnder p.name s = true → isReady placed s = true := by
  intro s _ child
  refine (is_ready_iff placed s).mpr fun q up => ?_
  cases (of_decide_eq_true child).symm.trans up
  exact known

theorem sweep_passed (unmet : p.name ∉ placed) (single : p.name ∉ (before ++ after).map (·.name))
    (own : p.namedParent ≠ some p.name) :
    Passed before p after (sweep placed (before ++ p :: after)) := by
  rw [List.map_append, List.mem_append, not_or] at single
  obtain ⟨early, waiting⟩ := sweep_orphans unmet single.1
  rw [sweep_append]
  generalize first : sweep placed before = swept at early waiting ⊢
  generalize more : (swept.1.map (·.name)).reverse ++ placed = known
  have other : isUnder p.name p = false := decide_eq_false own
  by_cases ready : isReady known p = true
  · have met : p.name ∈ p.name :: known := List.mem_cons_self ..
    obtain ⟨behind, rest⟩ := sweep_ready (children_ready met after)
    simp only [sweep, ready, if_true]
    refine .placed (by simp) ?_ ?_
    · simp only [List.filter_append, List.filter_cons, early, other, behind]
      rfl
    · rw [List.filter_append, waiting, rest, List.append_nil]
  · -- The states in front of the parent are not the parent, so they do not make it known.
    have unknown : p.name ∉ known := by
      rw [← more, List.mem_append, List.mem_reverse, not_or]
      refine ⟨fun member => ?_, unmet⟩
      obtain ⟨s, taken, same⟩ := List.mem_map.mp member
      refine single.1 (List.mem_map.mpr ⟨s, ?_, same⟩)
      exact mem_sweep.mpr (.inl (first ▸ taken))
    obtain ⟨later, waiting'⟩ := sweep_orphans unknown single.2
    simp only [sweep, ready, Bool.false_eq_true, if_false]
    refine .waits ?_ waiting waiting'
    rw [List.filter_append, early, later, List.append_nil]

/-- The children of a state that is placed in some pass: those declared behind it come first, those
declared before it follow, each in the order of declaration. -/
theorem arrange_children (passes : Nat) (enough : (before ++ p :: after).length ≤ passes)
    (unmet : p.name ∉ placed) (single : p.name ∉ (before ++ after).map (·.name))
    (own : p.namedParent ≠ some p.name)
    (done : p ∉ (arrange passes placed (before ++ p :: after)).2) :
    (arrange passes placed (before ++ p :: after)).1.filter (isUnder p.name) =
      after.filter (isUnder p.name) ++ before.filter (isUnder p.name) := by
  induction passes generalizing placed before after with
  | zero => simp at enough
  | succ passes ih =>
    have passed := sweep_passed unmet single own
    have kept := sweep_perm placed (before ++ p :: after)
    -- A pass in which nothing is ready leaves the parent where it is, against `done`.
    by_cases stuck : (sweep placed (before ++ p :: after)).1 = []
    · rw [arrange_unready _ (sweep_stuck _ _ stuck).2] at done
      exact absurd (by simp) done
    rw [arrange_succ passes placed _ stuck] at done ⊢
    have fits := left_fits stuck enough
    generalize sweep placed (before ++ p :: after) = swept at passed kept fits done ⊢
    cases passed with
    | @placed ready left here behind waiting =>
      have known : p.name ∈ ready.map (·.name) ++ placed :=
        List.mem_append_left _ (List.mem_map_of_mem here)
      have rest := arrange_ready passes (children_ready known left) fits
      rw [List.filter_append, behind, rest, waiting]
    | @waits ready before' after' early waiting behind =>
      have once := (kept.map (·.name)).count_eq p.name
      simp only [List.map_append, List.map_cons, List.count_append, List.count_cons_self,
        List.mem_append, not_or] at once single
      rw [List.count_eq_zero.mpr single.1, List.count_eq_zero.mpr single.2] at once
      have unmet' : p.name ∉ ready.map (·.name) ++ placed := by
        rw [List.mem_append, not_or]
        exact ⟨List.count_eq_zero.mp (by omega), unmet⟩
      have single' : p.name ∉ (before' ++ after').map (·.name) := by
        rw [List.map_append, List.mem_append, not_or]
        exact ⟨List.count_eq_zero.mp (by omega), List.count_eq_zero.mp (by omega)⟩
      have rest := ih fits unmet' single' done
      rw [List.filter_append, early, rest, waiting, behind, List.nil_append]

end Children

/-! One before the other, and one between two others. -/

section Pairs
variable {α : Type} {a b : α}

theorem pair_append {l r : List α} : [a, b].Sublist (l ++ r) ↔
    [a, b].Sublist l ∨ (a ∈ l ∧ b ∈ r) ∨ [a, b].Sublist r := by
  rw [List.sublist_append_iff]
  constructor
  · rintro ⟨x, y, parts, inl, inr⟩
    cases x with
    | nil =>
      cases parts
      exact .inr (.inr inr)
    | cons c x =>
      cases x with
      | nil =>
        cases parts
        exact .inr (.inl ⟨List.singleton_sublist.mp inl, List.singleton_sublist.mp inr⟩)
      | cons c' x =>
        have whole : x = [] ∧ y = [] := by simpa using congrArg List.length parts
        obtain ⟨rfl, rfl⟩ := whole
        cases parts
        exact .inl inl
  · rintro (early | ⟨front, back⟩ | late)
    · exact ⟨[a, b], [], rfl, early, List.nil_sublist r⟩
    · exact ⟨[a], [b], rfl, List.singleton_sublist.mpr front, List.singleton_sublist.mpr back⟩
    · exact ⟨[], [a, b], rfl, List.nil_sublist l, late⟩

theorem pair_filter {kind : α → Bool} (first : kind a = true) (second : kind b = true)
    {l : List α} : [a, b].Sublist (l.filter kind) ↔ [a, b].Sublist l := by
  refine ⟨fun within => within.trans List.filter_sublist, fun within => ?_⟩
  have kept := within.filter kind
  simpa only [List.filter_cons, first, second, if_true, List.filter_nil] using kept

theorem between_iff {before after : List α} {p : α} (single : p ∉ before) (single' : p ∉ after) :
    [a, p, b].Sublist (before ++ p :: after) ↔ a ∈ before ∧ b ∈ after := by
  constructor
  · intro within
    obtain ⟨x, y, parts, inl, inr⟩ := List.sublist_append_iff.mp within
    cases x with
    | nil =>
      cases parts
      rcases List.sublist_cons_iff.mp inr with later | ⟨rest, same, later⟩
      · exact absurd (later.subset (by simp)) single'
      · cases same
        exact absurd (later.subset (by simp)) single'
    | cons c x =>
      cases x with
      | nil =>
        cases parts
        refine ⟨List.singleton_sublist.mp inl, ?_⟩
        rcases List.sublist_cons_iff.mp inr with later | ⟨rest, same, later⟩
        · exact absurd (later.subset (by simp)) single'
        · cases same
          exact List.singleton_sublist.mp later
      | cons c' x =>
        obtain ⟨_, rest⟩ := List.cons.inj parts
        obtain ⟨rfl, _⟩ := List.cons.inj rest
        exact absurd (inl.subset (by simp)) single
  · rintro ⟨front, back⟩
    exact (List.singleton_sublist.mpr front).append ((List.singleton_sublist.mpr back).cons_cons p)

end Pairs

/-! The order of a definition's siblings. -/

theorem roots_in_order (d : Definition) :
    d.placed.filter (·.namedParent = none) = d.states.filter (·.namedParent = none) := by
  refine arrange_ready d.states.length (fun s _ free => ?_) (Nat.le_refl _)
  refine (is_ready_iff [] s).mpr fun p up => ?_
  rw [of_decide_eq_true free] at up
  cases up

section Valid
variable {d : Definition} (valid : d.Valid)
include valid

theorem Valid.parents_first : d.parentsFirst = d.placed := by
  rw [parents_first_eq, valid.unplaced_nil, List.append_nil]

theorem Valid.own_parent {s : State} (declared : s ∈ d.states) :
    s.namedParent ≠ some s.name := by
  intro up
  exact valid.acyclic s declared (.single ((parent_of_unique valid.unique declared).trans up))

variable {before after : List State} {p : State} (split : d.states = before ++ p :: after)
include split

theorem Valid.single : p.name ∉ (before ++ after).map (·.name) := by
  have unique := valid.unique
  rw [names, split] at unique
  have forward : (before ++ p :: after).Perm (p :: (before ++ after)) := List.perm_middle
  have front := (forward.map (·.name)).nodup_iff.mp unique
  exact (List.nodup_cons.mp front).1

theorem Valid.children_in_order : d.parentsFirst.filter (isUnder p.name) =
    after.filter (isUnder p.name) ++ before.filter (isUnder p.name) := by
  have declared : p ∈ d.states := by simp [split]
  have complete := valid.unplaced_nil
  rw [valid.parents_first, placed]
  rw [unplaced] at complete
  rw [split] at complete ⊢
  refine arrange_children _ (Nat.le_refl _) (by simp) (valid.single split)
    (valid.own_parent declared) ?_
  rw [complete]
  exact List.not_mem_nil

/-- Of two siblings the one declared first comes first, unless the parent stands between them. -/
theorem Valid.siblings_in_order {a b : State} (first : a.namedParent = some p.name)
    (second : b.namedParent = some p.name) (declared : [a, b].Sublist d.states) :
    [a, b].Sublist d.parentsFirst ↔ ¬ [a, p, b].Sublist d.states := by
  have single := valid.single split
  have unique := valid.unique.of_map
  have own : p.namedParent ≠ some p.name := valid.own_parent (by simp [split])
  rw [List.map_append, List.mem_append, not_or] at single
  have kind : isUnder p.name a = true := decide_eq_true first
  have kind' : isUnder p.name b = true := decide_eq_true second
  rw [← pair_filter kind kind'] at declared
  rw [← pair_filter kind kind', valid.children_in_order split]
  rw [split] at declared unique ⊢
  rw [between_iff (fun member => single.1 (List.mem_map_of_mem member))
    (fun member => single.2 (List.mem_map_of_mem member))]
  have other : isUnder p.name p = false := decide_eq_false own
  rw [List.filter_append, List.filter_cons_of_neg (by simp [other]), pair_append] at declared
  rw [pair_append]
  have apart {s : State} (front : s ∈ before) (back : s ∈ after) : False :=
    (List.nodup_append.mp unique).2.2 s front s (List.mem_cons_of_mem p back) rfl
  constructor
  · rintro (behind | ⟨back, _⟩ | early) ⟨front, back'⟩
    · exact apart front (List.mem_of_mem_filter (behind.subset (List.mem_cons_self ..)))
    · exact apart front (List.mem_of_mem_filter back)
    · exact apart (List.mem_of_mem_filter (early.subset (by simp))) back'
  · intro together
    rcases declared with early | ⟨front, back⟩ | behind
    · exact .inr (.inr early)
    · exact absurd ⟨List.mem_of_mem_filter front, List.mem_of_mem_filter back⟩ together
    · exact .inl behind

end Valid
end Definition

namespace Session
variable {σ : Type}

/-- Once a machine is set up, its table holds the states of the definition, in their order. -/
theorem init_rostered {s : Session σ} (reached : s.Reachable) (created : s.machine.stage = .created)
    (vacant : s.machine.current = none) {d : Definition} (valid : d.violations = []) :
    (s.act (.init d)).engine.states.Rostered d.parentsFirst := by
  obtain ⟨⟨updates, events, clock, blank⟩, _⟩ := created_blank reached created vacant
  obtain ⟨listed, e, e', parts, granted, enters, _⟩ :=
    Engine.register_valid (σ := σ) (Definition.valid_of_violations valid) updates events clock
  obtain ⟨more, rfl⟩ : ∃ more, listed = d.parentsFirst.map .state ++ more := by
    refine ⟨d.conditions.map .condition ++ d.rules.map .rule ++ d.triggers.map .trigger, ?_⟩
    refine (List.append_cancel_right (parts.symm.trans ?_))
    simp only [Definition.registrations, List.append_assoc]
  have later : ∀ x ∈ more, ∀ t, x ≠ .state t := by
    intro x member
    rw [Machine.registrations_eq, List.append_assoc] at parts
    refine Machine.after_states_no_state d x ?_
    rw [List.append_cancel_left parts]
    exact List.mem_append_left _ member
  obtain ⟨e₁, states, rest⟩ := granted_split granted
  have rostered := (rostered_states _ states Hierarchy.rostered_nil).1
  have alike := rostered.alike rostered (.refl _)
  -- What is registered after the states leaves their table as it is, and so does the entry.
  have nodes := (Statechart.granted_rehouse later alike rest).2
  have leaves : ((Registration.initial d.initial).perform e).Leaves e' := by
    simp only [Registration.perform, enters]
    split
    · exact .inr rfl
    · exact .inl rfl
  have entered : e'.states.nodes = e.states.nodes := by
    have registered := (Registration.initial d.initial).registered e
    rcases leaves with same | same
    · rw [same] at registered
      cases registered with
      | initial entered => rw [(Hierarchy.enter_frame (.inl entered)).2]
    · rw [same] at registered
      cases registered with
      | overrun entered => rw [(Hierarchy.enter_frame (.inr entered)).2]
  have all : (Machine.registerAll d.registrations s.machine.engine).2 = e' := by
    rw [parts, show s.machine.engine = _ from blank, register_append granted, Machine.registerAll]
    rcases leaves with same | same <;> simp only [same, Machine.registerAll]
  have engine : (s.act (.init d)).engine = e' := by
    simp only [act, Session.engine, Machine.init, created, valid, ne_eq, not_true, if_false]
    generalize Machine.registerAll d.registrations s.machine.engine = registered at all ⊢
    obtain ⟨_ | cause | _, engine⟩ := registered <;> exact all
  rw [engine]
  exact rostered.congr (entered.trans nodes)

/-- In a valid definition two siblings keep the order in which they are declared exactly if their
parent is not declared between them; roots always keep it. After a machine that held nothing has
been set up, the children of a state are those declared behind it followed by those declared before
it. -/
theorem siblings_parted_by_parent {s : Session σ} (reached : s.Reachable)
    (created : s.machine.stage = .created) (vacant : s.machine.current = none) {d : Definition}
    (fine : d.violations = []) :
    (∀ a b, [a, b].Sublist d.states → a.namedParent = b.namedParent →
      ([a, b].Sublist d.parentsFirst ↔
        ∀ p, a.namedParent = some p.name → ¬ [a, p, b].Sublist d.states)) ∧
    ∀ before p after, d.states = before ++ p :: after →
      ((s.act (.init d)).engine.states.state? p.name).map (·.children) =
        some (Hierarchy.childrenIn after p.name ++ Hierarchy.childrenIn before p.name) := by
  have valid := Definition.valid_of_violations fine
  refine ⟨fun a b declared same => ?_, fun before p after split => ?_⟩
  · cases up : a.namedParent with
    | none =>
      let isRoot (t : State) : Bool := t.namedParent = none
      have first : isRoot a = true := decide_eq_true up
      have second : isRoot b = true := decide_eq_true (same ▸ up)
      have kept : [a, b].Sublist d.parentsFirst := by
        rw [← Definition.pair_filter first second] at declared ⊢
        rw [valid.parents_first, d.roots_in_order]
        exact declared
      simp [kept]
    | some parent =>
      obtain ⟨p, listed, rfl⟩ := List.mem_map.mp
        (valid.parents a (declared.subset (List.mem_cons_self ..)) parent up)
      obtain ⟨before, after, split⟩ := List.append_of_mem listed
      rw [valid.siblings_in_order split up (same ▸ up) declared]
      constructor
      · intro apart q above
        have unique : q ∈ d.states → q = p := fun member =>
          List.inj_on_of_nodup_map valid.unique member listed (Option.some.inj above).symm
        exact fun between => apart (unique (between.subset (by simp)) ▸ between)
      · exact fun apart => apart p rfl
  · have rostered := init_rostered reached created vacant fine
    have listed : p ∈ d.parentsFirst := d.parents_first_perm.mem_iff.mpr (by simp [split])
    rw [rostered.kept, Hierarchy.find_unique rostered.unique listed, Option.map_some,
      Option.map_some]
    have order := valid.children_in_order split
    simp only [Hierarchy.settled, Hierarchy.childrenIn, order, List.map_append]

def elder : State := { name := "elder", parent := some "cradle" }
def cradle : State := { name := "cradle" }
def younger : State := { name := "younger", parent := some "cradle" }
def youngest : State := { name := "youngest", parent := some "cradle" }

/-- Three siblings, with their parent declared between the first and the others. -/
def nursery : Definition where
  states := [elder, cradle, younger, youngest]
  initial := "cradle"

theorem nursery_siblings :
    nursery.violations = [] ∧
    ¬ [elder, younger].Sublist nursery.parentsFirst ∧
    [younger, youngest].Sublist nursery.parentsFirst ∧
    (((fresh "nursery" ()).act (.init nursery)).engine.states.state? "cradle").map (·.children) =
      some ["younger", "youngest", "elder"] := by
  have fine : nursery.violations = [] := by decide +kernel
  have reached : (fresh "nursery" ()).Reachable := ⟨"nursery", (), [], rfl⟩
  obtain ⟨order, children⟩ := siblings_parted_by_parent reached rfl rfl fine
  refine ⟨fine, fun kept => ?_, ?_, ?_⟩
  · exact (order elder younger (by decide) rfl).mp kept cradle rfl (by decide)
  · refine (order younger youngest (by decide) rfl).mpr fun p above between => ?_
    have parent : p ∈ nursery.states := between.subset (by simp)
    revert above between
    revert p
    decide
  · exact children [elder] cradle [younger, youngest] rfl

/-- The order in which siblings are declared is lost: the first one comes last. -/
theorem nursery_out_of_order :
    nursery.violations = [] ∧ [elder, younger].Sublist nursery.states ∧
    elder.namedParent = younger.namedParent ∧
    nursery.parentsFirst.map (·.name) = ["cradle", "younger", "youngest", "elder"] ∧
    ¬ [elder, younger].Sublist nursery.parentsFirst ∧
    (((fresh "nursery" ()).act (.init nursery)).engine.states.state? "cradle").map (·.children) ≠
      some (Hierarchy.childrenIn nursery.states "cradle") := by
  refine ⟨by decide +kernel, by decide, rfl, by decide +kernel, by decide +kernel, ?_⟩
  decide +kernel

end Session
end Statechart
