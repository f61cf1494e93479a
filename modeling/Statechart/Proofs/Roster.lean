import Mathlib.Data.List.Nodup
import Statechart.Proofs.Calls
import Statechart.Proofs.Forest
import Statechart.Proofs.Frame
/-!
The table of states under any sequence of calls. Which states it holds can be told from the roster
of those that were admitted, in order: each is kept as it was registered, its lineage goes up from
parent to parent, and its children are those admitted under it, in the order of the roster. A call
that is refused leaves everything as it was.
-/

namespace Statechart.Hierarchy

/-- The names of the states on a roster that have this parent. -/
def childrenIn (roster : List State) (parent : String) : List String :=
  (roster.filter fun s => s.namedParent = some parent).map (·.name)

/-- A state as it is kept: an empty parent is none, and the children are those on the roster. -/
def settled (roster : List State) (s : State) : State :=
  { s with parent := s.namedParent, children := childrenIn roster s.name }

/-- The table holds the states on the roster, which were registered in this order. -/
structure Rostered (h : Hierarchy) (roster : List State) : Prop where
  unique : (roster.map (·.name)).Nodup
  keys : h.nodes.keys = roster.map (·.name)
  kept : ∀ n, h.state? n = (roster.find? (·.name == n)).map (settled roster)
  forest : Forest h.nodes

theorem rostered_nil : Rostered {} [] where
  unique := List.nodup_nil
  keys := rfl
  kept _ := rfl
  forest := forest_empty

theorem children_in_snoc (roster : List State) (s : State) (parent : String) :
    childrenIn (roster ++ [s]) parent =
      childrenIn roster parent ++ if s.namedParent = some parent then [s.name] else [] := by
  by_cases here : s.namedParent = some parent <;> simp [childrenIn, here]

/-- A state that is added comes last. -/
theorem keys_add {h h' : Hierarchy} {s : State} (added : h.add s = .ok h') :
    h'.nodes.keys = h.nodes.keys ++ [s.name] := by
  cases add_cases added with
  | root _ new _ => simp [Table.keys_put, new]
  | @below p node _ new _ found =>
    have known : h.nodes.contains p = true := by simp [Table.contains, found]
    have other : s.name ≠ p := by
      rintro same
      rw [← same, new] at known
      cases known
    simp [Table.keys_put, Table.contains_put, new, other, known]

/-- All that adding a state does to the states that are kept. -/
theorem state_add {h h' : Hierarchy} {s : State} (added : h.add s = .ok h') (n : String) :
    h'.state? n = if n = s.name then some { s with parent := s.namedParent, children := [] }
      else (h.state? n).map fun t => { t with
        children := t.children ++ if s.namedParent = some n then [s.name] else [] } := by
  cases add_cases added with
  | root _ _ up =>
    by_cases here : n = s.name
    · simp [state?, Table.find_put, here, up]
    · cases kept : h.nodes.find? n <;> simp [state?, Table.find_put, here, kept, up]
  | @below p node _ _ up found =>
    by_cases here : n = s.name
    · simp [state?, Table.find_put, here, up]
    · by_cases above : n = p
      · subst above
        simp [state?, Table.find_put, here, found, adopt, up]
      · cases kept : h.nodes.find? n <;>
          simp [state?, Table.find_put, here, above, Ne.symm above, kept, up]

/-- A registered state keeps its timeout. -/
theorem allowance_add {h h' : Hierarchy} {s : State} (added : h.add s = .ok h') {name : String}
    (known : h.contains name = true) : h'.allowance name = h.allowance name := by
  have other : name ≠ s.name := by
    rintro rfl
    exact Bool.false_ne_true ((kin_add added).1.symm.trans known)
  rw [allowance, allowance, state_add added, if_neg other, Option.map_map]
  rfl

theorem find_unique {roster : List State} (unique : (roster.map (·.name)).Nodup) {t : State}
    (member : t ∈ roster) : roster.find? (·.name == t.name) = some t := by
  cases found : roster.find? (·.name == t.name) with
  | none => exact absurd (beq_self_eq_true t.name) (List.find?_eq_none.mp found t member)
  | some u =>
    have same := List.find?_some found
    rw [List.inj_on_of_nodup_map unique (List.mem_of_find?_eq_some found) member
      (beq_iff_eq.mp same)]

namespace Rostered
variable {h h' : Hierarchy} {roster : List State} (rostered : Rostered h roster)
include rostered

theorem contains_iff (n : String) : h.contains n = true ↔ ∃ s ∈ roster, s.name = n := by
  rw [contains, Table.contains_iff_mem_keys, rostered.keys, List.mem_map]

theorem find {t : State} (member : t ∈ roster) : h.state? t.name = some (settled roster t) := by
  rw [rostered.kept, find_unique rostered.unique member, Option.map_some]

theorem parent_known {t : State} (member : t ∈ roster) {p : String}
    (up : t.namedParent = some p) : h.contains p = true := by
  obtain ⟨node, found, same⟩ := Option.map_eq_some_iff.mp (rostered.find member)
  refine rostered.forest.rooted t.name p node.lineage ?_
  simp [kin?, found, same, settled, up]

theorem add {s : State} (added : h.add s = .ok h') : Rostered h' (roster ++ [s]) := by
  obtain ⟨new, placed, _, _⟩ := kin_add added
  have unlisted (t : State) (member : t ∈ roster) : t.name ≠ s.name := by
    intro same
    have known := (rostered.contains_iff s.name).mpr ⟨t, member, same⟩
    exact Bool.false_ne_true (new.symm.trans known)
  -- A parent is registered before its children, so the new state has none, not even itself.
  have childless : childrenIn (roster ++ [s]) s.name = [] := by
    rw [childrenIn, List.map_eq_nil_iff, List.filter_eq_nil_iff]
    intro t member
    have known : t.namedParent ≠ some s.name := by
      intro up
      rcases List.mem_append.mp member with old | last
      · exact Bool.false_ne_true (new.symm.trans (rostered.parent_known old up))
      · rw [List.mem_singleton.mp last] at up
        exact Bool.false_ne_true (new.symm.trans (placed s.name up))
    simpa using known
  refine ⟨?_, ?_, fun n => ?_, forest_add rostered.forest added⟩
  · rw [List.map_append, List.nodup_append]
    refine ⟨rostered.unique, by simp, ?_⟩
    intro a listed b last same
    obtain ⟨t, member, rfl⟩ := List.mem_map.mp listed
    exact unlisted t member (same.trans (by simpa using last))
  · rw [keys_add added, rostered.keys, List.map_append]
    rfl
  · rw [state_add added n, rostered.kept n, List.find?_append]
    by_cases here : n = s.name
    · subst here
      have absent : roster.find? (·.name == s.name) = none :=
        List.find?_eq_none.mpr fun t member => by simpa using unlisted t member
      simp [absent, settled, childless]
    · cases found : roster.find? (·.name == n) with
      | none => simp [here, Ne.symm here]
      | some t =>
        have named := List.find?_some found
        simp [here, settled, children_in_snoc, beq_iff_eq.mp named]

theorem mem_children_in (n c : String) :
    c ∈ childrenIn roster n ↔ (h.state? c).bind (·.parent) = some n := by
  rw [rostered.kept c, childrenIn, List.mem_map]
  constructor
  · rintro ⟨t, member, rfl⟩
    obtain ⟨listed, up⟩ := List.mem_filter.mp member
    simpa [find_unique rostered.unique listed, settled] using up
  · intro up
    obtain ⟨kept, found, up⟩ := Option.bind_eq_some_iff.mp up
    obtain ⟨t, here, rfl⟩ := Option.map_eq_some_iff.mp found
    have named := List.find?_some here
    refine ⟨t, List.mem_filter.mpr ⟨List.mem_of_find?_eq_some here, ?_⟩, beq_iff_eq.mp named⟩
    simpa [settled] using up

theorem nodup_children_in (n : String) : (childrenIn roster n).Nodup :=
  rostered.unique.sublist (List.filter_sublist.map _)

end Rostered

/-! Calls. -/

inductive Call
  | add (s : State)
  | enter (name : String) (now : Nat)
  | start (now : Nat)
  | stop
  /-- The watchdog looks at the clock. -/
  | wake (now : Nat)

/-- The instant of a call, if it brings one. -/
def Call.time? : Call → Option Nat
  | .enter _ now | .start now | .wake now => some now
  | .add _ | .stop => none

/-- What a call answers, and what it leaves behind. -/
def answered (h : Hierarchy) (x : Ending Hierarchy) : Ending Unit × Hierarchy :=
  (x.map fun _ => (), x.left h)

def call (h : Hierarchy) : Call → Ending Unit × Hierarchy
  | .add s => h.answered (h.add s)
  | .enter name now => h.answered (h.enter name now)
  | .start now => h.answered (h.start now)
  | .stop => (.done (), h.stop)
  | .wake now => (.done (), ((h.wake? now).map (·.2)).getD h)

def afterCalls (h : Hierarchy) (calls : List Call) : Hierarchy :=
  calls.foldl (fun h c => (h.call c).2) h

/-- The state that a call registers. -/
def newcomer (h : Hierarchy) : Call → Option State
  | .add s =>
    match h.add s with
    | .ok _ => some s
    | .error _ => none
  | .enter .. | .start _ | .stop | .wake _ => none

/-- The states that calls register, in order. -/
def newcomers (h : Hierarchy) (calls : List Call) : List State :=
  noted (fun h c => (h.call c).2) (fun h c => (h.newcomer c).toList) h calls

/-- Why a call is refused, if it is. -/
def refusal? (h : Hierarchy) : Call → Option Error
  | .add s =>
    if h.running then some .registrationClosed
    else if h.contains s.name then some (.duplicateState s.name)
    else
      match s.namedParent with
      | none => none
      | some p => if h.contains p then none else some (.unknownParent s.name p)
  | .enter name _ => if h.contains name then none else some (.unknownState name)
  | .start _ | .stop | .wake _ => none

/-- A call breaks down, for the timeout of the state that it is to arm the watchdog for ends beyond
the range of the clock. -/
def overruns (h : Hierarchy) : Call → Bool
  | .enter name now => h.outlasts name now
  | .start now => !h.running && h.current.any (h.outlasts · now)
  | .add _ | .stop | .wake _ => false

theorem add_answer (h : Hierarchy) (s : State) : (h.call (.add s)).1 =
    match h.refusal? (.add s) with
    | none => .done ()
    | some cause => .refused cause := by
  simp only [call, refusal?, contains]
  by_cases active : h.running = true
  · simp [add, active, answered, Ending.ofExcept, Ending.map]
  by_cases known : h.nodes.contains s.name = true
  · simp [add, active, known, answered, Ending.ofExcept, Ending.map]
  cases up : s.namedParent with
  | none => simp [add, active, known, up, answered, Ending.ofExcept, Ending.map]
  | some p =>
    cases found : h.nodes.find? p with
    | none =>
      have unknown : h.nodes.contains p = false := by simp [Table.contains, found]
      simp [add, active, known, up, found, unknown, answered, Ending.ofExcept, Ending.map]
    | some node =>
      have placed : h.nodes.contains p = true := by simp [Table.contains, found]
      simp [add, active, known, up, found, placed, answered, Ending.ofExcept, Ending.map]

theorem call_answer (h : Hierarchy) (c : Call) : (h.call c).1 =
    match h.refusal? c with
    | none => if h.overruns c then .broken () else .done ()
    | some cause => .refused cause := by
  cases c with
  | add s =>
    rw [h.add_answer s]
    rfl
  | enter name now =>
    simp only [call, answered, enter_eq, refusal?, overruns]
    by_cases known : h.contains name = true
    · by_cases far : h.outlasts name now = true <;> simp [known, far, Ending.map]
    · simp [known, Ending.map]
  | start now =>
    simp only [call, answered, start_eq, refusal?, overruns]
    by_cases active : h.running = true
    · simp [active, Ending.map]
    rcases Option.eq_none_or_eq_some h.current with stands | ⟨name, stands⟩
    · simp [active, stands, Ending.map]
    · by_cases far : h.outlasts name now = true <;> simp [active, stands, far, Ending.map]
  | stop => rfl
  | wake now => rfl

theorem call_refused (h : Hierarchy) (c : Call) {cause : Error}
    (refused : (h.call c).1 = .refused cause) : (h.call c).2 = h := by
  have stays (x : Ending Hierarchy) (failed : (h.answered x).1 = .refused cause) :
      (h.answered x).2 = h := by
    cases x with
    | done => cases failed
    | refused => rfl
    | broken => cases failed
  cases c with
  | add s => exact stays _ refused
  | enter name now => exact stays _ refused
  | start now => exact stays _ refused
  | stop => cases refused
  | wake now => cases refused

theorem nodes_start (h : Hierarchy) (now : Nat) :
    ((h.start now).left h).nodes = h.nodes ∧ ((h.start now).left h).current = h.current := by
  cases ends : h.start now with
  | done h' =>
    rw [Ending.left, start_frame (.inl ends)]
    exact ⟨rfl, rfl⟩
  | refused cause => exact ⟨rfl, rfl⟩
  | broken h' =>
    rw [Ending.left, start_frame (.inr ends)]
    exact ⟨rfl, rfl⟩

/-- All that a call can do to the states that are kept and to the current one. -/
inductive Called (h : Hierarchy) : Call → Hierarchy → Prop
  | still {c : Call} {h' : Hierarchy} : h.newcomer c = none → h'.nodes = h.nodes →
    h'.current = h.current → Called h c h'
  | added {s : State} {h' : Hierarchy} : h.add s = .ok h' → h.newcomer (.add s) = some s →
    Called h (.add s) h'
  | entered {name : String} {now : Nat} {h' : Hierarchy} : h.contains name = true →
    h'.nodes = h.nodes → h'.current = some name → Called h (.enter name now) h'

theorem called (h : Hierarchy) (c : Call) : Called h c (h.call c).2 := by
  cases c with
  | add s =>
    cases answer : h.add s with
    | error cause =>
      simp only [call, answer, answered]
      exact .still (by simp [newcomer, answer]) rfl rfl
    | ok h' =>
      simp only [call, answer, answered]
      exact .added answer (by simp [newcomer, answer])
  | enter name now =>
    cases answer : h.enter name now with
    | refused cause =>
      simp only [call, answer, answered]
      exact .still rfl rfl rfl
    | done h' =>
      simp only [call, answer, answered, Ending.left]
      obtain ⟨known, same⟩ := enter_frame (.inl answer)
      exact .entered known (by rw [same]) (by rw [same])
    | broken h' =>
      simp only [call, answer, answered, Ending.left]
      obtain ⟨known, same⟩ := enter_frame (.inr answer)
      exact .entered known (by rw [same]) (by rw [same])
  | start now => exact .still rfl (h.nodes_start now).1 (h.nodes_start now).2
  | stop => exact .still rfl rfl rfl
  | wake now =>
    simp only [call]
    cases woken : h.wake? now with
    | none => exact .still rfl rfl rfl
    | some pair => exact .still rfl (nodes_wake woken).1 (nodes_wake woken).2

/-- The current state, if there is one, is among those that are kept. -/
def Seated (h : Hierarchy) : Prop := ∀ n, h.current = some n → h.contains n = true

theorem Rostered.congr {h h' : Hierarchy} {roster : List State} (rostered : Rostered h roster)
    (same : h'.nodes = h.nodes) : Rostered h' roster where
  unique := rostered.unique
  keys := same ▸ rostered.keys
  kept n := by rw [state?, same]; exact rostered.kept n
  forest := same ▸ rostered.forest

theorem Called.rostered {h h' : Hierarchy} {c : Call} (called : Called h c h')
    {roster : List State} (rostered : Rostered h roster) :
    Rostered h' (roster ++ (h.newcomer c).toList) := by
  cases called with
  | still nobody same _ =>
    rw [nobody, Option.toList_none, List.append_nil]
    exact rostered.congr same
  | added added new =>
    rw [new, Option.toList_some]
    exact rostered.add added
  | entered _ same _ =>
    rw [newcomer, Option.toList_none, List.append_nil]
    exact rostered.congr same

theorem Called.seated {h h' : Hierarchy} {c : Call} (called : Called h c h') (seated : Seated h) :
    Seated h' := by
  intro n current
  cases called with
  | still _ same still =>
    rw [contains, same]
    exact seated n (still.symm.trans current)
  | added added _ =>
    obtain ⟨_, _, frame, _⟩ := kin_add added
    rw [frame] at current
    exact (contains_add added n).mpr (.inr (seated n current))
  | entered known same now =>
    cases now.symm.trans current
    rw [contains, same]
    exact known

theorem after_calls_append (h : Hierarchy) (first later : List Call) :
    h.afterCalls (first ++ later) = (h.afterCalls first).afterCalls later :=
  List.foldl_append

/-- Once there is a current state there always is one. -/
theorem current_after (calls : List Call) (h : Hierarchy) (stands : h.current ≠ none) :
    (h.afterCalls calls).current ≠ none := by
  induction calls generalizing h with
  | nil => exact stands
  | cons c rest ih =>
    refine ih _ (show (h.call c).2.current ≠ none from ?_)
    have called := h.called c
    generalize (h.call c).2 = after at called ⊢
    cases called with
    | still _ _ same => rwa [same]
    | added added => rwa [(kin_add added).2.2.1]
    | entered _ _ now =>
      rw [now]
      exact Option.some_ne_none _

/-- What one call keeps, any calls keep. -/
theorem rostered_after (calls : List Call) (h : Hierarchy) (roster : List State)
    (rostered : Rostered h roster) (seated : Seated h) :
    Rostered (h.afterCalls calls) (roster ++ h.newcomers calls) ∧ Seated (h.afterCalls calls) :=
  noted_keeps (P := fun roster h => Rostered h roster ∧ Seated h)
    (fun _ h c holds => ⟨(h.called c).rostered holds.1, (h.called c).seated holds.2⟩) calls
    ⟨rostered, seated⟩

/-- The laws of a table in which the states on a roster were registered, in this order. -/
structure FamilyTree (h : Hierarchy) (roster : List State) : Prop where
  unique : (roster.map (·.name)).Nodup
  registered : ∀ n, h.contains n = true ↔ ∃ s ∈ roster, s.name = n
  kept : ∀ s ∈ roster, h.state? s.name =
    some { s with parent := s.namedParent, children := childrenIn roster s.name }
  /-- A lineage is the state, followed by the lineage of its parent. -/
  lineage : ∀ n t, h.state? n = some t →
    (h.lineage n).Nodup ∧ h.lineage n = n :: (t.parent.map h.lineage).getD []
  parent : ∀ n t p, h.state? n = some t → t.parent = some p → h.contains p = true
  child : ∀ n t c, h.state? n = some t → c ∈ t.children → h.contains c = true
  /-- A state lists those as children, once each, whose parent it is. -/
  children : ∀ n t, h.state? n = some t → ∀ c, t.children.count c =
    if (h.state? c).bind (·.parent) = some n then 1 else 0
  current : ∀ n, h.current = some n → h.contains n = true

theorem Rostered.tree {h : Hierarchy} {roster : List State} (rostered : Rostered h roster)
    (seated : Seated h) : FamilyTree h roster := by
  have node {n : String} {t : State} (found : h.state? n = some t) :
      ∃ chain, kin? h.nodes n = some (t.parent, chain) ∧ h.lineage n = chain := by
    obtain ⟨node, there, rfl⟩ := Option.map_eq_some_iff.mp found
    exact ⟨node.lineage, by simp [kin?, there], by simp [lineage, there]⟩
  -- What is found of a state lists as children those of the roster that name it.
  have listed {n : String} {t : State} (found : h.state? n = some t) :
      t.children = childrenIn roster n := by
    rw [rostered.kept n] at found
    obtain ⟨s, here, rfl⟩ := Option.map_eq_some_iff.mp found
    have named := List.find?_some here
    rw [settled, beq_iff_eq.mp named]
  refine {
    unique := rostered.unique
    registered := rostered.contains_iff
    kept := fun s member => rostered.find member
    lineage := ?_
    parent := ?_
    child := ?_
    children := ?_
    current := seated }
  · intro n t found
    obtain ⟨chain, kin, same⟩ := node found
    rw [same]
    refine ⟨rostered.forest.unrepeated n _ chain kin, ?_⟩
    rw [rostered.forest.linked n _ chain kin]
    cases t.parent with
    | none => rfl
    | some p => rw [lineageAbove, Option.map_some, Option.getD_some, lineage_eq]
  · intro n t p found up
    obtain ⟨chain, kin, _⟩ := node found
    rw [up] at kin
    exact rostered.forest.rooted n p chain kin
  · intro n t c found below
    rw [listed found] at below
    obtain ⟨s, member, named⟩ := List.mem_map.mp below
    exact (rostered.contains_iff c).mpr ⟨s, (List.mem_filter.mp member).1, named⟩
  · intro n t found c
    rw [listed found, (rostered.nodup_children_in n).count,
      if_congr (rostered.mem_children_in n c) rfl rfl]

/-- The table that calls make of a new one. -/
def made (calls : List Call) : Hierarchy := ({} : Hierarchy).afterCalls calls

/-- The states that calls register with a new table, in order. -/
def admitted (calls : List Call) : List State := ({} : Hierarchy).newcomers calls

theorem made_rostered (calls : List Call) :
    Rostered (made calls) (admitted calls) ∧ Seated (made calls) :=
  rostered_after calls {} [] rostered_nil fun _ current => by cases current

/-- After any calls on a new table the states that were admitted form a forest, in which each is
kept with its lineage and its children. A call is refused for one of four reasons, and then it
leaves all as it was; a call that breaks down for the clock's range keeps the forest too. -/
theorem calls_keep_family_tree (calls : List Call) :
    FamilyTree (made calls) (admitted calls) ∧
    ∀ c, ((made calls).call c).1 =
        (match (made calls).refusal? c with
        | none => if (made calls).overruns c then .broken () else .done ()
        | some cause => .refused cause) ∧
      ∀ cause, ((made calls).call c).1 = .refused cause → ((made calls).call c).2 = made calls := by
  obtain ⟨rostered, seated⟩ := made_rostered calls
  refine ⟨rostered.tree seated, fun c => ⟨call_answer _ c, fun cause refused => ?_⟩⟩
  exact call_refused _ c refused

/-- A state with a list of children that does not count. -/
def claimant (name : String) (parent : Option String) : State :=
  { name, parent, children := ["nobody"], timeout := 7 }

/-- Calls of which five are refused: a parent that comes later or is the state itself, a name that
is taken, a state to enter that is unknown, and a latecomer. -/
def unruly : List Call :=
  [.add (claimant "leaf" (some "root")), .add (claimant "self" (some "self")),
    .add (claimant "root" (some "")), .add (claimant "leaf" (some "root")),
    .add (claimant "root" none), .add (claimant "twig" (some "leaf")), .enter "gone" 3,
    .enter "leaf" 4, .start 5, .add (claimant "late" (some "root"))]

/-- Three states pass; one more is refused and changes nothing. -/
theorem unruly_family_tree :
    admitted unruly = [claimant "root" (some ""), claimant "leaf" (some "root"),
      claimant "twig" (some "leaf")] ∧
    FamilyTree (made unruly) (admitted unruly) ∧
    ((made unruly).call (.enter "self" 9)).1 = .refused (.unknownState "self") ∧
    ((made unruly).call (.enter "self" 9)).2 = made unruly := by
  obtain ⟨tree, law⟩ := calls_keep_family_tree unruly
  have refused : ((made unruly).call (.enter "self" 9)).1 = .refused (.unknownState "self") :=
    (law (.enter "self" 9)).1
  exact ⟨rfl, tree, refused, (law (.enter "self" 9)).2 _ refused⟩

end Statechart.Hierarchy
