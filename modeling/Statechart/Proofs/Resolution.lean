import Statechart.Proofs.Registration
/-!
The search for a rule. Rules are filed under a state and an event each, states are kept with their
lineages, and the search goes through both. What it finds can be told without either, from the list
of the registered rules and the parents of the states: among the rules from the current state and
from above it whose check is met, the one from the nearest state, and among several from there the
one that was registered first.
-/

namespace Statechart

/-- The table came about by adding states, one after the other. -/
inductive Built : Table String Node → Prop
  | new : Built {}
  | add {h h' : Hierarchy} {s : State} : Built h.nodes → h.add s = .ok h' → Built h'.nodes

theorem Built.forest {nodes : Table String Node} (built : Built nodes) : Forest nodes := by
  induction built with
  | new => exact forest_empty
  | add _ added ih => exact Hierarchy.forest_add ih added

/-- The state that is reached by going up to the parent so many times. -/
def ancestor? (nodes : Table String Node) (name : String) : Nat → Option String
  | 0 => some name
  | steps + 1 =>
    match (nodes.find? name).bind (·.state.parent) with
    | none => none
    | some parent => ancestor? nodes parent steps

/-- The lineage kept for a state lists its ancestors, the nearest first. -/
theorem Forest.lineage_ancestor {nodes : Table String Node} (forest : Forest nodes) (steps : Nat) :
    ∀ name, nodes.contains name = true →
      (lineageIn nodes name)[steps]? = ancestor? nodes name steps := by
  induction steps with
  | zero =>
    intro name known
    obtain ⟨parent, chain, kin⟩ := (Hierarchy.contains_iff_kin _ _).mp known
    have linked := forest.linked name parent chain kin
    simp [lineageIn, kin, linked, ancestor?]
  | succ steps ih =>
    intro name known
    obtain ⟨node, found⟩ := Option.isSome_iff_exists.mp known
    have kin : kin? nodes name = some (node.state.parent, node.lineage) := by simp [kin?, found]
    have linked := forest.linked name _ _ kin
    simp only [lineageIn, kin, Option.map_some, Option.getD_some, linked, List.getElem?_cons_succ,
      ancestor?, found, Option.bind_some]
    cases up : node.state.parent with
    | none => rfl
    | some parent =>
      rw [up] at kin
      exact ih parent (forest.rooted name parent _ kin)

theorem Rule.nodup_triggers (r : Rule) : r.triggers.Nodup := by
  have distinct := nodup_distinct [] (r.events.filter (· != "")) List.nodup_nil
  unfold triggers
  split
  · simp
  · exact distinct

/-- The buckets hold these rules, which were registered in this order. -/
inductive Filed : List Rule → Table (String × String) (List Rule) → Prop
  | none : Filed [] {}
  | add {rules : List Rule} {index index' : RuleIndex} {r : Rule} :
    Filed rules index.buckets → index.add r = .ok index' → Filed (rules ++ [r]) index'.buckets

theorem find_file_each (r : Rule) (state event : String) (events : List String)
    (unique : events.Nodup) : ∀ buckets : Table (String × String) (List Rule),
      ((events.foldl (fun buckets event => RuleIndex.file buckets (r.source, event) r)
        buckets).find? (state, event)).getD [] =
      (buckets.find? (state, event)).getD [] ++
        if r.source = state ∧ event ∈ events then [r] else [] := by
  induction events with
  | nil =>
    intro buckets
    simp
  | cons first rest ih =>
    intro buckets
    obtain ⟨new, later⟩ := List.nodup_cons.mp unique
    rw [List.foldl_cons, ih later, RuleIndex.find_file, List.append_assoc]
    congr 1
    -- A name stands once in the list, so at most one of the two adds the rule.
    by_cases here : event = first
    · subst here
      by_cases own : state = r.source
      · simp [own, new]
      · simp [own, Ne.symm own]
    · simp [here]

/-- What is filed under a state and an event are the registered rules from the state on the event,
in order of registration. -/
theorem Filed.find {rules : List Rule} {buckets : Table (String × String) (List Rule)}
    (filed : Filed rules buckets) (state event : String) :
    (buckets.find? (state, event)).getD [] =
      rules.filter fun r => decide (r.source = state ∧ event ∈ r.triggers) := by
  induction filed with
  | none => rfl
  | @add rules index index' r _ added ih =>
    obtain ⟨_, rfl⟩ := RuleIndex.add_cases added
    rw [find_file_each r state event _ r.nodup_triggers, ih, List.filter_append]
    congr 1
    by_cases fits : r.source = state ∧ event ∈ r.triggers <;> simp [fits]

def Registration.rule? : Registration → Option Rule
  | .rule r => some r
  | _ => none

/-- Registration builds the table of states and files the rules, in order. -/
theorem Granted.built_and_filed {σ : Type} {rs : List Registration} {e e' : Engine σ}
    (granted : Granted rs e e') (built : Built e.states.nodes) {rules : List Rule}
    (filed : Filed rules e.rules.buckets) :
    Built e'.states.nodes ∧ Filed (rules ++ rs.filterMap (·.rule?)) e'.rules.buckets := by
  induction rs generalizing e rules with
  | nil =>
    cases granted
    simpa using ⟨built, filed⟩
  | cons x rest ih =>
    obtain ⟨e₁, taken, granted⟩ := granted_uncons granted
    have registered := x.registered e
    rw [taken] at registered
    cases registered with
    | state added => exact ih granted (.add built added) filed
    | condition added => exact ih granted built filed
    | rule added =>
      have later := ih granted built (.add filed added)
      rwa [List.append_assoc] at later
    | trigger added =>
      obtain ⟨_, _, _, rfl⟩ := Engine.add_trigger_cases added
      exact ih granted built filed
    | initial entered =>
      refine ih granted ?_ filed
      simp only
      rw [(Hierarchy.enter_frame (.inl entered)).2]
      exact built

/-- What a search through a list finds stands at some place, and at no place before it is anything
to be found. -/
theorem found_at_place {α β : Type} {f : α → Option β} {items : List α} {found : β}
    (hit : items.findSome? f = some found) :
    ∃ (i : Nat) (a : α), items[i]? = some a ∧ f a = some found ∧
      ∀ (j : Nat) (b : α), items[j]? = some b → f b ≠ none → i ≤ j := by
  obtain ⟨before, a, after, rfl, here, nothing⟩ := List.findSome?_eq_some_iff.mp hit
  refine ⟨before.length, a, by simp, here, ?_⟩
  intro j b there nonempty
  refine Nat.le_of_not_lt fun early => ?_
  rw [List.getElem?_append_left early] at there
  exact nonempty (nothing b (List.mem_of_getElem? there))

namespace Engine
variable {σ : Type} (e : Engine σ)

/-- What the search answers if the check of this rule is met. -/
def accepts? (r : Rule) : Option (Rule × List Reading) :=
  match e.values.check r.conditions r.connective e.clock with
  | .ok v => if v.met then some (r, v.matched) else none
  | .error _ => none

theorem accepts_iff (r : Rule) (found : Rule × List Reading) : e.accepts? r = some found ↔
    ∃ v, e.values.check r.conditions r.connective e.clock = .ok v ∧ v.met = true ∧
      found = (r, v.matched) := by
  unfold accepts?
  cases e.values.check r.conditions r.connective e.clock with
  | error cause => simp
  | ok v =>
    cases met : v.met with
    | true => simp only [if_true, Option.some.injEq, Except.ok.injEq, exists_eq_left', met,
        true_and, eq_comm]
    | false => simp [met]

theorem first_met_eq (rules : List Rule) : e.firstMet rules = rules.findSome? e.accepts? := by
  induction rules with
  | nil => rfl
  | cons r rest ih =>
    rw [firstMet, List.findSome?_cons, accepts?, ih]
    cases e.values.check r.conditions r.connective e.clock with
    | error cause => rfl
    | ok v => cases met : v.met <;> simp [met]

/-- What the search at a state makes of a registered rule. -/
def offer? (event state : String) (r : Rule) : Option (Rule × List Reading) :=
  if r.source = state ∧ event ∈ r.triggers then e.accepts? r else none

/-- The search at one state, with the index out of the way. -/
theorem first_met_filed {rules : List Rule} (filed : Filed rules e.rules.buckets)
    (event state : String) :
    e.firstMet (e.rules.find state event) = rules.findSome? (e.offer? event state) := by
  rw [first_met_eq, RuleIndex.find, filed.find state event]
  clear filed
  induction rules with
  | nil => rfl
  | cons r rest ih =>
    rw [List.findSome?_cons, List.filter_cons, offer?]
    by_cases fits : r.source = state ∧ event ∈ r.triggers
    · simp only [fits, decide_true, if_true, List.findSome?_cons, ih, and_self]
    · simp only [fits, decide_false, Bool.false_eq_true, if_false, ih]

/-- The search at one state after the other. -/
theorem resolve_each (current event : String) :
    e.resolve current event = (e.states.lineageOrSelf current).findSome? fun state =>
      e.firstMet (e.rules.find state event) := by
  unfold resolve candidates
  induction e.states.lineageOrSelf current with
  | nil => rfl
  | cons state rest ih =>
    rw [List.flatMap_cons, first_met_eq, List.findSome?_append, ← first_met_eq, ← first_met_eq, ih,
      List.findSome?_cons]
    cases e.firstMet (e.rules.find state event) <;> rfl

/-- The registered rule at this place may be taken: it leads from the current state or from an
ancestor so many steps above, on the event, and its check comes out and is met. -/
structure Eligible (rules : List Rule) (current event : String) (distance place : Nat) (r : Rule)
    (v : Verdict) : Prop where
  registered : rules[place]? = some r
  above : ancestor? e.states.nodes current distance = some r.source
  triggered : event ∈ r.triggers
  checked : e.values.check r.conditions r.connective e.clock = .ok v
  met : v.met = true

section Search
variable {e : Engine σ} {rules : List Rule} {current event : String}

theorem Eligible.offered {k i : Nat} {r : Rule} {v : Verdict}
    (eligible : e.Eligible rules current event k i r v) :
    e.offer? event r.source r = some (r, v.matched) := by
  rw [offer?, if_pos ⟨rfl, eligible.triggered⟩]
  exact (e.accepts_iff r _).mpr ⟨v, eligible.checked, eligible.met, rfl⟩

theorem eligible_of_offer {k i : Nat} {state : String} {r : Rule} {found : Rule × List Reading}
    (above : ancestor? e.states.nodes current k = some state) (registered : rules[i]? = some r)
    (offered : e.offer? event state r = some found) :
    ∃ v, e.Eligible rules current event k i r v ∧ found = (r, v.matched) := by
  unfold offer? at offered
  split at offered
  · next fits =>
    obtain ⟨v, checked, met, answer⟩ := (e.accepts_iff r found).mp offered
    exact ⟨v, ⟨registered, fits.1 ▸ above, fits.2, checked, met⟩, answer⟩
  · cases offered

variable (event) (built : Built e.states.nodes) (filed : Filed rules e.rules.buckets)
  (known : e.states.nodes.contains current = true)
include built filed known

theorem resolve_search : ∃ lineage : List String,
    (∀ k, lineage[k]? = ancestor? e.states.nodes current k) ∧
      e.resolve current event =
        lineage.findSome? fun state => rules.findSome? (e.offer? event state) := by
  refine ⟨lineageIn e.states.nodes current, ?_, ?_⟩
  · intro k
    exact built.forest.lineage_ancestor k current known
  · rw [e.resolve_each, Hierarchy.lineage_or_self_eq _ known]
    congr 1
    funext state
    exact e.first_met_filed filed event state

theorem resolve_none (nothing : e.resolve current event = none) (k i : Nat) (r : Rule)
    (v : Verdict) : ¬ e.Eligible rules current event k i r v := by
  obtain ⟨lineage, ancestors, search⟩ := resolve_search event built filed known
  intro eligible
  rw [search, List.findSome?_eq_none_iff] at nothing
  have listed := List.mem_of_getElem? ((ancestors k).trans eligible.above)
  have silent := List.findSome?_eq_none_iff.mp (nothing r.source listed) r
    (List.mem_of_getElem? eligible.registered)
  rw [eligible.offered] at silent
  cases silent

/-- What is found is eligible, and comes before all that is. -/
theorem resolve_some {found : Rule × List Reading} (hit : e.resolve current event = some found) :
    ∃ k i r v, e.Eligible rules current event k i r v ∧ found = (r, v.matched) ∧
      ∀ k' i' r' v', e.Eligible rules current event k' i' r' v' → k < k' ∨ k = k' ∧ i ≤ i' := by
  obtain ⟨lineage, ancestors, search⟩ := resolve_search event built filed known
  rw [search] at hit
  obtain ⟨k, state, level, inner, nearest⟩ := found_at_place hit
  obtain ⟨i, r, registered, offered, first⟩ := found_at_place inner
  rw [ancestors k] at level
  obtain ⟨v, eligible, answer⟩ := eligible_of_offer level registered offered
  refine ⟨k, i, r, v, eligible, answer, ?_⟩
  intro k' i' r' v' other
  -- Had a nearer level offered a rule, the search would have ended there.
  have near : k ≤ k' := by
    refine nearest k' r'.source ((ancestors k').trans other.above) ?_
    intro nothing
    have silent := List.findSome?_eq_none_iff.mp nothing r' (List.mem_of_getElem? other.registered)
    rw [other.offered] at silent
    cases silent
  rcases Nat.lt_or_eq_of_le near with farther | same
  · exact .inl farther
  · -- On one level the order of registration decides.
    subst same
    have here : state = r'.source := Option.some.inj (level.symm.trans other.above)
    refine .inr ⟨rfl, first i' r' other.registered ?_⟩
    rw [here, other.offered]
    simp

end Search

/-- The search takes the rule that comes first by distance and then by registration among all
registered rules that may be taken, with what its check saw; it takes none exactly if there is none.
A rule whose check does not come out may not be taken, and stands in no other rule's way. -/
theorem resolve_takes_nearest_then_first {e : Engine σ} {rules : List Rule}
    (built : Built e.states.nodes) (filed : Filed rules e.rules.buckets) {current : String}
    (known : e.states.nodes.contains current = true) (event : String) :
    (∀ r matched, e.resolve current event = some (r, matched) ↔
      ∃ k i v, e.Eligible rules current event k i r v ∧ v.matched = matched ∧
        ∀ k' i' r' v', e.Eligible rules current event k' i' r' v' → k < k' ∨ k = k' ∧ i ≤ i') ∧
    (e.resolve current event = none ↔
      ∀ k i r v, ¬ e.Eligible rules current event k i r v) := by
  have unresolved := resolve_none event built filed known
  have resolved {found} (hit : e.resolve current event = some found) :=
    resolve_some event built filed known hit
  constructor
  · intro r matched
    constructor
    · intro hit
      obtain ⟨k, i, r', v, eligible, answer, least⟩ := resolved hit
      cases answer
      exact ⟨k, i, v, eligible, rfl, least⟩
    · rintro ⟨k, i, v, eligible, rfl, least⟩
      cases hit : e.resolve current event with
      | none => exact absurd eligible (unresolved hit k i r v)
      | some found =>
        -- Two eligible rules that both come first are one.
        obtain ⟨k', i', r', v', eligible', answer, least'⟩ := resolved hit
        have order := least k' i' r' v' eligible'
        have order' := least' k i r v eligible
        have place : i' = i := by omega
        subst place
        have same := Option.some.inj (eligible'.registered.symm.trans eligible.registered)
        subst same
        have verdict := Except.ok.inj (eligible'.checked.symm.trans eligible.checked)
        rw [answer, verdict]
  · constructor
    · intro nothing
      exact unresolved nothing
    · intro ineligible
      cases hit : e.resolve current event with
      | none => rfl
      | some found =>
        obtain ⟨k, i, r, v, eligible, _⟩ := resolved hit
        exact absurd eligible (ineligible k i r v)

/-- Rules of a room and of the house around it. The first cannot be checked, the third is not met
while there is light. -/
def doorRules : List Rule :=
  [{ source := "room", target := "room", events := ["ring"], conditions := [.equals "ghost" 1] },
    { source := "house", target := "house", events := ["ring", "knock"] },
    { source := "room", target := "house", events := ["ring"], conditions := [.equals "dark" 1] },
    { source := "house", target := "room", events := ["ring"] },
    { source := "room", target := "house", events := ["knock"] }]

def doorbell : List Registration :=
  [.state { name := "house" }, .state { name := "room", parent := some "house" },
    .condition (.equals "dark" 1)] ++ doorRules.map .rule

def home : Engine Unit := (Machine.registerAll doorbell {}).2

/-- A ring falls to the house, to the first of its rules; a knock stays with the room, and a shout
finds no rule. -/
theorem home_answers :
    (∃ k i v, home.Eligible doorRules "room" "ring" k i
        { source := "house", target := "house", events := ["ring", "knock"] } v ∧ v.matched = [] ∧
      ∀ k' i' r' v', home.Eligible doorRules "room" "ring" k' i' r' v' → k < k' ∨ k = k' ∧ i ≤ i') ∧
    (∃ k i v, home.Eligible doorRules "room" "knock" k i
        { source := "room", target := "house", events := ["knock"] } v ∧ v.matched = [] ∧
      ∀ k' i' r' v', home.Eligible doorRules "room" "knock" k' i' r' v' →
        k < k' ∨ k = k' ∧ i ≤ i') ∧
    ∀ k i r v, ¬ home.Eligible doorRules "room" "shout" k i r v := by
  have granted : Granted doorbell ({} : Engine Unit) home := rfl
  obtain ⟨built, filed⟩ := granted.built_and_filed .new .none
  have known : home.states.nodes.contains "room" = true := by decide +kernel
  have searched := resolve_takes_nearest_then_first built filed known
  refine ⟨?_, ?_, ?_⟩
  · exact ((searched "ring").1 _ _).mp (by decide +kernel)
  · exact ((searched "knock").1 _ _).mp (by decide +kernel)
  · exact (searched "shout").2.mp (by decide +kernel)

end Engine
end Statechart
