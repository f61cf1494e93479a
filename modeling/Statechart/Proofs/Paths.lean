import Statechart.Proofs.Forest
/-!
The way from one state to another. Two lineages share a tail; what is left is the front of the first
lineage, what is entered is the front of the second, turned round. Leaving keeps the shared tail,
and on top of it each state is entered below a parent that is active already.
-/

namespace Statechart

/-- What stays active when some states are left. -/
def leave (active leaving : List String) : List String := active.filter (· ∉ leaving)

/-- States may be entered one after the other: each is inactive, and its parent is active. -/
def Admits (parent : String → Option String) : (active entered : List String) → Prop
  | _, [] => True
  | active, s :: rest =>
    s ∉ active ∧ (∀ p, parent s = some p → p ∈ active) ∧ Admits parent (s :: active) rest

theorem admits_snoc (parent : String → Option String) (active first : List String) (s : String)
    (earlier : Admits parent active first) (inactive : s ∉ first.reverse ++ active)
    (below : ∀ p, parent s = some p → p ∈ first.reverse ++ active) :
    Admits parent active (first ++ [s]) := by
  induction first generalizing active with
  | nil => exact ⟨inactive, below, trivial⟩
  | cons t rest ih =>
    obtain ⟨new, above, later⟩ := earlier
    refine ⟨new, above, ih (t :: active) later ?_ ?_⟩
    · simpa using inactive
    · simpa using below

/-- A chain of states in which each is followed by its parent is entered from its far end. -/
theorem admits_chain (parent : String → Option String) (front tail : List String)
    (unrepeated : (front ++ tail).Nodup)
    (linked : ∀ s rest, s :: rest <:+ front ++ tail → ∀ p, parent s = some p → p ∈ rest) :
    Admits parent tail front.reverse := by
  induction front with
  | nil => trivial
  | cons s rest ih =>
    -- The innermost state is entered last, when all that follows it in the chain is active.
    have parts := List.nodup_cons.mp unrepeated
    have earlier : Admits parent tail rest.reverse :=
      ih parts.2 fun t above suffix => linked t above (suffix.trans (List.suffix_cons s _))
    rw [List.reverse_cons]
    refine admits_snoc parent tail rest.reverse s earlier ?_ ?_
    · simpa using parts.1
    · simpa using linked s (rest ++ tail) List.suffix_rfl

namespace Path

theorem take_agreement (first second : List String) :
    first.take ((first.zip second).takeWhile fun pair => pair.1 == pair.2).length =
      second.take ((first.zip second).takeWhile fun pair => pair.1 == pair.2).length := by
  induction first generalizing second with
  | nil => simp
  | cons a rest ih =>
    cases second with
    | nil => simp
    | cons b other =>
      by_cases same : a = b
      · simp [same, ih]
      · simp [same]

/-- What is not left is not entered either: it is the tail of both lineages. -/
theorem shared_tail (source target : List String) :
    source.drop (source.length - sharedTail source target) =
      target.drop (target.length - sharedTail source target) := by
  have front := congrArg List.reverse (take_agreement source.reverse target.reverse)
  simpa [sharedTail, List.reverse_take] using front

theorem leave_front (chain : List String) (unrepeated : chain.Nodup) (count : Nat) :
    leave chain (chain.take count) = chain.drop count := by
  have parts := List.nodup_append.mp ((List.take_append_drop count chain).symm ▸ unrepeated)
  have left : leave (chain.take count) (chain.take count) = [] := by simp [leave]
  have kept : leave (chain.drop count) (chain.take count) = chain.drop count := by
    refine List.filter_eq_self.mpr fun s member => ?_
    simpa using fun before => parts.2.2 s before s member rfl
  calc leave chain (chain.take count)
      = leave (chain.take count ++ chain.drop count) (chain.take count) := by
        rw [List.take_append_drop]
    _ = leave (chain.take count) (chain.take count) ++
          leave (chain.drop count) (chain.take count) := List.filter_append ..
    _ = chain.drop count := by rw [left, kept, List.nil_append]

theorem exit_front (source target : List String) : (between source target).exit <+: source :=
  List.take_prefix ..

theorem leave_between (source target : List String) (unrepeated : source.Nodup) :
    leave source (between source target).exit =
      target.drop (target.length - sharedTail source target) :=
  (leave_front source unrepeated _).trans (shared_tail source target)

/-- Leaving and entering leads from one lineage to the other. -/
theorem between_leads (source target : List String) (unrepeated : source.Nodup) :
    (between source target).enter.reverse ++ leave source (between source target).exit =
      target := by
  rw [leave_between source target unrepeated, between, List.reverse_reverse]
  exact List.take_append_drop _ _

end Path

/-- The registered states form a forest with these parents. -/
structure Charted (parent : String → Option String) (nodes : Table String Node) : Prop where
  forest : Forest nodes
  parents : ∀ n p chain, kin? nodes n = some (p, chain) → parent n = p

namespace Charted
variable {parent : String → Option String} {nodes : Table String Node}

theorem lineage (charted : Charted parent nodes) {name : String}
    (known : nodes.contains name = true) :
    lineageIn nodes name = name :: lineageAbove nodes (parent name) ∧
      (lineageIn nodes name).Nodup := by
  obtain ⟨p, chain, found⟩ := (Hierarchy.contains_iff_kin _ _).mp known
  have here : lineageIn nodes name = chain := by simp [lineageIn, found]
  rw [here, charted.parents name p chain found]
  exact ⟨charted.forest.linked name p chain found, charted.forest.unrepeated name p chain found⟩

theorem parent_known (charted : Charted parent nodes) {name p : String}
    (known : nodes.contains name = true) (up : parent name = some p) : nodes.contains p = true := by
  obtain ⟨q, chain, found⟩ := (Hierarchy.contains_iff_kin _ _).mp known
  rw [charted.parents name q chain found] at up
  rw [up] at found
  exact charted.forest.rooted name p chain found

/-- In a lineage every state is followed by its parent. -/
theorem parent_follows (charted : Charted parent nodes) (chain : List String) :
    ∀ name, nodes.contains name = true → lineageIn nodes name = chain →
      ∀ s rest, s :: rest <:+ chain → ∀ p, parent s = some p → p ∈ rest := by
  induction chain with
  | nil =>
    intro name known same
    rw [(charted.lineage known).1] at same
    cases same
  | cons first above ih =>
    intro name known same s rest suffix p up
    rw [(charted.lineage known).1] at same
    obtain ⟨rfl, upper⟩ := List.cons.inj same
    -- Either the state is the first of the chain, or it belongs to the lineage of the parent.
    rcases List.suffix_cons_iff.mp suffix with whole | later
    · obtain ⟨rfl, rfl⟩ := List.cons.inj whole
      rw [up] at upper
      rw [← upper, lineageAbove, (charted.lineage (charted.parent_known known up)).1]
      exact List.mem_cons_self ..
    · cases higher : parent name with
      | none =>
        rw [higher] at upper
        subst upper
        simp [lineageAbove] at later
      | some q =>
        rw [higher] at upper
        exact ih q (charted.parent_known known higher) upper s rest later p up

theorem admits_path (charted : Charted parent nodes) {source target : String}
    (known : nodes.contains source = true) (known' : nodes.contains target = true) :
    Admits parent
      (leave (lineageIn nodes source)
        (Path.between (lineageIn nodes source) (lineageIn nodes target)).exit)
      (Path.between (lineageIn nodes source) (lineageIn nodes target)).enter := by
  rw [Path.leave_between _ _ (charted.lineage known).2]
  refine admits_chain parent _ _ ?_ ?_
  · rw [List.take_append_drop]
    exact (charted.lineage known').2
  · rw [List.take_append_drop]
    exact charted.parent_follows _ target known' rfl

end Charted
end Statechart
