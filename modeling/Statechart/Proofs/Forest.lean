import Statechart.Hierarchy
/-!
The registered states form a forest. Of each state the table keeps its parent and its lineage; a
lineage is the state followed by the lineage of its parent, names nothing twice and names registered
states only. Adding a state keeps all this, because its parent must be there and its name must not.
-/

namespace Statechart

/-- The parent and the lineage under which a name is registered. -/
def kin? (nodes : Table String Node) (name : String) : Option (Option String × List String) :=
  (nodes.find? name).map fun node => (node.state.parent, node.lineage)

/-- The lineage kept for a name, or nothing. -/
def lineageIn (nodes : Table String Node) (name : String) : List String :=
  ((kin? nodes name).map Prod.snd).getD []

def lineageAbove (nodes : Table String Node) : Option String → List String
  | none => []
  | some parent => lineageIn nodes parent

structure Forest (nodes : Table String Node) : Prop where
  linked : ∀ n parent chain, kin? nodes n = some (parent, chain) →
    chain = n :: lineageAbove nodes parent
  rooted : ∀ n parent chain, kin? nodes n = some (some parent, chain) →
    nodes.contains parent = true
  known : ∀ n parent chain, kin? nodes n = some (parent, chain) →
    ∀ m ∈ chain, nodes.contains m = true
  unrepeated : ∀ n parent chain, kin? nodes n = some (parent, chain) → chain.Nodup

theorem forest_empty : Forest {} where
  linked _ _ _ found := by cases found
  rooted _ _ _ found := by cases found
  known _ _ _ found := by cases found
  unrepeated _ _ _ found := by cases found

namespace Hierarchy

theorem lineage_eq (h : Hierarchy) (name : String) : h.lineage name = lineageIn h.nodes name := by
  unfold lineage lineageIn kin?
  cases h.nodes.find? name <;> rfl

theorem lineage_or_self_eq (h : Hierarchy) {name : String} (known : h.nodes.contains name = true) :
    h.lineageOrSelf name = lineageIn h.nodes name := by
  obtain ⟨node, found⟩ := Option.isSome_iff_exists.mp known
  simp [lineageOrSelf, lineageIn, kin?, found]

theorem contains_iff_kin (nodes : Table String Node) (name : String) :
    nodes.contains name = true ↔ ∃ parent chain, kin? nodes name = some (parent, chain) := by
  unfold Table.contains kin?
  cases nodes.find? name <;> simp

theorem add_succeeds (h : Hierarchy) (s : State) (idle : h.running = false)
    (new : h.nodes.contains s.name = false)
    (placed : ∀ p, s.namedParent = some p → h.nodes.contains p = true) :
    ∃ h', h.add s = .ok h' := by
  unfold add
  simp only [idle, new, Bool.false_eq_true, if_false]
  cases up : s.namedParent with
  | none => exact ⟨_, rfl⟩
  | some p =>
    obtain ⟨node, found⟩ := Option.isSome_iff_exists.mp (placed p up)
    simp only [found]
    exact ⟨_, rfl⟩

/-- All that adding a state does, as far as names, parents and lineages go. -/
theorem kin_add {h h' : Hierarchy} {s : State} (added : h.add s = .ok h') :
    h.nodes.contains s.name = false ∧ (∀ p, s.namedParent = some p → h.nodes.contains p = true) ∧
      h' = { h with nodes := h'.nodes } ∧ ∀ n, kin? h'.nodes n = if n = s.name then
        some (s.namedParent, s.name :: lineageAbove h.nodes s.namedParent) else kin? h.nodes n := by
  cases add_cases added with
  | root _ new up =>
    rw [up]
    refine ⟨new, fun p above => (by cases above), rfl, fun n => ?_⟩
    by_cases here : n = s.name <;> simp [kin?, Table.find_put, here, lineageAbove]
  | @below p node _ new up found =>
    rw [up]
    refine ⟨new, fun q above => ?_, rfl, fun n => ?_⟩
    · cases above
      simp [Table.contains, found]
    -- The parent's own entry changes only in its children.
    by_cases here : n = s.name
    · simp [kin?, Table.find_put, here, lineageAbove, lineageIn, found]
    · by_cases above : n = p
      · subst above
        simp [kin?, Table.find_put, here, found, adopt]
      · simp [kin?, Table.find_put, here, above]

theorem contains_add {h h' : Hierarchy} {s : State} (added : h.add s = .ok h') (n : String) :
    h'.nodes.contains n = true ↔ n = s.name ∨ h.nodes.contains n = true := by
  obtain ⟨_, _, _, kin⟩ := kin_add added
  rw [contains_iff_kin, contains_iff_kin, kin n]
  by_cases here : n = s.name <;> simp [here]

theorem forest_add {h h' : Hierarchy} {s : State} (forest : Forest h.nodes)
    (added : h.add s = .ok h') : Forest h'.nodes := by
  obtain ⟨new, placed, _, kin⟩ := kin_add added
  have grows := contains_add added
  -- Lineages name registered states only, so none of them names the new state yet.
  have lineage (n : String) (known : h.nodes.contains n = true) :
      lineageIn h'.nodes n = lineageIn h.nodes n := by
    have other : n ≠ s.name := fun same => by rw [same, new] at known; cases known
    simp only [lineageIn, kin, other, if_false]
  have above (parent : Option String) (known : ∀ p, parent = some p → h.nodes.contains p = true) :
      lineageAbove h'.nodes parent = lineageAbove h.nodes parent := by
    cases parent with
    | none => rfl
    | some p => exact lineage p (known p rfl)
  have beyond (m : String) (member : m ∈ lineageAbove h.nodes s.namedParent) :
      h.nodes.contains m = true := by
    cases up : s.namedParent with
    | none => simp [up, lineageAbove] at member
    | some p =>
      obtain ⟨parent, chain, found⟩ := (contains_iff_kin _ _).mp (placed p up)
      simp only [up, lineageAbove, lineageIn, found, Option.map_some, Option.getD_some] at member
      exact forest.known p parent chain found m member
  constructor
  · intro n parent chain found
    rw [kin n] at found
    split at found
    · next here =>
      cases found
      rw [here, above _ placed]
    · rw [forest.linked n parent chain found, above]
      rintro p rfl
      exact forest.rooted n p chain found
  · intro n parent chain found
    rw [kin n] at found
    split at found
    · obtain ⟨up, _⟩ := Prod.mk.injEq .. ▸ Option.some.inj found
      exact (grows parent).mpr (.inr (placed parent up))
    · exact (grows parent).mpr (.inr (forest.rooted n parent chain found))
  · intro n parent chain found m member
    rw [kin n] at found
    split at found
    · cases found
      rcases List.mem_cons.mp member with rfl | member
      · exact (grows _).mpr (.inl rfl)
      · exact (grows m).mpr (.inr (beyond m member))
    · exact (grows m).mpr (.inr (forest.known n parent chain found m member))
  · intro n parent chain found
    rw [kin n] at found
    split at found
    · cases found
      apply List.nodup_cons.mpr
      constructor
      · intro member
        rw [beyond _ member] at new
        cases new
      · cases up : s.namedParent with
        | none => exact List.nodup_nil
        | some p =>
          obtain ⟨parent, chain, found⟩ := (contains_iff_kin _ _).mp (placed p up)
          simp only [lineageAbove, lineageIn, found, Option.map_some, Option.getD_some]
          exact forest.unrepeated p parent chain found
    · exact forest.unrepeated n parent chain found

end Hierarchy
end Statechart
