import Mathlib.Data.List.Nodup
import Statechart.Proofs.Paths
import Statechart.Proofs.Resolution
import Statechart.Proofs.Roster
/-!
What the way between two states leaves and enters. Lineages are compared name by name from their far
ends. Since states form a forest, they agree there exactly on the states above both; so the way
leaves what is above the one state only and enters what is above the other only.
-/

namespace Statechart

namespace Path

/-- The part of two lineages that the way from one to the other does not touch. -/
def kept (source target : List String) : List String :=
  source.drop (source.length - sharedTail source target)

theorem exit_kept (source target : List String) :
    (between source target).exit ++ kept source target = source :=
  List.take_append_drop ..

theorem enter_kept (source target : List String) :
    (between source target).enter.reverse ++ kept source target = target := by
  rw [kept, shared_tail, between, List.reverse_reverse]
  exact List.take_append_drop ..

theorem agreement_longest {common : List String} : ∀ {first second : List String},
    common <+: first → common <+: second → common.length ≤
      ((first.zip second).takeWhile fun pair => pair.1 == pair.2).length := by
  induction common with
  | nil =>
    intro first second _ _
    exact Nat.zero_le _
  | cons a rest ih =>
    rintro _ _ ⟨more, rfl⟩ ⟨more', rfl⟩
    have later := ih (List.prefix_append rest more) (List.prefix_append rest more')
    simpa using later

theorem agreement_comm (first second : List String) :
    ((second.zip first).takeWhile fun pair => pair.1 == pair.2).length =
      ((first.zip second).takeWhile fun pair => pair.1 == pair.2).length := by
  induction first generalizing second with
  | nil => simp
  | cons a rest ih =>
    cases second with
    | nil => simp
    | cons b other =>
      by_cases same : a = b
      · simp [same, ih]
      · simp [same, Ne.symm same]

theorem shared_tail_comm (source target : List String) :
    sharedTail target source = sharedTail source target :=
  agreement_comm source.reverse target.reverse

/-- Nothing that both lineages end with is left out. -/
theorem kept_longest {tail source target : List String} (ends : tail <:+ source)
    (ends' : tail <:+ target) : tail <:+ kept source target := by
  have longest : tail.length ≤ sharedTail source target := by
    simpa [sharedTail] using
      agreement_longest (List.reverse_prefix.mpr ends) (List.reverse_prefix.mpr ends')
  have bound := (shared_tail_le source target).1
  refine List.suffix_of_suffix_length_le ends (List.drop_suffix ..) ?_
  rw [kept, List.length_drop]
  omega

/-- From a lineage to itself nothing is left and nothing entered. -/
theorem between_self (lineage : List String) : between lineage lineage = {} := by
  have whole : kept lineage lineage = lineage :=
    ((kept_longest List.suffix_rfl List.suffix_rfl).eq_of_length_le
      (List.drop_suffix ..).length_le).symm
  have exit := exit_kept lineage lineage
  have enter := enter_kept lineage lineage
  rw [whole, List.append_left_eq_self] at exit enter
  calc between lineage lineage
      = ⟨(between lineage lineage).exit, (between lineage lineage).enter⟩ := rfl
    _ = {} := by rw [exit, List.reverse_eq_nil_iff.mp enter]

/-- The way back enters what was left and leaves what was entered. -/
theorem between_comm (source target : List String) : between target source =
    ⟨(between source target).enter.reverse, (between source target).exit.reverse⟩ := by
  simp only [between, shared_tail_comm source target, List.reverse_reverse]

end Path

/-- The state itself, or one that is reached from it by going up from parent to parent. -/
def IsAbove (nodes : Table String Node) (name s : String) : Prop :=
  ∃ steps, ancestor? nodes name steps = some s

namespace Forest
variable {nodes : Table String Node} (forest : Forest nodes)
include forest

theorem mem_lineage {name : String} (known : nodes.contains name = true) (s : String) :
    s ∈ lineageIn nodes name ↔ IsAbove nodes name s := by
  rw [List.mem_iff_getElem?, IsAbove]
  simp only [forest.lineage_ancestor _ name known]

/-- All that the forest says of a lineage. -/
theorem lineage_parts {name : String} (known : nodes.contains name = true) :
    ∃ parent, lineageIn nodes name = name :: lineageAbove nodes parent ∧
      (∀ p, parent = some p → nodes.contains p = true) ∧
      (∀ s ∈ lineageIn nodes name, nodes.contains s = true) ∧ (lineageIn nodes name).Nodup := by
  obtain ⟨parent, chain, kin⟩ := (Hierarchy.contains_iff_kin _ _).mp known
  have here : lineageIn nodes name = chain := by simp [lineageIn, kin]
  rw [here]
  refine ⟨parent, forest.linked name parent chain kin, ?_, forest.known name parent chain kin,
    forest.unrepeated name parent chain kin⟩
  rintro p rfl
  exact forest.rooted name p chain kin

/-- A lineage ends with the lineage of each of its states. -/
theorem lineage_suffix (chain : List String) : ∀ {name : String}, nodes.contains name = true →
    lineageIn nodes name = chain → ∀ s ∈ chain, lineageIn nodes s <:+ chain := by
  induction chain with
  | nil =>
    intro name _ _ s member
    cases member
  | cons first above ih =>
    intro name known same s member
    obtain ⟨parent, here, placed, _, _⟩ := forest.lineage_parts known
    obtain ⟨rfl, upper⟩ := List.cons.inj (here.symm.trans same)
    rcases List.mem_cons.mp member with rfl | member
    · rw [same]
    · -- What stands above the state is the lineage of its parent.
      cases parent with
      | none =>
        rw [← upper] at member
        cases member
      | some p =>
        exact (ih (placed p rfl) upper s member).trans (List.suffix_cons ..)

/-- The way between two states does not touch what is above both, and nothing else. -/
theorem mem_kept {a b : String} (known : nodes.contains a = true)
    (known' : nodes.contains b = true) (s : String) :
    s ∈ Path.kept (lineageIn nodes a) (lineageIn nodes b) ↔
      s ∈ lineageIn nodes a ∧ s ∈ lineageIn nodes b := by
  constructor
  · intro member
    have whole := Path.enter_kept (lineageIn nodes a) (lineageIn nodes b)
    exact ⟨List.mem_of_mem_drop member, whole ▸ List.mem_append_right _ member⟩
  · rintro ⟨up, up'⟩
    have common := Path.kept_longest (forest.lineage_suffix _ known rfl s up)
      (forest.lineage_suffix _ known' rfl s up')
    obtain ⟨_, _, _, registered, _⟩ := forest.lineage_parts known
    obtain ⟨_, here, _⟩ := forest.lineage_parts (registered s up)
    exact common.subset (here ▸ List.mem_cons_self ..)

end Forest

namespace Hierarchy

/-- A way from one state to another, and the states above both of them. -/
structure Parted (h : Hierarchy) (a b : String) (way : Path) (above : List String) : Prop where
  common : ∀ s, s ∈ above ↔ IsAbove h.nodes a s ∧ IsAbove h.nodes b s
  left : way.exit ++ above = h.lineage a
  entered : way.enter.reverse ++ above = h.lineage b
  longest : ∀ tail, tail <:+ h.lineage a → tail <:+ h.lineage b → tail <:+ above
  untouched : ∀ s ∈ above, s ∉ way.exit ∧ s ∉ way.enter
  apart : way.exit.Disjoint way.enter
  exit_once : way.exit.Nodup
  enter_once : way.enter.Nodup
  nowhere : way.exit = [] ∧ way.enter = [] ↔ a = b
  back : h.path b a = ⟨way.enter.reverse, way.exit.reverse⟩

theorem parted {h : Hierarchy} (forest : Forest h.nodes) {a b : String}
    (known : h.nodes.contains a = true) (known' : h.nodes.contains b = true) :
    ∃ above, h.Parted a b (h.path a b) above := by
  have sourceLine := h.lineage_or_self_eq known
  have targetLine := h.lineage_or_self_eq known'
  have way : h.path a b = Path.between (lineageIn h.nodes a) (lineageIn h.nodes b) := by
    rw [path, sourceLine, targetLine]
  generalize shares : Path.kept (lineageIn h.nodes a) (lineageIn h.nodes b) = above
  have members := shares ▸ forest.mem_kept known known'
  have left : (h.path a b).exit ++ above = lineageIn h.nodes a := by
    rw [way, ← shares]
    exact Path.exit_kept _ _
  have entered : (h.path a b).enter.reverse ++ above = lineageIn h.nodes b := by
    rw [way, ← shares]
    exact Path.enter_kept _ _
  obtain ⟨_, first, _, _, unrepeated⟩ := forest.lineage_parts known
  obtain ⟨_, first', _, _, unrepeated'⟩ := forest.lineage_parts known'
  have once := List.nodup_append.mp (left ▸ unrepeated)
  have once' := List.nodup_append.mp (entered ▸ unrepeated')
  refine ⟨above, ?_⟩
  constructor
  case common =>
    intro s
    rw [members, forest.mem_lineage known, forest.mem_lineage known']
  case left => rw [left, lineage_eq]
  case entered => rw [entered, lineage_eq]
  case longest =>
    intro tail ends ends'
    rw [lineage_eq] at ends ends'
    exact shares ▸ Path.kept_longest ends ends'
  case untouched =>
    intro s member
    refine ⟨fun gone => once.2.2 s gone s member rfl, fun new => ?_⟩
    exact once'.2.2 s (List.mem_reverse.mpr new) s member rfl
  case apart =>
    -- A state that is both left and entered would be above both, and not be touched at all.
    intro s gone new
    have both : s ∈ above := (members s).mpr
      ⟨left ▸ List.mem_append_left _ gone,
        entered ▸ List.mem_append_left _ (List.mem_reverse.mpr new)⟩
    exact once.2.2 s gone s both rfl
  case exit_once => exact once.1
  case enter_once => exact List.nodup_reverse.mp once'.1
  case nowhere =>
    constructor
    · rintro ⟨unmoved, unmoved'⟩
      rw [unmoved, List.nil_append] at left
      rw [unmoved', List.reverse_nil, List.nil_append] at entered
      exact (List.cons.inj (first.symm.trans (left.symm.trans (entered.trans first')))).1
    · rintro rfl
      rw [way, Path.between_self]
      exact ⟨rfl, rfl⟩
  case back => rw [path, targetLine, sourceLine, way, Path.between_comm]

/-- After any calls on a new table the way between two registered states leaves what is above the
one only and enters what is above the other only; the way back does the opposite. Whatever lists are
compared, they share no more names than either has. -/
theorem path_parts_lineages (calls : List Call) :
    (∀ a b, (made calls).contains a = true → (made calls).contains b = true →
      ∃ above, (made calls).Parted a b ((made calls).path a b) above) ∧
    ∀ source target : List String, Path.sharedTail source target ≤ source.length ∧
      Path.sharedTail source target ≤ target.length :=
  ⟨fun _ _ known known' => parted (made_rostered calls).1.forest known known',
    Path.shared_tail_le⟩

/-- Two trees, in one of which branches part at the root. -/
def grove : List Call :=
  [.add { name := "oak" }, .add { name := "elm" }, .add { name := "bough", parent := some "oak" },
    .add { name := "twig", parent := some "bough" },
    .add { name := "branch", parent := some "oak" },
    .add { name := "leaf", parent := some "branch" }]

/-- From twig to leaf only the oak is not touched, and to the elm nothing is kept. -/
theorem grove_parted :
    ((made grove).contains "twig" = true ∧ (made grove).contains "leaf" = true ∧
      (made grove).contains "elm" = true) ∧
    (made grove).Parted "twig" "leaf" ⟨["twig", "bough"], ["branch", "leaf"]⟩ ["oak"] ∧
    (made grove).Parted "twig" "elm" ⟨["twig", "bough", "oak"], ["elm"]⟩ [] ∧
    Path.sharedTail ["a", "b"] ["b"] ≤ 1 := by
  obtain ⟨parts, bounds⟩ := path_parts_lineages grove
  obtain ⟨above, near⟩ := parts "twig" "leaf" rfl rfl
  obtain ⟨above', far⟩ := parts "twig" "elm" rfl rfl
  have here : above = ["oak"] := List.append_cancel_left near.left
  have there : above' = [] := List.append_cancel_left far.left
  subst here there
  exact ⟨⟨rfl, rfl, rfl⟩, near, far, (bounds ["a", "b"] ["b"]).2⟩

end Hierarchy
end Statechart
