import Mathlib.Data.List.DropRight
import Statechart.FileTree
/-!
Paths and the places to which they lead. The parts of a path stand between its slashes; those that
stay name nothing, so two paths are alike if their other parts are the same. The path of the
directory that a file stands in leads where the path of the file led before its name. And where a
path leads is the same however the entries of directories are listed.
-/

namespace Statechart

theorem ends_with_iff (path ending : String) :
    path.endsWith ending = true ↔ ∃ front, path = front ++ ending := by
  rw [← String.endsWith_toSlice, String.Slice.endsWith_string_iff, String.copy_toSlice]
  constructor
  · rintro ⟨front, same⟩
    refine ⟨String.ofList front, ?_⟩
    rw [← String.toList_inj, String.toList_append, String.toList_ofList, same]
  · rintro ⟨front, rfl⟩
    exact ⟨front.toList, String.toList_append.symm⟩

theorem not_mem_of_split {α : Type} [BEq α] [LawfulBEq α] (sep : α) (xs : List α) :
    ∀ part ∈ xs.splitOn sep, sep ∉ part := by
  induction xs with
  | nil => simp
  | cons x rest ih =>
    rw [List.splitOn_cons_eq_if_modifyHead]
    obtain ⟨first, others, parts⟩ := List.exists_cons_of_ne_nil (List.splitOn_ne_nil sep rest)
    rw [parts] at ih ⊢
    split
    · exact fun part member => (List.mem_cons.mp member).elim (· ▸ List.not_mem_nil) (ih part)
    · next other =>
      intro part member
      rcases List.mem_cons.mp member with rfl | later
      · intro inside
        rcases List.mem_cons.mp inside with rfl | inner
        · exact other (beq_self_eq_true _)
        · exact ih first (List.mem_cons_self ..) inner
      · exact ih part (List.mem_cons_of_mem _ later)

namespace FileTree

/-! The parts of a path. -/

theorem parts_empty : parts "" = [""] := rfl

theorem no_slash {path part : String} (member : part ∈ parts path) : '/' ∉ part.toList := by
  obtain ⟨characters, listed, rfl⟩ := List.mem_map.mp member
  rw [String.toList_ofList]
  exact not_mem_of_split '/' _ characters listed

theorem parts_append (front path : String) :
    parts (front ++ "/" ++ path) = parts front ++ parts path := by
  have characters : (front ++ "/" ++ path).toList = front.toList ++ '/' :: path.toList := by
    simp [String.toList_append]
  rw [parts, characters, List.splitOn_append_cons_self, List.map_append]
  rfl

theorem intercalate_parts (path : String) : "/".intercalate (parts path) = path := by
  rw [← String.toList_inj, String.toList_intercalate, parts, List.map_map]
  have same : String.toList ∘ String.ofList = id := funext fun _ => String.toList_ofList
  rw [same, List.map_id]
  exact List.intercalate_splitOn '/'

theorem parts_intercalate {names : List String} (nonempty : names ≠ [])
    (whole : ∀ name ∈ names, '/' ∉ name.toList) : parts ("/".intercalate names) = names := by
  rw [parts, String.toList_intercalate]
  have split : (['/'].intercalate (names.map String.toList)).splitOn '/' =
      names.map String.toList := by
    refine List.splitOn_intercalate '/' ?_ (by simpa using nonempty)
    intro characters member
    obtain ⟨name, listed, rfl⟩ := List.mem_map.mp member
    exact whole name listed
  rw [show "/".toList = ['/'] from rfl, split, List.map_map]
  have same : String.ofList ∘ String.toList = id := funext fun _ => String.ofList_toList
  rw [same, List.map_id]

theorem parts_slash (front : String) : parts (front ++ "/") = parts front ++ [""] := by
  have ending := parts_append front ""
  rwa [String.append_empty, parts_empty] at ending

/-- The parts in front of what is joined to the path of a directory. -/
def lead (directory : String) : List String :=
  if directory = "" then []
  else if directory.endsWith "/" then (parts directory).dropLast else parts directory

theorem parts_join (directory name : String) :
    parts (join directory name) = lead directory ++ parts name := by
  unfold join lead
  by_cases empty : directory = ""
  · simp [empty]
  by_cases slash : directory.endsWith "/" = true
  · obtain ⟨front, rfl⟩ := (ends_with_iff directory "/").mp slash
    simp only [slash, or_true, if_true, empty, if_false]
    rw [parts_append, parts_slash, List.dropLast_concat]
  · simp only [empty, slash, if_false]
    exact parts_append directory name

/-- A last part that stays may be missing in front of a name. -/
theorem parts_cases (directory : String) :
    parts directory = lead directory ∨ parts directory = lead directory ++ [""] := by
  unfold lead
  by_cases empty : directory = ""
  · simp [empty, parts_empty]
  by_cases slash : directory.endsWith "/" = true
  · right
    obtain ⟨front, rfl⟩ := (ends_with_iff directory "/").mp slash
    simp only [slash, if_true, empty, if_false, parts_slash, List.dropLast_concat]
  · simp [empty, slash]

/-- The parts of a path that do not stay. -/
def names (path : String) : List String := (parts path).filter (!stays ·)

/-- The path with nothing in it that stays. -/
def tidy (path : String) : String := "/".intercalate (names path)

/-- The last part in front of a name does not stay, unless it is the first one. -/
def isPlain (directory : String) : Bool := (lead directory).tail.getLast?.all (!stays ·)

theorem names_lead (directory : String) :
    (lead directory).filter (!stays ·) = names directory := by
  rcases parts_cases directory with same | same
  · rw [names, same]
  · rw [names, same, List.filter_append]
    simp [stays]

theorem names_join (directory name : String) :
    names (join directory name) = names directory ++ names name := by
  rw [names, parts_join, List.filter_append, names_lead]
  rfl

theorem filter_rdropWhile {α : Type} (p : α → Bool) (xs : List α) :
    (xs.rdropWhile p).filter (!p ·) = xs.filter (!p ·) := by
  have ending : (xs.rtakeWhile p).filter (!p ·) = [] := by
    rw [List.filter_eq_nil_iff]
    intro x member
    simp [List.mem_rtakeWhile_imp member]
  conv => rhs; rw [← xs.rdropWhile_append_rtakeWhile (p := p), List.filter_append, ending,
    List.append_nil]

theorem filter_trim (path : List String) :
    (trim path).filter (!stays ·) = path.filter (!stays ·) := by
  cases path with
  | nil => rfl
  | cons first rest =>
    have kept : (rest.reverse.dropWhile stays).reverse.filter (!stays ·) =
      rest.filter (!stays ·) := filter_rdropWhile stays rest
    rw [trim, List.filter_cons, List.filter_cons, kept]

/-- The parts of what is written out of parts that end with one that does not stay. -/
theorem lead_written {first : String} {rest : List String} (front : '/' ∉ first.toList)
    (whole : ∀ part ∈ rest, '/' ∉ part.toList)
    (last : ∀ some : rest ≠ [], ¬stays (rest.getLast some) = true) :
    lead (match first :: rest with
      | [""] => "/"
      | parts => "/".intercalate parts) = first :: rest := by
  have written : parts ("/".intercalate (first :: rest)) = first :: rest := by
    refine parts_intercalate (List.cons_ne_nil _ _) fun part member => ?_
    rcases List.mem_cons.mp member with rfl | later
    · exact front
    · exact whole part later
  split
  · next same =>
    obtain ⟨rfl, rfl⟩ := List.cons.inj same
    decide +kernel
  · next other =>
    -- Had the path another part behind, this one would be the last and stay.
    rcases parts_cases ("/".intercalate (first :: rest)) with same | same
    · exact same.symm.trans written
    · have ending : (first :: rest).getLast? = some "" := by
        rw [← written, same, List.getLast?_concat]
      cases rest with
      | nil => exact absurd (congrArg ([·]) (Option.some.inj ending)) other
      | cons next more =>
        rw [List.getLast?_cons_cons, List.getLast?_eq_some_getLast (List.cons_ne_nil _ _)] at ending
        exact absurd (Option.some.inj ending ▸ rfl) (last (List.cons_ne_nil _ _))

theorem lead_nil_iff (directory : String) : lead directory = [] ↔ directory = "" := by
  unfold lead
  by_cases empty : directory = ""
  · simp [empty]
  by_cases slash : directory.endsWith "/" = true
  · obtain ⟨front, rfl⟩ := (ends_with_iff directory "/").mp slash
    have split : parts front ≠ [] := by simp [parts]
    rw [if_neg empty, if_pos slash, parts_slash, List.dropLast_concat]
    exact iff_of_false split empty
  · simp [slash, empty, parts]

/-- What is joined to the path of a directory is joined to its parts. -/
theorem join_lead (directory name : String) : join directory name =
    if lead directory = [] then name
    else "/".intercalate (lead directory) ++ "/" ++ name := by
  unfold join lead
  by_cases empty : directory = ""
  · simp [empty]
  by_cases slash : directory.endsWith "/" = true
  · obtain ⟨front, rfl⟩ := (ends_with_iff directory "/").mp slash
    have split : parts front ≠ [] := by simp [parts]
    simp only [slash, or_true, if_true, empty, if_false, parts_slash, List.dropLast_concat, split,
      intercalate_parts]
  · have split : parts directory ≠ [] := by simp [parts]
    rw [if_neg (not_or.mpr ⟨empty, slash⟩), if_neg empty, if_neg slash, if_neg split,
      intercalate_parts]

theorem join_empty_iff (directory name : String) :
    join directory name = "" ↔ lead directory = [] ∧ name = "" := by
  rw [join_lead]
  split
  · next none => simp [none]
  · next some =>
    rw [← String.toList_inj]
    simp [some]

theorem trim_nil_iff (path : List String) : trim path = [] ↔ path = [] := by
  cases path <;> simp [trim]

theorem head_trim (path : List String) : (trim path).head? = path.head? := by
  cases path <;> rfl

section Parent
variable {directory name : String} (single : parts name = [name])
include single

theorem lead_parent : lead (parent (join directory name)) = trim (lead directory) := by
  have led : (parts (join directory name)).dropLast = lead directory := by
    rw [parts_join, single, List.dropLast_concat]
  have whole : ∀ part ∈ lead directory, '/' ∉ part.toList := by
    intro part member
    have listed : part ∈ parts directory := by
      rcases parts_cases directory with same | same
      · exact same ▸ member
      · exact same ▸ List.mem_append_left _ member
    exact no_slash listed
  rw [parent, led]
  cases ahead : lead directory with
  | nil => rfl
  | cons first rest =>
    rw [ahead] at whole
    rw [trim, show (rest.reverse.dropWhile stays).reverse = rest.rdropWhile stays from rfl]
    exact lead_written (whole first (List.mem_cons_self ..)) (fun part member =>
      whole part (List.mem_cons_of_mem _ ((List.rdropWhile_prefix stays _).subset member)))
      (List.rdropWhile_last_not stays rest)

/-- The directory of a file that was joined to the path of a directory is that directory. -/
theorem names_parent : names (parent (join directory name)) = names directory := by
  rw [← names_lead, lead_parent single, filter_trim, names_lead]

theorem join_parent (plain : isPlain directory = true) (other : String) :
    join (parent (join directory name)) other = join directory other := by
  have kept : trim (lead directory) = lead directory := by
    unfold isPlain at plain
    cases ahead : lead directory with
    | nil => rfl
    | cons first rest =>
      rw [ahead, List.tail_cons] at plain
      have last : rest.rdropWhile stays = rest := by
        rw [List.rdropWhile_eq_self_iff]
        intro some
        simpa [List.getLast?_eq_some_getLast some] using plain
      exact congrArg (first :: ·) last
  rw [join_lead (parent (join directory name)) other, join_lead directory other,
    lead_parent single, kept]

end Parent

/-! Where a path leads. -/

/-- Goes one part further from a place, which is given with the directories around it. -/
def step : FileTree → List FileTree → String → Option (FileTree × List FileTree)
  | .file _, _, _ => none
  | .directory entries, around, part =>
    if stays part then some (.directory entries, around)
    else if part = ".." then some (around.headD (.directory []), around.tail)
    else (entries.lookup part).map (·, .directory entries :: around)

def walk : FileTree → List FileTree → List String → Option (FileTree × List FileTree)
  | place, around, [] => some (place, around)
  | place, around, part :: rest => (step place around part).bind fun next =>
    walk next.1 next.2 rest

theorem follow_walk (path : List String) (place : FileTree) (around : List FileTree) :
    follow place around path = (walk place around path).map (·.1) := by
  induction path generalizing place around with
  | nil =>
    unfold follow
    rfl
  | cons part rest ih =>
    cases place with
    | file content => rfl
    | directory entries =>
      unfold follow walk step
      simp only
      split
      · exact ih _ _
      split
      · cases around with
        | nil => exact ih _ _
        | cons outer around => exact ih _ _
      · cases entries.lookup part with
        | none => rfl
        | some inner => exact ih _ _

theorem walk_append (first later : List String) (place : FileTree) (around : List FileTree) :
    walk place around (first ++ later) =
      (walk place around first).bind fun next => walk next.1 next.2 later := by
  induction first generalizing place around with
  | nil => rfl
  | cons part rest ih =>
    rw [List.cons_append, walk, walk]
    cases step place around part with
    | none => rfl
    | some next => exact ih _ _

theorem walk_single (place : FileTree) (around : List FileTree) (part : String) :
    walk place around [part] = step place around part := by
  rw [walk]
  cases step place around part <;> rfl

/-- Parts that stay lead from a directory to itself, so without them a path leads to the same. -/
theorem walk_rdropWhile (path : List String) {place : FileTree} {around : List FileTree}
    {x : FileTree × List FileTree} (leads : walk place around path = some x) :
    walk place around (path.rdropWhile stays) = some x := by
  induction path using List.reverseRecOn generalizing x with
  | nil => exact leads
  | append_singleton front part ih =>
    by_cases still : stays part = true
    · rw [List.rdropWhile_concat_pos _ _ _ still]
      rw [walk_append] at leads
      obtain ⟨⟨inner, outer⟩, here, last⟩ := Option.bind_eq_some_iff.mp leads
      rw [walk_single] at last
      refine ih (here.trans ?_)
      cases inner with
      | file content => cases last
      | directory entries =>
        rw [step, if_pos still] at last
        exact last
    · rw [List.rdropWhile_concat_neg _ _ _ still]
      exact leads

theorem walk_trim (path : List String) {place : FileTree} {around : List FileTree}
    {x : FileTree × List FileTree} (leads : walk place around path = some x) :
    walk place around (trim path) = some x := by
  cases path with
  | nil => exact leads
  | cons first rest =>
    obtain ⟨next, here, there⟩ := Option.bind_eq_some_iff.mp leads
    exact Option.bind_eq_some_iff.mpr ⟨next, here, walk_rdropWhile rest there⟩

theorem find_walk {path : String} (named : path ≠ "") (tree : FileTree) :
    tree.find? path = (walk (tree.origin path) [] (parts path)).map (·.1) := by
  rw [find?, if_neg named, follow_walk]

/-- What is joined to the path of a directory sets out from where that path does. -/
theorem origin_join {directory : String} (written : directory ≠ "") (tree : FileTree)
    (name : String) : tree.origin (join directory name) = tree.origin directory := by
  have ahead : lead directory ≠ [] := mt (lead_nil_iff directory).mp written
  have same : (parts (join directory name)).head? = (parts directory).head? := by
    rw [parts_join, List.head?_append_of_ne_nil _ ahead]
    rcases parts_cases directory with whole | ending
    · rw [whole]
    · rw [ending, List.head?_append_of_ne_nil _ ahead]
  rw [origin, origin, same]

section Root
variable {tree place : FileTree} {directory name : String} (single : parts name = [name])
  (leads : tree.find? (join directory name) = some place)
include single leads

omit single in
theorem written_of_leads : join directory name ≠ "" := by
  intro empty
  rw [find?, if_pos empty] at leads
  cases leads

/-- What stands in front of the name of a place leads to a directory. -/
theorem walk_lead : ∃ entries around,
    walk (tree.origin (join directory name)) [] (lead directory) =
      some (.directory entries, around) := by
  rw [find_walk (written_of_leads leads), parts_join, single, walk_append] at leads
  obtain ⟨⟨_, _⟩, there, rfl⟩ := Option.map_eq_some_iff.mp leads
  obtain ⟨⟨inner, around⟩, here, last⟩ := Option.bind_eq_some_iff.mp there
  rw [walk_single] at last
  cases inner with
  | file content => cases last
  | directory entries => exact ⟨entries, around, here⟩

theorem find_directory (written : directory ≠ "") :
    ∃ entries, tree.find? directory = some (.directory entries) := by
  obtain ⟨entries, around, here⟩ := walk_lead single leads
  rw [origin_join written] at here
  refine ⟨entries, ?_⟩
  rw [find_walk written]
  rcases parts_cases directory with same | same
  · rw [same, here]
    rfl
  · rw [same, walk_append, here, Option.bind_some, walk_single]
    rfl

/-- From the directory of a file the same names lead to the same places as from the directory to
which its name was joined. -/
theorem find_parent (other : String) :
    tree.find? (join (parent (join directory name)) other) = tree.find? (join directory other) := by
  obtain ⟨entries, around, here⟩ := walk_lead single leads
  have above : lead (parent (join directory name)) = trim (lead directory) := lead_parent single
  by_cases unwritten : directory = ""
  · have none := (lead_nil_iff directory).mpr unwritten
    rw [join_lead (parent (join directory name)), join_lead directory other, above, none]
    simp [trim]
  have ahead : lead directory ≠ [] := mt (lead_nil_iff directory).mp unwritten
  have ahead' : lead (parent (join directory name)) ≠ [] := above ▸ mt (trim_nil_iff _).mp ahead
  have same : tree.origin (join (parent (join directory name)) other) = tree.origin directory := by
    rw [← origin_join unwritten tree other, origin, origin, parts_join, parts_join,
      List.head?_append_of_ne_nil _ ahead, List.head?_append_of_ne_nil _ ahead', above, head_trim]
  rw [origin_join unwritten] at here
  rw [find_walk (mt (join_empty_iff _ _).mp fun empty => ahead empty.1),
    find_walk (mt (join_empty_iff _ _).mp fun empty => ahead' empty.1), same,
    origin_join unwritten, parts_join, parts_join, walk_append, walk_append, above,
    walk_trim _ here, here]

end Root

/-! The order of entries. -/

/-- In each directory every entry has a name of its own. -/
inductive WellNamed : FileTree → Prop
  | file (content : Content) : WellNamed (.file content)
  | directory {entries : List (String × FileTree)} : (entries.map (·.1)).Nodup →
    (∀ entry ∈ entries, WellNamed entry.2) → WellNamed (.directory entries)

/-- The same tree but for the order in which the entries of its directories are listed. -/
inductive Reordered : FileTree → FileTree → Prop
  | file (content : Content) : Reordered (.file content) (.file content)
  | directory {entries entries' : List (String × FileTree)} :
    (entries.map (·.1)).Perm (entries'.map (·.1)) →
    (∀ name inner inner', (name, inner) ∈ entries → (name, inner') ∈ entries' →
      Reordered inner inner') →
    Reordered (.directory entries) (.directory entries')

theorem lookup_iff {entries : List (String × FileTree)} (unique : (entries.map (·.1)).Nodup)
    (name : String) (inner : FileTree) :
    entries.lookup name = some inner ↔ (name, inner) ∈ entries := by
  induction entries with
  | nil => simp
  | cons entry rest ih =>
    obtain ⟨other, place⟩ := entry
    obtain ⟨new, unique⟩ := List.nodup_cons.mp unique
    by_cases same : name = other
    · subst same
      have absent : (name, inner) ∉ rest := fun member =>
        new (List.mem_map.mpr ⟨(name, inner), member, rfl⟩)
      simp [absent, eq_comm]
    · simp [List.lookup_cons, same, ih unique, beq_eq_false_iff_ne.mpr same]

/-- A tree is in the order in which it is. -/
theorem WellNamed.reordered {tree : FileTree} (named : tree.WellNamed) : tree.Reordered tree := by
  induction named with
  | file content => exact .file content
  | @directory entries unique _ ih =>
    refine .directory (.refl _) fun name inner inner' here there => ?_
    have same : some inner = some inner' :=
      ((lookup_iff unique name inner).mpr here).symm.trans
        ((lookup_iff unique name inner').mpr there)
    obtain rfl := Option.some.inj same
    exact ih _ here

/-- The entries of one directory in some other order. -/
theorem WellNamed.permuted {entries entries' : List (String × FileTree)}
    (named : (FileTree.directory entries).WellNamed) (perm : entries.Perm entries') :
    (FileTree.directory entries).Reordered (.directory entries') := by
  cases named.reordered with
  | directory _ inside =>
    exact .directory (perm.map _) fun name inner inner' here there =>
      inside name inner inner' here (perm.mem_iff.mpr there)

/-- A tree with names of their own, and the same one in some other order. -/
structure Matching (a b : FileTree) : Prop where
  named : a.WellNamed
  reordered : a.Reordered b

namespace Matching
variable {entries entries' : List (String × FileTree)}
  (matching : Matching (.directory entries) (.directory entries'))
include matching

theorem unique : (entries.map (·.1)).Nodup := by
  cases matching.named with
  | directory unique _ => exact unique

theorem names : (entries.map (·.1)).Perm (entries'.map (·.1)) := by
  cases matching.reordered with
  | directory names _ => exact names

theorem unique' : (entries'.map (·.1)).Nodup := matching.names.nodup_iff.mp matching.unique

theorem inner {name : String} {inner inner' : FileTree} (here : (name, inner) ∈ entries)
    (there : (name, inner') ∈ entries') : Matching inner inner' := by
  obtain ⟨named, reordered⟩ := matching
  cases named with
  | directory _ below =>
    cases reordered with
    | directory _ inside => exact ⟨below _ here, inside _ _ _ here there⟩

theorem find {name : String} {inner : FileTree} (here : (name, inner) ∈ entries) :
    ∃ inner', (name, inner') ∈ entries' ∧ Matching inner inner' := by
  obtain ⟨⟨_, inner'⟩, there, rfl⟩ :=
    List.mem_map.mp (matching.names.mem_iff.mp (List.mem_map.mpr ⟨_, here, rfl⟩))
  exact ⟨inner', there, matching.inner here there⟩

theorem find' {name : String} {inner' : FileTree} (there : (name, inner') ∈ entries') :
    ∃ inner, (name, inner) ∈ entries ∧ Matching inner inner' := by
  obtain ⟨⟨_, inner⟩, here, rfl⟩ :=
    List.mem_map.mp (matching.names.mem_iff.mpr (List.mem_map.mpr ⟨_, there, rfl⟩))
  exact ⟨inner, here, matching.inner here there⟩

theorem lookup (name : String) :
    Option.Rel Matching (entries.lookup name) (entries'.lookup name) := by
  cases found : entries.lookup name with
  | some inner =>
    obtain ⟨inner', there, alike⟩ := matching.find ((lookup_iff matching.unique _ _).mp found)
    rw [(lookup_iff matching.unique' _ _).mpr there]
    exact .some alike
  | none =>
    cases found' : entries'.lookup name with
    | none => exact .none
    | some inner' =>
      obtain ⟨inner, here, _⟩ := matching.find' ((lookup_iff matching.unique' _ _).mp found')
      rw [(lookup_iff matching.unique _ _).mpr here] at found
      cases found

end Matching

theorem Matching.nothing : Matching (.directory []) (.directory []) := by
  refine ⟨.directory .nil ?_, .directory (.refl _) ?_⟩
  · intro entry listed
    cases listed
  · intro name inner inner' listed
    cases listed

/-- Two places with the directories around them that match. -/
def Abreast (x y : FileTree × List FileTree) : Prop :=
  Matching x.1 y.1 ∧ List.Forall₂ Matching x.2 y.2

theorem step_matching {a b : FileTree} {around around' : List FileTree}
    (abreast : Abreast (a, around) (b, around')) (part : String) :
    Option.Rel Abreast (step a around part) (step b around' part) := by
  obtain ⟨matching, outside⟩ := abreast
  cases a with
  | file content =>
    cases matching.reordered with
    | file content => exact .none
  | directory entries =>
    cases matching.reordered with
    | @directory _ entries' names inside =>
      simp only [step]
      split
      · exact .some ⟨matching, outside⟩
      split
      · cases outside with
        | nil => exact .some ⟨.nothing, .nil⟩
        | cons outer rest => exact .some ⟨outer, rest⟩
      · have inner := matching.lookup part
        generalize entries.lookup part = found, entries'.lookup part = found' at inner ⊢
        cases inner with
        | none => exact .none
        | some inner => exact .some ⟨inner, .cons matching outside⟩

theorem walk_matching (path : List String) {a b : FileTree} {around around' : List FileTree}
    (abreast : Abreast (a, around) (b, around')) :
    Option.Rel Abreast (walk a around path) (walk b around' path) := by
  induction path generalizing a b around around' with
  | nil => exact .some abreast
  | cons part rest ih =>
    have next := step_matching abreast part
    rw [walk, walk]
    generalize step a around part = x, step b around' part = y at next ⊢
    cases next with
    | none => exact .none
    | some next => exact ih next

/-- Where a path leads is the same but for the order of entries. -/
theorem find_matching {tree tree' : FileTree} (matching : Matching tree tree') (path : String) :
    Option.Rel Matching (tree.find? path) (tree'.find? path) := by
  have start : Matching (tree.origin path) (tree'.origin path) := by
    unfold origin
    split
    · exact .nothing
    · exact matching
  have walked : Option.Rel Abreast (walk (tree.origin path) [] (parts path))
      (walk (tree'.origin path) [] (parts path)) := walk_matching _ ⟨start, .nil⟩
  by_cases empty : path = ""
  · rw [find?, find?, if_pos empty, if_pos empty]
    exact .none
  rw [find_walk empty, find_walk empty]
  generalize walk (tree.origin path) [] (parts path) = x,
    walk (tree'.origin path) [] (parts path) = y at walked ⊢
  cases walked with
  | none => exact .none
  | some next => exact .some next.1

end FileTree
end Statechart
