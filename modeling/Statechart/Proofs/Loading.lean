import Mathlib.Data.List.Nodup
import Statechart.Configuration
import Statechart.Proofs.Places
/-!
Loading a configuration. What is loaded depends on what is in the files and on their names, and not
on the order in which directories list their entries. All files of a directory that count are read,
in the order of their names, and the first problem met is the one that is reported. A configuration
may be named by its root or by its state document.
-/

namespace Statechart

open FileTree (join names tidy isPlain Matching)

/-- The same error with nothing in its path that stays. -/
def LoadError.tidied (e : LoadError) : LoadError := e.mapPath tidy

namespace Configuration

/-! Results and their errors. -/

def fault? {α : Type} : Except LoadError α → Option LoadError
  | .ok _ => none
  | .error e => some e

theorem fault_iff {α : Type} (x : Except LoadError α) (e : LoadError) :
    x = .error e ↔ fault? x = some e := by
  cases x <;> simp [fault?]

theorem bind_ok {α β : Type} {x : Except LoadError α} {f : α → Except LoadError β} {b : β}
    (done : x.bind f = .ok b) : ∃ a, x = .ok a ∧ f a = .ok b := by
  cases x with
  | error e => cases done
  | ok a => exact ⟨a, rfl, done⟩

theorem fault_bind {α β : Type} (x : Except LoadError α) (f : α → Except LoadError β)
    {later : Option LoadError} (same : ∀ a, x = .ok a → fault? (f a) = later) :
    fault? (x.bind f) = (fault? x).or later := by
  cases x with
  | error e => rfl
  | ok a => exact same a rfl

theorem bind_tidied {α β : Type} {x y : Except LoadError α} {f g : α → Except LoadError β}
    (first : x.mapError LoadError.tidied = y.mapError LoadError.tidied)
    (later : ∀ a, (f a).mapError LoadError.tidied = (g a).mapError LoadError.tidied) :
    (x.bind f).mapError LoadError.tidied = (y.bind g).mapError LoadError.tidied := by
  cases x with
  | ok a =>
    cases y with
    | ok b =>
      obtain rfl : a = b := Except.ok.inj first
      exact later a
    | error e => cases first
  | error e =>
    cases y with
    | ok b => cases first
    | error e' => exact congrArg Except.error (Except.error.inj first)

/-! The parts of loading. -/

/-- The documents of a directory, none if there is no directory. -/
def files (tree : FileTree) (directory : String) : List (String × FileTree) :=
  documents (listing (tree.find? directory))

/-- The rules, of which there must be some. -/
def readRules (tree : FileTree) (directory : String) : Except LoadError (List RuleDocument) :=
  match files tree directory with
  | [] => .error (.noRules directory)
  | files => readAll RuleDocument.reader directory files

/-- Loads the configuration whose root and state document are known. -/
def loadFrom (tree : FileTree) (root statePath : String) : Except LoadError Definition := do
  let states ← readDocument StateDocument.reader statePath (tree.find? statePath)
  let triggers ← readAll TriggerDocument.reader (join root triggerDirectory)
    (files tree (join root triggerDirectory))
  let rules ← readRules tree (join root ruleDirectory)
  return states.toDefinition rules triggers

theorem load_eq (tree : FileTree) (path : String) : load tree path =
    (locate tree path).bind fun place => loadFrom tree place.1 place.2 := by
  unfold load loadFrom
  refine congrArg (Except.bind (locate tree path)) (funext fun (root, statePath) => ?_)
  refine congrArg (Except.bind _) (funext fun states => ?_)
  refine congrArg (Except.bind _) (funext fun triggers => ?_)
  dsimp only [readRules, files]
  cases documents (listing (tree.find? (join root ruleDirectory))) <;> rfl

theorem load_at {tree : FileTree} {path root statePath : String}
    (located : locate tree path = .ok (root, statePath)) :
    load tree path = loadFrom tree root statePath := by
  rw [load_eq, located]
  rfl

/-! The documents of a directory. -/

/-- Only a regular file whose name has something in front of the extension counts. -/
def counts (entry : String × FileTree) : Bool := entry.2.isFile && isDocumentName entry.1

theorem is_document_iff (name : String) :
    isDocumentName name = true ↔ ∃ stem, stem ≠ "" ∧ name = stem ++ ".json" := by
  simp only [isDocumentName, Bool.and_eq_true, ends_with_iff, decide_eq_true_eq]
  constructor
  · rintro ⟨⟨stem, rfl⟩, more⟩
    exact ⟨stem, fun empty => more (by rw [empty, String.empty_append]), rfl⟩
  · rintro ⟨stem, written, rfl⟩
    refine ⟨⟨stem, rfl⟩, fun same => written ?_⟩
    have lengths := congrArg String.length same
    rw [String.length_append] at lengths
    exact String.length_eq_zero_iff.mp (by omega)

theorem documents_perm (entries : List (String × FileTree)) :
    (documents entries).Perm (entries.filter counts) :=
  List.mergeSort_perm _ _

theorem documents_sorted (entries : List (String × FileTree)) :
    (documents entries).Pairwise fun a b => a.1 ≤ b.1 := by
  have sorted : (documents entries).Pairwise fun a b => decide (a.1 ≤ b.1) = true :=
    List.pairwise_mergeSort
      (fun a b c first later => by
        rw [decide_eq_true_eq] at *
        exact String.le_trans first later)
      (fun a b => by simpa using String.le_total a.1 b.1) _
  exact sorted.imp of_decide_eq_true

/-- The names of the documents ascend, where no two entries have the same name. -/
theorem documents_ascend {entries : List (String × FileTree)}
    (unique : (entries.map (·.1)).Nodup) : (documents entries).Pairwise fun a b => a.1 < b.1 := by
  have apart : ((documents entries).map (·.1)).Nodup :=
    ((documents_perm entries).map (·.1)).nodup_iff.mpr
      (unique.sublist (List.filter_sublist.map Prod.fst))
  refine ((documents_sorted entries).and (List.pairwise_map.mp apart)).imp ?_
  rintro a b ⟨ordered, other⟩
  exact String.not_le.mp fun back => other (String.le_antisymm ordered back)

/-- A regular file is the same in a tree that lists its entries in some other order. -/
theorem Matching.file {a b : FileTree} (matching : Matching a b)
    (regular : a.isFile = true ∨ b.isFile = true) : a = b := by
  cases matching.reordered with
  | file content => rfl
  | directory => rcases regular with impossible | impossible <;> cases impossible

theorem documents_matching {entries entries' : List (String × FileTree)}
    (matching : Matching (.directory entries) (.directory entries')) :
    documents entries = documents entries' := by
  have shared (entry : String × FileTree) :
      entry ∈ entries.filter counts ↔ entry ∈ entries'.filter counts := by
    obtain ⟨name, inner⟩ := entry
    simp only [List.mem_filter, counts, Bool.and_eq_true]
    constructor
    · rintro ⟨here, regular, named⟩
      obtain ⟨inner', there, alike⟩ := matching.find here
      obtain rfl := Matching.file alike (.inl regular)
      exact ⟨there, regular, named⟩
    · rintro ⟨there, regular, named⟩
      obtain ⟨inner', here, alike⟩ := matching.find' there
      obtain rfl := Matching.file alike (.inr regular)
      exact ⟨here, regular, named⟩
  have filtered : (entries.filter counts).Perm (entries'.filter counts) :=
    (List.perm_ext_iff_of_nodup ((List.Nodup.of_map _ matching.unique).filter _)
      ((List.Nodup.of_map _ matching.unique').filter _)).mpr shared
  have perm := ((documents_perm entries).trans filtered).trans (documents_perm entries').symm
  refine List.Perm.eq_of_pairwise ?_ (documents_sorted entries) (documents_sorted entries') perm
  intro a b here there ordered back
  -- Entries of one name are one entry, as no directory has two of that name.
  have listed := List.mem_of_mem_filter ((documents_perm entries).mem_iff.mp here)
  have listed' :=
    List.mem_of_mem_filter ((documents_perm entries).mem_iff.mp (perm.mem_iff.mpr there))
  exact List.inj_on_of_nodup_map matching.unique listed listed' (String.le_antisymm ordered back)

theorem files_matching {tree tree' : FileTree} (matching : Matching tree tree')
    (directory : String) : files tree' directory = files tree directory := by
  have found := FileTree.find_matching matching directory
  unfold files
  generalize tree.find? directory = x, tree'.find? directory = y at found ⊢
  cases found with
  | none => rfl
  | @some a b inner =>
    cases inner.reordered with
    | file content => rfl
    | directory => exact (documents_matching inner).symm

theorem read_matching {α : Type} (reader : Json.Reader α) (path : String)
    {place place' : Option FileTree} (matching : Option.Rel Matching place place') :
    readDocument reader path place = readDocument reader path place' := by
  cases matching with
  | none => rfl
  | @some a b matching =>
    cases matching.reordered with
    | file content => rfl
    | directory => rfl

/-- The order in which directories list their entries makes no difference. -/
theorem load_matching {tree tree' : FileTree} (matching : Matching tree tree') (path : String) :
    load tree' path = load tree path := by
  have found := FileTree.find_matching matching
  have located : locate tree' path = locate tree path := by
    have here := found path
    unfold locate
    generalize tree.find? path = x, tree'.find? path = y at here ⊢
    cases here with
    | none => rfl
    | @some a b inner =>
      cases inner.reordered with
      | file content => rfl
      | directory => rfl
  rw [load_eq, load_eq, located]
  refine congrArg (Except.bind (locate tree path)) (funext fun (root, statePath) => ?_)
  simp only [loadFrom, readRules, files_matching matching,
    read_matching _ statePath (found statePath)]

/-! What is loaded, and the first problem. -/

section Read
variable {α : Type} (reader : Json.Reader α) (directory : String)

theorem read_all_cons (entry : String × FileTree) (rest : List (String × FileTree)) :
    readAll reader directory (entry :: rest) =
      (readDocument reader (join directory entry.1) (some entry.2)).bind fun document =>
        (readAll reader directory rest).bind fun more => .ok (document :: more) := by
  rw [readAll]
  cases readDocument reader (join directory entry.1) (some entry.2) with
  | error e => rfl
  | ok document => cases readAll reader directory rest <;> rfl

/-- The document is what the file says. -/
def Says (entry : String × FileTree) (document : α) : Prop :=
  readDocument reader (join directory entry.1) (some entry.2) = .ok document

instance [DecidableEq α] (entry : String × FileTree) (document : α) :
    Decidable (Says reader directory entry document) :=
  inferInstanceAs (Decidable (_ = _))

/-- The problems of some files, each file read by itself. -/
def faults (files : List (String × FileTree)) : List LoadError :=
  files.filterMap fun entry => fault? (readDocument reader (join directory entry.1) (some entry.2))

theorem fault_read_all (files : List (String × FileTree)) :
    fault? (readAll reader directory files) = (faults reader directory files).head? := by
  induction files with
  | nil => rfl
  | cons entry rest ih =>
    rw [read_all_cons, faults, List.filterMap_cons]
    cases readDocument reader (join directory entry.1) (some entry.2) with
    | error e => rfl
    | ok document =>
      refine Eq.trans ?_ ih
      cases readAll reader directory rest <;> rfl

theorem read_all_iff (files : List (String × FileTree)) (documents : List α) :
    readAll reader directory files = .ok documents ↔
      List.Forall₂ (Says reader directory) files documents := by
  induction files generalizing documents with
  | nil =>
    constructor
    · rintro ⟨⟩
      exact .nil
    · rintro ⟨⟩
      rfl
  | cons entry rest ih =>
    rw [read_all_cons]
    constructor
    · intro read
      obtain ⟨document, first, read⟩ := bind_ok read
      obtain ⟨more, later, read⟩ := bind_ok read
      cases read
      exact .cons first ((ih more).mp later)
    · rintro (_ | ⟨first, later⟩)
      rw [show readDocument reader (join directory entry.1) (some entry.2) = _ from first,
        (ih _).mpr later]
      rfl

end Read

/-- All problems of a configuration in the order in which they count: that of the state document,
those of the triggers, that there are no rules, and those of the rules. -/
def problems (tree : FileTree) (root statePath : String) : List LoadError :=
  let triggerPath := join root triggerDirectory
  let rulePath := join root ruleDirectory
  (fault? (readDocument StateDocument.reader statePath (tree.find? statePath))).toList ++
    faults TriggerDocument.reader triggerPath (files tree triggerPath) ++
    (if files tree rulePath = [] then [.noRules rulePath] else []) ++
    faults RuleDocument.reader rulePath (files tree rulePath)

theorem fault_read_rules (tree : FileTree) (directory : String) :
    fault? (readRules tree directory) =
      (if files tree directory = [] then some (.noRules directory) else none).or
        (fault? (readAll RuleDocument.reader directory (files tree directory))) := by
  unfold readRules
  cases files tree directory <;> rfl

/-- The problem that is reported is the first of all. -/
theorem fault_load_from (tree : FileTree) (root statePath : String) :
    fault? (loadFrom tree root statePath) = (problems tree root statePath).head? := by
  have parts : (problems tree root statePath).head? =
      (fault? (readDocument StateDocument.reader statePath (tree.find? statePath))).or
        ((fault? (readAll TriggerDocument.reader (join root triggerDirectory)
          (files tree (join root triggerDirectory)))).or
        (fault? (readRules tree (join root ruleDirectory)))) := by
    rw [fault_read_rules, fault_read_all, fault_read_all]
    simp only [problems, List.head?_append, Option.head?_toList, Option.or_assoc]
    split <;> rfl
  rw [parts]
  refine fault_bind _ _ fun states _ => fault_bind _ _ fun triggers _ => ?_
  cases readRules tree (join root ruleDirectory) <;> rfl

theorem read_rules_iff (tree : FileTree) (directory : String) (rules : List RuleDocument) :
    readRules tree directory = .ok rules ↔
      List.Forall₂ (Says RuleDocument.reader directory) (files tree directory) rules ∧
        rules ≠ [] := by
  unfold readRules
  cases files tree directory with
  | nil =>
    constructor
    · rintro ⟨⟩
    · rintro ⟨⟨⟩, any⟩
      exact absurd rfl any
  | cons file more =>
    dsimp only
    rw [read_all_iff]
    refine ⟨fun read => ⟨read, ?_⟩, And.left⟩
    rintro rfl
    cases read

/-- The definition is what the files of a configuration say, one trigger or rule for each of them,
and at least one rule. -/
def Tells (tree : FileTree) (root statePath : String) (d : Definition) : Prop :=
  ∃ states triggers rules,
    readDocument StateDocument.reader statePath (tree.find? statePath) = .ok states ∧
    List.Forall₂ (Says TriggerDocument.reader (join root triggerDirectory))
      (files tree (join root triggerDirectory)) triggers ∧
    List.Forall₂ (Says RuleDocument.reader (join root ruleDirectory))
      (files tree (join root ruleDirectory)) rules ∧
    rules ≠ [] ∧ d = states.toDefinition rules triggers

theorem load_from_iff (tree : FileTree) (root statePath : String) (d : Definition) :
    loadFrom tree root statePath = .ok d ↔ Tells tree root statePath d := by
  constructor
  · intro loaded
    obtain ⟨states, read, loaded⟩ := bind_ok loaded
    obtain ⟨triggers, readTriggers, loaded⟩ := bind_ok loaded
    obtain ⟨rules, readRules, loaded⟩ := bind_ok loaded
    obtain ⟨said, any⟩ := (read_rules_iff _ _ _).mp readRules
    cases loaded
    exact ⟨states, triggers, rules, read, (read_all_iff _ _ _ _).mp readTriggers, said, any, rfl⟩
  · rintro ⟨states, triggers, rules, read, told, said, any, rfl⟩
    rw [loadFrom, read, (read_all_iff _ _ _ _).mpr told, (read_rules_iff _ _ _).mpr ⟨said, any⟩]
    rfl

/-! Paths that differ in what stays. -/

section Tidied
variable {α : Type} (reader : Json.Reader α)

theorem read_tidied {path path' : String} (same : names path = names path')
    (place : Option FileTree) :
    (readDocument reader path place).mapError LoadError.tidied =
      (readDocument reader path' place).mapError LoadError.tidied := by
  have tidied : tidy path = tidy path' := congrArg ("/".intercalate ·) same
  rcases place with _ | (characters | _) | entries
  case some.file.text =>
    dsimp only [readDocument]
    cases reader.run characters with
    | ok a => rfl
    | error problem => simp [Except.mapError, LoadError.tidied, LoadError.mapPath, tidied]
  all_goals simp [readDocument, Except.mapError, LoadError.tidied, LoadError.mapPath, tidied]

variable {directory directory' : String} (same : names directory = names directory')
include same

theorem read_all_tidied (files : List (String × FileTree)) :
    (readAll reader directory files).mapError LoadError.tidied =
      (readAll reader directory' files).mapError LoadError.tidied := by
  induction files with
  | nil => rfl
  | cons entry rest ih =>
    rw [read_all_cons, read_all_cons]
    refine bind_tidied (read_tidied reader ?_ _) fun document => bind_tidied ih fun more => rfl
    rw [FileTree.names_join, FileTree.names_join, same]

theorem read_rules_tidied {tree : FileTree}
    (there : tree.find? directory = tree.find? directory') :
    (readRules tree directory).mapError LoadError.tidied =
      (readRules tree directory').mapError LoadError.tidied := by
  unfold readRules files
  rw [there]
  cases documents (listing (tree.find? directory')) with
  | nil => simp [Except.mapError, LoadError.tidied, LoadError.mapPath, tidy, same]
  | cons file more => exact read_all_tidied _ same _

end Tidied

/-- Roots that are alike but for what stays in their paths, and lead to the same places. -/
theorem load_from_tidied {tree : FileTree} {root root' : String} (same : names root = names root')
    (there : ∀ name, tree.find? (join root name) = tree.find? (join root' name))
    (statePath : String) :
    (loadFrom tree root statePath).mapError LoadError.tidied =
      (loadFrom tree root' statePath).mapError LoadError.tidied := by
  have below (name : String) : names (join root name) = names (join root' name) := by
    rw [FileTree.names_join, FileTree.names_join, same]
  refine bind_tidied rfl fun states => bind_tidied ?_ fun triggers =>
    bind_tidied (read_rules_tidied (below _) (there _)) fun rules => rfl
  rw [files, there]
  exact read_all_tidied _ (below _) _

section Routes
variable {tree : FileTree} {root : String} {content : Content} (written : root ≠ "")
  (leads : tree.find? (join root stateFile) = some (.file content))
include written leads

/-- The state document leads to where its root leads. -/
theorem load_routes :
    load tree (join root stateFile) =
      loadFrom tree (FileTree.parent (join root stateFile)) (join root stateFile) ∧
    load tree root = loadFrom tree root (join root stateFile) := by
  obtain ⟨entries, here⟩ := FileTree.find_directory (by decide +kernel) leads written
  refine ⟨load_at ?_, load_at ?_⟩
  · rw [locate, leads]
  · rw [locate, here]

theorem load_alike : (load tree (join root stateFile)).mapError LoadError.tidied =
    (load tree root).mapError LoadError.tidied := by
  have single : FileTree.parts stateFile = [stateFile] := by decide +kernel
  rw [(load_routes written leads).1, (load_routes written leads).2]
  exact load_from_tidied (FileTree.names_parent single) (FileTree.find_parent single leads) _

theorem load_same (plain : isPlain root = true) :
    load tree (join root stateFile) = load tree root := by
  have single : FileTree.parts stateFile = [stateFile] := by decide +kernel
  rw [(load_routes written leads).1, (load_routes written leads).2]
  unfold loadFrom
  simp only [FileTree.join_parent single plain]

end Routes

/-! The whole. -/

theorem locate_iff (tree : FileTree) (path : String) (e : LoadError) :
    locate tree path = .error e ↔ tree.find? path = none ∧ e = .notFound path := by
  unfold locate
  split <;> simp [*, eq_comm]

theorem mem_files (tree : FileTree) (directory : String) (entry : String × FileTree) :
    entry ∈ files tree directory ↔ entry ∈ listing (tree.find? directory) ∧
      entry.2.isFile = true ∧ ∃ stem, stem ≠ "" ∧ entry.1 = stem ++ ".json" := by
  rw [files, (documents_perm _).mem_iff, List.mem_filter, counts, Bool.and_eq_true,
    is_document_iff]

theorem files_ascend {tree : FileTree} (named : tree.WellNamed) (directory : String) :
    (files tree directory).Pairwise fun a b => a.1 < b.1 := by
  have found := FileTree.find_matching ⟨named, named.reordered⟩ directory
  unfold files
  cases here : tree.find? directory with
  | none => exact documents_ascend .nil
  | some place =>
    rw [here] at found
    cases place with
    | file content => exact documents_ascend .nil
    | directory entries =>
      obtain ⟨matching⟩ := found
      exact documents_ascend matching.unique

section Lamp

def lampStates : StateDocument where
  states := [{ name := "Off" }, { name := "On" }]
  initial := "Off"

def lightUp : RuleDocument := { source := "Off", target := "On" }
def goOut : RuleDocument := { source := "On", target := "Off" }

def page (document : Json) : FileTree := .file (.text document.write)

def lampRules : List (String × FileTree) :=
  [("up.json", page lightUp.toJson), ("notes.txt", .file .binary), ("out.json", page goOut.toJson)]

/-- A configuration with its rules in the order in which some directory lists them. -/
def lamp (rules : List (String × FileTree)) : FileTree :=
  .directory [("lamp", .directory
    [(ruleDirectory, .directory rules), (stateFile, page lampStates.toJson)])]

end Lamp

end Configuration
end Statechart
