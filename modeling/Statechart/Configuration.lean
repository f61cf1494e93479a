import Statechart.FileTree
import Statechart.Error
import Statechart.Form.Document
/-!
Configurations: a machine definition spread over files. The state document stands at the root; below
it there is one directory of triggers, which may be missing, and one of rules, which must hold at
least one. The first problem met ends the loading.
-/

namespace Statechart.Configuration

def stateFile : String := "state_config.json"
def triggerDirectory : String := "event_generate_config"
def ruleDirectory : String := "trans_config"

/-- The name has something in front of the extension `json`. -/
def isDocumentName (name : String) : Bool := name.endsWith ".json" && name ≠ ".json"

def documents (entries : List (String × FileTree)) : List (String × FileTree) :=
  (entries.filter fun (name, inner) => inner.isFile && isDocumentName name).mergeSort
    fun a b => a.1 ≤ b.1

def readDocument {α : Type} (reader : Json.Reader α) (path : String) :
    Option FileTree → Except LoadError α
  | none => .error (.unreadable path .missing)
  | some (.directory _) => .error (.unreadable path .isDirectory)
  | some (.file .binary) => .error (.unreadable path .notText)
  | some (.file (.text characters)) =>
    match reader.run characters with
    | .ok a => .ok a
    | .error problem => .error (.invalid path problem)

def readAll {α : Type} (reader : Json.Reader α) (directory : String) :
    List (String × FileTree) → Except LoadError (List α)
  | [] => .ok []
  | (name, inner) :: rest =>
    match readDocument reader (FileTree.join directory name) (some inner) with
    | .error e => .error e
    | .ok a => (readAll reader directory rest).map (a :: ·)

def listing : Option FileTree → List (String × FileTree)
  | some (.directory entries) => entries
  | _ => []

/-- Where a configuration is: the path of its root, and that of its state document. -/
def locate (tree : FileTree) (path : String) : Except LoadError (String × String) :=
  match tree.find? path with
  | none => .error (.notFound path)
  | some (.file _) => .ok (FileTree.parent path, path)
  | some (.directory _) => .ok (path, FileTree.join path stateFile)

def load (tree : FileTree) (path : String) : Except LoadError Definition := do
  let (root, statePath) ← locate tree path
  let states ← readDocument StateDocument.reader statePath (tree.find? statePath)
  let triggerPath := FileTree.join root triggerDirectory
  let triggers ← readAll TriggerDocument.reader triggerPath
    (documents (listing (tree.find? triggerPath)))
  let rulePath := FileTree.join root ruleDirectory
  match documents (listing (tree.find? rulePath)) with
  | [] => .error (.noRules rulePath)
  | files =>
    let rules ← readAll RuleDocument.reader rulePath files
    return states.toDefinition rules triggers

end Statechart.Configuration
