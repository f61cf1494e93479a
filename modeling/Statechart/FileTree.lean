/-!
A tree of files as a program finds it on disk, and how a path leads to a place in it.
-/

namespace Statechart

inductive Content
  | text (characters : List Char)
  | binary
  deriving DecidableEq

inductive FileTree
  | file (content : Content)
  | directory (entries : List (String × FileTree))

namespace FileTree

def isFile : FileTree → Bool
  | .file _ => true
  | .directory _ => false

def entries : FileTree → List (String × FileTree)
  | .file _ => []
  | .directory entries => entries

def stays (part : String) : Bool := part = "" || part = "."

/-- Follows a path from the innermost of some nested directories. Around the tree there is nothing
but an empty directory. -/
def follow : (place : FileTree) → (around : List FileTree) → List String → Option FileTree
  | place, _, [] => some place
  | .file _, _, _ :: _ => none
  | .directory entries, around, part :: rest =>
    if stays part then follow (.directory entries) around rest
    else if part = ".." then
      match around with
      | [] => follow (.directory []) [] rest
      | outer :: around => follow outer around rest
    else
      match entries.lookup part with
      | none => none
      | some inner => follow inner (.directory entries :: around) rest

def parts (path : String) : List String := (path.toList.splitOn '/').map String.ofList

/-- Where a path sets out from. One that starts with a slash does so from outside the tree. -/
def origin (tree : FileTree) (path : String) : FileTree :=
  if (parts path).head? = some "" then .directory [] else tree

def find? (tree : FileTree) (path : String) : Option FileTree :=
  if path = "" then none else (tree.origin path).follow [] (parts path)

def join (directory name : String) : String :=
  if directory = "" ∨ directory.endsWith "/" then directory ++ name else directory ++ "/" ++ name

def trim : List String → List String
  | [] => []
  | first :: rest => first :: (rest.reverse.dropWhile stays).reverse

/-- The path of the directory that a file stands in, as it is written up to there. -/
def parent (path : String) : String :=
  match trim (parts path).dropLast with
  | [""] => "/"
  | parts => "/".intercalate parts

def insert (inner tree : FileTree) : List String → FileTree
  | [] =>
    match inner, tree with
    | .directory [], .directory entries => .directory entries
    | inner, _ => inner
  | name :: rest =>
    let entries := tree.entries
    let place := (entries.lookup name).getD (.directory [])
    let others := entries.filter fun entry => entry.1 ≠ name
    .directory (others ++ [(name, insert inner place rest)])

/-- Puts something at the end of a path that starts from a place. The place is given by the names on
the way to it, the last one first. -/
def insertAt (inner : FileTree) : (place path : List String) → FileTree → FileTree
  | place, [], tree => insert inner tree place.reverse
  | place, part :: rest, tree =>
    let next := if stays part then place else if part = ".." then place.drop 1 else part :: place
    insertAt inner next rest (insert (.directory []) tree place.reverse)

def ofPlaces (places : List (String × FileTree)) : FileTree :=
  (places.mergeSort fun a b => a.1 ≤ b.1).foldl
    (fun tree place => insertAt place.2 [] (parts place.1) tree) (.directory [])

end FileTree
end Statechart
