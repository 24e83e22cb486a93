import LexFront.Files.Path
import LexFront.Source.Decoder

/-!
# Directory trees

What a path leads to: a file with its content, something that is no file, or a failure in the words
of the system. A `FileTree` answers for a directory that is known as a whole. A path is followed
component by component, and the first step that is not possible decides.

Key facts:

* `resolve_nil`: an empty list of components is the directory that the walk has reached.
-/

set_option autoImplicit false

namespace LexFront

/-- What a path leads to. -/
inductive Lookup where
  | file (size : Nat) (content : Feed)
  /-- A directory or the like. -/
  | notFile
  | missing
  | denied
  | failed (message : String)
  deriving Repr

/-- An entry of a directory tree. -/
inductive FileNode where
  | file (size : Nat) (content : Feed)
  | directory

/-- A directory: the paths in it, as lists of names, and what they lead to. Directories on the way
need not be named. -/
abbrev FileTree := List (List Text × FileNode)

namespace FileTree

/-- The most bytes of one name. -/
def maxName : Nat := 255

/-- The most bytes of a path, less one. -/
def maxPath : Nat := 4096

/-- The failure to go through a file as if it were a directory. -/
def notDirectory : Lookup := .failed "Not a directory (os error 20)"

/-- The failure to look up a name that is too long. -/
def nameTooLong : Lookup := .failed "File name too long (os error 36)"

/-- What a list of names leads to, from the top of the tree. -/
def node? (tree : FileTree) (names : List Text) : Option FileNode :=
  match tree.find? (·.1 == names) with
  | some (_, node) => some node
  | none => if tree.any fun (path, _) ↦ names.isPrefixOf path then some .directory else none

/-- Where a walk has got to: a place in the tree, or one outside of it, where nothing is known. -/
inductive Place where
  | inside (names : List Text)
  | outside

/-- Follows the components of a path from a place that is a directory. -/
def resolve (tree : FileTree) : Place → List Text → Lookup
  | _, [] => .notFile
  | place, component :: rest =>
    if Path.isIdle component then resolve tree place rest
    else if component = ['.', '.'] then
      match place with
      | .inside [] | .outside => resolve tree .outside rest
      | .inside names => resolve tree (.inside names.dropLast) rest
    else if maxName < Text.size component then nameTooLong
    else
      match place with
      | .outside => .missing
      | .inside names =>
        match node? tree (names ++ [component]) with
        | none => .missing
        | some .directory => resolve tree (.inside (names ++ [component])) rest
        | some (.file size content) =>
          -- Even an idle component behind a file asks for a directory.
          match rest with
          | [] => .file size content
          | _ :: _ => notDirectory

theorem resolve_nil (tree : FileTree) (place : Place) : resolve tree place [] = .notFile := by
  unfold resolve
  rfl

/-- What a path leads to from the top of the tree. -/
def lookup (tree : FileTree) (path : String) : Lookup :=
  let p := path.toList
  if p.contains '\x00' then .failed "file name contained an unexpected NUL byte"
  else if p = [] then .missing
  else if maxPath ≤ Text.size p then nameTooLong
  else
    match p with
    | '/' :: rest => resolve tree .outside (Path.components rest)
    | _ => resolve tree (.inside []) (Path.components p)

/-- The tree with an entry at a path; idle components of the path are left out. -/
def insert (tree : FileTree) (path : String) (node : FileNode) : FileTree :=
  ((Path.components path.toList).filter (!Path.isIdle ·), node) :: tree

end FileTree

end LexFront
