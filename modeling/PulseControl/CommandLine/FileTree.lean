import PulseControl.CommandLine.Run

/-!
# Files in memory

A tree of files that exists in memory only, to run commands on. A directory is there as soon as a file is
in it. Paths start at the root of the tree.

* `PulseControl.CommandLine.FileTree.view` – what is found at a path;
* `PulseControl.CommandLine.FileTree.write` – the tree with a file written;
* `PulseControl.CommandLine.FileTree.run` – the program run on a tree.
-/

namespace PulseControl.CommandLine

/-! ### Causes of failures -/

/-- The causes for which a file cannot be read or written. -/
inductive FileFault where
  | notFound
  | notDirectory
  | isDirectory
  deriving DecidableEq, Repr

/-- The wording of a cause. -/
def FileFault.message : FileFault → String
  | .notFound => "No such file or directory (os error 2)"
  | .notDirectory => "Not a directory (os error 20)"
  | .isDirectory => "Is a directory (os error 21)"

/-! ### Trees -/

/-- A tree of files: what they contain, by the steps of their paths. -/
structure FileTree where
  files : List (List String × String)

namespace FileTree

/-- The content of a file. -/
def content? (t : FileTree) (steps : List String) : Option String := t.files.lookup steps

/-- Whether there is a directory: the root, or one with a file in it. -/
def isDirectory (t : FileTree) (steps : List String) : Bool :=
  steps.isEmpty || t.files.any fun f => steps.isPrefixOf f.1 && steps.length < f.1.length

/-- Whether the way to a path leads through a file. -/
def isBlocked (t : FileTree) (steps : List String) : Bool :=
  t.files.any fun f => f.1.isPrefixOf steps && f.1.length < steps.length

/-- Whether a path can only be that of a directory. -/
def namesDirectory (path : String) : Bool := path.endsWith "/" || path.endsWith "/."

/-- The content of the file at a path, or why there is none. -/
def read (t : FileTree) (path : String) : Except FileFault String :=
  let steps := pathSteps path
  if path = "" || (path.startsWith "/" && !steps.isEmpty) then .error .notFound
  else
    match t.content? steps with
    | some content => if namesDirectory path then .error .notDirectory else .ok content
    | none =>
      if t.isDirectory steps then .error .isDirectory
      else if t.isBlocked steps then .error .notDirectory
      else .error .notFound

/-- What is found at a path. -/
def view (t : FileTree) (path : String) : FileView :=
  match t.read path with
  | .ok content => .text content
  | .error .isDirectory => .unreadable FileFault.isDirectory.message
  | .error fault => .missing fault.message

/-- The tree with a file put in, in place of an earlier one at the same path. -/
def put (t : FileTree) (path content : String) : FileTree :=
  let steps := pathSteps path
  ⟨(steps, content) :: t.files.filter fun f => f.1 ≠ steps⟩

/-- **The tree with a file written**, or why it cannot be. The directory of the file must be there. -/
def write (t : FileTree) (s : Save) : Except FileFault FileTree :=
  let steps := pathSteps s.path
  if s.path = "" || (s.path.startsWith "/" && !steps.isEmpty) then .error .notFound
  else if t.isDirectory steps then .error .isDirectory
  else if t.isBlocked steps then .error .notDirectory
  else if !t.isDirectory steps.dropLast then .error .notFound
  else if namesDirectory s.path then
    .error (if (t.content? steps).isSome then .notDirectory else .isDirectory)
  else .ok (t.put s.path s.content)

/-- The tree of some files, by their paths. -/
def ofFiles (files : List (String × String)) : FileTree :=
  files.foldl (fun t f => t.put f.1 f.2) ⟨[]⟩

/-- **The program run on a tree**: the outcome, and the tree after it. -/
def run (t : FileTree) (environment? : Option String) (args : List String) : Outcome × FileTree :=
  match Run.of t.view environment? args with
  | .done outcome => (outcome, t)
  | .saving output save =>
    match t.write save with
    | .ok t' => ((Run.saving output save).finish fun _ => none, t')
    | .error fault => ((Run.saving output save).finish fun _ => some fault.message, t)

end FileTree

end PulseControl.CommandLine
