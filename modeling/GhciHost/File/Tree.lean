import GhciHost.Data.Keyed
import GhciHost.Path.Pathname
import GhciHost.Text.Quoted
import GhciHost.Text.Digit
import GhciHost.Text.Utf8

/-! # File trees

Directories, files and symbolic links by absolute path.  `walk` finds what a path leads to
as an operating system does: it follows links on the way, and at the end if it is told to.

* `node?_put_self`, `node?_put_of_ne`   what stands where after something was put at a path. -/

namespace GhciHost

/-- What can stand in a directory. -/
inductive FileNode
  | directory
  | file (contents : String)
  | link (target : String)
deriving DecidableEq, Repr

/-- What a tree holds, by the components of its absolute path. -/
structure FileTree where
  entries : Keyed (List String) FileNode := {}
deriving Repr

/-- Why a path could not be used. -/
inductive FileFault
  | missing
  | existing
  | notDirectory
  | isDirectory
  | nameTooLong
  | tooManyLinks
deriving DecidableEq, Repr

namespace FileFault

/-- The number of a fault. -/
def number : FileFault → Nat
  | missing => 2
  | existing => 17
  | notDirectory => 20
  | isDirectory => 21
  | nameTooLong => 36
  | tooManyLinks => 40

/-- The text of a fault. -/
def text : FileFault → String
  | missing => "No such file or directory"
  | existing => "File exists"
  | notDirectory => "Not a directory"
  | isDirectory => "Is a directory"
  | nameTooLong => "File name too long"
  | tooManyLinks => "Too many levels of symbolic links"

/-- The message of a fault at a path. -/
def message (f : FileFault) (path : String) : String :=
  "[Errno " ++ String.ofList (Text.showNat f.number) ++ "] " ++ f.text ++ ": " ++
    String.ofList (Text.showQuoted path.toList)

end FileFault

namespace FileTree

/-- What stands at a path; the root is a directory. -/
def node? (t : FileTree) : List String → Option FileNode
  | [] => some .directory
  | path => t.entries.find? path

/-- Where a path leads. -/
inductive Place
  /-- To something that exists. -/
  | taken (path : List String) (node : FileNode)
  /-- To a name that is free in a directory. -/
  | free (path : List String)
deriving DecidableEq, Repr

/-- How many bytes a name may have. -/
def maxName : Nat := 255

/-- How many links are followed for one path. -/
def maxLinks : Nat := 40

/-- Go from a place down some components.  `links` bounds the links that are followed. -/
def walk (t : FileTree) (follow : Bool) (links : Nat) (here : List String) :
    List String → Except FileFault Place
  | [] =>
    match t.node? here with
    | some n => .ok (.taken here n)
    | none => .error .missing
  | c :: rest =>
    match t.node? here with
    | none => .error .missing
    | some .directory =>
      if c = "" ∨ c = "." then walk t follow links here rest
      else if c = ".." then walk t follow links here.dropLast rest
      else if maxName < Text.Utf8.size c.toList then .error .nameTooLong
      else match t.node? (here ++ [c]) with
        | none => if rest.isEmpty then .ok (.free (here ++ [c])) else .error .missing
        | some (.link target) =>
          if rest.isEmpty && !follow then .ok (.taken (here ++ [c]) (.link target))
          else match links with
            | 0 => .error .tooManyLinks
            | links + 1 =>
              walk t follow links (if target.toList.head? = some '/' then [] else here)
                (Pathname.pieces target ++ rest)
        | some _ => walk t follow links (here ++ [c]) rest
    | some _ => .error .notDirectory
termination_by path => (links, path.length)

/-- How many bytes a path may have. -/
def maxPath : Nat := 4095

/-- Where a path leads that is written as a text, seen from a directory. -/
def locate (t : FileTree) (follow : Bool) (cwd : List String) (path : String) :
    Except FileFault Place :=
  if path.isEmpty then .error .missing
  else if maxPath < Text.Utf8.size path.toList then .error .nameTooLong
  else t.walk follow maxLinks (if path.toList.head? = some '/' then [] else cwd)
    (Pathname.pieces path)

/-- What a path leads to, links followed. -/
def stat (t : FileTree) (cwd : List String) (path : String) : Except FileFault FileNode :=
  match t.locate true cwd path with
  | .ok (.taken _ n) => .ok n
  | .ok (.free _) => .error .missing
  | .error e => .error e

/-- Put something at a path. -/
def put (t : FileTree) (path : List String) (n : FileNode) : FileTree := ⟨t.entries.put path n⟩

/-- Make a directory, in a directory that exists. -/
def makeDirectory (t : FileTree) (path : List String) : Except FileFault FileTree :=
  match t.walk false maxLinks [] path with
  | .ok (.free p) => .ok (t.put p .directory)
  | .ok (.taken ..) => .error .existing
  | .error e => .error e

/-- Make a directory and those above it; one that exists is left alone.  A fault is told
    with the path where it arose. -/
def makeDirectories (t : FileTree) : (path : List String) → Except (FileFault × List String) FileTree
  | [] => .ok t
  | c :: cs =>
    match t.makeDirectory (c :: cs) with
    | .ok t => .ok t
    | .error .missing =>
      match makeDirectories t (c :: cs).dropLast with
      | .error e => .error e
      | .ok t =>
        match t.makeDirectory (c :: cs) with
        | .ok t => .ok t
        | .error e => .error (e, c :: cs)
    | .error e =>
      -- a directory that is there already is all that was wanted
      match t.stat [] (Pathname.renderAbsolute (c :: cs)) with
      | .ok .directory => .ok t
      | _ => .error (e, c :: cs)
termination_by path => path.length
decreasing_by simp

/-- Write a file, in a directory that exists. -/
def write (t : FileTree) (path : List String) (contents : String) : Except FileFault FileTree :=
  match t.walk true maxLinks [] path with
  | .ok (.free p) => .ok (t.put p (.file contents))
  | .ok (.taken p (.file _)) => .ok (t.put p (.file contents))
  | .ok (.taken ..) => .error .isDirectory
  | .error e => .error e

/-- Remove a directory with all it holds. -/
def removeBelow (t : FileTree) (path : List String) : FileTree :=
  ⟨⟨t.entries.entries.filter fun (p, _) => !path.isPrefixOf p⟩⟩

/-- The names in a directory, in no order that means anything. -/
def names (t : FileTree) (path : List String) : List String :=
  t.entries.entries.filterMap fun (p, _) =>
    match p.getLast? with
    | some name => if p.dropLast = path then some name else none
    | none => none

theorem node?_put_self {path : List String} (h : path ≠ []) (t : FileTree) (n : FileNode) :
    (t.put path n).node? path = some n := by
  cases path with
  | nil => contradiction
  | cons c cs => simp [node?, put]

theorem node?_put_of_ne {path other : List String} (h : other ≠ path) (t : FileTree) (n : FileNode) :
    (t.put path n).node? other = t.node? other := by
  cases other with
  | nil => rfl
  | cons c cs => simp [node?, put, Keyed.find?_put_of_ne h]

end FileTree

end GhciHost
