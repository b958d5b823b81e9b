import GhciHost.File.Tree

/-! # The real path behind a path

`resolve` follows all links of a path, also where the rest of the path does not exist.  A
path that runs in circles is refused, as is one with a null byte in it. -/

namespace GhciHost

/-- Why a path has no real path, or could not be used. -/
inductive PathError
  | linkLoop (path : String)
  | noHome
  | nullByte
  | file (fault : FileFault) (path : String)
deriving DecidableEq, Repr

@[inherit_doc PathError]
def PathError.message : PathError → String
  | linkLoop path => "Symlink loop from " ++ String.ofList (Text.showQuoted path.toList)
  | noHome => "Could not determine home directory."
  | nullByte => "embedded null byte"
  | file fault path => fault.message path

/-- Files, and from where they are looked at. -/
structure Disk where
  tree : FileTree := {}
  /-- The current directory. -/
  cwd : List String := []
  /-- The home directory. -/
  home : String := "/"
  /-- The home directories of accounts by name. -/
  accounts : List (String × String) := []
deriving Repr

namespace FileTree

/-- A component still to be followed, or the note that a link has been followed. -/
inductive Errand
  | part (name : String)
  | followed (link : List String)
deriving DecidableEq, Repr

/-- The components among errands. -/
def Errand.name? : Errand → Option String
  | part name => some name
  | followed _ => none

/-- Take one component back for each double dot. -/
def lexical (path : List String) : List String :=
  path.foldl (fun acc c =>
    if c = ".." then acc.dropLast else if Pathname.isPart c then acc ++ [c] else acc) []

/-- The errands as they are written, behind a place.  The rest of each path that was being
    followed is joined on as a path of its own, which is seen from the root if it begins with
    a slash; `fresh` tells whether such a rest begins here. -/
def unfollowed (here : List String) (fresh : Bool) : List Errand → List String
  | [] => here
  | .followed _ :: rest => unfollowed here true rest
  | .part c :: rest =>
    let rooted := fresh && c == "" && (rest.head?.bind Errand.name?).isSome
    unfollowed (if rooted then [] else here ++ [c]) false rest

/-- Follow the errands from a place.  `seen` holds for each link met where it leads, once that
    is known; a link met again before is a circle, and what comes from there on is left as
    it is.  `links` bounds the links met for the first time. -/
def follow (t : FileTree) (links : Nat) (seen : List (List String × Option (List String)))
    (here : List String) : List Errand → List String
  | [] => here
  | .followed link :: rest => follow t links ((link, some here) :: seen) here rest
  | .part c :: rest =>
    if c = "" ∨ c = "." then follow t links seen here rest
    else if c = ".." then follow t links seen here.dropLast rest
    else
      let path := here ++ [c]
      match t.node? path with
      | some (.link target) =>
        match seen.lookup path with
        -- the link was followed before, and where it leads does not depend on the way to it
        | some (some p) => follow t links seen p rest
        -- the link is met while it is followed
        | some none => lexical (unfollowed path true rest)
        | none =>
          match links with
          | 0 => lexical (unfollowed path true rest)
          | links + 1 =>
            follow t links ((path, none) :: seen)
              (if target.toList.head? = some '/' then [] else here)
              -- the note behind the link's components records where they led
              ((Pathname.pieces target).map .part ++ [.followed path] ++ rest)
      | _ => follow t links seen path rest
termination_by errands => (links, errands.length)

/-- The number of links in a tree. -/
def linkCount (t : FileTree) : Nat :=
  t.entries.entries.countP fun
    | (_, .link _) => true
    | _ => false

end FileTree

namespace Disk

/-- The absolute path of a pathname, with links followed. -/
def realPath (d : Disk) (p : Pathname) : List String :=
  d.tree.follow d.tree.linkCount [] (if p.absolute then [] else d.cwd) (p.parts.map .part)

/-- Replace a tilde in front by the home directory that it stands for. -/
def expandHome (d : Disk) (p : Pathname) : Except PathError Pathname :=
  match p with
  | ⟨false, first :: rest⟩ =>
    match first.toList with
    | '~' :: account =>
      if '\x00' ∈ account then .error .nullByte
      else
        let home := if account.isEmpty then some d.home else d.accounts.lookup (String.ofList account)
        match home with
        | none => .error .noHome
        | some home =>
          let h := Pathname.parse home
          .ok ⟨h.absolute, h.parts ++ rest⟩
    | _ => .ok p
  | p => .ok p

/-- The real path of a pathname. -/
def resolve (d : Disk) (p : Pathname) : Except PathError (List String) :=
  if p.parts.any (·.toList.contains '\x00') then .error .nullByte
  else
    let real := d.realPath p
    match d.tree.stat [] (Pathname.renderAbsolute real) with
    | .error .tooManyLinks => .error (.linkLoop (Pathname.renderAbsolute real))
    | _ => .ok real

/-- The real path of a path as a person writes it. -/
def resolveWritten (d : Disk) (path : String) : Except PathError (List String) := do
  d.resolve (← d.expandHome (Pathname.parse path))

/-- Whether a directory is at a real path. -/
def isDirectory (d : Disk) (path : List String) : Except PathError Bool :=
  let written := Pathname.renderAbsolute path
  match d.tree.stat [] written with
  | .ok n => .ok (n = .directory)
  | .error .nameTooLong => .error (.file .nameTooLong written)
  | .error _ => .ok false

/-- What a path leads to that is written as a text. -/
def look (d : Disk) (path : String) : Except PathError FileNode :=
  if path.toList.contains '\x00' then .error .nullByte
  else match d.tree.stat d.cwd path with
    | .ok n => .ok n
    | .error f => .error (.file f path)

end Disk

end GhciHost
