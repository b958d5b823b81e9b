import GhciHost.Text.Lines

/-! # Paths as texts

`normalize` removes empty and dot components and takes a component back for each double dot,
without looking at any file system.  Exactly two leading slashes are kept as two; any other
number of them counts as one. -/

namespace GhciHost.Path

/-- The number of leading slashes that a normal form keeps. -/
def leadingSlashes (s : List Char) : Nat :=
  let n := (s.takeWhile (· == '/')).length
  if n = 2 then 2 else min n 1

/-- Take one more component; `acc` holds the components so far, last first. -/
def pushComponent (rooted : Bool) (acc : List (List Char)) (c : List Char) : List (List Char) :=
  if c = [] ∨ c = ['.'] then acc
  else if c = ['.', '.'] then
    match acc with
    | [] => if rooted then [] else [c]
    | last :: before => if last = ['.', '.'] then c :: acc else before
  else c :: acc

/-- The normal form of a path. -/
def normalize (s : List Char) : List Char :=
  let slashes := leadingSlashes s
  let components := (Text.segments '/' s).foldl (pushComponent (slashes != 0)) []
  match List.replicate slashes '/' ++ List.intercalate ['/'] components.reverse with
  | [] => ['.']
  | p => p

end GhciHost.Path
