import GhciHost.Text.Lines

/-! # Pathnames

A pathname is a list of components, from the root or not.  Reading one drops empty and dot
components and keeps double dots, whose meaning depends on the file system.

* `below?_eq_some`   a path is its base and what remains below. -/

namespace GhciHost

/-- The components of a path. -/
structure Pathname where
  absolute : Bool
  parts : List String
deriving DecidableEq, Repr, Inhabited

namespace Pathname

/-- The pieces of a text between slashes. -/
def pieces (s : String) : List String := (Text.segments '/' s.toList).map String.ofList

/-- Whether a component says something. -/
def isPart (c : String) : Bool := c != "" && c != "."

/-- Read a pathname. -/
def parse (s : String) : Pathname := ⟨s.toList.head? == some '/', (pieces s).filter isPart⟩

/-- Components with slashes between them. -/
def joined (parts : List String) : String :=
  String.ofList (List.intercalate ['/'] (parts.map String.toList))

/-- The text of an absolute path. -/
def renderAbsolute (parts : List String) : String := "/" ++ joined parts

/-- The text of a pathname; the current directory is a dot. -/
def render (p : Pathname) : String :=
  if p.absolute then renderAbsolute p.parts
  else if p.parts.isEmpty then "." else joined p.parts

/-- The last component, empty if there is none. -/
def name (p : Pathname) : String := p.parts.getLast?.getD ""

/-- The pathname without its last component. -/
def parent (p : Pathname) : Pathname := { p with parts := p.parts.dropLast }

/-- What remains of an absolute path below another pathname. -/
def below? (path : List String) (base : Pathname) : Option (List String) :=
  if base.absolute && base.parts.isPrefixOf path then some (path.drop base.parts.length) else none

theorem below?_eq_some {path rest : List String} {base : Pathname} (h : below? path base = some rest) :
    path = base.parts ++ rest := by
  unfold below? at h
  split at h
  · next hb =>
    simp only [Bool.and_eq_true, List.isPrefixOf_iff_prefix] at hb
    obtain ⟨t, rfl⟩ := hb.2
    simpa using h
  · simp at h

end Pathname

end GhciHost
