/-! # Words of a shell

A word is written as it is where the shell takes it so, and between single quotes
elsewhere; a single quote inside is put between double quotes. -/

namespace GhciHost.Shell

/-- Characters that need no quotes. -/
def isPlain (c : Char) : Bool := c.isAlphanum || "_@%+=:,./-".toList.contains c

/-- A word as it is written in a command line. -/
def quote (word : String) : List Char :=
  if word.toList ≠ [] ∧ word.toList.all isPlain = true then word.toList
  else
    ['\''] ++ word.toList.flatMap (fun c => if c = '\'' then "'\"'\"'".toList else [c]) ++ ['\'']

/-- A command line. -/
def join (words : List String) : List Char := List.intercalate [' '] (words.map quote)

theorem quote_of_plain {word : String} (hne : word.toList ≠ [])
    (h : word.toList.all isPlain = true) : quote word = word.toList := by
  simp [quote, hne, h]

end GhciHost.Shell
