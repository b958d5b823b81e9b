/-! # Scripts of a shell

The commands of the small shell that stands for the programs a launcher can run. -/

namespace GhciHost.Shell

/-- A part of a word. -/
inductive Part
  | text (s : List Char) (quoted : Bool)
  /-- A parameter, with what stands for it if it is empty. -/
  | parameter (name : String) (fallback : List Char) (quoted : Bool)
deriving DecidableEq, Repr

/-- A word of a script, before parameters are put in. -/
abbrev Word := List Part

/-- Where the output of a command is sent. -/
inductive Target
  /-- To where another descriptor is sent. -/
  | descriptor (n : Nat)
  | file (w : Word)
deriving DecidableEq, Repr

/-- A change of where a descriptor is sent. -/
structure Redirection where
  descriptor : Nat
  target : Target
deriving DecidableEq, Repr

/-- A script. -/
inductive Script
  | nothing
  | simple (assignments : List (String × Word)) (words : List Word)
  | seq (first second : Script)
  /-- The second only if the first succeeds. -/
  | both (first second : Script)
  /-- The second only if the first fails. -/
  | either (first second : Script)
  | negate (s : Script)
  /-- The body as long as the condition succeeds, or as long as it fails. -/
  | loop (whileFails : Bool) (condition body : Script)
  | choose (condition yes no : Script)
  | each (name : String) (words : List Word) (body : Script)
  /-- With changes that do not last. -/
  | scoped (s : Script)
  /-- The output of the first is the input of the second. -/
  | pipe (first second : Script)
  | redirected (s : Script) (changes : List Redirection)
deriving Repr, Inhabited

/-- Why a text is no script. -/
inductive ScriptFault
  | unterminatedQuote
  | missingBrace
  | badSubstitution
  | badLoopName
  /-- Something else was to come than what is there. -/
  | unexpected (there : String) (expected : Option String)
deriving DecidableEq, Repr

/-- What is said about a text that is no script. -/
def ScriptFault.message : ScriptFault → String
  | unterminatedQuote => "Syntax error: Unterminated quoted string"
  | missingBrace => "Syntax error: Missing '\x7d'"
  | badSubstitution => "Bad substitution"
  | badLoopName => "Syntax error: Bad for loop variable"
  | unexpected there expected =>
    "Syntax error: " ++ there ++ " unexpected" ++
      (expected.map fun e => " (expecting \"" ++ e ++ "\")").getD ""

end GhciHost.Shell
