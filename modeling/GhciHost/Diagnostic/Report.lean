import GhciHost.Diagnostic.Block
import GhciHost.Path.Lexical
import GhciHost.Suggestion.Rules

/-! # Reports

A report is what the compiler says about one load: its blocks, read as diagnostics.

A warning that exists only because errors were deferred is an error.  Where a report holds
one such promoted warning, its plain warnings are left out, since the compiler with errors
not deferred would not have come to them.  Of diagnostics that say the same, the first
stays. -/

namespace GhciHost.Diagnostic

open Text

/-- Scratch files and the source files that they stand for. -/
abbrev Staging := List (String × String)

/-- Whether a text starts with an ASCII phrase, in capitals or not.  The phrase is given in
    small letters. -/
def startsWithAnyCase (phrase s : List Char) : Bool :=
  phrase.isPrefixOf ((s.take phrase.length).map Char.toLower)

/-- The `[GHC-n]` code in front of a message, if there is one, left out with the blanks
    behind it. -/
def withoutCode (s : List Char) : List Char :=
  match after? "[GHC-" s with
  | none => s
  | some r =>
    if (r.takeWhile isDecimal).isEmpty then s
    else match after? "]" (r.dropWhile isDecimal) with
      | none => s
      | some r => trimLeft r

/-- Whether a warning stands for a deferred error. -/
def isPromoted (s : List Char) : Bool :=
  let flags := ["deferred-type-errors", "deferred-out-of-scope-variables", "typed-holes"]
  match after? "[-W" (withoutCode s) with
  | none => false
  | some r => flags.any fun flag =>
    match after? flag r with
    | some (c :: _) => c == ']' || c == ',' || isBlank c
    | _ => false

/-- The severity of a message, the message without the word that says it, and whether the
    message is a promoted warning. -/
def classify (message : List Char) : Severity × List Char × Bool :=
  if startsWithAnyCase "warning:".toList message then
    let rest := trimLeft (message.drop "warning:".length)
    if isPromoted rest then (.error, rest, true) else (.warning, rest, false)
  else if (after? "Splicing " message).isSome then (.splice, message, false)
  else if startsWithAnyCase "error:".toList message then
    (.error, trimLeft (message.drop "error:".length), false)
  else (.error, message, false)

/-- The longest common beginning of two texts. -/
def commonPrefix : List Char → List Char → List Char
  | a :: as, b :: bs => if a = b then a :: commonPrefix as bs else []
  | _, _ => []

/-- The blanks and tabs in front of a line. -/
def indentation (line : List Char) : List Char := line.takeWhile fun c => c == ' ' || c == '\t'

/-- Drop the indentation that all lines share. -/
def dedent : List (List Char) → List (List Char)
  | [] => []
  | l :: ls =>
    let margin := ls.foldl (fun m l => commonPrefix m (indentation l)) (indentation l)
    (l :: ls).map (·.drop margin.length)

/-- The message of a block: the first line, and the other lines without their common
    indentation. -/
def messageOf (b : Block) : List Char :=
  let first := trim b.header.message
  List.intercalate ['\n'] ((if first.isEmpty then [] else [first]) ++ dedent b.body)

/-- The source file that a file name stands for: the staging entry of this name, else the
    first whose normal form agrees, else the file itself. -/
def logicalFile (staging : Staging) (file : String) : String :=
  match staging.lookup file with
  | some logical => logical
  | none =>
    -- the compiler may have spelled the path of the scratch file in another way
    let normal := Path.normalize file.toList
    match staging.find? fun (scratch, _) => Path.normalize scratch.toList == normal with
    | some (_, logical) => logical
    | none => file

/-- The diagnostic of a block, and whether it is a promoted warning. -/
def ofBlock (staging : Staging) (b : Block) : Except TooManyDigits (Diagnostic × Bool) := do
  let place ← b.header.place.read
  let (severity, message, promoted) := classify (messageOf b)
  pure ({ severity, file := logicalFile staging (String.ofList b.header.file),
          line := place.line, column := place.column, endLine := place.endLine,
          endColumn := place.endColumn, message := String.ofList (trim message) }, promoted)

/-- The first of the diagnostics that say the same, in order.  `seen` holds what was said
    before. -/
def firstOfEach (seen : List Identity) : List Diagnostic → List Diagnostic
  | [] => []
  | d :: ds =>
    if d.identity ∈ seen then firstOfEach seen ds
    else d :: firstOfEach (d.identity :: seen) ds

/-- Leave out the plain warnings where a warning was promoted. -/
def withoutMasked (parsed : List (Diagnostic × Bool)) : List Diagnostic :=
  let ds := parsed.map (·.1)
  if parsed.any (·.2) then ds.filter (·.severity ≠ .warning) else ds

/-- Attach the suggestions of a diagnostic, unless it reports a splice. -/
def withSuggestions (supported : List String) (d : Diagnostic) :
    Except Suggestion.RuleError Diagnostic :=
  if d.severity = .splice then .ok d
  else (Suggestion.suggestionsOf supported d).map fun suggestions => { d with suggestions }

/-- The diagnostics of a compiler output. -/
def ofOutput (staging : Staging) (supported : List String) (text : String) :
    Except Suggestion.RuleError (List Diagnostic) := do
  let parsed ← ((blocks text.toList).mapM (ofBlock staging)).mapError .tooManyDigits
  (firstOfEach [] (withoutMasked parsed)).mapM (withSuggestions supported)

end GhciHost.Diagnostic
