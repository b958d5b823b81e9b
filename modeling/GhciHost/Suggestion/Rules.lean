import GhciHost.Diagnostic.Basic
import GhciHost.Suggestion.Quoted
import GhciHost.Suggestion.Section
import GhciHost.Text.Word

/-! # Rules

Each rule recognises one kind of message and makes suggestions of it.  The rules stand in
the order in which they are tried, and the first that makes any suggestion is the last
tried (`suggestionsOf`), so a message that both proposes an import and lists names of
similar spelling yields the import alone.

Messages are read with curled quotes; where the compiler wraps lines at will, a rule reads
them with every run of blanks squeezed to one space. -/

namespace GhciHost.Suggestion

open Text

/-- Why a rule could not make its suggestion. -/
inductive RuleError
  /-- A number of a place in the message is too long. -/
  | tooManyDigits (e : TooManyDigits)
  /-- The diagnostic's own place has negative positions. -/
  | negative (positions : List Diagnostic.Position)
deriving DecidableEq, Repr

/-- The place of a diagnostic. -/
def placeOf (d : Diagnostic) : Except RuleError Span := d.span.mapError .negative

/-- The message of a diagnostic with curled quotes. -/
def curledMessage (d : Diagnostic) : List Char := curled d.message.toList

/-- The message of a diagnostic with curled quotes, on one line. -/
def flatMessage (d : Diagnostic) : List Char := squeeze (curledMessage d)

/-! ## Imports -/

/-- The text up to a closing parenthesis that ends a sentence, a word or the message; at
    least one character.  `acc` holds what was passed, newest first. -/
def untilClose (acc : List Char) : List Char → Option (List Char)
  | [] => none
  | c :: s =>
    let ends := match s with
      | [] => true
      | d :: _ => d == '.' || isBlank d
    if c = ')' && !acc.isEmpty && ends then some acc.reverse else untilClose (c :: acc) s

/-- The proposal to extend an import list: the item, the module and the place named in
    parentheses. -/
def importProposal? (s : List Char) : Option (List Char × List Char × List Char) := do
  let s ← after? "Perhaps you want to add " s
  let (item, s) ← quoted? s
  let s ← after? " to the import list in the import of " s
  let (module, s) ← quoted? s
  let s ← after? " (" s
  let place ← untilClose [] s
  pure (item, module, place)

/-- `Perhaps you want to add ‘x’ to the import list in the import of ‘M’ (file:place).`
    The suggestion points at the import that is named in parentheses, in the diagnostic's
    own file. -/
def addImportItem (d : Diagnostic) : Except RuleError (List Suggestion) :=
  match search? importProposal? (flatMessage d) with
  | none => .ok []
  | some (item, module, place) => do
    let own ← placeOf d
    -- the compiler names the import by its place; without one the message's own place has to do
    let location ← match Location.fileLocation? place with
      | none => pure own
      | some (_, written, _) =>
        match written.read with
        | .ok l => pure { l with file := d.file }
        | .error e => throw (.tooManyDigits e)
    pure [⟨location, .addImportItem (String.ofList module) (String.ofList item)⟩]

/-- The items and the module of `The import of ‘…’ from module ‘…’ is redundant`. -/
def redundantItems? (s : List Char) : Option (List Char × List Char) := do
  let s ← after? "The import of " s
  let (items, s) ← quoted? s
  let s ← after? " from module " s
  let (module, s) ← quoted? s
  let _ ← after? " is redundant" s
  pure (items, module)

/-- The module of `The import of ‘…’ is redundant`, and whether the import is qualified. -/
def redundantImport? (s : List Char) : Option (List Char × Bool) := do
  let s ← after? "The " s
  let (s, qualified) := match after? "qualified " s with
    | some s => (s, true)
    | none => (s, false)
  let s ← after? "import of " s
  let (module, s) ← quoted? s
  let _ ← after? " is redundant" s
  pure (module, qualified)

/-- An import that is redundant, in whole or in some of its items. -/
def removeImportItem (d : Diagnostic) : Except RuleError (List Suggestion) :=
  let message := flatMessage d
  match search? redundantItems? message with
  | some (items, module) => do
    let location ← placeOf d
    pure [⟨location, .removeImportItem (String.ofList module)
      ((topLevelItems items).map String.ofList) false⟩]
  | none =>
    match search? redundantImport? message with
    | some (module, qualified) => do
      let location ← placeOf d
      pure [⟨location, .removeImportItem (String.ofList module) [] qualified⟩]
    | none => .ok []

/-! ## Declarations -/

/-- The constructor of `Fields of ‘…’ not initialised:` in either spelling, and the text
    after the label. -/
def missingFields? (s : List Char) : Option (List Char × List Char) := do
  let s ← after? "Fields of " s
  let (constructor, s) ← quoted? s
  let s ← after? " not initiali" s
  let s ← (after? "sed:" s) <|> (after? "zed:" s)
  pure (constructor, s)

/-- Drop the full stops at the end. -/
def withoutStops (s : List Char) : List Char := (s.reverse.dropWhile (· == '.')).reverse

/-- The fields named after the label: one a line before a double colon where there is one,
    else separated by commas. -/
def missingFieldNames (rest : List Char) : List (List Char) :=
  let lines := paragraph rest
  let typed := lines.filter (contains "::".toList)
  let fields :=
    if typed.isEmpty then topLevelItems (joined lines)
    else typed.map fun line => trim (before "::".toList line)
  (fields.filter (!·.isEmpty)).map withoutStops

/-- Fields that a record construction leaves out. -/
def addMissingRecordFields (d : Diagnostic) : Except RuleError (List Suggestion) :=
  match search? missingFields? (curledMessage d) with
  | none => .ok []
  | some (constructor, rest) =>
    match missingFieldNames rest with
    | [] => .ok []
    | fields => do
      let location ← placeOf d
      pure [⟨location, .addMissingRecordFields (String.ofList constructor)
        (fields.map String.ofList)⟩]

/-- The signature that a binding lacks. -/
def addTypeSignature (d : Diagnostic) : Except RuleError (List Suggestion) :=
  match search? (after? "Top-level binding with no type signature:") (curledMessage d) with
  | none => .ok []
  | some rest =>
    let signature := squeeze (joined (paragraph rest))
    if contains "::".toList signature then do
      let location ← placeOf d
      pure [⟨location, .addTypeSignature (String.ofList signature)⟩]
    else .ok []

/-- The text without the parentheses around it, which need not match each other. -/
def withoutParens (s : List Char) : List Char :=
  match s with
  | '(' :: r => if r.getLast? = some ')' then r.dropLast else s
  | _ => s

/-- The text after `Redundant constraint:` or `Redundant constraints:`. -/
def redundantConstraint? (s : List Char) : Option (List Char) := do
  let s ← after? "Redundant constraint" s
  after? ":" ((after? "s" s).getD s)

/-- Constraints that are not used. -/
def removeRedundantConstraint (d : Diagnostic) : Except RuleError (List Suggestion) :=
  match search? redundantConstraint? (curledMessage d) with
  | none => .ok []
  | some rest =>
    match topLevelItems (withoutParens (squeeze (joined (paragraph rest)))) with
    | [] => .ok []
    | constraints => do
      let location ← placeOf d
      pure [⟨location, .removeRedundantConstraint (constraints.map String.ofList)⟩]

/-! ## Packages, extensions and flags -/

/-- Dotted groups of digits after the first. -/
def afterDotted : Nat → List Char → List Char
  | 0, s => s
  | fuel + 1, s =>
    match s with
    | '.' :: r =>
      if (r.takeWhile isDecimal).isEmpty then s else afterDotted fuel (r.dropWhile isDecimal)
    | _ => s

/-- Whether a hyphen, a version and possibly a suffix make up the whole text. -/
def isVersionSuffix (s : List Char) : Bool :=
  match s with
  | '-' :: r =>
    !(r.takeWhile isDecimal).isEmpty &&
      match afterDotted r.length (r.dropWhile isDecimal) with
      | [] => true
      | c :: _ => c == '-' || c == '@' || c == ':'
  | _ => false

/-- A package name without its version: the text before the first hyphen from which on a
    version makes up the rest. -/
def withoutVersion : List Char → List Char
  | [] => []
  | c :: s => if isVersionSuffix (c :: s) then [] else c :: withoutVersion s

/-- A package that is installed but hidden. -/
def enablePackage (d : Diagnostic) : Except RuleError (List Suggestion) :=
  let hidden? (s : List Char) : Option (List Char) := do
    let s ← after? "It is a member of the hidden package " s
    let (package, _) ← quoted? s
    pure package
  match search? hidden? (flatMessage d) with
  | none => .ok []
  | some package => do
    let location ← placeOf d
    pure [⟨location, .enablePackage (String.ofList (withoutVersion package))⟩]

/-- An extension's name: a capital and at least one more letter or digit, all ASCII. -/
def extensionName? : List Char → Option (List Char × List Char)
  | c :: s =>
    let more := s.takeWhile Char.isAlphanum
    if c.isUpper && !more.isEmpty then some (c :: more, s.dropWhile Char.isAlphanum) else none
  | [] => none

/-- Whether a word may start after the given character. -/
def startsWord (prev : Option Char) : Bool := !(prev.any isWord)

/-- A phrase and an extension's name behind it: how far in the name stands, and the name. -/
def phrasedExtension? (phrase : String) (s : List Char) : Option ((Nat × List Char) × Nat) := do
  let (name, _) ← (after? phrase s).bind extensionName?
  pure ((phrase.length, name), phrase.length + name.length)

/-- `Use X` at the start of a word, where `X` is not the start of a longer word or of a
    qualified name. -/
def usedExtension? (prev : Option Char) (s : List Char) : Option ((Nat × List Char) × Nat) := do
  let r ← (after? "Use " s) <|> (after? "use " s)
  let (name, rest) ← extensionName? r
  let free := match rest with
    | [] => true
    | c :: _ => !(isWord c || c == '.')
  if startsWord prev && free then pure ((4, name), 4 + name.length) else none

/-- The extensions that a message recommends, each with its place in the message. -/
def recommended (message : List Char) : List (Nat × List Char) :=
  let all (m : Option Char → List Char → Option ((Nat × List Char) × Nat)) :
      List (Nat × List Char) :=
    (findAll m message).map fun (i, offset, name) => (i + offset, name)
  all (fun _ => phrasedExtension? "-X") ++
    all (fun _ => phrasedExtension? "Perhaps you intended to use ") ++
    all (fun _ => phrasedExtension? "You may want to use ") ++
    all (fun _ => phrasedExtension? "Try enabling ") ++ all usedExtension?

/-- Language extensions that the message recommends and that the compiler supports; no list
    of supported ones, or an empty one, admits all. -/
def addExtension (supported : List String) (d : Diagnostic) : Except RuleError (List Suggestion) :=
  -- in the order of the message, whatever phrase recommends an extension
  let found := (recommended (flatMessage d)).mergeSort fun a b => a.1 ≤ b.1
  let names := ((found.map fun (_, name) => String.ofList name).eraseDups).filter fun name =>
    supported.isEmpty || supported.contains name
  match names with
  | [] => .ok []
  | names => do
    let location ← placeOf d
    pure (names.map fun name => ⟨location, .addExtension name⟩)

/-- A compiler flag behind `Use `. -/
def usedFlag? (prev : Option Char) (s : List Char) : Option (List Char × Nat) :=
  match after? "Use " s with
  | some ('-' :: f :: c :: r) =>
    if startsWord prev && (f == 'f' || f == 'W') && c.isLower then
      let more := r.takeWhile fun c => isWord c || c == '-'
      some ('-' :: f :: c :: more, 7 + more.length)
    else none
  | _ => none

/-- Drop the hyphens at the end. -/
def withoutHyphens (s : List Char) : List Char := (s.reverse.dropWhile (· == '-')).reverse

/-- Compiler flags that the message recommends. -/
def addGhcOption (d : Diagnostic) : Except RuleError (List Suggestion) :=
  let flags := (findAll usedFlag? (flatMessage d)).map fun (_, flag) => withoutHyphens flag
  match flags.eraseDups with
  | [] => .ok []
  | flags => do
    let location ← placeOf d
    pure (flags.map fun flag => ⟨location, .addGhcOption (String.ofList flag)⟩)

/-! ## Misspelled names -/

/-- A name that ends at a blank or a colon. -/
def bareName? (s : List Char) : Option (List Char) :=
  let name := s.takeWhile fun c => !(isBlank c || c == ':')
  if name.isEmpty then none else some name

/-- The name that is not in scope. -/
def outOfScope? (message : List Char) : Option (List Char) :=
  let quotedOnLine? (s : List Char) : Option (List Char) := do
    let s ← after? "Not in scope: " s
    let (name, _) ← quoted? (s.dropWhile fun c => c != '‘' && c != '\n')
    pure name
  search? (fun s => (after? "Variable not in scope: " s).bind bareName?) message <|>
    search? (fun s => (after? "Data constructor not in scope: " s).bind bareName?) message <|>
    search? quotedOnLine? message

/-- The text after `Perhaps you meant` or `Perhaps use`, and what may follow these words. -/
def proposals? (s : List Char) : Option (List Char) := do
  let s ← after? "Perhaps " s
  let s ← (after? "you meant" s) <|> (after? "use" s)
  let s := (after? " one of these" s).getD s
  pure ((after? ":" s).getD s)

/-- Whether a character may stand between innermost parentheses. -/
def isInner (c : Char) : Bool := c != '(' && c != ')'

/-- Leave out the parentheses that hold no other ones, with what they hold. -/
def withoutNotes (s : List Char) : List Char :=
  replaceAll (fun s => match s with
    | '(' :: r =>
      match r.dropWhile isInner with
      | ')' :: _ => some ([], (r.takeWhile isInner).length + 2)
      | _ => none
    | _ => none) s

/-- The names that are proposed for one that is not in scope. -/
def fixTypo (d : Diagnostic) : Except RuleError (List Suggestion) :=
  let message := curledMessage d
  match outOfScope? message with
  | none => .ok []
  | some misspelled =>
    match search? proposals? message with
    | none => .ok []
    | some rest =>
      -- notes such as `(line 3)` or `(imported from M)` may quote names that are no proposals
      let names := (quotedNames (withoutNotes (joined (paragraph rest)))).eraseDups
      match names.filter (· ≠ misspelled) with
      | [] => .ok []
      | names => do
        let location ← placeOf d
        pure (names.map fun name =>
          ⟨location, .fixTypo (String.ofList misspelled) (String.ofList name)⟩)

/-! ## The order of the rules -/

/-- The rules in the order in which they are tried, named by the change they propose. -/
def rules : List Fix.Kind :=
  [.addImportItem, .removeImportItem, .addMissingRecordFields, .addTypeSignature,
    .removeRedundantConstraint, .enablePackage, .addExtension, .addGhcOption, .fixTypo]

/-- The suggestions that a rule makes. -/
def apply (supported : List String) (d : Diagnostic) : Fix.Kind → Except RuleError (List Suggestion)
  | .addImportItem => addImportItem d
  | .removeImportItem => removeImportItem d
  | .addExtension => addExtension supported d
  | .addGhcOption => addGhcOption d
  | .addMissingRecordFields => addMissingRecordFields d
  | .fixTypo => fixTypo d
  | .addTypeSignature => addTypeSignature d
  | .removeRedundantConstraint => removeRedundantConstraint d
  | .enablePackage => enablePackage d

/-- The suggestions of the first of the given rules that makes any. -/
def firstOf (supported : List String) (d : Diagnostic) :
    List Fix.Kind → Except RuleError (List Suggestion)
  | [] => .ok []
  | k :: ks =>
    match apply supported d k with
    | .error e => .error e
    | .ok [] => firstOf supported d ks
    | .ok ss => .ok ss

/-- The suggestions for a diagnostic. -/
def suggestionsOf (supported : List String) (d : Diagnostic) :
    Except RuleError (List Suggestion) :=
  firstOf supported d rules

theorem mem_rules (k : Fix.Kind) : k ∈ rules := by cases k <;> decide

end GhciHost.Suggestion
