import GhciHost.Shell.Script

/-! # Tokens of a script

`tokens` cuts a text into words and operators.  What stands between quotes belongs to a word
as it is, apart from parameters between double quotes. -/

namespace GhciHost.Shell

/-- A token. -/
inductive Token
  | word (w : Word)
  | operator (s : String)
  /-- An operator that changes where a descriptor is sent. -/
  | redirect (descriptor : Option Nat) (operator : String)
deriving DecidableEq, Repr

/-- Characters that end a word. -/
def endsWord (c : Char) : Bool := " \t\n;&|()<>".toList.contains c

/-- Characters of a name; it does not begin with a digit. -/
def isNameChar (c : Char) : Bool := c.isAlphanum || c == '_'

/-- Whether a text is a name. -/
def isName (s : List Char) : Bool :=
  !s.isEmpty && s.all isNameChar && !(s.head?.any Char.isDigit)

/-- Parameters whose names are a single sign or digit. -/
def isSpecial (c : Char) : Bool := c.isDigit || "?$#@*!-".toList.contains c

/-- Put text behind a word. -/
def addText (quoted : Bool) (s : List Char) (w : Word) : Word :=
  match w.getLast? with
  | some (.text t q) => if q == quoted then w.dropLast ++ [.text (t ++ s) q] else w ++ [.text s quoted]
  | _ => w ++ [.text s quoted]

/-- A name with what stands for an empty value, as both are written between braces. -/
def withFallback? (s : List Char) : Option (String × List Char) :=
  let name := s.takeWhile fun c => isNameChar c || isSpecial c && c != '-'
  if !isName name && !(name.length == 1 && name.all isSpecial) then none
  else match s.drop name.length with
    | [] => some (String.ofList name, [])
    | ':' :: '-' :: fallback => some (String.ofList name, fallback)
    | _ => none

/-- Read what stands behind a dollar sign: the parameter, and how many characters it takes. -/
def parameter? (s : List Char) : Except ScriptFault (Option (String × List Char × Nat)) :=
  match s with
  | '{' :: r =>
    let inner := r.takeWhile (· ≠ '}')
    if inner.length = r.length then .error .missingBrace
    else match withFallback? inner with
      | some (name, fallback) => .ok (some (name, fallback, inner.length + 2))
      | none => .error .badSubstitution
  | c :: _ =>
    if c.isAlpha || c == '_' then
      let name := s.takeWhile isNameChar
      .ok (some (String.ofList name, [], name.length))
    else if isSpecial c then .ok (some (String.singleton c, [], 1))
    else .ok none
  | [] => .ok none

/-- Read a word: the word, and what is behind it.  `inside` tells whether the place is between
    double quotes. -/
def readWord (inside : Bool) (w : Word) (s : List Char) : Except ScriptFault (Word × List Char) :=
  match s with
  | [] => if inside then .error .unterminatedQuote else .ok (w, [])
  -- a line goes on behind a backslash at its end
  | '\\' :: '\n' :: r => readWord inside w r
  | '\\' :: c :: r =>
    if inside && !"$`\"\\".toList.contains c then readWord inside (addText true ['\\', c] w) r
    else readWord inside (addText true [c] w) r
  -- an empty quoted text is a part too: it makes a word of nothing
  | '"' :: r => readWord (!inside) (addText true [] w) r
  | '$' :: r =>
    match parameter? r with
    | .error e => .error e
    | .ok (some (name, fallback, n)) =>
      readWord inside (w ++ [.parameter name fallback inside]) (r.drop n)
    | .ok none => readWord inside (addText inside ['$'] w) r
  | c :: r =>
    if inside then readWord inside (addText true [c] w) r
    else if c = '\'' then
      let span := r.takeWhile (· ≠ '\'')
      if span.length = r.length then .error .unterminatedQuote
      else readWord inside (addText true span w) (r.drop (span.length + 1))
    else if endsWord c then .ok (w, s)
    else readWord inside (addText false [c] w) r
termination_by s.length
decreasing_by all_goals simp_wf <;> omega

/-- The longest operator at the front of a text. -/
def operator? (s : List Char) : Option String :=
  ["&&", "||", ";;", ";", "&", "|", "(", ")", "\n"].find? (·.toList.isPrefixOf s)

/-- The longest redirection operator at the front of a text. -/
def redirect? (s : List Char) : Option String :=
  [">&", "<&", ">>", ">|", ">", "<"].find? (·.toList.isPrefixOf s)

/-- The tokens of a text; `fuel` bounds their number and that of the blanks between them. -/
def tokensWithin : Nat → List Char → Except ScriptFault (List Token)
  | 0, _ => .ok []
  | fuel + 1, s =>
    match s with
    | [] => .ok []
    | '\\' :: '\n' :: r => tokensWithin fuel r
    | c :: r =>
      if c = ' ' || c = '\t' then tokensWithin fuel r
      else if c = '#' then tokensWithin fuel (r.dropWhile (· ≠ '\n'))
      else
        let digits := s.takeWhile Char.isDigit
        match redirect? (s.drop digits.length), operator? s with
        | some op, _ => do
          let n := (String.ofList digits).toNat?
          return .redirect n op :: (← tokensWithin fuel (s.drop (digits.length + op.length)))
        | none, some op => do
          return .operator op :: (← tokensWithin fuel (s.drop op.length))
        | none, none => do
          let (w, r) ← readWord false [] s
          return .word w :: (← tokensWithin fuel r)

/-- The tokens of a text. -/
def tokens (s : List Char) : Except ScriptFault (List Token) := tokensWithin (s.length + 1) s

/-- The text of a word that is a plain text without quotes. -/
def plain? : Word → Option String
  | [.text s false] => some (String.ofList s)
  | _ => none

/-- The words that mean something where a command may begin. -/
def reserved : List String :=
  ["!", "\x7b", "\x7d", "if", "then", "elif", "else", "fi", "while", "until", "for", "do", "done"]

/-- What comes next, as a message shows it. -/
def shown : List Token → String
  | [] => "end of file"
  | .word w :: _ =>
    match plain? w with
    | some s => if reserved.contains s then "\"" ++ s ++ "\"" else "word"
    | none => "word"
  | .operator "\n" :: _ => "newline"
  | .operator s :: _ => "\"" ++ s ++ "\""
  | .redirect .. :: _ => "redirection"

end GhciHost.Shell
