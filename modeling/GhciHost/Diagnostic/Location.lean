import GhciHost.Text.Blank
import GhciHost.Text.Digit
import GhciHost.Text.Scan

/-! # Source locations

A location is written in one of three ways, tried in this order: `(line,column)-(line,column)`,
`line:column-column` and `line:column`.  `fileLocation?` reads a file name, a colon and a
location; the file name is the shortest that leaves a location behind its colon, so that a
colon may stand in a file name.

* `Written`         a location as it is written, its numbers still digits;
* `Written.read`    the numbers, each at most `Text.maxDigits` digits long. -/

namespace GhciHost

/-- A range of a source file, lines and columns counted from one. -/
structure Location where
  line : Nat
  column : Nat
  endLine : Nat
  endColumn : Nat
deriving DecidableEq, Repr

namespace Location

/-- A location as it is written. -/
inductive Written
  | span (line column endLine endColumn : List Char)
  | range (line column endColumn : List Char)
  | point (line column : List Char)
deriving DecidableEq, Repr

/-- The numbers of a written location, read from left to right. -/
def Written.read : Written → Except Text.TooManyDigits Location
  | .span l c l' c' => do
    let l ← Text.readNat? l
    let c ← Text.readNat? c
    let l' ← Text.readNat? l'
    let c' ← Text.readNat? c'
    pure ⟨l, c, l', c'⟩
  | .range l c c' => do
    let l ← Text.readNat? l
    let c ← Text.readNat? c
    let c' ← Text.readNat? c'
    pure ⟨l, c, l, c'⟩
  | .point l c => do
    let l ← Text.readNat? l
    let c ← Text.readNat? c
    pure ⟨l, c, l, c⟩

/-- A run of at least one digit. -/
def digits? (s : List Char) : Option (List Char × List Char) :=
  let ds := s.takeWhile Text.isDecimal
  if ds.isEmpty then none else some (ds, s.dropWhile Text.isDecimal)

/-- The location in parentheses. -/
def span? (s : List Char) : Option (Written × List Char) := do
  let s ← Text.after? "(" s
  let (l, s) ← digits? s
  let s ← Text.after? "," s
  let (c, s) ← digits? s
  let s ← Text.after? ")-(" s
  let (l', s) ← digits? s
  let s ← Text.after? "," s
  let (c', s) ← digits? s
  let s ← Text.after? ")" s
  pure (.span l c l' c', s)

/-- A line and a column, the start of the two shorter forms. -/
def pair? (s : List Char) : Option (List Char × List Char × List Char) := do
  let (l, s) ← digits? s
  let s ← Text.after? ":" s
  let (c, s) ← digits? s
  pure (l, c, s)

/-- The location at the start of a text, and the text after it. -/
def written? (s : List Char) : Option (Written × List Char) :=
  match span? s with
  | some r => some r
  | none =>
    match pair? s with
    | none => none
    | some (l, c, r) =>
      match (Text.after? "-" r).bind digits? with
      | some (c', r) => some (.range l c c', r)
      | none => some (.point l c, r)

/-- Look behind each colon of the text for a location that `follow` accepts what stands
    after.  `acc` holds the file name so far, newest character first; it spans no line feed. -/
def behindColon (follow : List Char → Option α) (acc : List Char) :
    List Char → Option (List Char × Written × α)
  | [] => none
  | c :: s =>
    let here := if c = ':' then
        (written? s).bind fun (w, r) => (follow r).map fun a => (acc.reverse, w, a)
      else none
    -- the first colon that fits ends the shortest file name
    match here with
    | some r => some r
    | none => if c = '\n' then none else behindColon follow (c :: acc) s

/-- A file name, a colon and a location at the start of a text; `follow` reads what comes
    after.  The file name does not start with a blank. -/
def fileThen? (follow : List Char → Option α) : List Char → Option (List Char × Written × α)
  | [] => none
  | c :: s => if Text.isBlank c then none else behindColon follow [c] s

/-- A file name, a colon and a location at the start of a text, and the text after it. -/
def fileLocation? (s : List Char) : Option (List Char × Written × List Char) :=
  fileThen? some s

end Location

end GhciHost
