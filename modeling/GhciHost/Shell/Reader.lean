import GhciHost.Shell.Token

/-! # Reading scripts

`Script.read` turns a text into a script.  The readers below it take tokens from the front;
their fuel bounds how deep they call each other. -/

namespace GhciHost.Shell

/-- Takes tokens from the front. -/
abbrev Reader := StateT (List Token) (Except ScriptFault)

/-- The plain word that comes next. -/
def nextPlain? : List Token → Option String
  | .word w :: _ => plain? w
  | _ => none

/-- A closing word or bracket ends a list of commands, as does the end. -/
def endsList : List Token → Bool
  | [] => true
  | .operator s :: _ => s == ")" || s == ";;"
  | ts => (nextPlain? ts).any ["then", "do", "done", "else", "elif", "fi", "\x7d"].contains

namespace Reader

/-- Something else was to come. -/
def refuse (expected : Option String) : Reader α := do
  throw (.unexpected (shown (← get)) expected)

/-- Leave out line ends. -/
def skipLines : Reader Unit := modify (·.dropWhile (· = .operator "\n"))

/-- Take a plain word if it comes next. -/
def accept (word : String) : Reader Bool := do
  if nextPlain? (← get) = some word then
    modify List.tail
    return true
  return false

/-- Take a plain word that has to come. -/
def expect (word : String) : Reader Unit := do
  if !(← accept word) then refuse (some word)

/-- Take one of some operators if it comes next. -/
def acceptAny (ops : List String) : Reader Bool := do
  match ← get with
  | .operator op :: rest =>
    if ops.contains op then
      set rest
      return true
    return false
  | _ => return false

/-- Take an operator if it comes next. -/
def acceptOperator (op : String) : Reader Bool := acceptAny [op]

end Reader

open Reader

/-- Read an assignment. -/
def assignment? : Word → Option (String × Word)
  | .text s false :: rest =>
    let name := s.takeWhile (· ≠ '=')
    if isName name && name.length < s.length then
      let value := s.drop (name.length + 1)
      some (String.ofList name, (if value.isEmpty then [] else [.text value false]) ++ rest)
    else none
  | _ => none

/-- Where a descriptor is to be sent. -/
def redirection (descriptor : Option Nat) (op : String) (w : Word) : Redirection :=
  let usual := if op = "<" ∨ op = "<&" then 0 else 1
  let target : Target :=
    if op = ">&" ∨ op = "<&" then ((plain? w).bind String.toNat?).elim (.file w) .descriptor
    else .file w
  ⟨descriptor.getD usual, target⟩

/-- The parts of a command without a body. -/
structure Simple where
  assignments : List (String × Word) := []
  words : List Word := []
  changes : List Redirection := []

/-- Take the words and redirections at the front. -/
def Simple.take (c : Simple) : List Token → Simple × List Token
  | .word w :: ts =>
    match assignment? w, c.words with
    | some a, [] => take { c with assignments := c.assignments ++ [a] } ts
    | _, _ => take { c with words := c.words ++ [w] } ts
  | .redirect d op :: .word w :: ts => take { c with changes := c.changes ++ [redirection d op w] } ts
  | ts => (c, ts)

/-- With redirections around it. -/
def Script.redirecting (s : Script) (changes : List Redirection) : Script :=
  if changes.isEmpty then s else .redirected s changes

namespace Reader

/-- Read words and redirections. -/
def parts : Reader Simple := do
  let (c, ts) := ({} : Simple).take (← get)
  set ts
  if let .redirect .. :: rest := ts then
    set rest
    refuse none
  return c

/-- Read a command without a body. -/
def simple : Reader Script := do
  let c ← parts
  if c.assignments.isEmpty && c.words.isEmpty && c.changes.isEmpty then refuse none
  return (Script.simple c.assignments c.words).redirecting c.changes

/-- Read the redirections behind a command with a body. -/
def redirections (s : Script) : Reader Script := do
  let c ← parts
  if !c.words.isEmpty || !c.assignments.isEmpty then throw (.unexpected "word" none)
  return s.redirecting c.changes

mutual

/-- Read a list of commands, which may be empty. -/
def list (fuel : Nat) : Reader Script :=
  match fuel with
  | 0 => refuse none
  | fuel + 1 => do
    skipLines
    if endsList (← get) then return .nothing
    let s ← chain fuel (← pipeline fuel)
    if ← acceptAny [";", "&", "\n"] then
      return .seq s (← list fuel)
    return s
termination_by fuel

/-- Read a list of commands that is not empty. -/
def body (fuel : Nat) : Reader Script :=
  match fuel with
  | 0 => refuse none
  | fuel + 1 => do
    skipLines
    let ts ← get
    if endsList ts && !ts.isEmpty then refuse none
    list fuel
termination_by fuel

/-- Read what follows a command behind `&&` and `||`. -/
def chain (fuel : Nat) (s : Script) : Reader Script :=
  match fuel with
  | 0 => refuse none
  | fuel + 1 => do
    if ← acceptOperator "&&" then
      skipLines
      chain fuel (.both s (← pipeline fuel))
    else if ← acceptOperator "||" then
      skipLines
      chain fuel (.either s (← pipeline fuel))
    else return s
termination_by fuel

/-- Read commands with `|` between them. -/
def pipeline (fuel : Nat) : Reader Script :=
  match fuel with
  | 0 => refuse none
  | fuel + 1 => do
    if ← accept "!" then return .negate (← pipeline fuel)
    let s ← command fuel
    if ← acceptOperator "|" then
      skipLines
      return .pipe s (← pipeline fuel)
    return s
termination_by fuel

/-- Read a command. -/
def command (fuel : Nat) : Reader Script :=
  match fuel with
  | 0 => refuse none
  | fuel + 1 => do
    if ← acceptOperator "(" then
      let s ← body fuel
      if !(← acceptOperator ")") then refuse (some ")")
      redirections (.scoped s)
    else if ← accept "\x7b" then
      let s ← body fuel
      expect "\x7d"
      redirections s
    else if ← accept "if" then redirections (← choice fuel)
    else if ← accept "while" then redirections (← loop fuel false)
    else if ← accept "until" then redirections (← loop fuel true)
    else if ← accept "for" then redirections (← each fuel)
    else if endsList (← get) then refuse none
    else simple
termination_by fuel

/-- Read what is behind `if` or `elif`. -/
def choice (fuel : Nat) : Reader Script :=
  match fuel with
  | 0 => refuse none
  | fuel + 1 => do
    let condition ← body fuel
    expect "then"
    let yes ← body fuel
    if ← accept "elif" then return .choose condition yes (← choice fuel)
    let no ← if ← accept "else" then body fuel else pure .nothing
    expect "fi"
    return .choose condition yes no
termination_by fuel

/-- Read what is behind `while` or `until`. -/
def loop (fuel : Nat) (whileFails : Bool) : Reader Script :=
  match fuel with
  | 0 => refuse none
  | fuel + 1 => do
    let condition ← body fuel
    expect "do"
    let inner ← body fuel
    expect "done"
    return .loop whileFails condition inner
termination_by fuel

/-- Read what is behind `for`. -/
def each (fuel : Nat) : Reader Script :=
  match fuel with
  | 0 => refuse none
  | fuel + 1 => do
    let some name := nextPlain? (← get) | throw .badLoopName
    if !isName name.toList then throw .badLoopName
    modify List.tail
    skipLines
    let words ← if ← accept "in" then do
        let (c, ts) := ({} : Simple).take (← get)
        set ts
        pure c.words
      else pure [[.parameter "@" [] true]]
    discard (acceptOperator ";")
    skipLines
    expect "do"
    let inner ← body fuel
    expect "done"
    return .each name words inner
termination_by fuel

end

end Reader

/-- Read a script. -/
def Script.read (text : String) : Except ScriptFault Script := do
  let ts ← tokens text.toList
  let (s, rest) ← (Reader.list (8 * ts.length + 8)).run ts
  if rest.isEmpty then return s else throw (.unexpected (shown rest) none)

end GhciHost.Shell
