import GhciHost.Data.Keyed
import GhciHost.File.Resolve
import GhciHost.Number.Binary64
import GhciHost.Shell.Format
import GhciHost.Shell.Script

/-! # The machine of a shell

A machine runs a script.  What it still has to do stands on a stack, of which every step takes
the top.  A machine stands still where it waits for input or for time to pass.

* `unwind_length_le`   leaving loops does not make the stack longer. -/

namespace GhciHost.Shell

/-- Where a descriptor is sent. -/
inductive Sink
  | pipe
  /-- Held back for the next command of a pipeline. -/
  | held
  | nowhere
deriving DecidableEq, Repr

/-- What comes in. -/
structure Input where
  bytes : List UInt8 := []
  /-- Whether nothing more will come. -/
  ended : Bool := false
deriving Repr

/-- What commands inside parentheses cannot change. -/
structure Scope where
  environment : Keyed String String
  directory : String
  out : Sink
  err : Sink

/-- Something still to be done. -/
inductive Todo
  | run (s : Script)
  /-- A command with its operands. -/
  | call (name : String) (operands : List String)
  | second (onSuccess : Bool) (s : Script)
  | negate
  /-- The condition of a loop was run; the status is that of the last body. -/
  | tested (whileFails : Bool) (condition body : Script) (last : Nat)
  | repeated (whileFails : Bool) (condition body : Script)
  | each (name : String) (values : List String) (body : Script)
  | branch (yes no : Script)
  | restore (out err : Sink) (input : Option Input)
  | restoreValues (values : List (String × Option String))
  | leave (s : Scope)
  /-- Run a command on what was held back, and send its output where it was sent before. -/
  | feed (s : Script) (out : Sink) (held : List UInt8)
  | copy
  | line (names : List String) (raw : Bool)
  | sleep (until_ : Binary64)
  | stopped

namespace Todo

/-- Whether a loop goes on here. -/
def isLoop : Todo → Bool
  | tested .. | repeated .. | each .. => true
  | _ => false

/-- Whether parentheses end here. -/
def isLeave : Todo → Bool
  | leave _ => true
  | _ => false

/-- Whether something is put back here that was changed for a while. -/
def putsBack : Todo → Bool
  | restore .. | restoreValues _ | feed .. => true
  | _ => false

/-- Leave `n` loops, or go on with the last of them. -/
def unwind (goOn : Bool) (n : Nat) : List Todo → Option (List Todo)
  | [] => none
  | t :: rest =>
    -- loops outside parentheses cannot be left from inside
    if t.isLeave then none
    else if t.isLoop then
      if n ≤ 1 then some (if goOn then t :: rest else rest) else unwind goOn (n - 1) rest
    else (unwind goOn n rest).map fun left => if t.putsBack then t :: left else left

theorem unwind_length_le {goOn : Bool} {n : Nat} {todo left : List Todo}
    (h : unwind goOn n todo = some left) : left.length ≤ todo.length := by
  induction todo generalizing n left with
  | nil => simp [unwind] at h
  | cons t rest ih =>
    rw [unwind] at h
    split at h
    · cases h
    · split at h
      -- A loop is the last to be left, or only left on the way.
      · split at h
        · cases h
          split <;> simp
        · have := ih h
          simp only [List.length_cons]
          omega
      · obtain ⟨l, hl, rfl⟩ := Option.map_eq_some_iff.1 h
        have := ih hl
        split <;> simp only [List.length_cons] <;> omega

end Todo

/-- A shell that runs. -/
structure Machine where
  todo : List Todo
  /-- The name under which it was started. -/
  name : String := "/bin/sh"
  operands : List String := []
  environment : Keyed String String := {}
  directory : String := "/"
  disk : Disk := {}
  status : Nat := 0
  out : Sink := .pipe
  err : Sink := .pipe
  input : Input := {}
  output : Array UInt8 := #[]
  held : List UInt8 := []
  now : Binary64 := .zero
  /-- The code with which it ended; that of a signal is negative. -/
  ended : Option Int := none

namespace Machine

/-- The number by which a machine calls itself. -/
def ownNumber : Nat := 2

/-! ## Words -/

/-- The value of a parameter. -/
def value (m : Machine) (name : String) : List Char :=
  match name with
  | "?" => Text.showNat m.status
  | "$" => Text.showNat ownNumber
  | "#" => Text.showNat m.operands.length
  | "0" => m.name.toList
  | "@" | "*" => (" ".intercalate m.operands).toList
  | name =>
    match name.toNat? with
    | some n => ((m.operands[n - 1]?).getD "").toList
    | none => ((m.environment.find? name).getD "").toList

/-- The value of a parameter, or what stands for it. -/
def valueOr (m : Machine) (name : String) (fallback : List Char) : List Char :=
  let v := m.value name
  if v.isEmpty then fallback else v

/-- The characters at which values are cut into fields. -/
def separators (m : Machine) : List Char := ((m.environment.find? "IFS").getD " \t\n").toList

/-- The fields of words so far. -/
structure Fields where
  done : List (List Char) := []
  current : Option (List Char) := none

namespace Fields

/-- Go on with the current field. -/
def text (s : List Char) (f : Fields) : Fields :=
  { f with current := some (f.current.getD [] ++ s) }

/-- End the current field. -/
def cut (f : Fields) : Fields := { done := f.done ++ f.current.toList }

/-- Put a value behind, cut into fields. -/
def split (separators s : List Char) (f : Fields) : Fields :=
  s.foldl (fun f c => if separators.contains c then f.cut else f.text [c]) f

end Fields

/-- Put a part of a word behind the fields. -/
def addPart (m : Machine) (f : Fields) : Part → Fields
  | .text s quoted => if s.isEmpty && !quoted then f else f.text s
  | .parameter "@" _ true =>
    match m.operands with
    | [] => f
    | a :: as => as.foldl (fun f a => f.cut.text a.toList) (f.text a.toList)
  | .parameter name fallback true => f.text (m.valueOr name fallback)
  | .parameter name fallback false => f.split m.separators (m.valueOr name fallback)

/-- The fields of words. -/
def fields (m : Machine) (ws : List Word) : List String :=
  ws.flatMap fun w => (w.foldl m.addPart {}).cut.done.map String.ofList

/-- The text of a word, not cut into fields. -/
def text (m : Machine) (w : Word) : String :=
  String.ofList <| w.flatMap fun
    | .text s _ => s
    | .parameter name fallback _ => m.valueOr name fallback

/-! ## Output -/

/-- Send bytes somewhere. -/
def send (m : Machine) (s : Sink) (bs : List UInt8) : Machine :=
  match s with
  | .pipe => { m with output := m.output ++ bs }
  | .held => { m with held := m.held ++ bs }
  | .nowhere => m

/-- Write bytes. -/
def write (m : Machine) (bs : List UInt8) : Machine := m.send m.out bs

/-- Write a line. -/
def say (m : Machine) (s : String) : Machine := m.write (bytes (s ++ "\n"))

/-- With a status. -/
def exit (m : Machine) (status : Nat) : Machine := { m with status }

/-- Fail with a message of the shell itself. -/
def complain (m : Machine) (status : Nat) (s : String) : Machine :=
  (m.send m.err (bytes (m.name ++ ": 1: " ++ s ++ "\n"))).exit status

/-- Fail with a message of a program. -/
def fail (m : Machine) (s : String) : Machine := (m.send m.err (bytes (s ++ "\n"))).exit 1

/-! ## Commands -/

/-- Leave everything up to the closing parenthesis, or everything. -/
def unwound (m : Machine) : Machine :=
  { m with todo := (m.todo.takeWhile (!·.isLeave)).filter (·.putsBack) ++
      m.todo.dropWhile (!·.isLeave) }

/-- The numbers of the signals that have names. -/
def signals : List (String × Nat) :=
  [("HUP", 1), ("INT", 2), ("QUIT", 3), ("ILL", 4), ("TRAP", 5), ("ABRT", 6), ("BUS", 7),
    ("FPE", 8), ("KILL", 9), ("USR1", 10), ("SEGV", 11), ("USR2", 12), ("PIPE", 13),
    ("ALRM", 14), ("TERM", 15), ("CHLD", 17), ("CONT", 18), ("STOP", 19), ("TSTP", 20),
    ("TTIN", 21), ("TTOU", 22), ("URG", 23), ("XCPU", 24), ("XFSZ", 25), ("VTALRM", 26),
    ("PROF", 27), ("WINCH", 28), ("PWR", 30), ("SYS", 31)]

/-- The signal of a number or a name. -/
def signal? (s : String) : Option Nat := s.toNat? <|> signals.lookup s

/-- Get a signal. -/
def signalled (m : Machine) (n : Nat) : Machine :=
  if [0, 17, 18, 23, 28].contains n then m.exit 0
  else if [19, 20, 21, 22].contains n then { m with todo := .stopped :: m.todo }
  else { m with ended := some (-n) }

/-- Send a signal to some machines, of which only this one exists. -/
def signalAll (m : Machine) (n : Nat) (targets : List String) : Machine :=
  match targets with
  | [] =>
    m.complain 2 ("kill: Usage: kill [-s sigspec | -signum | -sigspec] [pid | job]... or\n" ++
      "kill -l [exitstatus]")
  | t :: _ =>
    match t.toNat? with
    | none => m.complain 2 ("kill: Illegal number: " ++ t)
    | some p => if p = ownNumber then m.signalled n else m.complain 1 "kill: No such process\n"

/-- `kill`. -/
def kill (m : Machine) : List String → Machine
  | "-s" :: name :: targets => m.signalAll ((signal? name).getD 15) targets
  | first :: targets =>
    match first.toList with
    | '-' :: name =>
      match signal? (String.ofList name) with
      | some n => m.signalAll n targets
      | none => m.complain 2 ("kill: Illegal option -" ++ String.ofList (name.take 1))
    | _ => m.signalAll 15 (first :: targets)
  | [] => m.signalAll 15 []

/-- A number of seconds: digits with or without a point. -/
def duration? (s : String) : Option Binary64 :=
  let cs := s.toList
  let whole := cs.takeWhile Char.isDigit
  let fraction := match cs.drop whole.length with
    | '.' :: r => some r
    | [] => some []
    | _ => none
  match fraction with
  | some ds =>
    if ds.all Char.isDigit && !(whole.isEmpty && ds.isEmpty) then
      some (.ofDecimal false (Text.readNat (whole ++ ds)) (-ds.length))
    else none
  | none => none

/-- `sleep`. -/
def sleep (m : Machine) : List String → Machine
  | [] => m.fail "sleep: missing operand\nTry 'sleep --help' for more information."
  | s :: _ =>
    match duration? s with
    | some d => { m with todo := .sleep (m.now.add d) :: m.todo }
    | none =>
      m.fail ("sleep: invalid time interval ‘" ++ s ++ "’\nTry 'sleep --help' for more information.")

/-- `printf`, whose output comes behind its complaints. -/
def printf (m : Machine) (operands : List String) : Machine :=
  match (match operands with
    | "--" :: rest => rest
    | os => os) with
  | [] => m.complain 2 "printf: usage: printf format [arg ...]"
  | fmt :: rest =>
    let w := printFormat fmt rest
    -- complaints are not buffered, so they come before the output
    let m := w.complaints.foldl (fun m c => m.complain 1 ("printf: " ++ c)) (m.exit 0)
    let m := match w.invalid with
      | some c => m.complain 2 ("printf: " ++ c)
      | none => m
    m.write w.output

/-- `echo`. -/
def echo (m : Machine) (operands : List String) : Machine :=
  let (ends, operands) : List UInt8 × List String := match operands with
    | "-n" :: rest => ([], rest)
    | os => ([10], os)
  let (s, stops) := unescape (" ".intercalate operands).toList
  (m.write (s ++ if stops then [] else ends)).exit 0

/-- Compare two numbers in a test. -/
def comparison? : String → Option (Int → Int → Bool)
  | "-eq" => some (· == ·)
  | "-ne" => some (· != ·)
  | "-lt" => some (· < ·)
  | "-le" => some (· ≤ ·)
  | "-gt" => some (· > ·)
  | "-ge" => some (· ≥ ·)
  | _ => none

/-- What a test says, or what is wrong with it. -/
def holds : List String → Except String Bool
  | [] => .ok false
  | [s] => .ok (s ≠ "")
  | ["!", s] => .ok (s = "")
  | ["-n", s] => .ok (s ≠ "")
  | ["-z", s] => .ok (s = "")
  | ["!", a, op, b] => (holds [a, op, b]).map (!·)
  | [a, "=", b] => .ok (a = b)
  | [a, "!=", b] => .ok (a ≠ b)
  | [a, op, b] =>
    match comparison? op with
    | none => .error (op ++ ": unexpected operator")
    | some compare =>
      match a.toInt?, b.toInt? with
      | some x, some y => .ok (compare x y)
      | some _, none => .error ("Illegal number: " ++ b)
      | none, _ => .error ("Illegal number: " ++ a)
  | a :: b :: _ => .error ((if a = "!" then b else a) ++ ": unexpected operator")

/-- `test`, and `[`. -/
def test (m : Machine) (name : String) (operands : List String) : Machine :=
  match holds operands with
  | .ok b => m.exit (if b then 0 else 1)
  | .error e => m.complain 2 (name ++ ": " ++ e)

/-- Go to a directory. -/
def goTo (m : Machine) (path : String) : Machine :=
  let p := Pathname.parse path
  let parts := FileTree.lexical (if p.absolute then p.parts else (Pathname.parse m.directory).parts ++ p.parts)
  let full := Pathname.renderAbsolute parts
  match m.disk.look full with
  | .ok .directory => { m.exit 0 with directory := full }
  | _ => m.complain 2 ("cd: can't cd to " ++ path)

/-- Give a variable a value. -/
def assign (m : Machine) (name value : String) : Machine :=
  { m with environment := m.environment.put name value }

/-- Leave loops, or go on with one. -/
def leaveLoops (m : Machine) (goOn : Bool) (operands : List String) : Machine :=
  let n := (operands.head?.bind String.toNat?).getD 1
  { m.exit 0 with todo := (Todo.unwind goOn n m.todo).getD m.todo }

/-- `exit`. -/
def leaveShell (m : Machine) : List String → Machine
  | [] => m.unwound
  | s :: _ =>
    match s.toNat? with
    | some n => m.unwound.exit (n % 256)
    | none => (m.complain 2 ("exit: Illegal number: " ++ s)).unwound

/-- `read`. -/
def read (m : Machine) (operands : List String) : Machine :=
  let names := operands.filter (· ≠ "-r")
  if names.isEmpty then m.complain 2 "read: arg count"
  else { m with todo := .line names (operands.contains "-r") :: m.todo }

/-- `cat`, of what comes in. -/
def cat (m : Machine) (operands : List String) : Machine :=
  match operands.find? (· ≠ "-") with
  | none => { m with todo := .copy :: m.todo }
  | some path => m.fail ("cat: " ++ path ++ ": No such file or directory")

/-- The commands that there are. -/
def commands : List (String × (Machine → List String → Machine)) :=
  [(":", fun m _ => m.exit 0), ("true", fun m _ => m.exit 0), ("false", fun m _ => m.exit 1),
    ("wait", fun m _ => m.exit 0),
    ("exit", leaveShell), ("kill", kill), ("sleep", sleep), ("printf", printf), ("echo", echo),
    ("read", read), ("cat", cat), ("test", fun m os => m.test "test" os),
    ("[", fun m os =>
      if os.getLast? = some "]" then m.test "[" os.dropLast else m.complain 2 "[: missing ]"),
    ("pwd", fun m _ => (m.say m.directory).exit 0),
    ("cd", fun m os => m.goTo (os.headD (String.ofList (m.value "HOME")))),
    ("break", fun m os => m.leaveLoops false os), ("continue", fun m os => m.leaveLoops true os),
    ("export", fun m os => (os.foldl (fun m o =>
      match o.toList.dropWhile (· ≠ '=') with
      | [] => m
      | _ :: v => m.assign (String.ofList (o.toList.takeWhile (· ≠ '='))) (String.ofList v)) m).exit 0),
    ("unset", fun m os => { m.exit 0 with environment := os.foldl Keyed.erase m.environment }),
    ("printenv", fun m os => match os.head?.bind m.environment.find? with
      | some v => (m.say v).exit 0
      | none => m.exit 1)]

/-- Run a command.  `exec` runs it in place of all that is still to be done; without a
    command it makes redirections last. -/
def call (m : Machine) (name : String) (operands : List String) : Machine :=
  match name, operands with
  -- what would undo the redirections of this command is dropped
  | "exec", [] =>
    { m.exit 0 with todo := match m.todo with
        | .restore .. :: rest => rest
        | todo => todo }
  | "exec", program :: rest =>
    match commands.lookup program with
    | some run => run m.unwound rest
    | none => (m.complain 127 ("exec: " ++ program ++ ": not found")).unwound
  | name, operands =>
    match commands.lookup name with
    | some run => run m operands
    | none => m.complain 127 (name ++ ": not found")

/-- Run a command whose words are known, with assignments in front of it; these last only if
    there is no command. -/
def simple (m : Machine) (assignments : List (String × Word)) (words : List Word) : Machine :=
  let fields := m.fields words
  let old := assignments.map fun (name, _) => (name, m.environment.find? name)
  let assigned := assignments.foldl (fun m (name, w) => m.assign name (m.text w)) m
  match fields with
  | [] => assigned.exit 0
  | name :: operands =>
    if assignments.isEmpty then m.call name operands
    else { assigned with todo := .call name operands :: .restoreValues old :: m.todo }

/-! ## Redirections -/

/-- Where a descriptor is sent now. -/
def sink (m : Machine) (descriptor : Nat) : Sink := if descriptor = 2 then m.err else m.out

/-- Change where a descriptor is sent. -/
def redirect (m : Machine) (r : Redirection) : Except String Machine :=
  match r.target with
  | .descriptor n =>
    match r.descriptor with
    | 1 => .ok { m with out := m.sink n }
    | 2 => .ok { m with err := m.sink n }
    | _ => .ok m
  | .file w =>
    let path := m.text w
    match r.descriptor, path with
    | 0, "/dev/null" => .ok { m with input := { ended := true } }
    | 1, "/dev/null" => .ok { m with out := .nowhere }
    | 2, "/dev/null" => .ok { m with err := .nowhere }
    | 0, path => .error ("cannot open " ++ path ++ ": No such file")
    | _, path => .error ("cannot create " ++ path ++ ": Permission denied")

/-- Run a script with redirections. -/
def redirected (m : Machine) (s : Script) (changes : List Redirection) : Machine :=
  match changes.foldlM redirect m with
  | .error e => m.complain 2 e
  | .ok changed =>
    { changed with todo := .run s :: .restore m.out m.err (some m.input) :: m.todo }

/-! ## Steps -/

/-- Assign the fields of a line to names; the last name gets all that is left. -/
def assignFields (m : Machine) (separators : List Char) : List String → List Char → Machine
  | [], _ => m
  | [name], s => m.assign name
      (String.ofList ((s.reverse.dropWhile separators.contains).reverse))
  | name :: names, s =>
    (m.assign name (String.ofList (s.takeWhile (!separators.contains ·)))).assignFields separators names
      ((s.dropWhile (!separators.contains ·)).dropWhile separators.contains)

/-- The characters behind backslashes stand for themselves. -/
def dropBackslashes : List Char → List Char
  | [] => []
  | '\\' :: c :: s => c :: dropBackslashes s
  | '\\' :: [] => []
  | c :: s => c :: dropBackslashes s

/-- Take a line that came in. -/
def takeLine (m : Machine) (names : List String) (raw : Bool) (line : List UInt8) : Machine :=
  let s := Text.Utf8.decode line
  let s := if raw then s else dropBackslashes s
  m.assignFields m.separators names (s.dropWhile m.separators.contains)

/-- Begin a script. -/
def begin (m : Machine) : Script → Machine
  | .nothing => m
  | .simple assignments words => m.simple assignments words
  | .seq a b => { m with todo := .run a :: .run b :: m.todo }
  | .both a b => { m with todo := .run a :: .second true b :: m.todo }
  | .either a b => { m with todo := .run a :: .second false b :: m.todo }
  | .negate s => { m with todo := .run s :: .negate :: m.todo }
  | .loop whileFails condition body =>
    { m with todo := .run condition :: .tested whileFails condition body 0 :: m.todo }
  | .choose condition yes no => { m with todo := .run condition :: .branch yes no :: m.todo }
  | .each name words body => { m.exit 0 with todo := .each name (m.fields words) body :: m.todo }
  | .scoped s =>
    { m with todo := .run s :: .leave ⟨m.environment, m.directory, m.out, m.err⟩ :: m.todo }
  | .pipe a b =>
    { m with out := .held, held := [], todo := .run (.scoped a) :: .feed b m.out m.held :: m.todo }
  | .redirected s changes => m.redirected s changes

/-- Do the next thing; nothing if the machine has to wait before. -/
def perform (m : Machine) : Todo → Option Machine
  | .run s => some (m.begin s)
  | .call name operands => some (m.call name operands)
  | .second onSuccess s =>
    some (if (m.status == 0) == onSuccess then { m with todo := .run s :: m.todo } else m)
  | .negate => some (m.exit (if m.status = 0 then 1 else 0))
  | .tested whileFails condition body last =>
    some (if (m.status == 0) == whileFails then m.exit last
      else { m with todo := .run body :: .repeated whileFails condition body :: m.todo })
  | .repeated whileFails condition body =>
    some { m with todo := .run condition :: .tested whileFails condition body m.status :: m.todo }
  | .each _ [] _ => some m
  | .each name (v :: vs) body =>
    some { m.assign name v with todo := .run body :: .each name vs body :: m.todo }
  | .branch yes no =>
    some (if m.status = 0 then { m with todo := .run yes :: m.todo }
      else { m.exit 0 with todo := .run no :: m.todo })
  | .restore out err input => some { m with out, err, input := input.getD m.input }
  | .restoreValues values =>
    some { m with environment := values.foldl (fun vs (name, v) =>
      match v with
      | some v => vs.put name v
      | none => vs.erase name) m.environment }
  | .leave s =>
    some { m with environment := s.environment, directory := s.directory, out := s.out, err := s.err }
  -- the first command has ended, so nothing more comes than what was held back
  | .feed s out held =>
    some { m with
      out, held, input := ⟨m.held, true⟩
      todo := .run (.scoped s) :: .restore out m.err (some m.input) :: m.todo }
  | .copy =>
    match m.input.bytes with
    | [] => if m.input.ended then some (m.exit 0) else none
    | bs => some { m.write bs with input := { m.input with bytes := [] }, todo := .copy :: m.todo }
  | .line names raw =>
    let bs := m.input.bytes
    let line := bs.takeWhile (· ≠ 10)
    if line.length < bs.length then
      some (({ m with input := { m.input with bytes := bs.drop (line.length + 1) } }.takeLine
        names raw line).exit 0)
    -- a line without an end is taken, but taking it fails
    else if m.input.ended then
      some (({ m with input := { m.input with bytes := [] } }.takeLine names raw line).exit 1)
    else none
  | .sleep until_ => if until_.le m.now then some (m.exit 0) else none
  | .stopped => none

/-- A step; nothing if the machine waits or has ended. -/
def step (m : Machine) : Option Machine :=
  if m.ended.isSome then none
  else match m.todo with
    | [] => some { m with ended := some m.status }
    | t :: rest => { m with todo := rest }.perform t

/-- Steps until the machine waits or has ended, at most `fuel` of them. -/
def settleWithin : Nat → Machine → Machine
  | 0, m => m
  | fuel + 1, m =>
    match m.step with
    | some m => settleWithin fuel m
    | none => m

/-- More steps than any machine takes that comes to an end. -/
def patience : Nat := 1000000

/-- Steps until the machine waits or has ended. -/
def settle (m : Machine) : Machine := settleWithin patience m

/-- The time that the machine waits for. -/
def wakeTime? (m : Machine) : Option Binary64 :=
  match m.todo with
  | .sleep t :: _ => if m.ended.isNone then some t else none
  | _ => none

end Machine

end GhciHost.Shell
