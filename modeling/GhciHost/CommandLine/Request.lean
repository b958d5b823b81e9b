import GhciHost.CommandLine.Form
import GhciHost.Data.Keyed
import GhciHost.Diagnostic.Report
import GhciHost.File.Resolve

/-! # Requests

What the words of a command line ask for.  Options that show a page come before everything
else, then the values of options are checked, then operands; what a file or a directory is
told by a look at it. -/

namespace GhciHost.CommandLine

/-- The version of this program. -/
def version : String := "0.1.0"

/-- The name under which the program tells its version. -/
def programName : String := "ghcworker"

/-! ## The commands -/

/-- The option for the root of a project. -/
def rootOption : OptionForm :=
  { name := "--root", value := some "DIRECTORY", help := "Project root directory.", default := some "." }

/-- The option for the targets of a worker. -/
def targetOption : OptionForm :=
  { name := "--target", value := some "TEXT", help := "Package target to load. Can be repeated." }

/-- The option for scratch files. -/
def stagingOption : OptionForm :=
  { name := "--staging", value := some "SCRATCH=LOGICAL"
    help := "Report diagnostics for SCRATCH against LOGICAL. Can be repeated." }

/-- The option for language extensions. -/
def extensionOption : OptionForm :=
  { name := "--extension", value := some "TEXT"
    help := "Supported language extension, filters extension suggestions. Can be repeated." }

/-- The option that asks for the version. -/
def versionOption : OptionForm := { name := "--version", help := "Show the version and exit." }

/-- The commands. -/
inductive Command
  | check
  | install
  | parse
  | repl
deriving DecidableEq, Repr

namespace Command

/-- All commands, by name. -/
def all : List Command := [.check, .install, .parse, .repl]

/-- The name of a command. -/
def name : Command → String
  | check => "check"
  | install => "install"
  | parse => "parse"
  | repl => "repl"

/-- The operand of `parse`. -/
def fileOperand : String := "FILE"

/-- What a command looks like. -/
def form (program : String) (c : Command) : Form :=
  let name := program ++ " " ++ c.name
  match c with
  | check =>
    { name, summary := "Report whether the pinned worker version is installed."
      options := [rootOption] }
  | install =>
    { name, summary := "Install the pinned worker version for the project's compiler."
      options := [rootOption] }
  | parse =>
    { name, summary := "Parse compiler output (FILE, or - for stdin) into JSON diagnostics."
      operands := fileOperand, options := [stagingOption, extensionOption] }
  | repl =>
    { name, summary := "Send commands read from stdin to a worker and print each response."
      options := [rootOption, targetOption] }

end Command

/-- What the program itself looks like. -/
def programForm (program : String) : Form :=
  { name := program, summary := "Drive a GHCi-based worker from the command line."
    operands := "COMMAND [ARGS]...", options := [versionOption], mixes := false
    commands := Command.all.map fun c => (c.name, (c.form program).summary) }

/-! ## Requests -/

/-- What is asked for. -/
inductive Request
  | showVersion
  | showHelp (of : Form)
  | check (root : Pathname)
  | install (root : Pathname)
  /-- Parse a text, or what comes in. -/
  | parse (text : Option String) (staging : Diagnostic.Staging) (extensions : List String)
  | repl (root : Pathname) (targets : List String)

/-- Whether a request reads what comes in. -/
def Request.readsInput : Request → Bool
  | .parse none .. | .repl .. => true
  | _ => false

/-- Why the words of a command line ask for nothing. -/
inductive Refusal
  /-- There are none. -/
  | nothing (form : Form)
  | misuse (form : Form) (m : Misuse)
  | path (e : PathError)

/-- A look at what a path leads to. -/
abbrev Look := String → Except PathError FileNode

/-- The directory that an option names. -/
def directory (look : Look) (form : Form) (o : OptionForm) (s : Form.Sorted) :
    Except Refusal Pathname :=
  match (s.values o.name).getLast? with
  | none => .ok (Pathname.parse (o.default.getD ""))
  | some path =>
    match look path with
    | .ok (.file _) => .error (.misuse form (.notDirectory o.name path))
    | .ok _ => .ok (Pathname.parse path)
    | .error (.file ..) => .error (.misuse form (.noDirectory o.name path))
    | .error e => .error (.path e)

/-- The text of an operand's file; a dash stands for what comes in. -/
def fileText (look : Look) (form : Form) (operand path : String) : Except Refusal (Option String) :=
  if path = "-" then .ok none
  else match look path with
    | .ok (.file text) => .ok (some text)
    | .ok _ => .error (.misuse form (.unreadable operand path FileFault.isDirectory.text))
    | .error (.file f _) => .error (.misuse form (.unreadable operand path f.text))
    | .error e => .error (.path e)

/-- Refuse operands that are too many. -/
def noOperands (form : Form) (words : List String) : Except Refusal Unit :=
  if words.isEmpty then .ok () else .error (.misuse form (.extraOperands words))

/-- The scratch file and the source file of an entry. -/
def stagingEntry (form : Form) (entry : String) : Except Refusal (String × String) :=
  match Form.splitValue entry with
  | (scratch, some logical) =>
    if scratch.isEmpty || logical.isEmpty then .error (.misuse form (.badStaging entry))
    else .ok (scratch, logical)
  | (_, none) => .error (.misuse form (.badStaging entry))

/-- The request of a command with some words behind it. -/
def Command.request (look : Look) (program : String) (c : Command) (words : List String) :
    Except Refusal Request := do
  let form := c.form program
  let s ← (form.readOptions words).mapError (.misuse form)
  if s.has helpOption.name then return .showHelp form
  match c with
  | .check =>
    let root ← directory look form rootOption s
    noOperands form s.operands
    return .check root
  | .install =>
    let root ← directory look form rootOption s
    noOperands form s.operands
    return .install root
  | .repl =>
    let root ← directory look form rootOption s
    noOperands form s.operands
    return .repl root (s.values targetOption.name)
  | .parse =>
    match s.operands with
    | [] => throw (.misuse form (.missingOperand fileOperand))
    | path :: extra =>
      let text ← fileText look form fileOperand path
      noOperands form extra
      -- entries are looked at last: by now everything else is in order
      let entries ← (s.values stagingOption.name).mapM (stagingEntry form)
      let staging := entries.foldl (fun m (scratch, logical) => m.put scratch logical)
        ({} : Keyed String String)
      return .parse text staging.entries (s.values extensionOption.name)

/-- The page that the program's own options ask for: the first that was given. -/
def ownPage (form : Form) (s : Form.Sorted) : Option Request :=
  s.options.head?.map fun (name, _) =>
    if name = versionOption.name then .showVersion else .showHelp form

/-- The request of the words behind the program's name.  A word that is no command is read as
    an option even behind two dashes. -/
def Request.ofWords (look : Look) (program : String) (words : List String) :
    Except Refusal Request := do
  let form := programForm program
  if words.isEmpty then throw (.nothing form)
  let sort (words : List String) := (form.readOptions words).mapError (.misuse form)
  let s ← sort words
  if let some page := ownPage form s then return page
  match s.operands with
  | [] => throw (.misuse form .missingCommand)
  | word :: rest =>
    match Command.all.find? (·.name == word) with
    | some c => c.request look program rest
    | none =>
      if let some page := ownPage form (← sort s.operands) then return page
      throw (.misuse form (.unknownCommand word))

end GhciHost.CommandLine
