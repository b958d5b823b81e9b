import GhciHost.CommandLine.Page
import GhciHost.CommandLine.Request
import GhciHost.Host.Run
import GhciHost.Json.Writer
import GhciHost.Record.Diagnostic
import GhciHost.Text.Lines

/-! # Runs of the program

A run turns a request into what is printed and an exit code, and leaves the host as it is
then. -/

namespace GhciHost.CommandLine

/-- What a run of the program comes to. -/
structure Report where
  out : String := ""
  err : String := ""
  exitCode : Nat := 0
  /-- What went wrong beyond what a message tells. -/
  failure : Option Failure := none

namespace Report

/-- A line more on the output. -/
def say (r : Report) (line : String) : Report := { r with out := r.out ++ line ++ "\n" }

/-- A line more about what is wrong. -/
def warn (r : Report) (line : String) : Report := { r with err := r.err ++ line ++ "\n" }

/-- With an exit code. -/
def exit (r : Report) (code : Nat) : Report := { r with exitCode := code }

/-- Ended by a failure. -/
def fail (r : Report) (f : Failure) : Report := { r with failure := some f, exitCode := 1 }

end Report

/-- The exit code of a wrong call. -/
def misuseCode : Nat := 2

/-- What a refusal prints. -/
def Refusal.report : Refusal → Report
  | nothing form => { err := form.helpPage, exitCode := misuseCode }
  | misuse form m => { err := form.complaint m, exitCode := misuseCode }
  | path e => ({} : Report).fail (.path e)

/-- Report whether the worker is installed. -/
def check (root : Pathname) (h : Host) : Report × Host :=
  let (e, h) := h.runTask (Host.askStatus h.installer root.render)
  (match e with
    | .value (.status s) => (({} : Report).say s.name).exit (if s = .installed then 0 else 1)
    | .failed f => ({} : Report).fail f
    | _ => {}, h)

/-- Install the worker, and print the transcript. -/
def install (root : Pathname) (h : Host) : Report × Host :=
  match h.runTask (Host.askVersion h.installer root.render) with
  | (.value (.version v), h) =>
    let (e, h) := h.runTask (Host.install h.installer root.render v)
    (match e with
      | .value (.text transcript) => ({} : Report).say transcript
      | .failed (.session e) => (({} : Report).warn e.message).exit 1
      | .failed f => ({} : Report).fail f
      | _ => {}, h)
  | (.failed f, h) => (({} : Report).fail f, h)
  | (_, h) => ({}, h)

/-- Print the diagnostics of a text. -/
def parse (text : String) (staging : Diagnostic.Staging) (extensions : List String) : Report :=
  match Diagnostic.ofOutput staging extensions text with
  | .ok ds => ({} : Report).say
      (Json.render { indent := some 2, asciiOnly := false } (.arr (ds.map Diagnostic.toJson)))
  | .error e => ({} : Report).fail (.report e)

/-- Send commands to a session, one after the other, and print the responses.  A command that
    cannot be sent is told, and the next one is sent. -/
def converse (s : Nat) : List String → Report → Host → Report × Host
  | [], r, h => (r, h)
  | command :: rest, r, h =>
    if Text.allBlank command.toList then converse s rest r h
    else match h.runTask [.callSession s command none] with
      | (.value (.text body), h) => converse s rest (r.say body) h
      | (.failed (.session e), h) => ((r.warn e.message).exit 1, h)
      | (.failed f, h) => if f.isBadValue then converse s rest (r.warn f.message) h else (r.fail f, h)
      | (_, h) => (r, h)

/-- The kind of the session that `repl` talks to. -/
def replKind : String := "backend"

/-- Start a worker, send it the lines that come in, and take it down again. -/
def repl (root : Pathname) (targets : List String) (input : List Char) (h : Host) :
    Report × Host :=
  let (r, h) :=
    match h.runTask [.ensureReady root.render replKind (some targets)] with
    | (.value (.session s), h) => converse s ((Text.rows input).map String.ofList) {} h
    | (.failed (.session e), h) => ((({} : Report).warn e.message).exit 1, h)
    | (.failed f, h) => (({} : Report).fail f, h)
    | (_, h) => ({}, h)
  -- whatever came of it, no worker is left behind
  (r, (h.runTask [.cleanup]).2)

/-- Do what is asked for. -/
def Request.run (r : Request) (input : String) (h : Host) : Report × Host :=
  let text (s : String) : List Char := Text.plainLineEnds s.toList
  match r with
  | showVersion => (({} : Report).say (programName ++ ", version " ++ version), h)
  | showHelp form => ({ out := form.helpPage }, h)
  | check root => CommandLine.check root h
  | install root => CommandLine.install root h
  | parse file staging extensions =>
    (CommandLine.parse (String.ofList (text (file.getD input))) staging extensions, h)
  | repl root targets => CommandLine.repl root targets (text input) h

/-- Run the program on the words behind its name. -/
def run (look : Look) (program : String) (words : List String) (input : String) (h : Host) :
    Report × Host :=
  match Request.ofWords look program words with
  | .ok r => r.run input h
  | .error refusal => (refusal.report, h)

end GhciHost.CommandLine
