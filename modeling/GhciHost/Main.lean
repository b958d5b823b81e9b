import GhciHost.CommandLine.Run
import GhciHost.Settings.Reader

/-! # The program

The program looks at the files that its words name, reads what comes in if it has to, and
prints what the run comes to.  It starts no other programs: to it, every tool is missing. -/

namespace GhciHost.CommandLine

/-- What stands at some paths, found out beforehand. -/
def lookAround (paths : List String) : IO Look := do
  let here ← IO.currentDir
  let found ← paths.mapM fun path => do
    let missing : Except PathError FileNode := .error (.file .missing path)
    if path.isEmpty || path.toList.contains '\x00' then return (path, missing)
    let place := here / path
    if ← place.isDir then return (path, .ok .directory)
    try
      let contents ← IO.FS.readBinFile place
      return (path, .ok (.file (String.ofList (Text.Utf8.decode contents.toList))))
    catch _ => return (path, missing)
  return fun path => (found.lookup path).getD (.error (.file .missing path))

/-- All words that can be paths: the words, and the values behind their equals signs. -/
def pathsIn (words : List String) : List String :=
  words ++ words.filterMap fun w => (Form.splitValue w).2

/-- The variables of the environment that tell settings. -/
def settingVariables : IO (List (String × String)) := do
  let names := ({} : Settings).members.map fun (name, _) => (Settings.variablePrefix ++ name).toUpper
  names.filterMapM fun name => do return (← IO.getEnv name).map (name, ·)

/-- A launcher to which every tool is missing. -/
def noTools (settings : Settings) : Launcher :=
  let fault : Fault := .os .fileNotFound (FileFault.missing.message settings.stackExecutable)
  let runs : List RunScript := [{ outcome := .error fault }, { outcome := .error fault }]
  { ghcVersion := runs, extensions := runs, install := runs, check := runs
    spawns := [{ fault := some fault }] }

/-- A host with some settings. -/
def hostOf (settings : Settings) : IO Host := do
  let here ← IO.currentDir
  let cwd := (Pathname.parse here.toString).parts
  let tree := (({} : FileTree).makeDirectories cwd).toOption.getD {}
  return { settings, launcher := noTools settings, installer := Installer.choose {} settings
           disk := { tree, cwd }, workRoot := cwd }

/-- Print what a run came to. -/
def Report.print (r : Report) : IO UInt32 := do
  IO.print r.out
  IO.eprint r.err
  if let some failure := r.failure then IO.eprintln failure.message
  return UInt32.ofNat r.exitCode

end GhciHost.CommandLine

open GhciHost GhciHost.CommandLine

/-- Run the program. -/
def main (words : List String) : IO UInt32 := do
  let look ← lookAround (pathsIn words)
  match Settings.read [] (← settingVariables) with
  | .error e =>
    IO.eprintln e.message
    return 1
  | .ok (.bad _) =>
    IO.eprintln "The settings in the environment cannot be used."
    return 1
  | .ok (.ok settings) =>
    match Request.ofWords look programName words with
    | .error refusal => refusal.report.print
    | .ok request =>
      let input ← if request.readsInput then (← IO.getStdin).readToEnd else pure ""
      (request.run input (← hostOf settings)).1.print
