import GhciHost.CommandLine.Form
import GhciHost.CommandLine.Layout

/-! # Pages

What is shown about a command: its usage, its help page, and what is wrong with a call. -/

namespace GhciHost.CommandLine.Form

/-- How a command is called. -/
def usage (f : Form) : String :=
  " ".intercalate (["Usage:", f.name, "[OPTIONS]"] ++ (if f.operands.isEmpty then [] else [f.operands]))

/-- An option and its help in a table. -/
def optionRow (o : OptionForm) : String × String :=
  (o.name ++ (o.value.map (" " ++ ·)).getD "",
    o.help ++ (o.default.map ("  [default: " ++ · ++ "]")).getD "")

/-- A heading with a table under it. -/
def section_ (heading : String) (rows : List (String × String)) : String :=
  if rows.isEmpty then "" else "\n" ++ heading ++ ":\n" ++ table rows

/-- What the commands below a command do, shortened to fit beside their names. -/
def commandRows (f : Form) : List (String × String) :=
  let room := pageWidth - 6 - (f.commands.map (·.1.length)).foldl max 0
  f.commands.map fun (name, summary) => (name, abridge room summary)

/-- The help page of a command. -/
def helpPage (f : Form) : String :=
  f.usage ++ "\n\n  " ++ f.summary ++ "\n" ++ section_ "Options" (f.allOptions.map optionRow) ++
    section_ "Commands" f.commandRows

/-- What is shown where a command was called wrongly. -/
def complaint (f : Form) (m : Misuse) : String :=
  (if m.showsUsage then
    f.usage ++ "\nTry '" ++ f.name ++ " " ++ helpOption.name ++ "' for help.\n\n"
  else "") ++ "Error: " ++ m.message ++ "\n"

end GhciHost.CommandLine.Form
