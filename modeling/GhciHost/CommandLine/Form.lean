import GhciHost.Text.Quoted

/-! # Forms of a command line

A command has options, with or without a value, and operands.  `readOptions` tells the two
apart: a word that begins with a dash is an option, which two dashes alone bring to an end.

* `readOptions_operands`   words of which none begins with a dash are operands. -/

namespace GhciHost.CommandLine

/-- An option of a command. -/
structure OptionForm where
  name : String
  /-- What its value is called, if it takes one. -/
  value : Option String := none
  help : String
  /-- The value that it has if it is not given. -/
  default : Option String := none
deriving DecidableEq, Repr

/-- A command. -/
structure Form where
  /-- The words that call it. -/
  name : String
  summary : String
  /-- What follows the options. -/
  operands : String := ""
  options : List OptionForm
  /-- Whether options are still taken after the first operand. -/
  mixes : Bool := true
  /-- The commands below it, with what they do. -/
  commands : List (String × String) := []
deriving DecidableEq, Repr

/-- What can be wrong with the words of a command line. -/
inductive Misuse
  | unknownOption (name : String)
  | missingValue (name : String)
  | unwantedValue (name : String)
  | missingCommand
  | unknownCommand (name : String)
  | missingOperand (name : String)
  | extraOperands (words : List String)
  | noDirectory (name path : String)
  | notDirectory (name path : String)
  | unreadable (name path reason : String)
  | badStaging (entry : String)
deriving DecidableEq, Repr

namespace Misuse

/-- A text between quotes. -/
def quoted (s : String) : String := String.ofList (Text.showQuoted s.toList)

/-- What is wrong. -/
def message : Misuse → String
  | unknownOption name => "No such option " ++ quoted name ++ "."
  | missingValue name => "Option " ++ quoted name ++ " requires an argument."
  | unwantedValue name => "Option " ++ quoted name ++ " does not take a value."
  | missingCommand => "Missing command."
  | unknownCommand name => "No such command " ++ quoted name ++ "."
  | missingOperand name => "Missing argument '" ++ name ++ "'."
  | extraOperands words =>
    "Got unexpected extra argument" ++ (if words.length = 1 then "" else "s") ++ " (" ++
      " ".intercalate words ++ ")"
  | noDirectory name path =>
    "Invalid value for '" ++ name ++ "': Directory " ++ quoted path ++ " does not exist."
  | notDirectory name path =>
    "Invalid value for '" ++ name ++ "': Directory " ++ quoted path ++ " is a file."
  | unreadable name path reason => "Invalid value for '" ++ name ++ "': '" ++ path ++ "': " ++ reason
  | badStaging entry =>
    "Invalid value for --staging: expected SCRATCH=LOGICAL, got " ++ quoted entry

/-- Whether the usage of the command is shown with what is wrong; it is not where only the
    value of an option is missing or too much. -/
def showsUsage : Misuse → Bool
  | missingValue _ | unwantedValue _ => false
  | _ => true

end Misuse

/-- The option that every command has. -/
def helpOption : OptionForm := { name := "--help", help := "Show this message and exit." }

namespace Form

/-- All options of a command. -/
def allOptions (f : Form) : List OptionForm := f.options ++ [helpOption]

/-- The option of a name. -/
def find? (f : Form) (name : String) : Option OptionForm := f.allOptions.find? (·.name == name)

/-- The words of a command line, sorted. -/
structure Sorted where
  /-- The options in the order in which they were given. -/
  options : List (String × String) := []
  operands : List String := []
deriving DecidableEq, Repr

namespace Sorted

/-- The values that an option was given. -/
def values (s : Sorted) (name : String) : List String :=
  s.options.filterMap fun (n, v) => if n == name then some v else none

/-- Whether an option was given. -/
def has (s : Sorted) (name : String) : Bool := s.options.any (·.1 == name)

/-- With an option in front. -/
def option (name value : String) (s : Sorted) : Sorted :=
  { s with options := (name, value) :: s.options }

/-- With an operand in front. -/
def operand (word : String) (s : Sorted) : Sorted := { s with operands := word :: s.operands }

end Sorted

/-- Whether a word is an option; a dash alone is none. -/
def isOption (word : String) : Bool :=
  match word.toList with
  | '-' :: _ :: _ => true
  | _ => false

/-- An option's name, and the value behind an equals sign. -/
def splitValue (word : String) : String × Option String :=
  match word.toList.dropWhile (· ≠ '=') with
  | [] => (word, none)
  | _ :: value => (String.ofList (word.toList.takeWhile (· ≠ '=')), some (String.ofList value))

/-- How an option that does not exist is called: behind a single dash, each character is an
    option. -/
def unknownName (word : String) : String :=
  if "--".toList.isPrefixOf word.toList then (splitValue word).1
  else String.ofList (word.toList.take 2)

/-- Sort the words behind a command. -/
def readOptions (f : Form) : List String → Except Misuse Sorted
  | [] => .ok {}
  | word :: rest =>
    if word = "--" then .ok { operands := rest }
    else if isOption word then
      let (name, value) := splitValue word
      match f.find? name, value with
      | none, _ => .error (.unknownOption (unknownName word))
      | some o, some v =>
        if o.value.isSome then (f.readOptions rest).map (·.option name v)
        else .error (.unwantedValue name)
      | some o, none =>
        if o.value.isNone then (f.readOptions rest).map (·.option name "")
        -- the next word is the value, even if it looks like an option
        else match rest with
          | [] => .error (.missingValue name)
          | v :: rest => (f.readOptions rest).map (·.option name v)
    else if f.mixes then (f.readOptions rest).map (·.operand word)
    else .ok { operands := word :: rest }

theorem readOptions_operands {f : Form} {words : List String}
    (h : ∀ w ∈ words, isOption w = false) : f.readOptions words = .ok { operands := words } := by
  induction words with
  | nil => rfl
  | cons w ws ih =>
    have hw := h w (by simp)
    -- Two dashes begin with a dash, so they are no such word either.
    have hd : w ≠ "--" := by
      rintro rfl
      exact absurd hw (by decide)
    rw [readOptions.eq_def]
    simp only [hd, hw, if_false, Bool.false_eq_true]
    split
    · rw [ih fun x hx => h x (by simp [hx])]
      rfl
    · rfl

end Form

end GhciHost.CommandLine
