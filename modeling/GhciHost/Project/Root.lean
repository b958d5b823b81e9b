import GhciHost.File.Resolve

/-! # Project roots

A worker may be started in a directory that exists, lies below no entry of the blacklist,
and below some entry of the whitelist if there is one. -/

namespace GhciHost

/-- Why a worker may not be started somewhere. -/
inductive RootFault
  | empty
  | nullByte
  | blacklisted (entry : String)
  | notWhitelisted (root : String)
  | notDirectory (root : String)
deriving DecidableEq, Repr

@[inherit_doc RootFault]
def RootFault.message : RootFault → String
  | empty => "Project root cannot be empty"
  | nullByte => "Invalid project root: " ++ PathError.nullByte.message
  | blacklisted entry => "Project root is blacklisted: " ++ entry
  | notWhitelisted root => "Project root is not whitelisted: " ++ root
  | notDirectory root => "Project root is not a directory: " ++ root

namespace Disk

/-- Whether a real path lies below an entry of a list.  An entry that cannot be a path holds
    nothing. -/
def liesUnder (d : Disk) (path : List String) (entry : String) : Except PathError Bool :=
  match d.resolveWritten entry with
  | .ok base => .ok (base.isPrefixOf path)
  | .error .nullByte => .ok false
  | .error (.file ..) => .ok false
  | .error e => .error e

/-- The first entry under which a path lies. -/
def firstOver? (d : Disk) (path : List String) : List String → Except PathError (Option String)
  | [] => .ok none
  | entry :: entries =>
    match d.liesUnder path entry with
    | .error e => .error e
    | .ok true => .ok (some entry)
    | .ok false => d.firstOver? path entries

/-- The real path of a project root, or why a worker may not be started there.  The error is
    that of a path that could not even be looked at. -/
def checkRoot (d : Disk) (whitelist blacklist : List String) (root : String) :
    Except PathError (Except RootFault (List String)) :=
  if root.isEmpty then .ok (.error .empty)
  else
    match d.resolveWritten root with
    | .error .nullByte => .ok (.error .nullByte)
    | .error e => .error e
    | .ok path => do
      let shown := Pathname.renderAbsolute path
      match ← d.firstOver? path blacklist with
      | some entry => .ok (.error (.blacklisted entry))
      | none =>
        if !whitelist.isEmpty && (← d.firstOver? path whitelist).isNone then
          .ok (.error (.notWhitelisted shown))
        else if ← d.isDirectory path then .ok (.ok path)
        else .ok (.error (.notDirectory shown))

end Disk

end GhciHost
