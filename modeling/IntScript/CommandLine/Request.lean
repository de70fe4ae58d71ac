import IntScript.CommandLine.Options

/-!
# Requests

What a command line asks for. Help and version come before everything else, in the order they are
given. All that remains is done with settings, so a settings file comes before the operands are
looked at; of two settings files the last one counts.
-/

namespace IntScript

/-- What is shown of a program: what it writes, its tokens, or its tree. -/
inductive View where
  | output
  | tokens
  | tree
  deriving DecidableEq, Repr

/-- What is done once the settings are known. -/
inductive Job where
  | usage
  | dialogue
  | program (view : View) (path : String)
  deriving DecidableEq, Repr

/-- What a command line asks for. -/
inductive Request where
  | help
  | version
  | act (settings? : Option String) (job : Job)
  deriving DecidableEq, Repr

/-- What the flags say to show; tokens come before the tree. -/
def View.ofFlags (flags : List Flag) : View :=
  if .tokens ∈ flags then .tokens
  else if .tree ∈ flags then .tree
  else .output

/-- What is done with the operands. A program is one operand, and a dialogue has none. -/
def Job.ofArguments (a : Arguments) : Job :=
  if .interactive ∈ a.flags then if a.operands = [] then .dialogue else .usage
  else
    match a.operands with
    | [path] => .program (.ofFlags a.flags) path
    | _ => .usage

namespace Request

/-- The settings file of the flags; an empty path is none. -/
def settingsOf? (flags : List Flag) : Option String :=
  let paths := flags.filterMap fun
    | .settings path => some path
    | _ => none
  paths.getLast?.filter (· ≠ "")

def ofArguments (a : Arguments) : Request :=
  match a.flags.find? fun flag => flag = .help ∨ flag = .version with
  | some .help => .help
  | some _ => .version
  | none => .act (settingsOf? a.flags) (.ofArguments a)

end Request

end IntScript
