import IntScript.Session
import IntScript.Text.Blank

/-!
# Commands

A chunk that starts with a colon is a command to the interactive session: it lists or forgets what
the session knows, or ends it.
-/

namespace IntScript

inductive Command where
  | quit
  | reset
  | variables
  | functions
  | help
  | unknown (text : String)
  deriving DecidableEq, Repr

namespace Command

/-- The command a line holds, blanks around it apart. -/
def ofChars (line : List Char) : Command :=
  let text := String.ofList (Text.trim line)
  if text = ":quit" ∨ text = ":q" then .quit
  else if text = ":reset" then .reset
  else if text = ":vars" then .variables
  else if text = ":funcs" then .functions
  else if text = ":help" then .help
  else .unknown text

/-- The lines a command writes. -/
def reply (c : Command) (s : Session) : List String :=
  match c with
  | .quit | .reset => []
  | .variables => s.globals.map fun (name, v) => s!"{name} = {Text.Decimal.ofInt64 v}"
  | .functions => s.functionNames
  | .help =>
    [":vars  list global variables",
      ":funcs list declared functions",
      ":reset forget all variables and functions",
      ":quit  leave the session"]
  | .unknown text => [s!"unknown command {text} (try :help)"]

/-- What a command makes of the session. -/
def apply (c : Command) (s : Session) : Session :=
  match c with
  | .reset => s.reset
  | _ => s

end Command

end IntScript
