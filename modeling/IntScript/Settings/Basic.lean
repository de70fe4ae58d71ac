import IntScript.Bindings
import IntScript.Files.Loader
import IntScript.Machine.Execute
import IntScript.Token.Keywords

/-!
# Settings

What can be set about the interpreter, the values where nothing is set, and what the settings mean to
the scanner, the machine and the log.
-/

namespace IntScript

structure Settings where
  /-- The reserved words, each with the name of its use. -/
  keywords : Bindings String
  maxCallDepth : Int64
  functionCalls : Bool
  logLevel : String
  color : String
  maxSourceBytes : Int64

inductive LogLevel where
  | debug
  | verbose
  | info
  | warning
  | error
  deriving DecidableEq, Repr

def LogLevel.ofName? : String → Option LogLevel
  | "debug" => some .debug
  | "verbose" => some .verbose
  | "info" => some .info
  | "warning" => some .warning
  | "error" => some .error
  | _ => none

namespace Settings

/-- The settings where nothing is set. Each use has its own name as its word. -/
def default : Settings where
  keywords := ⟨[("func", "func"), ("print", "print"), ("return", "return"), ("while", "while")],
    by decide⟩
  maxCallDepth := 256
  functionCalls := true
  logLevel := "warning"
  color := "auto"
  maxSourceBytes := Loader.defaultMaxBytes

/-- The reserved words for the scanner; words for an unknown use are left out. -/
def reserved (s : Settings) : Keywords := s.keywords.filterMap Keywords.uses.get?

def limits (s : Settings) : Limits := .ofDepth s.maxCallDepth.toInt s.functionCalls

/-- The level for the log; an unknown one counts as a warning. -/
def level (s : Settings) : LogLevel := (LogLevel.ofName? s.logLevel).getD .warning

end Settings

end IntScript
