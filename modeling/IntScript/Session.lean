import IntScript.Machine.Execute
import IntScript.Parse.Program

/-!
# Sessions

A session runs one text after the other on the same machine, so that what one of them assigns and
declares is there for the next. A text is parsed in full before any of it runs.
-/

namespace IntScript

/-- Why a text did not run to its end. -/
inductive ProgramError where
  | parse (e : ParseError)
  | run (e : RunError)
  deriving DecidableEq, Repr

def ProgramError.message : ProgramError → String
  | .parse e => e.message
  | .run e => e.message

/-- The reserved words and the limits of a session, and the machine it has come to. -/
structure Session where
  keywords : Keywords
  limits : Limits
  machine : Machine

namespace Session

/-- A session that has run nothing. -/
def start (keywords : Keywords) (limits : Limits) (sink : Sink) : Session :=
  ⟨keywords, limits, .ofSink sink⟩

/-- Runs a text given by its bytes. -/
def run (s : Session) (bs : List UInt8) : Except ProgramError Unit × Session :=
  match parse bs s.keywords with
  | .error e => (.error (.parse e), s)
  | .ok root =>
    let (r, m) := s.machine.execute s.limits root
    (r.mapError .run, { s with machine := m })

def reset (s : Session) : Session := { s with machine := s.machine.reset }

/-- The global variables with their values, in increasing order of name. -/
def globals (s : Session) : List (String × Int64) := s.machine.globals.entries

def globalNames (s : Session) : List String := s.machine.globals.names

def functionNames (s : Session) : List String := s.machine.functions.names

end Session

end IntScript
