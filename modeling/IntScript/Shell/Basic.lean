import IntScript.About
import IntScript.Shell.Chunk
import IntScript.Shell.Command
import IntScript.Shell.History

/-!
# The interactive session

A shell takes lines one after the other and puts them together to chunks. A chunk that is a command
is obeyed, and any other is run in the session of the shell. An error is reported and the dialogue
goes on.
-/

namespace IntScript

/-- A session, the chunk that waits for more lines, which is empty if none does, and the history. -/
structure Shell where
  session : Session
  pending : List UInt8
  history : History

namespace Shell

/-- A shell before its first line. -/
def start (keywords : Keywords) (limits : Limits) (history : History) : Shell :=
  ⟨.start keywords limits (.ofRoom? none), [], history⟩

/-- The line a dialogue starts with. -/
def greeting : String := s!"{About.name} {About.version}, :help for commands\n"

/-- What asks for the next line: the first of a chunk or one more. -/
def prompt (sh : Shell) : String := if sh.pending = [] then "fs> " else "..> "

/-- The answer to a line: the text it writes, the error it ends in, and the shell after it. The
dialogue may end with it. -/
structure Reply where
  shell : Shell
  text : String
  error? : Option ProgramError
  ends : Bool

/-- A chunk as an entry of the history, which has one line. -/
def entry (chunk : List UInt8) : List UInt8 :=
  chunk.map fun b => if b = Line.feed then ' '.toUInt8 else b

def obey (sh : Shell) (c : Command) : Reply where
  shell := { sh with session := c.apply sh.session }
  text := ((Sink.ofRoom? none).writeAll (c.reply sh.session)).2.text
  error? := none
  ends := c = .quit

def run (sh : Shell) (chunk : List UInt8) : Reply :=
  let (result, session) := sh.session.run chunk
  { shell := { sh with session }
    text := session.machine.sink.textFrom sh.session.machine.sink.lines.size
    error? := match result with
      | .ok () => none
      | .error e => some e
    ends := false }

/-- Takes a chunk that is done. One of blanks is passed over. -/
def takeChunk (sh : Shell) (chunk : List UInt8) : Reply :=
  if Chunk.isBlank chunk then ⟨sh, "", none, false⟩
  else
    let sh := { sh with history := sh.history.add (entry chunk) }
    if Chunk.isCommand chunk then sh.obey (.ofChars (Text.Utf8.decode chunk)) else sh.run chunk

def takeLine (sh : Shell) (line : List UInt8) : Reply :=
  match Chunk.addLine sh.pending line sh.session.keywords with
  | .pending chunk => ⟨{ sh with pending := chunk }, "", none, false⟩
  | .done chunk => takeChunk { sh with pending := [] } chunk

/-- A dialogue: all that was written, the errors in their order, and the shell at its end. -/
structure Dialogue where
  text : String
  errors : List ProgramError
  shell : Shell

/-- The dialogue over the given lines, up to a command that ends it. Where the lines end first, a
chunk that waits for more is dropped. -/
def converse (sh : Shell) (text : String) (errors : List ProgramError) :
    List (List UInt8) → Dialogue
  | [] => ⟨text ++ sh.prompt ++ "\n", errors, sh⟩
  | line :: lines =>
    let reply := sh.takeLine line
    let text := text ++ sh.prompt ++ reply.text
    let errors := errors ++ reply.error?.toList
    if reply.ends then ⟨text, errors, reply.shell⟩ else converse reply.shell text errors lines

end Shell

end IntScript
