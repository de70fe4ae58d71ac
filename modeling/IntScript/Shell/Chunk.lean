import IntScript.Parse.Program
import IntScript.Text.Blank

/-!
# Chunks

A program is typed into an interactive session in chunks of one or more lines. Lines are added to a
chunk as long as it is the beginning of a program, or a program that opens more braces than it
closes. A line of blanks ends the chunk in any case, and a chunk that starts with a colon is a
command and has one line.
-/

namespace IntScript.Chunk

def isBlank (bs : List UInt8) : Bool := (Text.trim (Text.Utf8.decode bs)).isEmpty

/-- A chunk that starts with a colon. -/
def isCommand (bs : List UInt8) : Bool := (Text.trim (Text.Utf8.decode bs)).head? = some ':'

def needsMore (bs : List UInt8) (kw : Keywords) : Bool :=
  if isCommand bs then false
  else
    match parse bs kw with
    | .error e => e.isIncomplete
    | .ok _ => bs.count '\x7d'.toUInt8 < bs.count '\x7b'.toUInt8

/-- What a line makes of the chunk before it: the chunk is still open, or done. -/
inductive Progress where
  | pending (bs : List UInt8)
  | done (bs : List UInt8)
  deriving DecidableEq, Repr

/-- Adds a line to the chunk, which is empty before its first line. -/
def addLine (pending line : List UInt8) (kw : Keywords) : Progress :=
  if pending ≠ [] ∧ isBlank line then .done pending
  else
    let chunk := if pending = [] then line else pending ++ '\n'.toUInt8 :: line
    if needsMore chunk kw then .pending chunk else .done chunk

end IntScript.Chunk
