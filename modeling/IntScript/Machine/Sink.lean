import IntScript.Machine.Error

/-!
# Sinks

Where lines of output go. A sink may have room for a limited number of lines only; a line that finds
no room is not written, and no later one is either.
-/

namespace IntScript

/-- The lines written so far, and how many more there is room for, if that is limited. -/
structure Sink where
  lines : Array String
  room? : Option Nat
  deriving DecidableEq, Repr, Inhabited

namespace Sink

/-- An empty sink with room for so many lines, or for any number of them. -/
def ofRoom? (room? : Option Nat) : Sink := ⟨#[], room?⟩

def write (s : Sink) (line : String) : Except WriteError Sink :=
  match s.room? with
  | none => .ok { s with lines := s.lines.push line }
  | some 0 => .error .full
  | some (n + 1) => .ok ⟨s.lines.push line, some n⟩

/-- Writes lines one after the other, up to the first that finds no room. -/
def writeAll (s : Sink) : List String → Except WriteError Unit × Sink
  | [] => (.ok (), s)
  | line :: lines =>
    match s.write line with
    | .ok s' => s'.writeAll lines
    | .error e => (.error e, s)

/-- The lines from number `n` on, each with its line end. -/
def textFrom (s : Sink) (n : Nat) : String :=
  (s.lines.toList.drop n).foldl (fun text line => text ++ line ++ "\n") ""

/-- All lines, each with its line end. -/
def text (s : Sink) : String := s.textFrom 0

end Sink

end IntScript
