import IntScript.Yaml.Input

/-!
# Cursors

A place in a text, and the steps that lead on from there. Steps look at characters ahead, take them,
and fail with a fault. Lines and columns count from zero. A line ends with a line feed, a carriage
return, both, or one of three other characters.
-/

namespace IntScript.Yaml

/-- A place in a text: how many characters stand before it, its line and its column. -/
structure Mark where
  index : Nat
  line : Nat
  column : Nat
  deriving DecidableEq, Repr

/-- A place and what follows it. `newLines` counts the line ends since the last character that is no
blank, and `size` bounds how many characters the whole text has. -/
structure Cursor where
  input : Input
  mark : Mark
  newLines : Nat
  size : Nat

/-- A step through a text. -/
abbrev Scan (α : Type) := StateT Cursor (Except Fault) α

/-- The start of the text that some bytes stand for. -/
def Cursor.ofBytes (bs : List UInt8) : Cursor := ⟨Input.ofBytes bs, ⟨0, 0, 0⟩, 0, bs.length⟩

/-- A space or a tab. -/
def isBlank (c : Char) : Bool := c = ' ' || c = '\t'

/-- A character that ends a line. -/
def isBreak (c : Char) : Bool :=
  c = '\n' || c = '\r' || c = '\u0085' || c = '\u2028' || c = '\u2029'

/-- A character that ends a word. -/
def isGap (c : Char) : Bool := isBlank c || isBreak c

/-- The characters that names are made of. -/
def isNameChar (c : Char) : Bool :=
  ('0' ≤ c && c ≤ '9') || ('A' ≤ c && c ≤ 'Z') || ('a' ≤ c && c ≤ 'z') || c = '_' || c = '-'

namespace Scan

variable {α : Type}

/-- Fails because of a problem in a construct that starts at `context`. -/
def fail (context : Mark) (p : Problem) : Scan α := do
  let here := (← get).mark.line
  throw ⟨(Fault.lineOf? context.line here).map (· + 1), p⟩

def mark : Scan Mark := return (← get).mark

/-- Makes sure that `n` characters are at hand if the text has them. -/
def ensure (n : Nat) : Scan Unit := do
  let c ← get
  match c.input.need n with
  | .ok input => set { c with input }
  | .error p => throw ⟨none, p⟩

/-- The character `i` places ahead; none behind the end. -/
def look (i : Nat) : Scan (Option Char) := do
  ensure (i + 1)
  return (← get).input.ready[i]?

/-- Is the character `i` places ahead one with a property? -/
def looksAt (p : Char → Bool) (i : Nat) : Scan Bool := return (← look i).any p

def endsWord (i : Nat) : Scan Bool := return (← look i).all isGap

def endsLine (i : Nat) : Scan Bool := return (← look i).all isBreak

/-- Passes the next character, which is taken for a part of the line. -/
def skip : Scan Unit :=
  modify fun c =>
    { c with
      input := { c.input with ready := c.input.ready.tail }
      mark := { c.mark with index := c.mark.index + 1, column := c.mark.column + 1 }
      newLines := if c.input.ready.head?.any isBlank then c.newLines else 0 }

/-- Passes a line end of `n` characters. -/
def passBreak (n : Nat) : Scan Unit :=
  modify fun c =>
    { c with
      input := { c.input with ready := c.input.ready.drop n }
      mark := ⟨c.mark.index + n, c.mark.line + 1, 0⟩
      newLines := c.newLines + 1 }

/-- Takes a line end, if one is next: what it counts as in a scalar. -/
def takeBreak : Scan (List Char) := do
  match ← look 0 with
  | some '\r' =>
    passBreak (if (← look 1) = some '\n' then 2 else 1)
    return ['\n']
  | some c =>
    if !isBreak c then return []
    passBreak 1
    return [if c = '\n' || c = '\u0085' then '\n' else c]
  | none => return []

/-- Takes characters with a property, `done` being those before, the last one first. -/
def takeFrom (p : Char → Bool) : Nat → List Char → Scan (List Char)
  | 0, done => return done.reverse
  | fuel + 1, done => do
    match ← look 0 with
    | some c =>
      if p c then
        skip
        takeFrom p fuel (c :: done)
      else return done.reverse
    | none => return done.reverse

/-- Takes the next characters as long as they have a property. -/
def takeWhile (p : Char → Bool) : Scan (List Char) := do takeFrom p (← get).size []

/-- Passes the next characters as long as they have a property. -/
def skipWhile (p : Char → Bool) : Scan Unit := do
  let _ ← takeWhile p

/-- Passes the rest of the line, but not its end. -/
def skipLine : Scan Unit := skipWhile (!isBreak ·)

/-- Passes characters until `index` of them lie behind, line ends as such. -/
def moveTo (index : Nat) : Nat → Scan Unit
  | 0 => return
  | fuel + 1 => do
    if (← mark).index < index then
      if ← looksAt isBreak 0 then
        let _ ← takeBreak
      else skip
      moveTo index fuel

/-- Is this a line that separates documents? Three marks of a kind at the start of a line, before the
end of a word. -/
def isSeparator (c : Char) : Scan Bool := do
  let marks := [← look 0, ← look 1, ← look 2]
  return (← mark).column = 0 && marks.all (· = some c) && (← endsWord 3)

/-- Does a document end here, or another one start? -/
def endsDocument : Scan Bool := do
  if ← isSeparator '-' then return true
  isSeparator '.'

end Scan

end IntScript.Yaml
