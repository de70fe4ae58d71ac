import IntScript.Yaml.Gap

/-!
# Plain scalars

A plain scalar is a text without quotes. It ends at a colon or a comment set off by a blank, between
brackets also at marks that have a meaning there, and with the last line that is indented far enough.
-/

namespace IntScript.Yaml.Plain

/-- The characters with a meaning of their own that no plain scalar starts with. -/
def isIndicator (c : Char) : Bool :=
  c ∈ ['-', '?', ':', ',', '[', ']', '\x7b', '\x7d', '#', '&', '*', '!', '|', '>', '\'', '"', '%', '@',
    '\x60']

/-- The characters that end a plain scalar between brackets. -/
def isCloser (c : Char) : Bool := c ∈ [',', '?', '[', ']', '\x7b', '\x7d']

/-- Does a plain scalar start here? A dash may start one if no blank follows, and outside brackets
also a colon or a question mark that no word ends behind. -/
def starts (inBrackets : Bool) : Scan Bool := do
  match ← Scan.look 0 with
  | none => return false
  | some c =>
    if c = '-' then return !(← Scan.looksAt isBlank 1)
    else if c = '?' || c = ':' then return !inBrackets && !(← Scan.endsWord 1)
    else return !(isGap c || isIndicator c)

/-- Takes the characters up to the end of a word, `done` being those before. Of both the last one comes
first. -/
def word (inBrackets : Bool) : Nat → List Char → Scan (List Char)
  | 0, done => return done
  | fuel + 1, done => do
    match ← Scan.look 0 with
    | none => return done
    | some c =>
      if isGap c || (inBrackets && isCloser c) then return done
      else if c = ':' && (← Scan.endsWord 1) then return done
      else
        Scan.skip
        word inBrackets fuel (c :: done)

/-- Goes on with a scalar that has the text `done`, the last character first, and then a gap. The result
is the text, and whether a line end was passed behind it. -/
def readFrom (start : Mark) (inBrackets : Bool) (least : Nat) :
    Nat → List Char → Gap → Scan (List Char × Bool)
  | 0, done, gap => return (done.reverse, gap.broken)
  | fuel + 1, done, gap => do
    Scan.ensure 4
    if ← Scan.endsDocument then return (done.reverse, gap.broken)
    if (← Scan.look 0) = some '#' then return (done.reverse, gap.broken)
    let next ← word inBrackets (← get).size []
    if next.isEmpty then return (done.reverse, gap.broken)
    let done := next ++ gap.text.reverse ++ done
    if !(← Scan.looksAt isGap 0) then return (done.reverse, false)
    let gap ← Gap.read start least .none
    if !inBrackets && (← Scan.mark).column < least then return (done.reverse, gap.broken)
    readFrom start inBrackets least fuel done gap

/-- Reads a plain scalar whose further lines have to reach column `least`. The result is the text, and
whether a line end was passed behind it. -/
def read (inBrackets : Bool) (least : Nat) : Scan (List Char × Bool) := do
  readFrom (← Scan.mark) inBrackets least ((← get).size + 1) [] .none

end IntScript.Yaml.Plain
