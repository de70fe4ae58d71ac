import IntScript.Yaml.Cursor

/-!
# Comments

A comment reaches from a number sign to the end of its line. Comments on lines of their own belong
together, whatever blanks and empty lines stand between them, as far as these are looked through.
-/

namespace IntScript.Yaml.Comment

/-- How far blanks and empty lines are looked through for a comment. -/
def reach : Nat := 512

/-- How many characters ahead the next comment starts, if only characters that `passes` allows stand
before it. -/
def ahead (passes : Char → Bool) : Nat → Nat → Scan (Option Nat)
  | 0, _ => return none
  | fuel + 1, i => do
    match ← Scan.look i with
    | some '#' => return some i
    | some c => if passes c then ahead passes fuel (i + 1) else return none
    | none => return none

/-- Passes a comment on the line reached, if one follows a word there. -/
def skipOnLine : Scan Unit := do
  if (← get).newLines = 0 then
    match ← ahead isBlank reach 0 with
    | some _ => Scan.skipLine
    | none => return

/-- Passes a comment, which is next, and those on the lines below. A line end that takes more than one
byte is not looked through. -/
def skipAll : Nat → Scan Unit
  | 0 => return
  | fuel + 1 => do
    Scan.skipLine
    if ← Scan.looksAt (fun c => c = '\n' || c = '\r') 0 then
      match ← ahead (fun c => isBlank c || c = '\n' || c = '\r') (reach - 1) 1 with
      | some i =>
        Scan.moveTo ((← Scan.mark).index + i) i
        skipAll fuel
      | none => return

end IntScript.Yaml.Comment
