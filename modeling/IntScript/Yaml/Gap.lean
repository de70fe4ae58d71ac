import IntScript.Yaml.Cursor

/-!
# Gaps in scalars

Between the words of a scalar stand blanks or line ends. Blanks on one line count as they are. Of line
ends, the first counts as a space if it stands alone and not at all otherwise, and blanks around them
do not count. Two of the characters that end lines are kept instead.
-/

namespace IntScript.Yaml

/-- What stands between two words: blanks, or, if it is `broken`, line ends: the first one and more.
Blanks and further line ends are kept with the last one first. -/
structure Gap where
  blanks : List Char
  broken : Bool
  first : List Char
  more : List Char
  deriving DecidableEq, Repr

namespace Gap

def none : Gap := ⟨[], false, [], []⟩

/-- What is left of a line end that was escaped. -/
def escaped : Gap := ⟨[], true, [], []⟩

/-- What the gap counts as in a scalar. -/
def text (g : Gap) : List Char :=
  if g.broken then
    if g.first = ['\n'] then if g.more.isEmpty then [' '] else g.more.reverse
    else g.first ++ g.more.reverse
  else g.blanks.reverse

/-- Goes on with a gap. In the scalar that starts at `start` no tab may stand before column `least` of
a line. -/
def readFrom (start : Mark) (least : Nat) : Nat → Gap → Scan Gap
  | 0, g => return g
  | fuel + 1, g => do
    match ← Scan.look 0 with
    | some c =>
      if isBlank c then
        if g.broken && c = '\t' && (← Scan.mark).column < least then
          Scan.fail start .tabBeforePlain
        Scan.skip
        readFrom start least fuel (if g.broken then g else { g with blanks := c :: g.blanks })
      else if isBreak c then
        let counts ← Scan.takeBreak
        readFrom start least fuel
          (if g.broken then { g with more := counts ++ g.more } else ⟨[], true, counts, []⟩)
      else return g
    | _ => return g

/-- Reads a gap, of which there may be something already. -/
def read (start : Mark) (least : Nat) (g : Gap) : Scan Gap := do
  readFrom start least (← get).size g

end Gap

end IntScript.Yaml
