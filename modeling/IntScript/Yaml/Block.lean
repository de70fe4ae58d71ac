import IntScript.Yaml.Cursor

/-!
# Block scalars

A block scalar consists of the lines below its head that are indented far enough. A literal one keeps
its line ends; in a folded one a line end between two lines that do not start with a blank counts as a
space. The head may say by how much the lines are indented and what becomes of the last line ends.
-/

namespace IntScript.Yaml.Block

/-- What becomes of the line ends behind a block scalar: none counts, the first, or all. -/
inductive Chomping where
  | strip
  | clip
  | keep
  deriving DecidableEq, Repr

structure Head where
  chomping : Chomping
  indentation : Option Nat
  deriving DecidableEq, Repr

/-- Reads what the head says about the last line ends. -/
def readChomping : Scan (Option Chomping) := do
  match ← Scan.look 0 with
  | some '+' =>
    Scan.skip
    return some .keep
  | some '-' =>
    Scan.skip
    return some .strip
  | _ => return none

/-- Reads what the head says about the indentation. -/
def readIndentation (start : Mark) : Scan (Option Nat) := do
  match ← Scan.look 0 with
  | some c =>
    if c = '0' then Scan.fail start .indentationZero
    else if '1' ≤ c && c ≤ '9' then
      Scan.skip
      return some (c.toNat - '0'.toNat)
    else return none
  | none => return none

/-- Reads the head, which may give both in either order. -/
def readHead (start : Mark) : Scan Head := do
  match ← readChomping with
  | some chomping => return ⟨chomping, ← readIndentation start⟩
  | none =>
    match ← readIndentation start with
    | some n => return ⟨(← readChomping).getD .clip, some n⟩
    | none => return ⟨.clip, none⟩

/-- Passes the spaces that indent a line, up to column `indent`, or all if that is not known. -/
def skipIndentation (indent : Option Nat) : Nat → Scan Unit
  | 0 => return
  | fuel + 1 => do
    let column := (← Scan.mark).column
    if indent.all (column < ·) && (← Scan.look 0) = some ' ' then
      Scan.skip
      skipIndentation indent fuel

/-- Reads the empty lines in front of a line: what their ends count as, the last one first, and the
largest column reached. -/
def emptyLines (start : Mark) (indent : Option Nat) :
    Nat → List Char → Nat → Scan (List Char × Nat)
  | 0, breaks, widest => return (breaks, widest)
  | fuel + 1, breaks, widest => do
    skipIndentation indent (← get).size
    let column := (← Scan.mark).column
    if indent.all (column < ·) && (← Scan.look 0) = some '\t' then
      Scan.fail start .tabBeforeBlock
    let widest := max widest column
    if ← Scan.looksAt isBreak 0 then
      emptyLines start indent fuel ((← Scan.takeBreak) ++ breaks) widest
    else return (breaks, widest)

/-- Goes on with a scalar that has the text `done`, then the line end `first` behind a line that did
or did not start with a blank, and then the line ends `more` of empty lines. Of the text and of the
latter the last one comes first. -/
def lines (start : Mark) (folded : Bool) (indent : Nat) :
    Nat → List Char → List Char → List Char → Bool → Scan (List Char × List Char × List Char)
  | 0, done, first, more, _ => return (done, first, more)
  | fuel + 1, done, first, more, afterBlank => do
    if (← Scan.mark).column = indent && (← Scan.look 0).isSome then
      let blank ← Scan.looksAt isBlank 0
      let first :=
        if folded && !afterBlank && !blank && first = ['\n'] then
          if more.isEmpty then [' '] else []
        else first
      let line ← Scan.takeWhile (!isBreak ·)
      let ending ← Scan.takeBreak
      let (breaks, _) ← emptyLines start (some indent) ((← get).size + 1) [] 0
      lines start folded indent fuel (line.reverse ++ more ++ first ++ done) ending breaks blank
    else return (done, first, more)

/-- Reads a block scalar in a block that is indented to column `outer`, or in none. -/
def read (folded : Bool) (outer : Int) : Scan (List Char) := do
  let start ← Scan.mark
  Scan.skip
  let head ← readHead start
  Scan.skipWhile isBlank
  if (← Scan.look 0) = some '#' then Scan.skipLine
  if !(← Scan.endsLine 0) then Scan.fail start .lineEndMissing
  let _ ← Scan.takeBreak
  let given := head.indentation.map fun n => if 0 ≤ outer then outer.toNat + n else n
  let (breaks, widest) ← emptyLines start given ((← get).size + 1) [] 0
  let indent := given.getD (max widest (max (outer + 1).toNat 1))
  let (text, first, more) ← lines start folded indent ((← get).size + 1) [] [] breaks false
  match head.chomping with
  | .strip => return text.reverse
  | .clip => return text.reverse ++ first
  | .keep => return text.reverse ++ first ++ more.reverse

end IntScript.Yaml.Block
