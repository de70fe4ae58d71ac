import IntScript.Yaml.Gap
import IntScript.Yaml.Scalar

/-!
# Scalars in quotes

In single quotes only the quote itself is escaped, by doubling it; in double quotes a backslash
escapes, also the end of a line.
-/

namespace IntScript.Yaml.Quotes

/-- The character that a backslash and a letter stand for. -/
def escaped? : Char → Option Char
  | '0' => some '\x00'
  | 'a' => some '\x07'
  | 'b' => some '\x08'
  | 't' | '\t' => some '\t'
  | 'n' => some '\n'
  | 'v' => some '\x0b'
  | 'f' => some '\x0c'
  | 'r' => some '\r'
  | 'e' => some '\x1b'
  | ' ' => some ' '
  | '"' => some '"'
  | '\'' => some '\''
  | '\\' => some '\\'
  | 'N' => some '\u0085'
  | '_' => some '\u00a0'
  | 'L' => some '\u2028'
  | 'P' => some '\u2029'
  | _ => none

/-- How many hexadecimal digits follow a backslash and a letter. -/
def digitCount? : Char → Option Nat
  | 'x' => some 2
  | 'u' => some 4
  | 'U' => some 8
  | _ => none

/-- The number that the next `n` characters, hexadecimal digits all of them, stand for. -/
def hexadecimal (start : Mark) : Nat → Nat → Scan Nat
  | 0, value => return value
  | n + 1, value => do
    match (← Scan.look 0).bind (Scalar.digit? 16) with
    | some d =>
      Scan.skip
      hexadecimal start n (value * 16 + d)
    | none => Scan.fail start .escapeDigits

/-- The character after a backslash, which is next. -/
def escape (start : Mark) : Scan Char := do
  let letter ← Scan.look 1
  match letter.bind escaped?, letter.bind digitCount? with
  | some c, _ =>
    Scan.skip
    Scan.skip
    return c
  | none, some n =>
    Scan.skip
    Scan.skip
    let value ← hexadecimal start n 0
    if value.isValidChar then return Char.ofNat value else Scan.fail start .escapeCharacter
  | none, none => Scan.fail start .escapeUnknown

/-- Takes the characters up to the end of a word or the closing quote, `done` being those before. Of
both the last one comes first. The result also says whether they end with an escaped line end. -/
def word (start : Mark) (quote : Char) : Nat → List Char → Scan (List Char × Bool)
  | 0, done => return (done, false)
  | fuel + 1, done => do
    match ← Scan.look 0 with
    | none => return (done, false)
    | some c =>
      if isGap c then return (done, false)
      else if c = quote then
        if quote = '\'' && (← Scan.look 1) = some '\'' then
          Scan.skip
          Scan.skip
          word start quote fuel (c :: done)
        else return (done, false)
      else if quote = '"' && c = '\\' then
        if ← Scan.looksAt isBreak 1 then
          Scan.skip
          let _ ← Scan.takeBreak
          return (done, true)
        else
          let c ← escape start
          word start quote fuel (c :: done)
      else
        Scan.skip
        word start quote fuel (c :: done)

/-- Goes on with a scalar that has the text `done` so far, the last character first. -/
def readFrom (start : Mark) (quote : Char) : Nat → List Char → Scan (List Char)
  | 0, done => return done.reverse
  | fuel + 1, done => do
    Scan.ensure 4
    if ← Scan.endsDocument then Scan.fail start .separatorInQuotes
    if (← Scan.look 0).isNone then Scan.fail start .endInQuotes
    let (done, escaped) ← word start quote ((← get).size + 1) done
    if (← Scan.look 0) = some quote then
      Scan.skip
      return done.reverse
    let gap ← Gap.read start 0 (if escaped then .escaped else .none)
    readFrom start quote fuel (gap.text.reverse ++ done)

/-- Reads a scalar in quotes of a kind, the first of which is next. -/
def read (quote : Char) : Scan (List Char) := do
  let start ← Scan.mark
  Scan.skip
  readFrom start quote ((← get).size + 1) []

end IntScript.Yaml.Quotes
