import IntScript.Text.Utf8
import IntScript.Yaml.Cursor
import IntScript.Yaml.Scalar

/-!
# Anchors, tags and directives

An anchor names a node, and a tag says what it stands for: by a name behind the handle of a family of
tags, or by the whole name in angle brackets. Directives in front of a document give the version of
the format and further handles.
-/

namespace IntScript.Yaml

/-- A tag as it is written: the handle of its family, which is empty if there is none, and the rest. -/
structure WrittenTag where
  handle : String
  suffix : String
  deriving DecidableEq, Repr

/-- What a directive says. -/
inductive Directive where
  | version (major minor : Nat)
  | family (handle stem : String)
  deriving DecidableEq, Repr

namespace Property

/-- Reads the name behind the mark of an anchor or an alias. -/
def readName : Scan String := do
  let start ← Scan.mark
  Scan.skip
  let name ← Scan.takeWhile isNameChar
  let closed ← Scan.looksAt (· ∈ ['?', ':', ',', ']', '\x7d', '%', '@', '\x60']) 0
  if name.isEmpty || !((← Scan.endsWord 0) || closed) then Scan.fail start .anchorName
  return String.ofList name

/-- The characters of the name of a tag that stand for themselves. -/
def isUriChar (c : Char) : Bool :=
  isNameChar c ||
    c ∈ [';', '/', '?', ':', '@', '&', '=', '+', '$', ',', '.', '!', '~', '*', '\'', '(', ')', '[', ']']

/-- The byte that a percent sign and two hexadecimal digits stand for. -/
def readByte (start : Mark) : Scan Nat := do
  let high := (← Scan.look 1).bind (Scalar.digit? 16)
  let low := (← Scan.look 2).bind (Scalar.digit? 16)
  match ← Scan.look 0, high, low with
  | some '%', some high, some low =>
    Scan.skip
    Scan.skip
    Scan.skip
    return high * 16 + low
  | _, _, _ => Scan.fail start .uriEscape

/-- The bytes that follow the first one of a character. -/
def readTails (start : Mark) : Nat → List UInt8 → Scan (List UInt8)
  | 0, done => return done
  | n + 1, done => do
    let b ← readByte start
    if b < 0x80 || 0xC0 ≤ b then Scan.fail start .uriTrail
    readTails start n (done ++ [b.toUInt8])

/-- The bytes of an escaped character. -/
def readEscaped (start : Mark) : Scan (List UInt8) := do
  let b ← readByte start
  match Text.Utf8.lead? b with
  | some l => readTails start l.tails [b.toUInt8]
  | none => Scan.fail start .uriLead

/-- The bytes of the name of a tag, `done` being those before. -/
def readUriFrom (start : Mark) : Nat → List UInt8 → Scan (List UInt8)
  | 0, done => return done
  | fuel + 1, done => do
    match ← Scan.look 0 with
    | some c =>
      if c = '%' then readUriFrom start fuel (done ++ (← readEscaped start))
      else if isUriChar c then
        Scan.skip
        readUriFrom start fuel (done ++ Text.Utf8.encode [c])
      else return done
    | none => return done

/-- Reads the name of a tag, which may go on behind characters already read. -/
def readUri (start : Mark) (before : Option (List Char)) : Scan String := do
  let head := before.getD []
  let name ← readUriFrom start (← get).size (Text.Utf8.encode head)
  if before.isNone && name.isEmpty then Scan.fail start .tagUri
  return Text.Utf8.text name

/-- Reads what may be the handle of a family: the characters between exclamation marks, or behind the
only one, and whether there are two. -/
def readHandle (start : Mark) : Scan (List Char × Bool) := do
  if (← Scan.look 0) ≠ some '!' then Scan.fail start .tagMark
  Scan.skip
  let name ← Scan.takeWhile isNameChar
  if (← Scan.look 0) = some '!' then
    Scan.skip
    return (name, true)
  return (name, false)

/-- A handle between exclamation marks. -/
def handleText (name : List Char) : String := "!" ++ String.ofList name ++ "!"

/-- Reads a tag with the whole name in angle brackets. -/
def readVerbatim (start : Mark) : Scan WrittenTag := do
  Scan.skip
  Scan.skip
  let suffix ← readUri start none
  if (← Scan.look 0) ≠ some '>' then Scan.fail start .tagClose
  Scan.skip
  return ⟨"", suffix⟩

/-- Reads a tag with a handle, or with an exclamation mark in place of one, which alone is a tag too. -/
def readShort (start : Mark) : Scan WrittenTag := do
  match ← readHandle start with
  | (name, true) => return ⟨handleText name, ← readUri start none⟩
  | (name, false) =>
    let suffix ← readUri start (some name)
    return if suffix.isEmpty then ⟨"", "!"⟩ else ⟨"!", suffix⟩

def readTag : Scan WrittenTag := do
  let start ← Scan.mark
  let tag ← if (← Scan.look 1) = some '<' then readVerbatim start else readShort start
  if !(← Scan.endsWord 0) then Scan.fail start .blankMissing
  return tag

/-- Reads a part of a version, of at most two digits. -/
def readNumber (start : Mark) : Nat → Nat → Nat → Scan Nat
  | 0, _, _ => Scan.fail start .versionLength
  | fuel + 1, length, value => do
    match (← Scan.look 0).bind (Scalar.digit? 10) with
    | some d =>
      if length = 2 then Scan.fail start .versionLength
      Scan.skip
      readNumber start fuel (length + 1) (value * 10 + d)
    | none => if length = 0 then Scan.fail start .versionMissing else return value

def readVersion (start : Mark) : Scan Directive := do
  Scan.skipWhile isBlank
  let major ← readNumber start 4 0 0
  if (← Scan.look 0) ≠ some '.' then Scan.fail start .versionPoint
  Scan.skip
  return .version major (← readNumber start 4 0 0)

/-- Reads the handle of a family, and what the tags of the family start with. -/
def readFamily (start : Mark) : Scan Directive := do
  Scan.skipWhile isBlank
  let handle ← match ← readHandle start with
    | (name, true) => pure (handleText name)
    | (name, false) => if name.isEmpty then pure "!" else Scan.fail start .tagMark
  if !(← Scan.looksAt isBlank 0) then Scan.fail start .whitespaceMissing
  Scan.skipWhile isBlank
  let stem ← readUri start none
  if !(← Scan.endsWord 0) then Scan.fail start .blankMissing
  return .family handle stem

/-- Reads the directive that a percent sign starts, with the rest of its line. -/
def readDirective : Scan Directive := do
  let start ← Scan.mark
  Scan.skip
  let name ← Scan.takeWhile isNameChar
  if name.isEmpty then Scan.fail start .directiveName
  if !(← Scan.endsWord 0) then Scan.fail start .directiveNameEnd
  let directive ← match String.ofList name with
    | "YAML" => readVersion start
    | "TAG" => readFamily start
    | _ => Scan.fail start .directiveUnknown
  Scan.skipWhile isBlank
  if (← Scan.look 0) = some '#' then Scan.skipLine
  if !(← Scan.endsLine 0) then Scan.fail start .directiveEnd
  let _ ← Scan.takeBreak
  return directive

end Property

end IntScript.Yaml
