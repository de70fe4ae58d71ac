import Std.Data.TreeMap
import IntScript.Yaml.Block
import IntScript.Yaml.Comment
import IntScript.Yaml.Lexeme
import IntScript.Yaml.Plain
import IntScript.Yaml.Quotes

/-!
# Cutting a text into lexemes

A key of a mapping is only known for one when its colon is found, so what may turn out to be a key is
kept as a candidate; with the colon the lexemes that announce the key, and the block it may start, are
put in front of it. The colon has to stand on the line of the key and not too far away. Outside
brackets a block starts with an entry that stands further right than the block around it, and ends
with a line that does not reach its column.

Lexemes are cut out of the text on demand. Those asked for are always followed by two more, so a fault
shows a little ahead of the place where the reading stops.
-/

namespace IntScript.Yaml

/-- Something that may turn out to be a key: its number among the lexemes and its place. It is required
to be one if it stands in the column of the keys of a block. -/
structure Candidate where
  possible : Bool
  required : Bool
  number : Nat
  mark : Mark
  deriving DecidableEq, Repr

/-- The state of cutting: the lexemes not yet taken and the number of those taken, whether a key may
start here, the column of the block and those of the blocks around it, and a candidate for the block
and for each open bracket. The numbers that are `awaited` belong to lexemes in front of which something
may have to be put, each with the number of brackets open there. -/
structure Lexer where
  cursor : Cursor
  queue : List Placed
  taken : Nat
  started : Bool
  keyAllowed : Bool
  column : Int
  around : List Int
  keys : Array Candidate
  awaited : Std.TreeMap Nat Nat

/-- A step of cutting. -/
abbrev Lex (α : Type) := StateT Lexer (Except Fault) α

/-- The start of the text that some bytes stand for. -/
def Lexer.ofBytes (bs : List UInt8) : Lexer :=
  ⟨Cursor.ofBytes bs, [], 0, false, true, -1, [], #[⟨false, false, 0, ⟨0, 0, 0⟩⟩], ∅⟩

/-- How many brackets are open. -/
def Lexer.depth (l : Lexer) : Nat := l.keys.size - 1

/-- The number of the next lexeme. -/
def Lexer.next (l : Lexer) : Nat := l.taken + l.queue.length

namespace Lex

variable {α : Type}

/-- Goes on through the text. -/
def scan (s : Scan α) : Lex α := fun l =>
  match s l.cursor with
  | .ok (a, cursor) => .ok (a, { l with cursor })
  | .error f => .error f

def mark : Lex Mark := return (← get).cursor.mark

def inBrackets : Lex Bool := return (← get).depth ≠ 0

def push (lexeme : Lexeme) (line : Nat) : Lex Unit :=
  modify fun l => { l with queue := l.queue ++ [⟨lexeme, line⟩] }

/-- Puts a lexeme in front of the one with a number. -/
def insert (number : Nat) (lexeme : Lexeme) (line : Nat) : Lex Unit :=
  modify fun l => { l with queue := l.queue.insertIdx (number - l.taken) ⟨lexeme, line⟩ }

/-- Says whether a key may start at the place reached. -/
def allowKey (allowed : Bool) : Lex Unit := modify fun l => { l with keyAllowed := allowed }

/-- No longer waits for a lexeme. -/
def unawait (number : Nat) : Lex Unit :=
  modify fun l => { l with awaited := l.awaited.erase number }

/-! ## Candidates -/

/-- How many characters a key may take, its colon apart. -/
def keyLength : Nat := 1024

/-- May a candidate still turn out to be a key? Its colon has to stand on the same line. -/
def isOpen (k : Candidate) : Lex Bool := do
  let here ← mark
  if !k.possible then return false
  else if k.mark.line < here.line || k.mark.index + keyLength < here.index then
    if k.required then scan (Scan.fail k.mark .keyWithoutColon) else return false
  else return true

/-- Gives up the candidate at a depth. -/
def giveUp (depth : Nat) : Lex Unit :=
  modify fun l => { l with keys := l.keys.modify depth ({ · with possible := false }) }

/-- Gives up the innermost candidate, since something else follows it. -/
def dropKey : Lex Unit := do
  match (← get).keys.back? with
  | some k =>
    if k.possible then
      if k.required then scan (Scan.fail k.mark .keyWithoutColon)
      giveUp (← get).depth
      unawait k.number
  | none => return

/-- Makes what starts here a candidate. -/
def saveKey : Lex Unit := do
  let l ← get
  if l.keyAllowed then
    let here := l.cursor.mark
    let required := l.depth = 0 && l.column = here.column
    dropKey
    modify fun l =>
      { l with
        keys := l.keys.pop.push ⟨true, required, l.next, here⟩
        awaited := l.awaited.insert l.next l.depth }

/-! ## Blocks and brackets -/

/-- How deep brackets and blocks may be nested. -/
def maxDepth : Nat := 10000

/-- Starts a block at a column, unless the block there is is far enough right. -/
def enterBlock (column : Nat) (number? : Option Nat) (lexeme : Lexeme) (line : Nat) : Lex Unit := do
  let l ← get
  if l.depth = 0 && l.column < column then
    set { l with column := column, around := l.column :: l.around }
    if maxDepth < l.around.length + 1 then
      let here ← mark
      scan (Scan.fail here .depth)
    match number? with
    | some number => insert number lexeme line
    | none => push lexeme line

/-- Ends the blocks that stand further right than a column, `around` being the columns of those around
the innermost one. -/
def leaveFrom (column : Int) (line : Nat) : List Int → Lex Unit
  | [] => return
  | c :: around => do
    if column < (← get).column then
      push .blockEnd line
      modify fun l => { l with column := c, around }
      leaveFrom column line around

/-- Ends the blocks that stand further right than a column. -/
def leaveBlocks (column : Int) (line : Nat) : Lex Unit := do
  if !(← inBrackets) then leaveFrom column line (← get).around

/-- Takes a mark of one character. -/
def takeMark (lexeme : Lexeme) : Lex Unit := do
  let line := (← mark).line
  scan Scan.skip
  push lexeme line

def openMark (lexeme : Lexeme) : Lex Unit := do
  saveKey
  let here ← mark
  modify fun l => { l with keys := l.keys.push ⟨false, false, l.next, here⟩ }
  if maxDepth < (← get).depth then scan (Scan.fail here .depth)
  allowKey true
  takeMark lexeme

def closeMark (lexeme : Lexeme) : Lex Unit := do
  dropKey
  if ← inBrackets then
    match (← get).keys.back? with
    | some k => unawait k.number
    | none => pure ()
    modify fun l => { l with keys := l.keys.pop }
  allowKey false
  takeMark lexeme

/-! ## Lexemes -/

def endText : Lex Unit := do
  modify fun l =>
    if l.cursor.mark.column = 0 then l
    else
      { l with
        cursor.mark := { l.cursor.mark with line := l.cursor.mark.line + 1, column := 0 } }
  let line := (← mark).line
  leaveBlocks (-1) line
  dropKey
  allowKey false
  push .textEnd line

/-- Something that stands outside every document or ends one. -/
def outside (lexeme : Scan Lexeme) : Lex Unit := do
  let line := (← mark).line
  leaveBlocks (-1) line
  dropKey
  allowKey false
  push (← scan lexeme) line

/-- A line that separates documents. -/
def separator (lexeme : Lexeme) : Scan Lexeme := do
  Scan.skip
  Scan.skip
  Scan.skip
  return lexeme

/-- The comma between two entries in brackets. -/
def commaMark : Lex Unit := do
  dropKey
  allowKey true
  takeMark .comma

/-- The dash in front of an entry of a block. -/
def dashMark : Lex Unit := do
  if !(← inBrackets) then
    let here ← mark
    if !(← get).keyAllowed then scan (Scan.fail here .entryNotAllowed)
    enterBlock here.column none .blockSequence here.line
  dropKey
  allowKey true
  takeMark .dash

/-- The question mark in front of a key. -/
def keyMark : Lex Unit := do
  if !(← inBrackets) then
    let here ← mark
    if !(← get).keyAllowed then scan (Scan.fail here .keyNotAllowed)
    enterBlock here.column none .blockMapping here.line
  dropKey
  allowKey (!(← inBrackets))
  takeMark .key

/-- A colon with a key in front that shows only by it. -/
def afterKey (k : Candidate) : Lex Unit := do
  insert k.number .key k.mark.line
  enterBlock k.mark.column (some k.number) .blockMapping k.mark.line
  giveUp (← get).depth
  unawait k.number
  allowKey false

/-- A colon without such a key. -/
def withoutKey : Lex Unit := do
  giveUp (← get).depth
  if !(← inBrackets) then
    let here ← mark
    if !(← get).keyAllowed then scan (Scan.fail here .valueNotAllowed)
    enterBlock here.column none .blockMapping here.line
  allowKey (!(← inBrackets))

/-- The colon in front of a value. -/
def valueMark : Lex Unit := do
  match (← get).keys.back? with
  | some k => if ← isOpen k then afterKey k else withoutKey
  | none => withoutKey
  takeMark .value

/-- Something that may be a key, and behind which none starts. -/
def item (lexeme : Scan Lexeme) : Lex Unit := do
  saveKey
  let line := (← mark).line
  allowKey false
  push (← scan lexeme) line

/-- A plain scalar. After a line end behind it a key may start. -/
def plainScalar : Lex Unit := do
  saveKey
  let line := (← mark).line
  allowKey false
  let l ← get
  let (text, broken) ← scan (Plain.read (l.depth ≠ 0) (l.column + 1).toNat)
  if broken then allowKey true
  push (.scalar true (String.ofList text)) line

def blockScalar (folded : Bool) : Lex Unit := do
  dropKey
  allowKey true
  let line := (← mark).line
  let text ← scan (Block.read folded (← get).column)
  push (.scalar false (String.ofList text)) line

def quotedScalar (quote : Char) : Scan Lexeme :=
  return .scalar false (String.ofList (← Quotes.read quote))

/-- Passes what has no meaning. A tab may not stand where a key may start. -/
def skipGap : Nat → Lex Unit
  | 0 => return
  | fuel + 1 => do
    scan (Scan.ensure 1)
    let l ← get
    if l.cursor.mark.column = 0 && l.cursor.input.marked then scan Scan.skip
    let tabs := l.depth ≠ 0 || !l.keyAllowed
    scan (Scan.skipWhile fun c => c = ' ' || (tabs && c = '\t'))
    if (← scan (Scan.look 0)) = some '#' then scan (Comment.skipAll l.cursor.size)
    if ← scan (Scan.looksAt isBreak 0) then
      let _ ← scan Scan.takeBreak
      if l.depth = 0 then allowKey true
      skipGap fuel

/-- The lexeme that a character starts, inside a document. -/
def inside (c : Char) : Lex Unit := do
  let ends ← scan (Scan.endsWord 1)
  let flow ← inBrackets
  match c with
  | '[' => openMark .openBracket
  | '\x7b' => openMark .openBrace
  | ']' => closeMark .closeBracket
  | '\x7d' => closeMark .closeBrace
  | ',' => commaMark
  | '*' => item (return .reference (← Property.readName))
  | '&' => item (return .anchor (← Property.readName))
  | '!' => item (return .tag (← Property.readTag))
  | '\'' | '"' => item (quotedScalar c)
  | _ =>
    if c = '?' && (flow || ends) then keyMark
    else if c = ':' && (flow || ends) then valueMark
    else if c = '|' && !flow then blockScalar false
    else if c = '>' && !flow then blockScalar true
    else if ← scan (Plain.starts flow) then plainScalar
    else
      let here ← mark
      scan (Scan.fail here .tokenStart)

/-- Cuts out one more lexeme. -/
def step : Lex Unit := do
  scan (Scan.ensure 1)
  if !(← get).started then
    modify fun l => { l with started := true }
    push .textStart 0
  else
    let before := (← mark).line
    skipGap ((← get).cursor.size + 1)
    let here ← mark
    leaveBlocks here.column before
    scan (Scan.ensure 4)
    match ← scan (Scan.look 0) with
    | none => endText
    | some c =>
      if here.column = 0 && c = '%' then outside (return .directive (← Property.readDirective))
      else if ← scan (Scan.isSeparator '-') then outside (separator .documentStart)
      else if ← scan (Scan.isSeparator '.') then outside (separator .documentEnd)
      else if c = '-' && (← scan (Scan.endsWord 1)) then dashMark
      else
        inside c
        scan Comment.skipOnLine

/-- May something still have to be put in front of the next lexeme? -/
def isAwaited : Lex Bool := do
  let l ← get
  match l.awaited[l.taken]?.bind fun depth => l.keys[depth]?.map (depth, ·) with
  | none => return false
  | some (depth, k) =>
    if ← isOpen k then return true
    giveUp depth
    return false

/-- Cuts out lexemes until the next one is certain and followed by two more. -/
def fill : Nat → Lex Unit
  | 0 => return
  | fuel + 1 => do
    let wanting ← if Input.hasLength 3 (← get).queue then isAwaited else pure true
    if wanting then
      step
      fill fuel

def peek : Lex Placed := do
  fill ((← get).cursor.size + 8)
  return (← get).queue.headD ⟨.textEnd, 0⟩

def advance : Lex Unit := modify fun l => { l with queue := l.queue.tail, taken := l.taken + 1 }

end Lex

end IntScript.Yaml
