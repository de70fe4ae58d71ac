import IntScript.Yaml.Lexer
import IntScript.Yaml.Node

/-!
# Reading documents

Lexemes are put together to nodes. In a block the entries of a mapping may hold a sequence whose
dashes stand in the column of its keys. Between brackets an entry of a sequence may be a mapping of
one key. Where a node is left out, one that stands for nothing takes its place.

Only the first document of a text is read. The readers take fuel; each of them uses a lexeme for every
few units, and there are at most a few lexemes for each character, so `document?` gives them enough.
-/

namespace IntScript.Yaml

/-- The state of reading: the lexemes, what the tags of each family start with, the last anchor of
each name, the nodes with anchors that are complete, and how many anchors and aliases were read. -/
structure Composer where
  lexer : Lexer
  families : List (String × String)
  anchors : List (String × Nat)
  anchored : List (Nat × Yaml)
  count : Nat

/-- A step of reading. -/
abbrev Compose (α : Type) := StateT Composer (Except Fault) α

namespace Compose

variable {α : Type}

def lex (s : Lex α) : Compose α := fun c =>
  match s c.lexer with
  | .ok (a, lexer) => .ok (a, { c with lexer })
  | .error f => .error f

def peek : Compose Placed := lex Lex.peek

def advance : Compose Unit := lex Lex.advance

/-- Fails because of the lexeme `found` in a construct that starts on the line `context`. -/
def refuse (context : Nat) (found : Placed) (p : Problem) : Compose α :=
  throw ⟨Fault.lineOf? context found.line, p⟩

/-- A number for an anchor or an alias. -/
def number : Compose Nat := do
  let c ← get
  set { c with count := c.count + 1 }
  return c.count

/-! ## Tags and anchors -/

/-- What the tags of the format itself start with. -/
def tagStem : String := "tag:yaml.org,2002:"

/-- A tag of the format itself is written with two exclamation marks. -/
def shortTag (tag : String) : String :=
  if tagStem.toList.isPrefixOf tag.toList then
    "!!" ++ String.ofList (tag.toList.drop tagStem.length)
  else tag

/-- The properties in front of a node, and the line they start on. -/
structure Properties where
  line : Nat
  anchor? : Option String
  tag? : Option (WrittenTag × Nat)

def readAnchor : Compose (Option String) := do
  match (← peek).lexeme with
  | .anchor name =>
    advance
    return some name
  | _ => return none

/-- Reads the tag in front of a node, with its line. -/
def readTag : Compose (Option (WrittenTag × Nat)) := do
  let found ← peek
  match found.lexeme with
  | .tag t =>
    advance
    return some (t, found.line)
  | _ => return none

/-- Reads the properties in front of a node, in either order. -/
def readProperties : Compose Properties := do
  let line := (← peek).line
  match ← readAnchor with
  | some name => return ⟨line, some name, ← readTag⟩
  | none =>
    match ← readTag with
    | some tag => return ⟨line, ← readAnchor, some tag⟩
    | none => return ⟨line, none, none⟩

/-- The whole tag in the properties; one that says nothing counts as none. -/
def Properties.tag (p : Properties) : Compose (Option String) := do
  match p.tag? with
  | none => return none
  | some (t, line) =>
    if t.handle.isEmpty then
      return if t.suffix = "!" then none else some (shortTag t.suffix)
    else
      match (← get).families.lookup t.handle with
      | some stem => return if stem ++ t.suffix = "!" then none else some (shortTag (stem ++ t.suffix))
      | none => refuse p.line ⟨.tag t, line⟩ .handleUnknown

/-- Notes an anchor, from now on the last one of its name. -/
def noteAnchor (p : Properties) : Compose (Option Nat) := do
  match p.anchor? with
  | none => return none
  | some name =>
    let n ← number
    modify fun c => { c with anchors := (name, n) :: c.anchors }
    return some n

/-- Keeps a node that is complete under its anchor. -/
def complete (anchor? : Option Nat) (node : Yaml) : Compose Yaml := do
  match anchor? with
  | some n => modify fun c => { c with anchored := (n, node) :: c.anchored }
  | none => pure ()
  return node

/-- Reads an alias of a node, which has to have been started. -/
def readAlias (line : Nat) (name : String) : Compose Yaml := do
  advance
  match (← get).anchors.lookup name with
  | some anchor => return .reference (line + 1) name anchor (← number)
  | none => throw ⟨none, .anchorUnknown name⟩

/-! ## Nodes -/

/-- The node that stands for nothing before a lexeme. -/
def missingBefore (found : Placed) : Yaml := .missing (found.line + 1)

/-- Is there no node in an entry of a block mapping, because of what comes next? -/
def endsBlockEntry (l : Lexeme) : Bool := l = .key || l = .value || l = .blockEnd

mutual

/-- Reads a node. Blocks may stand only where `block` allows them, and a sequence in the column of its
key only where `inKeyColumn` does. -/
def node : Nat → Bool → Bool → Compose Yaml
  | 0, _, _ => do refuse 0 (← peek) .nodeContent
  | fuel + 1, block, inKeyColumn => do
    let found ← peek
    match found.lexeme with
    | .reference name => readAlias found.line name
    | _ =>
      let properties ← readProperties
      let found ← peek
      let tag? ← properties.tag
      let line := properties.line + 1
      match found.lexeme with
      | .scalar plain text =>
        let anchor? ← noteAnchor properties
        advance
        complete anchor? (.scalar line (tag?.getD (scalarTag plain text)) text)
      | .openBracket =>
        let anchor? ← noteAnchor properties
        advance
        let items ← bracketItems fuel found.line true []
        complete anchor? (.sequence line (tag?.getD sequenceTag) items)
      | .openBrace =>
        let anchor? ← noteAnchor properties
        advance
        let entries ← braceEntries fuel found.line true []
        complete anchor? (.mapping line (tag?.getD mappingTag) entries)
      | l =>
        if inKeyColumn && l = .dash then
          let anchor? ← noteAnchor properties
          let items ← keyColumnItems fuel []
          complete anchor? (.sequence line (tag?.getD sequenceTag) items)
        else if block && l = .blockSequence then
          let anchor? ← noteAnchor properties
          advance
          let items ← blockItems fuel found.line []
          complete anchor? (.sequence line (tag?.getD sequenceTag) items)
        else if block && l = .blockMapping then
          let anchor? ← noteAnchor properties
          advance
          let entries ← blockEntries fuel found.line []
          complete anchor? (.mapping line (tag?.getD mappingTag) entries)
        else if properties.anchor?.isSome || properties.tag?.isSome then
          let anchor? ← noteAnchor properties
          complete anchor? (.scalar line (tag?.getD Resolved.null.tag) "")
        else refuse properties.line found .nodeContent

/-- Reads the items of a block sequence that starts on the line `context`. -/
def blockItems : Nat → Nat → List Yaml → Compose (List Yaml)
  | 0, context, _ => do refuse context (← peek) .dashMissing
  | fuel + 1, context, done => do
    let found ← peek
    match found.lexeme with
    | .dash =>
      advance
      let next ← peek
      let item ←
        if next.lexeme = .dash || next.lexeme = .blockEnd then pure (missingBefore found)
        else node fuel true false
      blockItems fuel context (done ++ [item])
    | .blockEnd =>
      advance
      return done
    | _ => refuse context found .dashMissing

/-- Reads the items of a sequence in the column of its key. -/
def keyColumnItems : Nat → List Yaml → Compose (List Yaml)
  | 0, done => return done
  | fuel + 1, done => do
    let found ← peek
    if found.lexeme = .dash then
      advance
      let next ← peek
      let item ←
        if next.lexeme = .dash || endsBlockEntry next.lexeme then pure (missingBefore found)
        else node fuel true false
      keyColumnItems fuel (done ++ [item])
    else return done

/-- Reads the entries of a block mapping that starts on the line `context`. -/
def blockEntries : Nat → Nat → List (Yaml × Yaml) → Compose (List (Yaml × Yaml))
  | 0, context, _ => do refuse context (← peek) .keyMissing
  | fuel + 1, context, done => do
    let found ← peek
    match found.lexeme with
    | .key =>
      advance
      let next ← peek
      let key ← if endsBlockEntry next.lexeme then pure (missingBefore found) else node fuel true true
      let value ← blockValue fuel
      blockEntries fuel context (done ++ [(key, value)])
    | .blockEnd =>
      advance
      return done
    | _ => refuse context found .keyMissing

def blockValue : Nat → Compose Yaml
  | 0 => return missingBefore (← peek)
  | fuel + 1 => do
    let found ← peek
    if found.lexeme = .value then
      advance
      let next ← peek
      if endsBlockEntry next.lexeme then return missingBefore found else node fuel true true
    else return missingBefore found

/-- Reads the items of a sequence in brackets that starts on the line `context`. -/
def bracketItems : Nat → Nat → Bool → List Yaml → Compose (List Yaml)
  | 0, context, _, _ => do refuse context (← peek) .sequenceSeparator
  | fuel + 1, context, first, done => do
    let found ← peek
    if found.lexeme = .closeBracket then
      advance
      return done
    else
      if !first then
        if found.lexeme = .comma then advance else refuse context found .sequenceSeparator
      let found ← peek
      match found.lexeme with
      | .closeBracket =>
        advance
        return done
      | .key =>
        advance
        let key ← bracketKey fuel
        let value ← bracketValue fuel .closeBracket
        let _ ← peek
        let item := .mapping (found.line + 1) mappingTag [(key, value)]
        bracketItems fuel context false (done ++ [item])
      | _ => bracketItems fuel context false (done ++ [← node fuel false false])

/-- Reads the key of a mapping that is an item in brackets. A key that is left out takes the place of
the mark behind it. -/
def bracketKey : Nat → Compose Yaml
  | 0 => return missingBefore (← peek)
  | fuel + 1 => do
    let found ← peek
    if found.lexeme ∈ [.value, .comma, .closeBracket] then
      advance
      return missingBefore found
    else node fuel false false

/-- Reads the value of an entry in brackets, which the bracket `closer` closes. -/
def bracketValue : Nat → Lexeme → Compose Yaml
  | 0, _ => return missingBefore (← peek)
  | fuel + 1, closer => do
    let found ← peek
    if found.lexeme = .value then
      advance
      let next ← peek
      if next.lexeme = .comma || next.lexeme = closer then return missingBefore next
      else node fuel false false
    else return missingBefore found

/-- Reads the entries of a mapping in braces that starts on the line `context`. -/
def braceEntries : Nat → Nat → Bool → List (Yaml × Yaml) → Compose (List (Yaml × Yaml))
  | 0, context, _, _ => do refuse context (← peek) .mappingSeparator
  | fuel + 1, context, first, done => do
    let found ← peek
    if found.lexeme = .closeBrace then
      advance
      return done
    else
      if !first then
        if found.lexeme = .comma then advance else refuse context found .mappingSeparator
      let found ← peek
      match found.lexeme with
      | .closeBrace =>
        advance
        return done
      | .key =>
        advance
        let next ← peek
        let key ←
          if next.lexeme ∈ [.value, .comma, .closeBrace] then pure (missingBefore next)
          else node fuel false false
        let value ← bracketValue fuel .closeBrace
        braceEntries fuel context false (done ++ [(key, value)])
      | _ =>
        let key ← node fuel false false
        let next ← peek
        braceEntries fuel context false (done ++ [(key, missingBefore next)])

end

/-! ## Documents -/

/-- The families of tags that are there without being announced. -/
def standardFamilies : List (String × String) := [("!", "!"), ("!!", tagStem)]

/-- Reads the directives in front of a document, `version` saying whether there was one with the
version of the format. -/
def directives : Nat → Bool → Compose Unit
  | 0, _ => return
  | fuel + 1, version => do
    let found ← peek
    match found.lexeme with
    | .directive (.version major minor) =>
      if version then refuse 0 found .versionTwice
      if major ≠ 1 || minor ≠ 1 then refuse 0 found .versionUnsupported
      advance
      directives fuel true
    | .directive (.family handle stem) =>
      if ((← get).families.lookup handle).isSome then refuse 0 found .handleTwice
      modify fun c => { c with families := (handle, stem) :: c.families }
      advance
      directives fuel version
    | _ => modify fun c => { c with families := c.families ++ standardFamilies }

/-- Does a lexeme stand outside every document or end one? -/
def isOutside : Lexeme → Bool
  | .directive _ | .documentStart | .documentEnd | .textEnd => true
  | _ => false

/-- Reads the root of the first document, or nothing if there is none. -/
def readRoot (fuel : Nat) : Compose (Option Yaml) := do
  let _ ← peek
  advance
  let found ← peek
  if found.lexeme = .textEnd then return none
  directives fuel false
  if isOutside found.lexeme && found.lexeme ≠ .documentEnd then
    let found ← peek
    if found.lexeme ≠ .documentStart then refuse 0 found .documentStart
    advance
    let next ← peek
    if isOutside next.lexeme then return some (missingBefore next)
  return some (← node fuel true false)

/-- Reads the first document, with what shows that it has ended. -/
def readDocument (fuel : Nat) : Compose (Option Document) := do
  match ← readRoot fuel with
  | none => return none
  | some root =>
    let _ ← peek
    return some ⟨root, (← get).anchored⟩

end Compose

/-- The first document of a text given by its bytes, if there is one. -/
def document? (bs : List UInt8) : Except Fault (Option Document) :=
  (Compose.readDocument (8 * bs.length + 64) ⟨Lexer.ofBytes bs, [], [], [], 0⟩).map (·.1)

end IntScript.Yaml
