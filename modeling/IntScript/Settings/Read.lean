import IntScript.Settings.Validate
import IntScript.Yaml.Reader

/-!
# Settings from a document

A document is a mapping from the names of settings to their values. A setting that is left out, or
that stands for nothing, keeps its default; the reserved words replace the default ones all together.
A mapping may take over entries of others, which count only if it has none of that name itself.
Values of the wrong type are collected over the whole document, and come before any other fault.
-/

namespace IntScript

/-- What a value is wanted for. -/
inductive Target where
  | int
  | bool
  | string
  | table
  | settings
  deriving DecidableEq, Repr

/-- The name of a target in messages. -/
def Target.name : Target → String
  | .int => "int"
  | .bool => "bool"
  | .string => "string"
  | .table => "map[string]string"
  | .settings => "config.Config"

/-- Why a node of a document cannot be used. -/
inductive TypeFault where
  | value (line : Nat) (tag text : String) (target : Target)
  | unknownField (line : Nat) (name : String)
  | repeatedField (line : Nat) (name : String)
  | duplicateKey (line : Nat) (key : String) (firstLine : Nat)
  deriving DecidableEq, Repr

namespace TypeFault

/-- The text of a scalar as messages show it: of more than ten bytes only the first seven. -/
def excerpt (text : String) : String :=
  let bytes := Text.Utf8.bytes text
  if 10 < bytes.length then Text.Utf8.text (bytes.take 7) ++ "..." else text

/-- The text of a node with a tag as messages show it. With the tag of a collection it is not quoted. -/
def shown (tag text : String) : String :=
  if tag = Yaml.sequenceTag ∨ tag = Yaml.mappingTag then text else s!" `{excerpt text}`"

def message : TypeFault → String
  | .value line tag text target =>
    s!"line {line.repr}: cannot unmarshal {tag}{shown tag text} into {target.name}"
  | .unknownField line name =>
    s!"line {line.repr}: field {name} not found in type {Target.settings.name}"
  | .repeatedField line name =>
    s!"line {line.repr}: field {name} already set in type {Target.settings.name}"
  | .duplicateKey line key first =>
    s!"line {line.repr}: mapping key {Text.Quoted.string key} already defined at line {first.repr}"

/-- The text of all faults together. -/
def summary (faults : List TypeFault) : String :=
  "yaml: unmarshal errors:\n  " ++ "\n  ".intercalate (faults.map message)

end TypeFault

/-- Why settings could not be read. -/
inductive SettingsError where
  | document (fault : Yaml.Fault)
  | types (faults : List TypeFault)
  | invalid (faults : List SettingsFault)
  deriving DecidableEq, Repr

def SettingsError.message : SettingsError → String
  | .document fault => fault.message
  | .types faults => TypeFault.summary faults
  | .invalid faults => SettingsFault.summary faults

/-- A step of reading values from nodes, which notes values of the wrong type and goes on. -/
abbrev Decode (α : Type) := StateT (List TypeFault) (Except Yaml.Fault) α

namespace Decode

/-- Notes a value of the wrong type. -/
def note (f : TypeFault) : Decode Unit := modify (· ++ [f])

def fail {α : Type} (p : Yaml.Problem) : Decode α := throw ⟨none, p⟩

end Decode

/-- Where a node is read: the nodes that aliases refer to, and the aliases that led here. -/
structure Surroundings where
  anchored : List (Nat × Yaml)
  followed : List Nat

namespace Surroundings

/-- The node that a node or an alias stands for. An alias must not lead to itself. -/
def follow (around : Surroundings) : Yaml → Decode (Surroundings × Yaml)
  | .reference _ name anchor number =>
    if number ∈ around.followed then Decode.fail (.anchorInItself name)
    else
      match around.anchored.lookup anchor with
      | some node => return ({ around with followed := number :: around.followed }, node)
      | none => Decode.fail (.anchorUnknown name)
  | node => return (around, node)

/-- Does a node stand for nothing? -/
def isNull (around : Surroundings) : Yaml → Bool
  | .scalar _ tag _ => tag = Yaml.Resolved.null.tag
  | .reference _ _ anchor _ =>
    match around.anchored.lookup anchor with
    | some (.scalar _ tag _) => tag = Yaml.Resolved.null.tag
    | _ => false
  | _ => false

end Surroundings

namespace Settings

/-! ## Keys -/

/-- Are two keys spelled alike? Keys that are collections count as spelled alike. -/
def sameKey : Yaml → Yaml → Bool
  | .scalar _ _ a, .scalar _ _ b => a = b
  | .reference _ a _ _, .reference _ b _ _ => a = b
  | .sequence .., .sequence .. => true
  | .mapping .., .mapping .. => true
  | _, _ => false

def keyText : Yaml → String
  | .scalar _ _ text => text
  | .reference _ name _ _ => name
  | _ => ""

/-- The keys of a mapping that were there before. -/
def duplicates : List (Yaml × Yaml) → List TypeFault
  | [] => []
  | (key, _) :: rest =>
    (rest.filter fun e => sameKey key e.1).map (fun e =>
      .duplicateKey e.1.line (keyText e.1) key.line) ++ duplicates rest

/-! ## Scalars -/

/-- The value of a node that has to be a scalar. Of a mapping, keys that are there twice are noted
instead of its being one. -/
def ofScalar {α : Type} (target : Target) (value? : Yaml.Resolved → String → Option α)
    (around : Surroundings) (node : Yaml) : Decode (Option α) := do
  match (← around.follow node).2 with
  | .scalar line tag text =>
    match Yaml.Scalar.read tag text with
    | .error p => Decode.fail p
    | .ok .null => return none
    | .ok resolved =>
      match value? resolved text with
      | some a => return some a
      | none =>
        Decode.note (.value line tag text target)
        return none
  | .sequence line tag _ =>
    Decode.note (.value line tag "" target)
    return none
  | .mapping line tag entries =>
    match duplicates entries with
    | [] => Decode.note (.value line tag "" target)
    | faults => faults.forM Decode.note
    return none
  | .reference .. => return none

/-- A whole number; one with a fraction loses it. -/
def readInt : Surroundings → Yaml → Decode (Option Int64) :=
  ofScalar .int fun resolved _ =>
    match resolved with
    | .int n => Text.Decimal.toInt64? n
    | .float d => d.toInt64?
    | _ => none

/-- A truth value, for which there are further words. -/
def readBool : Surroundings → Yaml → Decode (Option Bool) :=
  ofScalar .bool fun resolved _ =>
    match resolved with
    | .bool b => some b
    | .text s =>
      if s ∈ ["y", "Y", "yes", "Yes", "YES", "on", "On", "ON"] then some true
      else if s ∈ ["n", "N", "no", "No", "NO", "off", "Off", "OFF"] then some false
      else none
    | _ => none

/-- A text; every scalar is one. -/
def readString : Surroundings → Yaml → Decode (Option String) :=
  ofScalar .string fun resolved text =>
    match resolved with
    | .text s => some s
    | _ => some text

/-! ## Mappings -/

/-- What an entry of a mapping does to a value: given where it is read, the names before it in the
mapping, its name, the line of its key, and its own value. -/
abbrev Entry (σ : Type) := Surroundings → List String → String → Nat → Yaml → σ → Decode σ

/-- Reads the entries of a mapping one after the other; a key that stands for nothing is passed over.
If the entries are taken over, `taken?` has the names that do not count any more. -/
def readEntries {σ : Type} (entry : Entry σ) (around : Surroundings) :
    List String → Option (List String) → σ → List (Yaml × Yaml) → Decode (Option (List String) × σ)
  | _, taken?, s, [] => return (taken?, s)
  | before, taken?, s, (key, value) :: rest => do
    if key.isMerge then readEntries entry around before taken? s rest
    else
      match ← readString around key with
      | none => readEntries entry around before taken? s rest
      | some name =>
        if taken?.any (name ∈ ·) then readEntries entry around before taken? s rest
        else
          let s ← entry around before name key.line value s
          readEntries entry around (name :: before) (taken?.map (name :: ·)) s rest

/-- The names of the entries of a mapping that are texts. -/
def namesOf (around : Surroundings) : List (Yaml × Yaml) → Decode (List String)
  | [] => return []
  | (key, _) :: rest => do
    let names ← namesOf around rest
    match (← around.follow key).2 with
    | .scalar _ tag text =>
      match Yaml.Scalar.read tag text with
      | .ok (.text s) => return s :: names
      | _ => return names
    | _ => return names

/-- The value of the key that stands for the entries of other mappings. -/
def mergeValue? (entries : List (Yaml × Yaml)) : Option Yaml :=
  ((entries.filter (·.1.isMerge)).getLast?).map (·.2)

/-- The mappings whose entries are taken over: one, or those in a sequence. -/
def sources : Yaml → List Yaml
  | .sequence _ _ items => items
  | node => [node]

/-- Reads a mapping, and after its own entries those it takes over. Only the latter use fuel. -/
def readMapping {σ : Type} (entry : Entry σ) :
    Nat → Surroundings → Option (List String) → σ → List (Yaml × Yaml) →
      Decode (Option (List String) × σ)
  | 0, _, _, _, _ => Decode.fail .mergeKind
  | fuel + 1, around, taken?, s, entries => do
    match duplicates entries with
    | [] =>
      let (taken?, s) ← readEntries entry around [] taken? s entries
      match mergeValue? entries with
      | none => return (taken?, s)
      | some value =>
        let taken ← match taken? with
          | some names => pure names
          | none => namesOf around entries
        let (taken, s) ← (sources value).foldlM (fun (taken, s) source => do
          match ← around.follow source with
          | (around, .mapping _ _ entries) =>
            let (taken?, s) ← readMapping entry fuel around (some taken) s entries
            return (taken?.getD taken, s)
          | _ => Decode.fail .mergeKind) (taken, s)
        return (taken?.map fun _ => taken, s)
    | faults =>
      faults.forM Decode.note
      return (taken?, s)

/-- A reserved word. A word without a use has the empty use, unless another mapping gave it one. -/
def wordEntry : Entry (Bindings String) := fun around before word _ value words => do
  match ← readString around value with
  | some use => return words.set word use
  | none =>
    if around.isNull value && ((words.get? word).isNone || word ∈ before) then
      return words.set word ""
    else return words

def readTable (fuel : Nat) (around : Surroundings) (node : Yaml) :
    Decode (Option (Bindings String)) := do
  match ← around.follow node with
  | (around, .mapping _ _ entries) =>
    return some (← readMapping wordEntry fuel around none ∅ entries).2
  | _ => ofScalar .table (fun _ _ => none) around node

def fieldNames : List String :=
  ["keywords", "max_call_depth", "function_calls", "log_level", "color", "max_source_bytes"]

/-- One setting. It must not be there before. -/
def fieldEntry (fuel : Nat) : Entry Settings := fun around before name line value s => do
  if name ∉ fieldNames then
    Decode.note (.unknownField line name)
    return s
  else if name ∈ before then
    Decode.note (.repeatedField line name)
    return s
  else
    match name with
    | "keywords" => return { s with keywords := (← readTable fuel around value).getD s.keywords }
    | "max_call_depth" => return { s with maxCallDepth := (← readInt around value).getD s.maxCallDepth }
    | "function_calls" =>
      return { s with functionCalls := (← readBool around value).getD s.functionCalls }
    | "log_level" => return { s with logLevel := (← readString around value).getD s.logLevel }
    | "color" => return { s with color := (← readString around value).getD s.color }
    | "max_source_bytes" =>
      return { s with maxSourceBytes := (← readInt around value).getD s.maxSourceBytes }
    | _ => return s

/-- The settings of a document, over the defaults. -/
def ofDocument (fuel : Nat) (d : Yaml.Document) : Decode Settings := do
  let around : Surroundings := ⟨d.anchored, []⟩
  match d.root with
  | .mapping _ _ entries => return (← readMapping (fieldEntry fuel) fuel around none default entries).2
  | node => return (← ofScalar .settings (fun _ _ => none) around node).getD default

/-- The settings of a text given by its bytes. Taking over entries leads through fewer mappings than
there are bytes between two aliases, and through each alias once, so the fuel is enough. -/
def read (bs : List UInt8) : Except SettingsError Settings := do
  let document? ← (Yaml.document? bs).mapError .document
  let (s, faults) ←
    match document? with
    | none => pure (default, [])
    | some d => (ofDocument ((bs.length + 1) * (bs.length + 1)) d []).mapError .document
  if faults ≠ [] then throw (.types faults)
  else if s.faults ≠ [] then throw (.invalid s.faults)
  else return s

end Settings

end IntScript
