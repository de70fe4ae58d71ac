import IntScript.Settings.Basic
import IntScript.Text.Letter

/-!
# Valid settings

Settings are checked as a whole: every fault is reported, those of the reserved words first and in
the order of the words.
-/

namespace IntScript

/-- A setting that cannot be used. -/
inductive SettingsFault where
  | notWord (word : String)
  | unknownUse (word use : String)
  | callDepth (n : Int64)
  | logLevel (name : String)
  | color (name : String)
  | sourceBytes (n : Int64)
  deriving DecidableEq, Repr

def SettingsFault.message : SettingsFault → String
  | .notWord word => s!"keyword {Text.Quoted.string word}: must be a non-empty run of letters"
  | .unknownUse word use => s!"keyword {Text.Quoted.string word}: {Keywords.unknownUse use}"
  | .callDepth n => s!"max_call_depth: must be at least 1, got {Text.Decimal.ofInt64 n}"
  | .logLevel name => s!"log_level: unknown level {Text.Quoted.string name}"
  | .color name => s!"color: want auto, always or never, got {Text.Quoted.string name}"
  | .sourceBytes n => s!"max_source_bytes: must be positive, got {Text.Decimal.ofInt64 n}"

def SettingsFault.summary (faults : List SettingsFault) : String :=
  let count := if faults.length = 1 then "1 error" else s!"{faults.length.repr} errors"
  let list := "\n\t".intercalate (faults.map fun f => s!"* {f.message}")
  s!"{count} occurred:\n\t{list}\n\n"

namespace Settings

/-- A word that the scanner cuts out as one token: letters, and at least one of them. -/
def isWord (word : String) : Bool := word.toList ≠ [] && word.toList.all Text.isLetter

def wordFaults (entry : String × String) : List SettingsFault :=
  (if isWord entry.1 then [] else [.notWord entry.1]) ++
    (if (Keywords.uses.get? entry.2).isSome then [] else [.unknownUse entry.1 entry.2])

def faults (s : Settings) : List SettingsFault :=
  s.keywords.entries.flatMap wordFaults ++
    (if s.maxCallDepth < 1 then [.callDepth s.maxCallDepth] else []) ++
    (if (LogLevel.ofName? s.logLevel).isSome then [] else [.logLevel s.logLevel]) ++
    (if s.color ∈ ["auto", "always", "never"] then [] else [.color s.color]) ++
    (if s.maxSourceBytes < 1 then [.sourceBytes s.maxSourceBytes] else [])

end Settings

end IntScript
