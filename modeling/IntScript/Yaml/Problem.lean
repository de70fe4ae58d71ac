/-!
# Faults of documents

Why a text is no document. Some problems show while bytes are read as characters, some while the
text is cut into words and marks, some while these are put together, and some while a node is read
as a value. A fault is a problem and the line it is reported on.
-/

namespace IntScript.Yaml

/-- What is wrong with a text. -/
inductive Problem where
  | leadingByte
  | incompleteUtf8
  | trailingByte
  | overlongUtf8
  | noCharacter
  | incompleteUtf16
  | loneLowSurrogate
  | incompletePair
  | noLowSurrogate
  | controlCharacter
  | tokenStart
  | keyWithoutColon
  | depth
  | entryNotAllowed
  | keyNotAllowed
  | valueNotAllowed
  | directiveName
  | directiveEnd
  | directiveUnknown
  | directiveNameEnd
  | versionPoint
  | versionLength
  | versionMissing
  | whitespaceMissing
  | blankMissing
  | anchorName
  | tagClose
  | tagMark
  | tagUri
  | uriEscape
  | uriLead
  | uriTrail
  | indentationZero
  | lineEndMissing
  | tabBeforeBlock
  | separatorInQuotes
  | endInQuotes
  | escapeUnknown
  | escapeDigits
  | escapeCharacter
  | tabBeforePlain
  | documentStart
  | versionTwice
  | versionUnsupported
  | handleTwice
  | handleUnknown
  | nodeContent
  | dashMissing
  | keyMissing
  | sequenceSeparator
  | mappingSeparator
  | anchorUnknown (name : String)
  | anchorInItself (name : String)
  | base64
  | mergeKind
  | tagMismatch (found text wanted : String)
  deriving DecidableEq, Repr

def Problem.text : Problem → String
  | .leadingByte => "invalid leading UTF-8 octet"
  | .incompleteUtf8 => "incomplete UTF-8 octet sequence"
  | .trailingByte => "invalid trailing UTF-8 octet"
  | .overlongUtf8 => "invalid length of a UTF-8 sequence"
  | .noCharacter => "invalid Unicode character"
  | .incompleteUtf16 => "incomplete UTF-16 character"
  | .loneLowSurrogate => "unexpected low surrogate area"
  | .incompletePair => "incomplete UTF-16 surrogate pair"
  | .noLowSurrogate => "expected low surrogate area"
  | .controlCharacter => "control characters are not allowed"
  | .tokenStart => "found character that cannot start any token"
  | .keyWithoutColon => "could not find expected ':'"
  | .depth => "exceeded max depth of 10000"
  | .entryNotAllowed => "block sequence entries are not allowed in this context"
  | .keyNotAllowed => "mapping keys are not allowed in this context"
  | .valueNotAllowed => "mapping values are not allowed in this context"
  | .directiveName => "could not find expected directive name"
  | .directiveEnd | .lineEndMissing => "did not find expected comment or line break"
  | .directiveUnknown => "found unknown directive name"
  | .directiveNameEnd => "found unexpected non-alphabetical character"
  | .versionPoint => "did not find expected digit or '.' character"
  | .versionLength => "found extremely long version number"
  | .versionMissing => "did not find expected version number"
  | .whitespaceMissing => "did not find expected whitespace"
  | .blankMissing => "did not find expected whitespace or line break"
  | .anchorName => "did not find expected alphabetic or numeric character"
  | .tagClose => "did not find the expected '>'"
  | .tagMark => "did not find expected '!'"
  | .tagUri => "did not find expected tag URI"
  | .uriEscape => "did not find URI escaped octet"
  | .uriLead => "found an incorrect leading UTF-8 octet"
  | .uriTrail => "found an incorrect trailing UTF-8 octet"
  | .indentationZero => "found an indentation indicator equal to 0"
  | .tabBeforeBlock => "found a tab character where an indentation space is expected"
  | .separatorInQuotes => "found unexpected document indicator"
  | .endInQuotes => "found unexpected end of stream"
  | .escapeUnknown => "found unknown escape character"
  | .escapeDigits => "did not find expected hexdecimal number"
  | .escapeCharacter => "found invalid Unicode character escape code"
  | .tabBeforePlain => "found a tab character that violates indentation"
  | .documentStart => "did not find expected <document start>"
  | .versionTwice => "found duplicate %YAML directive"
  | .versionUnsupported => "found incompatible YAML document"
  | .handleTwice => "found duplicate %TAG directive"
  | .handleUnknown => "found undefined tag handle"
  | .nodeContent => "did not find expected node content"
  | .dashMissing => "did not find expected '-' indicator"
  | .keyMissing => "did not find expected key"
  | .sequenceSeparator => "did not find expected ',' or ']'"
  | .mappingSeparator => "did not find expected ',' or '\x7d'"
  | .anchorUnknown name => s!"unknown anchor '{name}' referenced"
  | .anchorInItself name => s!"anchor '{name}' value contains itself"
  | .base64 => "!!binary value contains invalid base64 data"
  | .mergeKind => "map merge requires map or sequence of maps as the value"
  | .tagMismatch found text wanted => s!"cannot decode {found} `{text}` as a {wanted}"

/-- A problem, and the line it is reported on. -/
structure Fault where
  line? : Option Nat
  problem : Problem
  deriving DecidableEq, Repr

namespace Fault

def message (f : Fault) : String :=
  match f.line? with
  | some line => s!"yaml: line {line.repr}: {f.problem.text}"
  | none => s!"yaml: {f.problem.text}"

/-- The line that counts: that of the construct a problem is part of, or else that of the place where
it shows. Lines count from zero, and the first one is not told. -/
def lineOf? (context here : Nat) : Option Nat :=
  if context ≠ 0 then some context else if here ≠ 0 then some here else none

end Fault

end IntScript.Yaml
