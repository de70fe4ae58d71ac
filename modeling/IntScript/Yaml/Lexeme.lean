import IntScript.Yaml.Property

/-!
# Lexemes

What a text consists of: scalars, the marks between them, and the starts and ends of blocks, which
show in the indentation only.
-/

namespace IntScript.Yaml

/-- A part of a text with a meaning of its own. -/
inductive Lexeme where
  | textStart
  | textEnd
  | directive (d : Directive)
  | documentStart
  | documentEnd
  | blockSequence
  | blockMapping
  | blockEnd
  | openBracket
  | closeBracket
  | openBrace
  | closeBrace
  | comma
  | dash
  | key
  | value
  | reference (name : String)
  | anchor (name : String)
  | tag (t : WrittenTag)
  | scalar (plain : Bool) (text : String)
  deriving DecidableEq, Repr

/-- A lexeme, and the line it starts on. -/
structure Placed where
  lexeme : Lexeme
  line : Nat
  deriving DecidableEq, Repr

end IntScript.Yaml
