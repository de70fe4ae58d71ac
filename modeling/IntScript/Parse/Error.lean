import IntScript.Token.Scanner

/-!
# Texts that are no programs

A text fails to be a program at a character that starts no token, or at the first token that does
not fit the grammar.
-/

namespace IntScript

/-- What the grammar has room for at a place where it does not have room for everything. -/
inductive Expected where
  | statement
  | assignMark
  | functionName
  | openParen
  | parameter
  | argument
  | separator
  | openBrace
  | bodyStatement
  | operand
  deriving DecidableEq, Repr

def Expected.text : Expected → String
  | .statement => "'print', 'func' or variable"
  | .assignMark => "'='"
  | .functionName => "function name"
  | .openParen => "'('"
  | .parameter => "parameter"
  | .argument => "argument"
  | .separator => "',' or ')'"
  | .openBrace => "'\x7b'"
  | .bodyStatement => "'print', 'return' or variable"
  | .operand => "integer, variable or function call"

/-- A token that does not fit, and what would have. -/
structure Misfit where
  expected : Expected
  found : Token
  deriving DecidableEq, Repr

namespace Misfit

def message (m : Misfit) : String :=
  s!"{m.found.pos.long}, syntax error, expect {m.expected.text}, found '{m.found.display}'"

/-- The text ended too early: more of it might make a program. -/
def isIncomplete (m : Misfit) : Bool := m.found.kind = .endOfText

end Misfit

/-- Why a text is no program. -/
inductive ParseError where
  | scan (e : ScanError)
  | misfit (m : Misfit)
  deriving DecidableEq, Repr

namespace ParseError

def message : ParseError → String
  | .scan e => e.message
  | .misfit m => m.message

def isIncomplete : ParseError → Bool
  | .scan _ => false
  | .misfit m => m.isIncomplete

end ParseError

end IntScript
