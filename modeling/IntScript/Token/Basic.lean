import IntScript.Text.Decimal
import IntScript.Text.Quoted
import IntScript.Token.Kind

/-!
# Tokens

A token is a kind, the characters it was cut from, and the position of the first of them.
-/

namespace IntScript

/-- A row and a column. In a text both count from one and the column counts characters. -/
structure Position where
  row : Int
  col : Int
  deriving DecidableEq, Repr, Inhabited

namespace Position

/-- The first character of a text. -/
def start : Position := ⟨1, 1⟩

/-- The position `n` characters further on the same line. -/
def advance (p : Position) (n : Nat) : Position := { p with col := p.col + n }

def nextLine (p : Position) : Position := ⟨p.row + 1, 1⟩

/-- The position as listings show it. -/
def short (p : Position) : String := s!"{Text.Decimal.ofInt p.row}:{Text.Decimal.ofInt p.col}"

/-- The position as messages show it. -/
def long (p : Position) : String :=
  s!"line:{Text.Decimal.ofInt p.row}, column:{Text.Decimal.ofInt p.col}"

end Position

structure Token where
  kind : Kind
  literal : String
  pos : Position
  deriving DecidableEq, Repr

namespace Token

/-- The token of what stands in no text. -/
def nowhere : Token := ⟨.endOfText, "", ⟨0, 0⟩⟩

instance : Inhabited Token := ⟨nowhere⟩

/-- The token as a message names it. -/
def display (t : Token) : String :=
  match t.kind with
  | .endOfText => "EOF"
  | .newline => "newline"
  | _ => t.literal

/-- The token as a listing shows it. -/
def listing (t : Token) : String := s!"{t.pos.short} {t.kind.name} {Text.Quoted.string t.literal}"

end Token

end IntScript
