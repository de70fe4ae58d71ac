/-!
# Kinds of token

What a token is for the grammar: the end of the text, a line end, a name, a number, one of twelve
marks, or one of four reserved words. A reserved-word table may also give a word a kind that the
grammar has no use for; these are the remaining codes up to 255.
-/

namespace IntScript

inductive Kind where
  | endOfText
  | newline
  | symbol
  | integer
  | assign
  | add
  | sub
  | mul
  | div
  | mod
  | pow
  | openParen
  | closeParen
  | openBrace
  | closeBrace
  | comma
  | printWord
  | funcWord
  | returnWord
  | whileWord
  /-- A kind outside the grammar, with code `20 + n`. -/
  | unused (n : Fin 236)
  deriving DecidableEq, Repr, Inhabited

namespace Kind

/-- The kinds the grammar knows, in the order of their codes. -/
def known : List Kind :=
  [.endOfText, .newline, .symbol, .integer, .assign, .add, .sub, .mul, .div, .mod, .pow, .openParen,
    .closeParen, .openBrace, .closeBrace, .comma, .printWord, .funcWord, .returnWord, .whileWord]

def ofCode (n : Fin 256) : Kind :=
  match known[n.val]? with
  | some k => k
  | none => .unused ⟨n.val - 20, by omega⟩

/-- The name of a kind as listings and messages show it. -/
def name : Kind → String
  | .endOfText => "EOF"
  | .newline => "Newline"
  | .symbol => "Symbol"
  | .integer => "Integer"
  | .assign => "Assign"
  | .add => "Add"
  | .sub => "Sub"
  | .mul => "Mul"
  | .div => "Div"
  | .mod => "Mod"
  | .pow => "Pow"
  | .openParen => "LP"
  | .closeParen => "RP"
  | .openBrace => "LBrace"
  | .closeBrace => "RBrace"
  | .comma => "Comma"
  | .printWord => "Print"
  | .funcWord => "FuncDecl"
  | .returnWord => "Return"
  | .whileWord => "While"
  | .unused n => s!"Kind({(20 + n.val).repr})"

def ofName? (s : String) : Option Kind :=
  (List.finRange 256).findSome? fun n => if (ofCode n).name = s then some (ofCode n) else none

/-- The kind of a mark, a token of one punctuation character. -/
def ofMark? : Char → Option Kind
  | '=' => some .assign
  | '+' => some .add
  | '-' => some .sub
  | '*' => some .mul
  | '/' => some .div
  | '%' => some .mod
  | '^' => some .pow
  | '(' => some .openParen
  | ')' => some .closeParen
  | '\x7b' => some .openBrace
  | '\x7d' => some .closeBrace
  | ',' => some .comma
  | _ => none

end Kind

end IntScript
