import IntScript.Parse.Expression

/-!
# Derivations of the grammar

The grammar, as types.  There is one type for each nonterminal, one constructor for each
production, and one field for each symbol on a production's right side; a repetition is a list, an
optional part an `Option`.  The leaves are tokens that carry a proof of their kind.  So a value of
`Program` *is* a derivation, and there is no ill-formed one.

    list     :=  '(' Symbol (',' Symbol)* ')'                            SymbolList
    atom     :=  Integer | Symbol | Symbol list                          Atom
    power    :=  atom ('^' atom)*                                        Power
    product  :=  power (('*' | '/') power)*                              Product
    sum      :=  product (('+' | '-' | '%') product)*                    Expression
    line     :=  'print' sum | Symbol '=' sum | Newline                  Line
    body     :=  '{' line* 'return' sum [Newline* '}']                   Body
    function :=  'func' Symbol list body                                 Function
    program  :=  (line | function)* EOF                                  Program

A derivation has two readings.  `tokens` is what it derives, from left to right.  `tree` is the
syntax tree it stands for, with the operands of every level grouped to the left.  Neither mentions
the parser.

`Derives` and `Viable` speak of kinds only: a list of kinds is derived, or can be continued to one
that is.
-/

namespace IntScript.Grammar

abbrev Leaf (k : Kind) := { t : Token // t.kind = k }

/-- A token that is a mark of a level. -/
abbrev Mark (level : Level) := { t : Token // t.kind ∈ level.marks }

instance (k : Kind) : Inhabited (Leaf k) := ⟨⟨⟨k, "", .start⟩, rfl⟩⟩

instance (level : Level) : Inhabited (Mark level) :=
  match level with
  | .sum => ⟨⟨⟨.add, "", .start⟩, by decide⟩⟩
  | .product => ⟨⟨⟨.mul, "", .start⟩, by decide⟩⟩
  | .power => ⟨⟨⟨.pow, "", .start⟩, by decide⟩⟩

structure SymbolList where
  opening : Leaf .openParen
  first : Leaf .symbol
  others : List (Leaf .comma × Leaf .symbol)
  closing : Leaf .closeParen
  deriving Inhabited

/-- A number, a variable or a call. -/
inductive Atom where
  | integer (t : Leaf .integer)
  | name (t : Leaf .symbol)
  | call (t : Leaf .symbol) (args : SymbolList)
  deriving Inhabited

/-- Operands joined by the marks of a level. -/
structure Chain (level : Level) (α : Type) where
  first : α
  others : List (Mark level × α)
  deriving Inhabited

/-- An operand of a product. -/
abbrev Power := Chain .power Atom

/-- An operand of a sum. -/
abbrev Product := Chain .product Power

abbrev Expression := Chain .sum Product

/-- What stands at the top of a program and inside a body alike. -/
inductive Line where
  | print (word : Leaf .printWord) (value : Expression)
  | assign (target : Leaf .symbol) (mark : Leaf .assign) (value : Expression)
  | newline (t : Leaf .newline)
  deriving Inhabited

/-- The brace that closes a body, with the line ends before it. -/
structure Closing where
  newlines : List (Leaf .newline)
  brace : Leaf .closeBrace
  deriving Inhabited

structure Body where
  opening : Leaf .openBrace
  lines : List Line
  word : Leaf .returnWord
  result : Expression
  closing? : Option Closing
  deriving Inhabited

structure Function where
  word : Leaf .funcWord
  name : Leaf .symbol
  params : SymbolList
  body : Body

/-- What a program is a list of. -/
inductive Item where
  | line (l : Line)
  | function (f : Function)

structure Program where
  items : List Item
  ending : Leaf .endOfText

/-! ## What is derived -/

def SymbolList.tokens (l : SymbolList) : List Token :=
  l.opening.1 :: l.first.1 :: (l.others.flatMap fun p => [p.1.1, p.2.1]) ++ [l.closing.1]

def Atom.tokens : Atom → List Token
  | .integer t => [t.1]
  | .name t => [t.1]
  | .call t args => t.1 :: args.tokens

def Chain.tokens {level : Level} {α : Type} (operand : α → List Token) (c : Chain level α) :
    List Token :=
  operand c.first ++ c.others.flatMap fun p => p.1.1 :: operand p.2

def Expression.tokens : Expression → List Token :=
  Chain.tokens (Chain.tokens (Chain.tokens Atom.tokens))

def Line.tokens : Line → List Token
  | .print word e => word.1 :: Expression.tokens e
  | .assign target mark e => target.1 :: mark.1 :: Expression.tokens e
  | .newline t => [t.1]

def Closing.tokens (c : Closing) : List Token := c.newlines.map (·.1) ++ [c.brace.1]

def Body.tokens (b : Body) : List Token :=
  b.opening.1 :: b.lines.flatMap Line.tokens ++
    b.word.1 :: Expression.tokens b.result ++ b.closing?.elim [] Closing.tokens

def Function.tokens (f : Function) : List Token :=
  f.word.1 :: f.name.1 :: f.params.tokens ++ f.body.tokens

def Item.tokens : Item → List Token
  | .line l => l.tokens
  | .function f => f.tokens

def Program.tokens (p : Program) : List Token := p.items.flatMap Item.tokens ++ [p.ending.1]

/-! ## The tree -/

/-- A list becomes a node of one form over leaves of another. -/
def SymbolList.tree (list item : Form) (l : SymbolList) : Tree :=
  .node list l.opening.1 ((l.first.1 :: l.others.map (·.2.1)).map (.leaf item))

def Atom.tree : Atom → Tree
  | .integer t => .leaf .integer t.1
  | .name t => .leaf .name t.1
  | .call t args => .node .call t.1 [args.tree .args .arg]

/-- Operations group to the left. -/
def Chain.tree {level : Level} {α : Type} (operand : α → Tree) (c : Chain level α) : Tree :=
  c.others.foldl (fun left p => .node level.form p.1.1 [left, operand p.2]) (operand c.first)

def Expression.tree : Expression → Tree := Chain.tree (Chain.tree (Chain.tree Atom.tree))

/-- A line end leaves nothing in the tree. -/
def Line.tree? : Line → Option Tree
  | .print word e => some (.node .print word.1 [Expression.tree e])
  | .assign target mark e =>
      some (.node .assign mark.1 [.leaf .name target.1, Expression.tree e])
  | .newline _ => none

def Body.tree (b : Body) : Tree :=
  .node .body b.opening.1
    (b.lines.filterMap Line.tree? ++ [.node .result b.word.1 [Expression.tree b.result]])

def Function.tree (f : Function) : Tree :=
  .node .function f.name.1 [f.params.tree .params .param, f.body.tree]

def Item.tree? : Item → Option Tree
  | .line l => l.tree?
  | .function f => some f.tree

def Program.tree (p : Program) : Tree := .node .root .nowhere (p.items.filterMap Item.tree?)

/-! ## Kinds -/

def Program.kinds (p : Program) : List Kind := p.tokens.map (·.kind)

/-- The kinds are those of a program. -/
def Derives (ks : List Kind) : Prop := ∃ p : Program, p.kinds = ks

/-- Some program starts with these kinds. -/
def Viable (ks : List Kind) : Prop := ∃ p : Program, ks <+: p.kinds

/-- The kind at place `i` is the first that no program has there: a program can start with the kinds
before it, but not with it as well. -/
def MisfitAt (ks : List Kind) (i : Nat) : Prop :=
  i < ks.length ∧ Viable (ks.take i) ∧ ¬ Viable (ks.take (i + 1))

end IntScript.Grammar
