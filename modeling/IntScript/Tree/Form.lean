/-!
# Forms of tree node

What a node of a syntax tree stands for. Trees made by hand may carry a form that no program has;
these are the remaining codes up to 255.
-/

namespace IntScript

inductive Form where
  | root
  | print
  | assign
  | sum
  | product
  | power
  | name
  | integer
  | function
  | body
  | call
  | result
  | param
  | arg
  | params
  | args
  /-- A form outside the grammar, with code `16 + n`. -/
  | unused (n : Fin 240)
  deriving DecidableEq, Repr, Inhabited

namespace Form

/-- The forms of a program's nodes, in the order of their codes. -/
def known : List Form :=
  [.root, .print, .assign, .sum, .product, .power, .name, .integer, .function, .body, .call, .result,
    .param, .arg, .params, .args]

def ofCode (n : Fin 256) : Form :=
  match known[n.val]? with
  | some f => f
  | none => .unused ⟨n.val - 16, by omega⟩

/-- The label of a form as outlines and messages show it. -/
def label : Form → String
  | .root => "Root"
  | .print => "Print"
  | .assign => "Assign"
  | .sum => "Add"
  | .product => "Mul"
  | .power => "Pow"
  | .name => "Name"
  | .integer => "Integer"
  | .function => "FuncDecl"
  | .body => "FuncBody"
  | .call => "FuncCall"
  | .result => "Return"
  | .param => "Param"
  | .arg => "Arg"
  | .params => "ParamList"
  | .args => "ArgList"
  | .unused n => s!"NodeType({(16 + n.val).repr})"

def ofLabel? (s : String) : Option Form :=
  (List.finRange 256).findSome? fun n => if (ofCode n).label = s then some (ofCode n) else none

end Form

end IntScript
