import IntScript.Token.Basic
import IntScript.Tree.Form

/-!
# Syntax trees

A node has a form, the token it is anchored at, and its children. For an operator the token is the
operator itself and decides the operation. In the tree of a program

* `print` and `result` have one child, an expression;
* `assign` has two, a `name` and an expression;
* `sum`, `product` and `power` have two, the operands;
* `function` has two, `params` and `body`;
* `call` has one, `args`;
* `name`, `integer`, `param` and `arg` have none.

Nothing holds a tree made by hand to these numbers.
-/

namespace IntScript

/-- A node of a syntax tree with everything below it. -/
inductive Tree where
  | node (form : Form) (token : Token) (children : List Tree)
  deriving Repr, Inhabited

namespace Tree

def form : Tree → Form
  | node f _ _ => f

def token : Tree → Token
  | node _ t _ => t

def children : Tree → List Tree
  | node _ _ cs => cs

def literal (n : Tree) : String := n.token.literal

def pos (n : Tree) : Position := n.token.pos

def leaf (f : Form) (t : Token) : Tree := node f t []

/-- The child at an index; there is none below zero or past the last. -/
def child? (n : Tree) (i : Int) : Option Tree := if i < 0 then none else n.children[i.toNat]?

@[simp] theorem form_node (f : Form) (t : Token) (cs : List Tree) : (node f t cs).form = f := rfl

@[simp] theorem token_node (f : Form) (t : Token) (cs : List Tree) : (node f t cs).token = t := rfl

@[simp] theorem children_node (f : Form) (t : Token) (cs : List Tree) :
    (node f t cs).children = cs := rfl

end Tree

end IntScript
