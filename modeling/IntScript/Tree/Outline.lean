import IntScript.Tree.Basic

/-!
# Outlines

One line for each node, children below their parent and two spaces further in. A line shows the
form, and for every node but a root also the characters and the position of its token.
-/

namespace IntScript.Tree

/-- The line of one node, without the spaces before it. -/
def headline (f : Form) (t : Token) : String :=
  if f = .root then f.label else s!"{f.label} {Text.Quoted.string t.literal} @{t.pos.short}"

mutual

/-- The lines of a tree, `depth` levels in. -/
def outlineAt (depth : Nat) : Tree → List String
  | node f t cs => ("".pushn ' ' (2 * depth) ++ headline f t) :: outlinesAt (depth + 1) cs

/-- The lines of trees that stand side by side. -/
def outlinesAt (depth : Nat) : List Tree → List String
  | [] => []
  | c :: cs => outlineAt depth c ++ outlinesAt depth cs

end

def outline (n : Tree) : List String := outlineAt 0 n

end IntScript.Tree
