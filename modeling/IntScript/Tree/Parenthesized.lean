import IntScript.Tree.Basic

/-!
# Parenthesized text

An expression with a pair of parentheses around every operation. Nodes that are no expressions are
shown by their label. The text of an operation needs two operands; a tree made by hand may lack one.
-/

namespace IntScript

/-- An operation whose operand `index` is missing, `length` being the number of its children. -/
structure MissingOperand where
  index : Nat
  length : Nat
  deriving DecidableEq, Repr

def MissingOperand.message (e : MissingOperand) : String :=
  s!"runtime error: index out of range [{e.index.repr}] with length {e.length.repr}"

namespace Tree

mutual

def parenthesized : Tree → Except MissingOperand String
  | node .integer t _ | node .name t _ | node .param t _ | node .arg t _ => .ok t.literal
  | node .sum t cs => operation t cs
  | node .product t cs => operation t cs
  | node .power t cs => operation t cs
  | node .call t [] => .ok s!"{t.literal}()"
  | node .call t (node _ _ args :: _) => do
    let texts ← parenthesizedAll args
    let list := ", ".intercalate texts
    .ok s!"{t.literal}({list})"
  | node f _ _ => .ok f.label

/-- An operation on its first two children. -/
def operation (t : Token) : List Tree → Except MissingOperand String
  | [] => .error ⟨0, 0⟩
  | [l] => do
    let _ ← parenthesized l
    .error ⟨1, 1⟩
  | l :: r :: _ => do
    let left ← parenthesized l
    let right ← parenthesized r
    .ok s!"({left} {t.literal} {right})"

/-- The texts of nodes that stand side by side. -/
def parenthesizedAll : List Tree → Except MissingOperand (List String)
  | [] => .ok []
  | c :: cs => do
    let text ← parenthesized c
    let texts ← parenthesizedAll cs
    .ok (text :: texts)

end

mutual

/-- The expressions that the print, assign and result nodes of a tree hold, in the order of the
tree. -/
def expressions : Tree → List Tree
  | node .print _ cs => cs.head?.toList ++ expressionsIn cs
  | node .result _ cs => cs.head?.toList ++ expressionsIn cs
  | node .assign _ cs => cs[1]?.toList ++ expressionsIn cs
  | node _ _ cs => expressionsIn cs

/-- The same for nodes that stand side by side. -/
def expressionsIn : List Tree → List Tree
  | [] => []
  | c :: cs => expressions c ++ expressionsIn cs

end

end Tree

end IntScript
