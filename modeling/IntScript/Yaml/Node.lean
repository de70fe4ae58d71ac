import IntScript.Yaml.Scalar

/-!
# Documents

A document is a scalar, a sequence or a mapping. Every node knows the line it starts on, because that
is where a value that cannot be used is reported, and its tag. In place of a node an alias may stand,
which refers to a node with an anchor by the number of the anchor. Since the alias may stand inside
that very node, the nodes with anchors are kept beside the root.
-/

namespace IntScript

inductive Yaml where
  | scalar (line : Nat) (tag text : String)
  | sequence (line : Nat) (tag : String) (items : List Yaml)
  | mapping (line : Nat) (tag : String) (entries : List (Yaml × Yaml))
  | reference (line : Nat) (name : String) (anchor number : Nat)
  deriving Repr, Inhabited

namespace Yaml

def line : Yaml → Nat
  | scalar l _ _ | sequence l _ _ | mapping l _ _ | reference l _ _ _ => l

/-- The tag of a sequence that has none written. -/
def sequenceTag : String := "!!seq"

/-- The tag of a mapping that has none written. -/
def mappingTag : String := "!!map"

/-- The tag of the key that stands for the entries of other mappings. -/
def mergeTag : String := "!!merge"

/-- The tag of a scalar that has none written; in quotes it is text. -/
def scalarTag (plain : Bool) (text : String) : String :=
  if !plain then (Resolved.text text).tag
  else if text = "<<" then mergeTag
  else (Scalar.resolve text).tag

/-- The scalar that stands for nothing where a node is left out. -/
def missing (line : Nat) : Yaml := scalar line Resolved.null.tag ""

/-- Does the key stand for the entries of other mappings? -/
def isMerge : Yaml → Bool
  | scalar _ tag text => text = "<<" && tag = mergeTag
  | _ => false

/-- A document: its root, and the nodes with anchors by the numbers of the anchors. -/
structure Document where
  root : Yaml
  anchored : List (Nat × Yaml)
  deriving Repr

end Yaml

end IntScript
