import IntScript.Bindings
import IntScript.Text.Quoted
import IntScript.Token.Kind

/-!
# Reserved words

A table of reserved words gives the kind that each of them is scanned as; every other word is a name.
Settings bind words to one of four uses, each with a name of its own.
-/

namespace IntScript

/-- The kinds of the reserved words. -/
abbrev Keywords := Bindings Kind

namespace Keywords

/-- The four uses of a reserved word by name, in increasing order. -/
def uses : Bindings Kind where
  entries := [("func", .funcWord), ("print", .printWord), ("return", .returnWord),
    ("while", .whileWord)]
  sorted := by decide

/-- The reserved words where nothing else is set: each use has its own name as its word. -/
def standard : Keywords := uses

def classify (kw : Keywords) (word : String) : Kind := (kw.get? word).getD .symbol

/-- What is said of a name that is none of the four uses. -/
def unknownUse (name : String) : String :=
  let known := " ".intercalate uses.names
  s!"unknown keyword kind {Text.Quoted.string name} (want one of [{known}])"

end Keywords

end IntScript
