import IntScript.Proofs.Grammar.Recognition

/-!
# Tokens kept by trees

Every node of a tree is anchored at a token.  Listed from left to right (`Tree.anchors`), the tokens
of the nodes are those of the text, in the order of the text, but for the ones that only hold the
text together:

| dropped | where |
| :-- | :-- |
| line ends | between statements, and before the brace that closes a body |
| `func` | a function is anchored at its name |
| `,` and `)` | a list is anchored at `(`, its items at themselves |
| `}` | a body is anchored at `{` |
| the end of the text | |

A derivation has all tokens of the text (`tokens`) and stands for a tree (`tree`), so the proof is
one lemma for each production: what the tree is anchored at is what is kept of the tokens.
-/

namespace IntScript

/-! ## Listing the anchors -/

/-- Puts the token of a node among what its children list.  An assignment and an operation have it
behind the first child, a root has none, and any other node starts with it. -/
def Form.arrange (f : Form) (t : Token) (parts : List (List Token)) : List Token :=
  match f with
  | .root => parts.flatten
  | .assign | .sum | .product | .power => (parts.take 1).flatten ++ t :: (parts.drop 1).flatten
  | _ => t :: parts.flatten

/-- Nodes of this form start with their token. -/
def Form.Leading (f : Form) : Prop := ∀ t parts, f.arrange t parts = t :: parts.flatten

namespace Tree

mutual

/-- The tokens that the nodes are anchored at, from left to right. -/
def anchors : Tree → List Token
  | .node f t cs => f.arrange t (anchorsEach cs)

def anchorsEach : List Tree → List (List Token)
  | [] => []
  | c :: cs => anchors c :: anchorsEach cs

end

theorem anchorsEach_eq_map : ∀ cs : List Tree, anchorsEach cs = cs.map anchors
  | [] => rfl
  | c :: cs => by rw [anchorsEach, anchorsEach_eq_map cs, List.map_cons]

theorem anchors_node (f : Form) (t : Token) (cs : List Tree) :
    (node f t cs).anchors = f.arrange t (cs.map anchors) := by
  rw [anchors, anchorsEach_eq_map]

theorem anchors_leading {f : Form} (hf : f.Leading) (t : Token) (cs : List Tree) :
    (node f t cs).anchors = t :: cs.flatMap anchors := by
  rw [anchors_node, hf, List.flatMap_def]

theorem anchors_leaf {f : Form} (hf : f.Leading) (t : Token) : (leaf f t).anchors = [t] :=
  anchors_leading hf t []

theorem anchors_operation (level : Level) (t : Token) (l r : Tree) :
    (node level.form t [l, r]).anchors = l.anchors ++ t :: r.anchors := by
  rw [anchors_node]
  cases level <;> simp [Level.form, Form.arrange]

end Tree

/-- The kinds of the tokens that no node is anchored at. -/
def Kind.unanchored : List Kind :=
  [.newline, .funcWord, .comma, .closeParen, .closeBrace, .endOfText]

/-! ## Trees of derivations -/

namespace Grammar

open IntScript.Tree (anchors_leading anchors_leaf)

def kept (l : List Token) : List Token := l.filter (·.kind ∉ Kind.unanchored)

@[simp] theorem kept_nil : kept [] = [] := rfl

@[simp] theorem kept_append (l l' : List Token) : kept (l ++ l') = kept l ++ kept l' :=
  List.filter_append ..

@[simp] theorem kept_flatMap {α : Type} (l : List α) (f : α → List Token) :
    kept (l.flatMap f) = l.flatMap fun a => kept (f a) :=
  List.filter_flatMap

@[simp] theorem kept_leaf {k : Kind} (t : Leaf k) (l : List Token) :
    kept (t.1 :: l) = if k ∈ Kind.unanchored then kept l else t.1 :: kept l := by
  have ht : decide (t.1.kind ∉ Kind.unanchored) = decide (k ∉ Kind.unanchored) := by rw [t.2]
  simp only [kept, List.filter_cons, ht, decide_eq_true_eq, ite_not]

@[simp] theorem kept_mark {level : Level} (m : Mark level) (l : List Token) :
    kept (m.1 :: l) = m.1 :: kept l := by
  have hm : ∀ k ∈ level.marks, k ∉ Kind.unanchored := by cases level <;> decide
  exact List.filter_cons_of_pos (decide_eq_true (hm _ m.2))

theorem anchors_filterMap {α : Type} {tree? : α → Option Tree} {tokens : α → List Token}
    (h : ∀ a, (tree? a).elim [] Tree.anchors = kept (tokens a)) (l : List α) :
    (l.filterMap tree?).flatMap Tree.anchors = kept (l.flatMap tokens) := by
  induction l with
  | nil => rfl
  | cons a l ih =>
      have ha := h a
      rw [List.flatMap_cons, kept_append, ← ih, ← ha]
      cases htree : tree? a with
      | none => rw [List.filterMap_cons_none htree, Option.elim_none, List.nil_append]
      | some n => rw [List.filterMap_cons_some htree, Option.elim_some, List.flatMap_cons]

theorem SymbolList.anchors_tree {list item : Form} (hlist : list.Leading) (hitem : item.Leading)
    (l : SymbolList) : (l.tree list item).anchors = kept l.tokens := by
  have hitems : ∀ ts : List Token, (ts.map (Tree.leaf item)).flatMap Tree.anchors = ts := by
    intro ts
    simp only [List.flatMap_map, anchors_leaf hitem, List.flatMap_singleton']
  have hothers : kept (l.others.flatMap fun p => [p.1.1, p.2.1]) = l.others.map (·.2.1) := by
    rw [kept_flatMap, List.map_eq_flatMap]
    simp [Kind.unanchored]
  rw [SymbolList.tree, anchors_leading hlist, hitems, SymbolList.tokens]
  simp [hothers, Kind.unanchored]

theorem Atom.anchors_tree (a : Atom) : a.tree.anchors = kept a.tokens := by
  cases a with
  | integer t =>
      rw [Atom.tree, anchors_leaf fun _ _ => rfl, Atom.tokens, kept_leaf, if_neg (by decide)]
      rfl
  | name t =>
      rw [Atom.tree, anchors_leaf fun _ _ => rfl, Atom.tokens, kept_leaf, if_neg (by decide)]
      rfl
  | call t args =>
      have hargs : (args.tree .args .arg).anchors = kept args.tokens :=
        args.anchors_tree (fun _ _ => rfl) fun _ _ => rfl
      rw [Atom.tree, Tree.anchors_node, Atom.tokens, kept_leaf, if_neg (by decide)]
      simp [Form.arrange, hargs]

/-- Grouping to the left leaves the order as it is. -/
theorem Chain.anchors_tree {level : Level} {α : Type} {tree : α → Tree} {tokens : α → List Token}
    (h : ∀ a, (tree a).anchors = kept (tokens a)) (c : Chain level α) :
    (c.tree tree).anchors = kept (c.tokens tokens) := by
  -- every round of the fold lists what it has so far, and then the next mark and operand
  have hfold : ∀ (others : List (Mark level × α)) (left : Tree),
      (others.foldl (fun left p => .node level.form p.1.1 [left, tree p.2]) left).anchors =
        left.anchors ++ kept (others.flatMap fun p => p.1.1 :: tokens p.2) := by
    intro others
    induction others with
    | nil => simp
    | cons p others ih =>
        intro left
        rw [List.foldl_cons, ih, Tree.anchors_operation, h, List.flatMap_cons, kept_append,
          kept_mark, List.append_assoc]
  rw [Chain.tree, hfold, h, Chain.tokens, kept_append]

theorem Expression.anchors_tree (e : Expression) :
    (Expression.tree e).anchors = kept (Expression.tokens e) :=
  Chain.anchors_tree (Chain.anchors_tree (Chain.anchors_tree Atom.anchors_tree)) e

theorem Line.anchors_tree (l : Line) : l.tree?.elim [] Tree.anchors = kept l.tokens := by
  cases l with
  | print word e =>
      have hprint : Form.Leading .print := fun _ _ => rfl
      simp [Line.tree?, Line.tokens, anchors_leading hprint, Expression.anchors_tree,
        Kind.unanchored]
  | assign target mark e =>
      have hname : Form.Leading .name := fun _ _ => rfl
      simp [Line.tree?, Line.tokens, Tree.anchors_node, Form.arrange, anchors_leaf hname,
        Expression.anchors_tree, Kind.unanchored]
  | newline t => simp [Line.tree?, Line.tokens, Kind.unanchored]

theorem Closing.kept_tokens (c : Closing) : kept c.tokens = [] := by
  have hnewlines : kept (c.newlines.map (·.1)) = [] := by
    rw [List.map_eq_flatMap, kept_flatMap]
    simp [Kind.unanchored]
  rw [Closing.tokens, kept_append, hnewlines, kept_leaf, if_pos (by decide)]
  rfl

theorem Body.anchors_tree (b : Body) : b.tree.anchors = kept b.tokens := by
  have hbody : Form.Leading .body := fun _ _ => rfl
  have hresult : Form.Leading .result := fun _ _ => rfl
  have hlines := anchors_filterMap Line.anchors_tree b.lines
  have hclosing : kept (b.closing?.elim [] Closing.tokens) = [] := by
    cases b.closing? with
    | none => rfl
    | some c => exact c.kept_tokens
  rw [Body.tree, anchors_leading hbody, List.flatMap_append, hlines]
  simp [Body.tokens, anchors_leading hresult, Expression.anchors_tree, hclosing, Kind.unanchored]

theorem Function.anchors_tree (f : Function) : f.tree.anchors = kept f.tokens := by
  have hfunction : Form.Leading .function := fun _ _ => rfl
  have hparams : (f.params.tree .params .param).anchors = kept f.params.tokens :=
    f.params.anchors_tree (fun _ _ => rfl) fun _ _ => rfl
  simp [Function.tree, Function.tokens, anchors_leading hfunction, hparams, f.body.anchors_tree,
    Kind.unanchored]

theorem Item.anchors_tree (i : Item) : i.tree?.elim [] Tree.anchors = kept i.tokens := by
  cases i with
  | line l => exact l.anchors_tree
  | function f => exact f.anchors_tree

/-- The tree of a program keeps all its tokens but those that hold the text together. -/
theorem Program.anchors_tree (p : Program) : p.tree.anchors = kept p.tokens := by
  have hitems := anchors_filterMap Item.anchors_tree p.items
  rw [Program.tree, Tree.anchors_node, Form.arrange, ← List.flatMap_def, hitems, Program.tokens,
    kept_append, kept_leaf, if_pos (by decide), kept_nil, List.append_nil]

/-! ## Main statement -/

/-- Parsing loses no token, repeats none, and puts none in another place. -/
theorem anchors_of_parse {bs : List UInt8} {kw : Keywords} {n : Tree} (h : parse bs kw = .ok n) :
    n.anchors = (Tokens.ofBytes bs kw).list.filter (·.kind ∉ Kind.unanchored) := by
  rw [parse_eq_parse] at h
  obtain ⟨p, hp, -, rfl⟩ := exists_program_of_parse (Tokens.finished_ofBytes bs kw) h
  rw [← hp]
  exact p.anchors_tree

theorem anchors_of_parse_function :
    let bs := "func f(a, b) \x7b\nc = a\nreturn c - 1\nprint 8 - f(c, a) * 2 - 1".toUTF8.toList
    ∃ n, parse bs .standard = .ok n ∧
      n.anchors = (Tokens.ofBytes bs .standard).list.filter (·.kind ∉ Kind.unanchored) ∧
      n.anchors.map (·.literal) =
        ["f", "(", "a", "b", "\x7b", "c", "=", "a", "return", "c", "-", "1",
          "print", "8", "-", "f", "(", "c", "a", "*", "2", "-", "1"] := by
  intro bs
  have hok : (parse bs .standard).isOk = true := by decide +kernel
  have hliterals : ((Tokens.ofBytes bs .standard).list.filter (·.kind ∉ Kind.unanchored)).map
      (·.literal) = ["f", "(", "a", "b", "\x7b", "c", "=", "a", "return", "c", "-", "1",
        "print", "8", "-", "f", "(", "c", "a", "*", "2", "-", "1"] := by decide +kernel
  cases hparse : parse bs .standard with
  | error e =>
      rw [hparse] at hok
      cases hok
  | ok n =>
      have hn := anchors_of_parse hparse
      exact ⟨n, rfl, hn, hn ▸ hliterals⟩

end Grammar

end IntScript
