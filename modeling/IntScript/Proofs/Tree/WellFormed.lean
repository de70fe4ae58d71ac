import IntScript.Proofs.Grammar.Derivation
import IntScript.Tree.Parenthesized

/-!
# Trees that programs have

Nothing holds a tree made by hand to the number of children its forms call for.  `Tree.Proper` says
of one node what the node of a program has: the kind of its token, the number of its children, and
their forms.  A tree is well formed if all its nodes are proper.

| form | token | children |
| :-- | :-- | :-- |
| `root` | | `print`, `assign` and `function` nodes |
| `print`, `result` | the word | an expression |
| `assign` | the mark | a `name`, an expression |
| `sum`, `product`, `power` | a mark of the level | a left operand, a right operand |
| `function` | its name | `params`, `body` |
| `params`, `args` | the parenthesis | `param` nodes; `arg` nodes |
| `body` | the brace | `print` and `assign` nodes, then one `result` |
| `call` | its name | `args` |
| `name`, `integer`, `param`, `arg` | itself | none |

Left operands may be operations of their own level, right operands are of tighter levels only: that
is what it means that operations group to the left.

Main statement: the tree of every derivation is well formed (`Program.wellFormed_tree`).
-/

namespace IntScript

/-! ## Nodes -/

namespace Tree

mutual

/-- The node and everything below it. -/
def nodes : Tree → List Tree
  | .node f t cs => .node f t cs :: nodesAll cs

def nodesAll : List Tree → List Tree
  | [] => []
  | c :: cs => nodes c ++ nodesAll cs

end

theorem mem_nodesAll {n : Tree} : ∀ {cs : List Tree}, n ∈ nodesAll cs ↔ ∃ c ∈ cs, n ∈ c.nodes
  | [] => by simp [nodesAll]
  | c :: cs => by simp [nodesAll, mem_nodesAll]

theorem mem_nodes {n : Tree} {f : Form} {t : Token} {cs : List Tree} :
    n ∈ (node f t cs).nodes ↔ n = node f t cs ∨ ∃ c ∈ cs, n ∈ c.nodes := by
  rw [nodes, List.mem_cons, mem_nodesAll]

/-- All nodes satisfy `P`. -/
def All (P : Tree → Prop) (n : Tree) : Prop := ∀ k ∈ n.nodes, P k

theorem all_node {P : Tree → Prop} {f : Form} {t : Token} {cs : List Tree} :
    (node f t cs).All P ↔ P (node f t cs) ∧ ∀ c ∈ cs, c.All P := by
  constructor
  · intro h
    refine ⟨h _ (mem_nodes.mpr (.inl rfl)), fun c hc n hn => ?_⟩
    exact h n (mem_nodes.mpr (.inr ⟨c, hc, hn⟩))
  · rintro ⟨h, hcs⟩ n hn
    rcases mem_nodes.mp hn with rfl | ⟨c, hc, hn⟩
    · exact h
    · exact hcs c hc n hn

theorem All.self {P : Tree → Prop} {n : Tree} (h : n.All P) : P n := by
  cases n
  exact (all_node.mp h).1

theorem All.child {P : Tree → Prop} {n c : Tree} (h : n.All P) (hc : c ∈ n.children) : c.All P := by
  cases n
  exact (all_node.mp h).2 c hc

theorem induction {P : Tree → Prop} (h : ∀ f t cs, (∀ c ∈ cs, P c) → P (node f t cs)) :
    ∀ n, P n
  | .node f t cs => h f t cs fun c _ => induction h c

theorem nodes_trans {k m : Tree} (hm : m ∈ k.nodes) : ∀ n : Tree, k ∈ n.nodes → m ∈ n.nodes := by
  refine induction fun f t cs ih hk => ?_
  rcases mem_nodes.mp hk with rfl | ⟨c, hc, hk⟩
  · exact hm
  · exact mem_nodes.mpr (.inr ⟨c, hc, ih c hc hk⟩)

theorem All.of_mem {P : Tree → Prop} {n k : Tree} (h : n.All P) (hk : k ∈ n.nodes) : k.All P :=
  fun _ hm => h _ (nodes_trans hm n hk)

end Tree

/-! ## Operands -/

namespace Level

/-- The forms of a right operand: an atom or an operation of a tighter level. -/
def rightForms : Level → List Form
  | .power => [.name, .integer, .call]
  | .product => [.power, .name, .integer, .call]
  | .sum => [.product, .power, .name, .integer, .call]

/-- A left operand may also be an operation of the level itself. -/
def leftForms (level : Level) : List Form := level.form :: level.rightForms

theorem leftForms_subset (level : Level) : ∀ f ∈ level.leftForms, f ∈ Level.sum.leftForms := by
  cases level <;> decide

end Level

namespace Tree

/-- The node stands for a value. -/
def IsExpression (n : Tree) : Prop := n.form ∈ Level.sum.leftForms

theorem isExpression_of_left {level : Level} {n : Tree} (h : n.form ∈ level.leftForms) :
    n.IsExpression :=
  level.leftForms_subset _ h

theorem isExpression_of_right {level : Level} {n : Tree} (h : n.form ∈ level.rightForms) :
    n.IsExpression :=
  isExpression_of_left (List.mem_cons_of_mem level.form h)

/-- An operation of a level groups to the left. -/
def GroupsLeft (level : Level) (n : Tree) : Prop :=
  ∃ l r, n.children = [l, r] ∧ l.form ∈ level.leftForms ∧ r.form ∈ level.rightForms

/-- The node has the token and the children that a node of its form has in a program. -/
def Proper (n : Tree) : Prop :=
  match n.form with
  | .root => ∀ c ∈ n.children, c.form = .print ∨ c.form = .assign ∨ c.form = .function
  | .print => n.token.kind = .printWord ∧ ∃ e, n.children = [e] ∧ e.IsExpression
  | .result => n.token.kind = .returnWord ∧ ∃ e, n.children = [e] ∧ e.IsExpression
  | .assign => n.token.kind = .assign ∧
      ∃ target e, n.children = [target, e] ∧ target.form = .name ∧ e.IsExpression
  | .sum => n.token.kind ∈ Level.sum.marks ∧ n.GroupsLeft .sum
  | .product => n.token.kind ∈ Level.product.marks ∧ n.GroupsLeft .product
  | .power => n.token.kind ∈ Level.power.marks ∧ n.GroupsLeft .power
  | .function => n.token.kind = .symbol ∧
      ∃ params body, n.children = [params, body] ∧ params.form = .params ∧ body.form = .body
  | .params => n.token.kind = .openParen ∧ n.children ≠ [] ∧ ∀ c ∈ n.children, c.form = .param
  | .args => n.token.kind = .openParen ∧ n.children ≠ [] ∧ ∀ c ∈ n.children, c.form = .arg
  | .body => n.token.kind = .openBrace ∧
      ∃ statements result, n.children = statements ++ [result] ∧
        (∀ s ∈ statements, s.form = .print ∨ s.form = .assign) ∧ result.form = .result
  | .call => n.token.kind = .symbol ∧ ∃ args, n.children = [args] ∧ args.form = .args
  | .name => n.token.kind = .symbol ∧ n.children = []
  | .param => n.token.kind = .symbol ∧ n.children = []
  | .arg => n.token.kind = .symbol ∧ n.children = []
  | .integer => n.token.kind = .integer ∧ n.children = []
  | .unused _ => False

/-- All nodes are proper. -/
def WellFormed (n : Tree) : Prop := n.All Proper

theorem wellFormed_node {f : Form} {t : Token} {cs : List Tree} :
    (node f t cs).WellFormed ↔ (node f t cs).Proper ∧ ∀ c ∈ cs, c.WellFormed :=
  all_node

theorem wellFormed_leaf {f : Form} {t : Token} (h : (leaf f t).Proper) : (leaf f t).WellFormed :=
  wellFormed_node.mpr ⟨h, by simp⟩

theorem wellFormed_one {f : Form} {t : Token} {c : Tree} (h : (node f t [c]).Proper)
    (hc : c.WellFormed) : (node f t [c]).WellFormed := by
  refine wellFormed_node.mpr ⟨h, fun d hd => ?_⟩
  rw [List.mem_singleton.mp hd]
  exact hc

theorem wellFormed_two {f : Form} {t : Token} {c d : Tree} (h : (node f t [c, d]).Proper)
    (hc : c.WellFormed) (hd : d.WellFormed) : (node f t [c, d]).WellFormed := by
  refine wellFormed_node.mpr ⟨h, fun e he => ?_⟩
  rcases List.mem_cons.mp he with rfl | he
  · exact hc
  · rw [List.mem_singleton.mp he]
    exact hd

theorem proper_operation (level : Level) {t : Token} {cs : List Tree} :
    (node level.form t cs).Proper ↔
      t.kind ∈ level.marks ∧ (node level.form t cs).GroupsLeft level := by
  cases level <;> rfl

/-- In a well-formed tree operations group to the left. -/
theorem WellFormed.groupsLeft {n k : Tree} (h : n.WellFormed) (hk : k ∈ n.nodes) (level : Level)
    (hform : k.form = level.form) : k.GroupsLeft level := by
  obtain ⟨f, t, cs⟩ := k
  obtain rfl : f = level.form := hform
  exact ((proper_operation level).mp (h _ hk)).2

end Tree

/-! ## Texts -/

namespace Tree

theorem exists_parenthesizedAll {cs : List Tree} (h : ∀ c ∈ cs, ∃ s, c.parenthesized = .ok s) :
    ∃ l, parenthesizedAll cs = .ok l := by
  induction cs with
  | nil => exact ⟨[], parenthesizedAll.eq_1⟩
  | cons c cs ih =>
      obtain ⟨s, hs⟩ := h c List.mem_cons_self
      obtain ⟨l, hl⟩ := ih fun d hd => h d (List.mem_cons_of_mem _ hd)
      exact ⟨s :: l, by rw [parenthesizedAll, hs, hl]; rfl⟩

/-- No operation in a well-formed tree lacks an operand, so all its nodes have a text. -/
theorem WellFormed.exists_parenthesized {n : Tree} (h : n.WellFormed) :
    ∃ s, n.parenthesized = .ok s := by
  -- the text of a call is made from the children of its child
  have hboth : ∀ n : Tree, n.WellFormed →
      (∃ s, n.parenthesized = .ok s) ∧ ∃ l, parenthesizedAll n.children = .ok l := by
    refine Tree.induction fun f t cs ih h => ?_
    obtain ⟨hn, hcs⟩ := wellFormed_node.mp h
    refine ⟨?_, exists_parenthesizedAll fun c hc => (ih c hc (hcs c hc)).1⟩
    have hoperation : ∀ level : Level, f = level.form →
        ∃ s, (node f t cs).parenthesized = .ok s := by
      rintro level rfl
      obtain ⟨-, l, r, rfl, -, -⟩ := (proper_operation level).mp hn
      obtain ⟨left, hleft⟩ := (ih l (by simp) (hcs l (by simp))).1
      obtain ⟨right, hright⟩ := (ih r (by simp) (hcs r (by simp))).1
      refine ⟨s!"({left} {t.literal} {right})", ?_⟩
      cases level <;> simp only [Level.form, parenthesized, operation, hleft, hright] <;> rfl
    cases f with
    | sum => exact hoperation .sum rfl
    | product => exact hoperation .product rfl
    | power => exact hoperation .power rfl
    | call =>
        obtain ⟨-, ⟨g, u, args⟩, rfl, -⟩ := hn
        obtain ⟨l, hl⟩ := (ih _ List.mem_cons_self (hcs _ List.mem_cons_self)).2
        rw [children_node] at hl
        exact ⟨_, by rw [parenthesized, hl]; rfl⟩
    | _ => exact ⟨_, by rw [parenthesized] <;> simp⟩
  exact (hboth n h).1

end Tree

/-! ## Trees of derivations -/

namespace Grammar

open IntScript.Tree

theorem SymbolList.wellFormed_tree {list item : Form} (l : SymbolList)
    (hlist : ∀ cs : List Tree, cs ≠ [] → (∀ c ∈ cs, c.form = item) →
      (node list l.opening.1 cs).Proper)
    (hitem : ∀ t : Leaf .symbol, (leaf item t.1).Proper) : (l.tree list item).WellFormed := by
  refine wellFormed_node.mpr ⟨hlist _ (by simp) fun c hc => ?_, fun c hc => ?_⟩
  · obtain ⟨t, -, rfl⟩ := List.mem_map.mp hc
    rfl
  · obtain ⟨t, ht, rfl⟩ := List.mem_map.mp hc
    rcases List.mem_cons.mp ht with rfl | ht
    · exact wellFormed_leaf (hitem l.first)
    · obtain ⟨p, -, rfl⟩ := List.mem_map.mp ht
      exact wellFormed_leaf (hitem p.2)

theorem Atom.wellFormed_tree (a : Atom) :
    a.tree.WellFormed ∧ a.tree.form ∈ Level.power.rightForms := by
  cases a with
  | integer t => exact ⟨wellFormed_leaf ⟨t.2, rfl⟩, by simp [Atom.tree, leaf, Level.rightForms]⟩
  | name t => exact ⟨wellFormed_leaf ⟨t.2, rfl⟩, by simp [Atom.tree, leaf, Level.rightForms]⟩
  | call t args =>
      refine ⟨wellFormed_one ⟨t.2, _, rfl, rfl⟩ ?_, by simp [Atom.tree, Level.rightForms]⟩
      exact args.wellFormed_tree (fun _ hne hcs => ⟨args.opening.2, hne, hcs⟩) fun t => ⟨t.2, rfl⟩

theorem wellFormed_operation {level : Level} {left right : Tree} (mark : Mark level)
    (hl : left.WellFormed ∧ left.form ∈ level.leftForms)
    (hr : right.WellFormed ∧ right.form ∈ level.rightForms) :
    (node level.form mark.1 [left, right]).WellFormed :=
  wellFormed_two ((proper_operation level).mpr ⟨mark.2, left, right, rfl, hl.2, hr.2⟩) hl.1 hr.1

theorem Chain.wellFormed_tree {level : Level} {α : Type} {operand : α → Tree}
    (h : ∀ a, (operand a).WellFormed ∧ (operand a).form ∈ level.rightForms) (c : Chain level α) :
    (c.tree operand).WellFormed ∧ (c.tree operand).form ∈ level.leftForms := by
  -- every round of the fold makes a left operand of what it has so far
  have hfold : ∀ (others : List (Mark level × α)) (left : Tree),
      left.WellFormed ∧ left.form ∈ level.leftForms →
        (others.foldl (fun left p => node level.form p.1.1 [left, operand p.2]) left).WellFormed ∧
          (others.foldl (fun left p => node level.form p.1.1 [left, operand p.2]) left).form ∈
            level.leftForms := by
    intro others
    induction others with
    | nil => exact fun left hl => hl
    | cons p others ih =>
        intro left hl
        exact ih _ ⟨wellFormed_operation p.1 hl (h p.2), List.mem_cons_self ..⟩
  exact hfold c.others _ ⟨(h c.first).1, List.mem_cons_of_mem _ (h c.first).2⟩

theorem Expression.wellFormed_tree (e : Expression) :
    (Expression.tree e).WellFormed ∧ (Expression.tree e).IsExpression :=
  Chain.wellFormed_tree (Chain.wellFormed_tree (Chain.wellFormed_tree Atom.wellFormed_tree)) e

theorem Line.wellFormed_tree {l : Line} {n : Tree} (h : l.tree? = some n) :
    n.WellFormed ∧ (n.form = .print ∨ n.form = .assign) := by
  cases l with
  | print word e =>
      obtain ⟨he, hform⟩ := Expression.wellFormed_tree e
      cases h
      exact ⟨wellFormed_one ⟨word.2, _, rfl, hform⟩ he, .inl rfl⟩
  | assign target mark e =>
      obtain ⟨he, hform⟩ := Expression.wellFormed_tree e
      have htarget : (leaf .name target.1).WellFormed := wellFormed_leaf ⟨target.2, rfl⟩
      cases h
      exact ⟨wellFormed_two ⟨mark.2, _, _, rfl, rfl, hform⟩ htarget he, .inr rfl⟩
  | newline t => cases h

theorem Body.wellFormed_tree (b : Body) : b.tree.WellFormed := by
  have hstatements : ∀ s ∈ b.lines.filterMap Line.tree?,
      s.WellFormed ∧ (s.form = .print ∨ s.form = .assign) := by
    intro s hs
    obtain ⟨l, -, hl⟩ := List.mem_filterMap.mp hs
    exact Line.wellFormed_tree hl
  obtain ⟨hresult, hform⟩ := Expression.wellFormed_tree b.result
  refine wellFormed_node.mpr ⟨⟨b.opening.2, _, _, rfl, fun s hs => (hstatements s hs).2, rfl⟩, ?_⟩
  intro c hc
  rcases List.mem_append.mp hc with hc | hc
  · exact (hstatements c hc).1
  · rw [List.mem_singleton.mp hc]
    exact wellFormed_one ⟨b.word.2, _, rfl, hform⟩ hresult

theorem Function.wellFormed_tree (f : Function) : f.tree.WellFormed := by
  have hparams : (f.params.tree .params .param).WellFormed :=
    f.params.wellFormed_tree (fun _ hne hcs => ⟨f.params.opening.2, hne, hcs⟩) fun t => ⟨t.2, rfl⟩
  exact wellFormed_two ⟨f.name.2, _, _, rfl, rfl, rfl⟩ hparams f.body.wellFormed_tree

theorem Item.wellFormed_tree {i : Item} {n : Tree} (h : i.tree? = some n) :
    n.WellFormed ∧ (n.form = .print ∨ n.form = .assign ∨ n.form = .function) := by
  cases i with
  | line l =>
      obtain ⟨hn, hform⟩ := Line.wellFormed_tree h
      exact ⟨hn, hform.imp_right .inl⟩
  | function f =>
      cases h
      exact ⟨f.wellFormed_tree, .inr (.inr rfl)⟩

/-- Every derivation stands for a well-formed tree. -/
theorem Program.wellFormed_tree (p : Program) : p.tree.WellFormed := by
  have hitems : ∀ n ∈ p.items.filterMap Item.tree?,
      n.WellFormed ∧ (n.form = .print ∨ n.form = .assign ∨ n.form = .function) := by
    intro n hn
    obtain ⟨i, -, hi⟩ := List.mem_filterMap.mp hn
    exact Item.wellFormed_tree hi
  exact wellFormed_node.mpr ⟨fun c hc => (hitems c hc).2, fun c hc => (hitems c hc).1⟩

end Grammar

end IntScript
