import IntScript.Proofs.Grammar.Recognition
import IntScript.Proofs.Token.Joined

/-!
# Two programs, one below the other

Statements need no separator, so the items of two programs are, one list behind the other, the items
of a program.  Of the two texts with a line end between them that program is the tree
(`parse_joined`), with the nodes of the second text further down.

The second text is not parsed where it stands in the joined text; its tokens are other ones there.
But they are like tokens (`Token.Below`), and like tokens give like trees.  The end of a text is the
one token that may be anywhere.  It is no token of a node that a program has below its root, so the
trees are equal up to the rows.
-/

namespace IntScript

namespace Tree

mutual

/-- The tree so many rows further down. -/
def lower (k : Nat) : Tree → Tree
  | .node f t cs => .node f (t.lower k) (lowerAll k cs)

def lowerAll (k : Nat) : List Tree → List Tree
  | [] => []
  | c :: cs => lower k c :: lowerAll k cs

end

theorem lowerAll_eq_map (k : Nat) : ∀ cs : List Tree, lowerAll k cs = cs.map (lower k)
  | [] => rfl
  | c :: cs => by rw [lowerAll, lowerAll_eq_map k cs, List.map_cons]

theorem lower_node (k : Nat) (f : Form) (t : Token) (cs : List Tree) :
    lower k (node f t cs) = node f (t.lower k) (cs.map (lower k)) := by
  rw [lower, lowerAll_eq_map]

@[simp] theorem form_lower (k : Nat) (n : Tree) : (n.lower k).form = n.form := by
  cases n
  rfl

@[simp] theorem token_lower (k : Nat) (n : Tree) : (n.lower k).token = n.token.lower k := by
  cases n
  rfl

@[simp] theorem children_lower (k : Nat) (n : Tree) :
    (n.lower k).children = n.children.map (lower k) := by
  cases n
  rw [lower_node]
  rfl

/-! ## Tokens and children of proper nodes -/

theorem Proper.kind_ne_endOfText {n : Tree} (h : n.Proper) (hform : n.form ≠ .root) :
    n.token.kind ≠ .endOfText := by
  intro hkind
  have hmarks (level : Level) : n.token.kind ∉ level.marks :=
    fun hmem => Level.ne_endOfText_of_mem_marks hmem hkind
  unfold Proper at h
  split at h <;> simp_all

theorem IsExpression.form_ne_root {n : Tree} (h : n.IsExpression) : n.form ≠ .root := by
  intro hroot
  rw [IsExpression, hroot] at h
  exact absurd h (by decide)

theorem GroupsLeft.form_ne_root {n c : Tree} {level : Level} (h : n.GroupsLeft level)
    (hc : c ∈ n.children) : c.form ≠ .root := by
  obtain ⟨l, r, hchildren, hl, hr⟩ := h
  rw [hchildren, List.mem_pair] at hc
  rcases hc with rfl | rfl
  · exact (isExpression_of_left hl).form_ne_root
  · exact (isExpression_of_right hr).form_ne_root

theorem Proper.form_ne_root_of_child {n c : Tree} (h : n.Proper) (hc : c ∈ n.children) :
    c.form ≠ .root := by
  unfold Proper at h
  split at h
  · rcases h c hc with h | h | h <;> simp [h]
  · obtain ⟨-, e, hchildren, he⟩ := h
    rw [hchildren, List.mem_singleton] at hc
    rw [hc]
    exact he.form_ne_root
  · obtain ⟨-, e, hchildren, he⟩ := h
    rw [hchildren, List.mem_singleton] at hc
    rw [hc]
    exact he.form_ne_root
  · obtain ⟨-, target, e, hchildren, htarget, he⟩ := h
    rw [hchildren, List.mem_pair] at hc
    rcases hc with rfl | rfl
    · simp [htarget]
    · exact he.form_ne_root
  · exact h.2.form_ne_root hc
  · exact h.2.form_ne_root hc
  · exact h.2.form_ne_root hc
  · obtain ⟨-, params, body, hchildren, hparams, hbody⟩ := h
    rw [hchildren, List.mem_pair] at hc
    rcases hc with rfl | rfl
    · simp [hparams]
    · simp [hbody]
  · simp [h.2.2 c hc]
  · simp [h.2.2 c hc]
  · obtain ⟨-, statements, result, hchildren, hstatements, hresult⟩ := h
    rw [hchildren, List.mem_append, List.mem_singleton] at hc
    rcases hc with hc | rfl
    · rcases hstatements c hc with h | h <;> simp [h]
    · simp [hresult]
  · obtain ⟨-, args, hchildren, hargs⟩ := h
    rw [hchildren, List.mem_singleton] at hc
    simp [hc, hargs]
  all_goals simp_all

end Tree

/-! ## Like tokens further down -/

/-- The tokens are of one kind, and except for an end of text the second is the first, so many rows
further down. -/
def Token.Below (k : Nat) (t u : Token) : Prop :=
  t.kind = u.kind ∧ (t.kind ≠ .endOfText → u = t.lower k)

theorem Token.below_lower (k : Nat) (t : Token) : t.Below k (t.lower k) := ⟨rfl, fun _ => rfl⟩

theorem Tree.eq_map_of_forall₂ {R : Tree → Tree → Prop} {f : Tree → Tree} {cs ds : List Tree}
    (h : List.Forall₂ R cs ds) (hf : ∀ c ∈ cs, ∀ d, R c d → d = f c) : ds = cs.map f := by
  induction h with
  | nil => rfl
  | cons hcd _ ih =>
      rw [List.map_cons, hf _ List.mem_cons_self _ hcd]
      exact congrArg _ (ih fun c hc => hf c (List.mem_cons_of_mem _ hc))

/-- Trees of like tokens are equal up to the rows, below the root. -/
theorem Tree.Alike.eq_lower {k : Nat} :
    ∀ n n' : Tree, Tree.Alike (Token.Below k) n n' → n.WellFormed → n.form ≠ .root →
      n' = n.lower k := by
  refine Tree.induction fun f t cs ih n' halike hwf hroot => ?_
  obtain ⟨hproper, hchildren⟩ := Tree.wellFormed_node.mp hwf
  cases halike with
  | @node _ _ u _ ds ht hcs =>
      rw [Tree.lower_node, ht.2 (hproper.kind_ne_endOfText hroot)]
      congr 1
      refine Tree.eq_map_of_forall₂ hcs fun c hc d hcd => ?_
      exact ih c hc d hcd (hchildren c hc) (hproper.form_ne_root_of_child hc)

theorem Tokens.Finished.lower {ts : Tokens} (h : ts.Finished) (k : Nat) :
    (ts.lower k).Finished := by
  have hmap {l : List Token} (hl : ∀ u ∈ l, u.kind ≠ .endOfText) :
      ∀ u ∈ l.map (Token.lower k), u.kind ≠ .endOfText := by
    intro u hu
    obtain ⟨v, hv, rfl⟩ := List.mem_map.mp hu
    exact hl v hv
  cases h with
  | whole hl ht =>
      unfold Tokens.lower
      rw [List.map_append]
      exact .whole (hmap hl) ht
  | broken hl => exact .broken (hmap hl)

theorem Tokens.match_lower (k : Nat) (ts : Tokens) : Match (Token.Below k) ts (ts.lower k) := by
  refine ⟨?_, by simp [Tokens.lower]⟩
  exact List.forall₂_map_right_iff.mpr (List.forall₂_same.mpr fun t _ => t.below_lower k)

theorem Grammar.exists_program_lower {ts : Tokens} (hts : ts.Finished) {n : Tree}
    (h : ts.parse = .ok n) (k : Nat) :
    ∃ p : Program, p.tokens = (ts.lower k).list ∧ (ts.lower k).error? = none ∧
      p.tree.children = n.children.map (Tree.lower k) := by
  obtain ⟨n', hn', halike⟩ := Tokens.exists_parse_of_match (fun _ _ h => h.1)
    ⟨rfl, fun hkind => absurd rfl hkind⟩ (ts.match_lower k) h
  obtain ⟨q, -, -, rfl⟩ := exists_program_of_parse hts h
  obtain ⟨p, hp, herror, rfl⟩ := exists_program_of_parse (hts.lower k) hn'
  refine ⟨p, hp, herror, ?_⟩
  obtain ⟨hproper, hwf⟩ := Tree.wellFormed_node.mp q.wellFormed_tree
  cases halike with
  | node _ hcs =>
      refine Tree.eq_map_of_forall₂ hcs fun c hc d hcd => ?_
      exact hcd.eq_lower c d (hwf c hc) (hproper.form_ne_root_of_child hc)

namespace Grammar.Program

/-- The items of two programs with a line end between them. -/
def joined (p q : Program) (newline : Leaf .newline) : Program :=
  ⟨p.items ++ .line (.newline newline) :: q.items, q.ending⟩

theorem tokens_joined (p q : Program) (newline : Leaf .newline) :
    (p.joined q newline).tokens = p.items.flatMap Item.tokens ++ newline.1 :: q.tokens := by
  simp only [joined, tokens, List.flatMap_append, List.flatMap_cons, Item.tokens, Line.tokens,
    List.append_assoc, List.cons_append, List.nil_append]

theorem tree_joined (p q : Program) (newline : Leaf .newline) :
    (p.joined q newline).tree = .node .root .nowhere (p.tree.children ++ q.tree.children) := by
  simp only [joined, tree, List.filterMap_append, Tree.children_node]
  rw [List.filterMap_cons_none rfl]

end Grammar.Program

/-- Two programs with a line end between them are a program, with the statements of the one and,
further down, those of the other. -/
theorem parse_joined {kw : Keywords} (hkw : ∀ word, kw.get? word ≠ some .endOfText)
    {above below : List UInt8} {a b : Tree} (ha : parse above kw = .ok a)
    (hb : parse below kw = .ok b) :
    parse (above ++ 10 :: below) kw =
      .ok (.node .root .nowhere
        (a.children ++ b.children.map (Tree.lower (1 + above.count 10)))) := by
  rw [parse_eq_parse] at ha hb ⊢
  obtain ⟨p, hp, hpe, rfl⟩ := Grammar.exists_program_of_parse (Tokens.finished_ofBytes above kw) ha
  obtain ⟨q, hq, hqe, hchildren⟩ := Grammar.exists_program_lower (Tokens.finished_ofBytes below kw)
    hb (1 + above.count 10)
  obtain ⟨l, t, hl, hjoined⟩ := Tokens.ofBytes_joined hkw above below hpe
  have hitems : p.items.flatMap Grammar.Item.tokens = l := by
    rw [hl] at hp
    exact List.append_inj_left' hp rfl
  have hlist : (Tokens.ofBytes (above ++ 10 :: below) kw) =
      ⟨(p.joined q ⟨⟨.newline, "\n", t.pos⟩, rfl⟩).tokens ++ [], none⟩ := by
    rw [hjoined, Grammar.Program.tokens_joined, hitems, hq, List.append_nil]
    unfold Tokens.prepend
    rw [hqe, List.append_assoc]
    rfl
  rw [hlist, Grammar.Program.parse_tokens, Grammar.Program.tree_joined, hchildren]

end IntScript
