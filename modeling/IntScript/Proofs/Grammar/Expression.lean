import IntScript.Proofs.Grammar.Derivation
import IntScript.Proofs.Grammar.Reading

/-!
# Reading expressions

The phrases of `list`, `atom` and of the three levels of operations, and the readers that read
them.  Each phrase is the right side of its production put together with `seq`, `alt` and `rounds`;
an equivalence `parts` matches the derivations with it.  What follows a number of rounds is written
into the phrase: a chain goes on as long as there is a mark of its level, and ends before any other
token.

    list             '(' Symbol (',' Symbol)* ')'
    atom             Integer | Symbol (list | before no '(')
    chain level      operand (mark operand)* before no mark
-/

namespace IntScript.Grammar

open Phrase

/-! ## Lists -/

namespace SymbolList

def parts : SymbolList ≃
    Leaf .openParen × Leaf .symbol × List (Leaf .comma × Leaf .symbol) × Leaf .closeParen where
  toFun l := (l.opening, l.first, l.others, l.closing)
  invFun p := ⟨p.1, p.2.1, p.2.2.1, p.2.2.2⟩
  left_inv _ := rfl
  right_inv _ := rfl

def phrase : Phrase SymbolList :=
  ((one .openParen).seq ((one .symbol).seq
    (((one .comma).seq (one .symbol)).rounds (one .closeParen)))).via parts

theorem tokens_phrase : phrase.tokens = SymbolList.tokens := rfl

theorem definite_other : ((one .comma).seq (one .symbol)).Definite (· = .comma) :=
  (definite_one (by decide)).seq (definite_one (by decide))

theorem definite_phrase : phrase.Definite (· = .openParen) := by
  have hothers := definite_other.rounds (definite_one (k := .closeParen) (by decide)) (by
    rintro _ rfl
    decide)
  exact ((definite_one (by decide)).seq ((definite_one (by decide)).seq hothers)).via parts

theorem local_other : ((one .comma).seq (one .symbol)).Local := (local_one _).seq (local_one _)

theorem local_phrase : phrase.Local :=
  ((local_one _).seq ((local_one _).seq (local_other.rounds (local_one _)))).via parts

theorem fits_phrase (Q : Tokens → Prop) : phrase.Fits Q (Tokens.Next (· = .openParen)) := by
  have hothers : (((one .comma).seq (one .symbol)).rounds (one .closeParen)).Fits Q fun _ => True :=
    (((fits_one _ _).seq (fits_one _ _)).imp (fun _ _ => trivial) fun _ _ => trivial).rounds
      ((fits_one _ _).imp (fun _ h => h) fun _ _ => trivial)
  exact ((fits_one _ _).seq ((fits_one _ _).seq hothers)).via parts

end SymbolList

theorem reads_listItem (x : Expected) :
    Reads (Reader.listItem x) (((one .comma).seq (one .symbol)).alt (one .closeParen))
      (Sum.elim (fun d => some d.2.1) fun _ => none) := by
  have hcomma : Reads (do
      let _ ← Reader.expect .comma x
      let t ← Reader.expect .symbol x
      return some t)
      ((one .comma).seq (one .symbol)) (fun d => some d.2.1) :=
    (reads_expect .comma x).bind (definite_one (by decide)) (local_one _) fun _ =>
      (reads_expect .symbol x).map some
  have hclose := (reads_expect .closeParen x).map fun _ => (none : Option Token)
  refine ((Branch.of_reads hcomma SymbolList.definite_other ?_).alt
    (Branch.of_reads hclose (definite_one (by decide)) ?_)).reads .separator ?_ fun e => rfl
  · intro t l e? ht
    simp only [Reader.listItem, Reader.next_bind, Reader.expect_bind x ht, if_pos ht]
  · intro t l e? ht
    simp only [Reader.listItem, Reader.next_bind, Reader.expect_bind x ht, ht, reduceCtorEq,
      if_false, if_true]
  · intro t l e? ht
    rw [not_or] at ht
    simp only [Reader.listItem, Reader.next_bind, if_neg ht.1, if_neg ht.2]
    rfl

theorem reads_symbolList (list item : Form) (x : Expected) :
    Reads (Reader.symbolList list item x) SymbolList.phrase (SymbolList.tree list item) := by
  have hothers : Reads (Reader.many (Reader.listItem x) (Reader.advances_listItem x)) _ _ :=
    (reads_listItem x).many SymbolList.definite_other (SymbolList.local_other.localBefore _)
  refine Reads.via SymbolList.parts ?_
  refine Reads.bind (reads_expect _ _) (definite_one (by decide)) (local_one _) fun mark => ?_
  refine Reads.bind (reads_expect _ _) (definite_one (by decide)) (local_one _) fun first => ?_
  exact hothers.map _

/-! ## Atoms -/

namespace Atom

def parts : Atom ≃ Leaf .integer ⊕ Leaf .symbol × (SymbolList ⊕ Unit) where
  toFun
    | .integer t => .inl t
    | .name t => .inr (t, .inr ())
    | .call t args => .inr (t, .inl args)
  invFun
    | .inl t => .integer t
    | .inr (t, .inr ()) => .name t
    | .inr (t, .inl args) => .call t args
  left_inv a := by cases a <;> rfl
  right_inv
    | .inl _ => rfl
    | .inr (_, .inr ()) => rfl
    | .inr (_, .inl _) => rfl

/-- What makes a symbol a call or leaves it a name. -/
def tail : Phrase (SymbolList ⊕ Unit) := SymbolList.phrase.alt (before (· ≠ .openParen))

def phrase : Phrase Atom := ((one .integer).alt ((one .symbol).seq tail)).via parts

theorem tokens_phrase : phrase.tokens = Atom.tokens := by
  funext a
  cases a <;> rfl

theorem definite_tail : tail.Definite fun _ => True :=
  (SymbolList.definite_phrase.alt (definite_before (· ≠ .openParen)) (by
    rintro _ rfl h
    exact h rfl)).imp fun _ _ => trivial

theorem definite_call : ((one .symbol).seq tail).Definite (· = .symbol) :=
  (definite_one (by decide)).seq definite_tail

theorem definite_phrase : phrase.Definite fun k => k = .integer ∨ k = .symbol :=
  ((definite_one (by decide)).alt definite_call (by
    rintro _ rfl
    decide)).via parts

theorem local_tail : tail.Local := SymbolList.local_phrase.alt (local_before _)

theorem local_phrase : phrase.Local := ((local_one _).alt ((local_one _).seq local_tail)).via parts

theorem fits_phrase :
    phrase.Fits (Tokens.Next (· ≠ .openParen))
      (Tokens.Next fun k => k = .integer ∨ k = .symbol) := by
  have htail : tail.Fits (Tokens.Next (· ≠ .openParen)) fun _ => True :=
    ((SymbolList.fits_phrase _).imp (fun _ h => h) fun _ _ => trivial).alt
      ((fits_before _).imp (fun _ h => h) fun _ _ => trivial)
  have hinteger : (one .integer).Fits (Tokens.Next (· ≠ .openParen))
      (Tokens.Next fun k => k = .integer ∨ k = .symbol) :=
    (fits_one _ _).imp (fun _ h => h) fun _ h => h.imp fun _ => .inl
  have hsymbol : ((one .symbol).seq tail).Fits (Tokens.Next (· ≠ .openParen))
      (Tokens.Next fun k => k = .integer ∨ k = .symbol) :=
    ((fits_one _ _).seq htail).imp (fun _ h => h) fun _ h => h.imp fun _ => .inr
  exact (hinteger.alt hsymbol).via parts

end Atom

/-- What the reader of an atom does behind a symbol. -/
def callOrName (t : Token) : Reader Tokens Tree := do
  let ahead ← Reader.peek 0
  if ahead.kind = .openParen then
    let args ← Reader.symbolList .args .arg .argument
    return .node .call t [args]
  else return .leaf .name t

theorem reads_callOrName (t : Leaf .symbol) :
    Reads (callOrName t.1) Atom.tail (fun d => Atom.tree (Atom.parts.symm (.inr (t, d)))) := by
  have hcall := (reads_symbolList .args .arg .argument).map fun args => Tree.node .call t.1 [args]
  refine ((Branch.of_reads hcall SymbolList.definite_phrase ?_).alt (Branch.of_before ?_)).reads
    .operand ?_ fun e => rfl
  · intro u l e? hu
    rw [callOrName, Reader.peek_bind, if_pos hu]
  · intro u l e? hu
    rw [callOrName, Reader.peek_bind, if_neg hu]
    rfl
  · intro u l e? hu
    exact absurd (Decidable.em _) hu

theorem reads_atom : Reads Reader.atom Atom.phrase Atom.tree := by
  have hinteger := (reads_expect .integer .operand).map (Tree.leaf .integer)
  have hsymbol : Reads (Reader.expect .symbol .operand >>= callOrName) ((one .symbol).seq Atom.tail)
      (fun d => Atom.tree (Atom.parts.symm (.inr d))) :=
    (reads_expect _ _).bind (definite_one (by decide)) (local_one _) reads_callOrName
  refine (Branch.via Atom.parts ((Branch.of_reads hinteger (definite_one (by decide)) ?_).alt
    (Branch.of_reads hsymbol Atom.definite_call ?_))).reads .operand ?_ fun e => rfl
  · intro t l e? ht
    simp only [Reader.atom, Reader.next_bind, Reader.expect_bind _ ht, if_pos ht]
  · intro t l e? ht
    simp only [Reader.atom, callOrName, Reader.next_bind, Reader.expect_bind _ ht, ht, reduceCtorEq,
      if_false, if_true]
  · intro t l e? ht
    rw [not_or] at ht
    simp only [Reader.atom, Reader.next_bind, if_neg ht.1, if_neg ht.2]
    rfl

/-! ## Chains -/

namespace Chain

variable {level : Level} {α : Type}

def parts : Chain level α ≃ α × List (Mark level × α) × Unit where
  toFun c := (c.first, c.others, ())
  invFun p := ⟨p.1, p.2.1⟩
  left_inv _ := rfl
  right_inv _ := rfl

/-- One operation of a level: the mark and its right operand. -/
def step (level : Level) (operand : Phrase α) : Phrase (Mark level × α) :=
  (leaf (· ∈ level.marks)).seq operand

def phrase (level : Level) (operand : Phrase α) : Phrase (Chain level α) :=
  (operand.seq ((step level operand).rounds (before (· ∉ level.marks)))).via parts

theorem tokens_phrase (operand : Phrase α) :
    (phrase level operand).tokens = Chain.tokens operand.tokens := by
  funext c
  exact congrArg (operand.tokens c.first ++ ·) (List.append_nil _)

variable {operand : Phrase α} {P : Kind → Prop}

theorem definite_step (h : operand.Definite P) : (step level operand).Definite (· ∈ level.marks) :=
  (definite_leaf fun _ => Level.ne_endOfText_of_mem_marks).seq h

theorem definite_phrase (h : operand.Definite P) : (phrase level operand).Definite P :=
  (h.seq ((definite_step h).rounds (definite_before _) fun _ hk hk' => hk' hk)).via parts

theorem local_step (h : operand.Local) : (step level operand).Local := (local_leaf _).seq h

theorem local_phrase (h : operand.Local) : (phrase level operand).Local :=
  (h.seq ((local_step h).rounds (local_before _))).via parts

/-- Before a token that its operands end before, and that is no mark of its level, a chain ends. -/
theorem fits_phrase (level : Level) {Q : Kind → Prop}
    (h : operand.Fits (Tokens.Next Q) (Tokens.Next P)) (hQ : ∀ k ∈ level.marks, Q k) :
    (phrase level operand).Fits (Tokens.Next fun k => Q k ∧ k ∉ level.marks) (Tokens.Next P) := by
  have hstep : (step level operand).Fits (Tokens.Next Q) (Tokens.Next Q) :=
    ((fits_leaf _ _).seq h).imp (fun _ h => h) fun _ h => h.imp hQ
  have hend : (before (· ∉ level.marks)).Fits (Tokens.Next fun k => Q k ∧ k ∉ level.marks)
      (Tokens.Next Q) := fun _ _ hts => ⟨hts.imp fun _ => And.right, hts.imp fun _ => And.left⟩
  exact (h.seq (hstep.rounds hend)).via parts

end Chain

theorem reads_operation (level : Level) {α : Type} [Nonempty α] {r : Reader Tokens Tree}
    {operand : Phrase α}
    {tree : α → Tree} {P : Kind → Prop} (h : Reads r operand tree) (hdef : operand.Definite P) :
    Reads (Reader.operation level r)
      ((Chain.step level operand).alt (before (· ∉ level.marks)))
      (Sum.elim (fun d => some (d.1.1, tree d.2)) fun _ => none) := by
  have hstep : Reads (do
      let mark ← Reader.accept (· ∈ level.marks) .operand
      let right ← r
      return some (mark, right))
      (Chain.step level operand) (fun d => some (d.1.1, tree d.2)) :=
    (reads_accept _ _).bind (definite_leaf fun _ => Level.ne_endOfText_of_mem_marks) (local_leaf _)
      fun mark => h.map _
  refine ((Branch.of_reads hstep (Chain.definite_step hdef) ?_).alt (Branch.of_before ?_)).reads
    .operand ?_ fun e => rfl
  · intro t l e? ht
    rw [Reader.operation, Reader.peek_bind, if_pos ht, Reader.drop_bind, Reader.accept_bind _ ht]
  · intro t l e? ht
    rw [Reader.operation, Reader.peek_bind, if_neg ht]
    rfl
  · intro t l e? ht
    exact absurd (Decidable.em _) ht

theorem reads_chain (level : Level) {α : Type} [Nonempty α] {r : Reader Tokens Tree}
    {operand : Phrase α}
    {tree : α → Tree} {P : Kind → Prop} (hr : Reader.Progresses r) (h : Reads r operand tree)
    (hdef : operand.Definite P) (hloc : operand.Local) :
    Reads (Reader.chain level r hr) (Chain.phrase level operand) (Chain.tree tree) := by
  have hothers :
      Reads (Reader.many (Reader.operation level r) (Reader.advances_operation level hr)) _ _ :=
    (reads_operation level h hdef).many (Chain.definite_step hdef)
      ((Chain.local_step hloc).localBefore _)
  refine Reads.via Chain.parts (Reads.bind h hdef hloc fun first => ?_)
  have htree := hothers.map fun others =>
    others.foldl (fun left p => Tree.node level.form p.1 [left, p.2]) (tree first)
  simp only [List.foldl_map] at htree
  exact htree

/-! ## Expressions -/

namespace Expression

def phrase : Phrase Expression :=
  Chain.phrase .sum (Chain.phrase .product (Chain.phrase .power Atom.phrase))

theorem tokens_phrase : phrase.tokens = Expression.tokens := by
  simp only [phrase, Chain.tokens_phrase, Atom.tokens_phrase, Expression.tokens]

theorem definite_phrase : phrase.Definite fun k => k = .integer ∨ k = .symbol :=
  Chain.definite_phrase (Chain.definite_phrase (Chain.definite_phrase Atom.definite_phrase))

theorem local_phrase : phrase.Local :=
  Chain.local_phrase (Chain.local_phrase (Chain.local_phrase Atom.local_phrase))

/-- The kinds that carry an expression on. -/
abbrev Continues (k : Kind) : Prop :=
  k = .openParen ∨ k ∈ Level.power.marks ∨ k ∈ Level.product.marks ∨ k ∈ Level.sum.marks

theorem fits_phrase :
    phrase.Fits (Tokens.Next fun k => ¬ Continues k)
      (Tokens.Next fun k => k = .integer ∨ k = .symbol) := by
  have hpower := Chain.fits_phrase .power Atom.fits_phrase (by decide)
  have hproduct := Chain.fits_phrase .product hpower (by decide)
  have hsum := Chain.fits_phrase .sum hproduct (by decide)
  refine hsum.imp (fun ts hts => hts.imp fun k hk => ?_) fun _ h => h
  simp only [Continues, not_or] at hk
  exact ⟨⟨⟨hk.1, hk.2.1⟩, hk.2.2.1⟩, hk.2.2.2⟩

end Expression

theorem reads_expression : Reads Reader.expression Expression.phrase Expression.tree := by
  have hpower : Reads Reader.power _ _ :=
    reads_chain .power Reader.progresses_atom reads_atom Atom.definite_phrase Atom.local_phrase
  have hproduct : Reads Reader.product _ _ :=
    reads_chain .product (Reader.progresses_chain _ _) hpower
      (Chain.definite_phrase Atom.definite_phrase)
      (Chain.local_phrase Atom.local_phrase)
  exact reads_chain .sum (Reader.progresses_chain _ _) hproduct
    (Chain.definite_phrase (Chain.definite_phrase Atom.definite_phrase))
    (Chain.local_phrase (Chain.local_phrase Atom.local_phrase))

end IntScript.Grammar
