import IntScript.Proofs.Grammar.Recognition

/-!
# Where a program can be cut into lines

Expressions and lists go over one line (`Expression.inline_tokens`).  So a line end has only three
places in a program: between the items, between the lines of a body, and before the brace that
closes one (`Program.cut`, `Function.cut`).  What is in front of it is, in the same order,

* a program;
* items and a function of which the `return` is missing (`Opened`), which no program ends with;
* a program whose last function is not closed.

The three can be told apart by counting.  In a program there are as many `return` as opening braces,
and as many closing braces as functions that are closed (`count_returnWord`,
`count_closeBrace_lt_iff`).
-/

namespace IntScript.Grammar

theorem Leaf.kind_mem {k : Kind} (t : Leaf k) {ks : List Kind} (hk : k ∈ ks) : t.1.kind ∈ ks := by
  rw [t.2]
  exact hk

/-! ## Kinds -/

/-- The kinds that expressions and lists are made of. -/
def inline : List Kind :=
  [.symbol, .integer, .add, .sub, .mul, .div, .mod, .pow, .openParen, .closeParen, .comma]

/-- The kinds that lines are made of, with the line ends. -/
def flat : List Kind := .newline :: .assign :: .printWord :: inline

theorem SymbolList.inline_tokens (l : SymbolList) : ∀ t ∈ l.tokens, t.kind ∈ inline := by
  simp only [tokens, List.cons_append, List.forall_mem_cons, List.forall_mem_append,
    List.forall_mem_flatMap]
  refine ⟨l.opening.kind_mem (by decide), l.first.kind_mem (by decide), fun p _ => ?_, ?_⟩
  · exact ⟨p.1.kind_mem (by decide), p.2.kind_mem (by decide), by simp⟩
  · exact ⟨l.closing.kind_mem (by decide), by simp⟩

theorem Atom.inline_tokens (a : Atom) : ∀ t ∈ a.tokens, t.kind ∈ inline := by
  cases a with
  | integer t =>
      rw [tokens, List.forall_mem_singleton]
      exact t.kind_mem (by decide)
  | name t =>
      rw [tokens, List.forall_mem_singleton]
      exact t.kind_mem (by decide)
  | call t args =>
      rw [tokens, List.forall_mem_cons]
      exact ⟨t.kind_mem (by decide), args.inline_tokens⟩

theorem Chain.inline_tokens {level : Level} {α : Type} {operand : α → List Token}
    (h : ∀ a, ∀ t ∈ operand a, t.kind ∈ inline) (c : Chain level α) :
    ∀ t ∈ c.tokens operand, t.kind ∈ inline := by
  have hmark : ∀ k ∈ level.marks, k ∈ inline := by cases level <;> decide
  simp only [tokens, List.forall_mem_append, List.forall_mem_flatMap, List.forall_mem_cons]
  exact ⟨h c.first, fun p _ => ⟨hmark _ p.1.2, h p.2⟩⟩

theorem Expression.inline_tokens (e : Expression) : ∀ t ∈ Expression.tokens e, t.kind ∈ inline :=
  Chain.inline_tokens (Chain.inline_tokens (Chain.inline_tokens Atom.inline_tokens)) e

theorem mem_flat_of_mem_inline {k : Kind} (h : k ∈ inline) : k ∈ flat :=
  List.mem_cons_of_mem _ (List.mem_cons_of_mem _ (List.mem_cons_of_mem _ h))

theorem Line.flat_tokens (l : Line) : ∀ t ∈ l.tokens, t.kind ∈ flat := by
  have hexpression (e : Expression) : ∀ t ∈ Expression.tokens e, t.kind ∈ flat :=
    fun t ht => mem_flat_of_mem_inline (Expression.inline_tokens e t ht)
  cases l with
  | print word e =>
      rw [tokens, List.forall_mem_cons]
      exact ⟨word.kind_mem (by decide), hexpression e⟩
  | assign target mark e =>
      rw [tokens, List.forall_mem_cons, List.forall_mem_cons]
      exact ⟨target.kind_mem (by decide), mark.kind_mem (by decide), hexpression e⟩
  | newline t =>
      rw [tokens, List.forall_mem_singleton]
      exact t.kind_mem (by decide)

theorem flat_lines (ls : List Line) : ∀ t ∈ ls.flatMap Line.tokens, t.kind ∈ flat := by
  rw [List.forall_mem_flatMap]
  exact fun l _ => l.flat_tokens

theorem Closing.tokens_subset (c : Closing) :
    ∀ t ∈ c.tokens, t.kind ∈ [Kind.newline, .closeBrace] := by
  simp only [tokens, List.forall_mem_append, List.forall_mem_map, List.forall_mem_singleton]
  exact ⟨fun n _ => n.kind_mem (by decide), c.brace.kind_mem (by decide)⟩

theorem Function.tokens_subset (f : Function) :
    ∀ t ∈ f.tokens, t.kind ∈ flat ++ [.funcWord, .openBrace, .returnWord, .closeBrace] := by
  have hflat {l : List Token} (h : ∀ t ∈ l, t.kind ∈ flat) :
      ∀ t ∈ l, t.kind ∈ flat ++ [.funcWord, .openBrace, .returnWord, .closeBrace] :=
    fun t ht => List.mem_append_left _ (h t ht)
  have hclosing : ∀ t ∈ f.body.closing?.elim [] Closing.tokens,
      t.kind ∈ flat ++ [.funcWord, .openBrace, .returnWord, .closeBrace] := by
    cases f.body.closing? with
    | none => exact fun t ht => absurd ht List.not_mem_nil
    | some c =>
        have hsub : ∀ k ∈ [Kind.newline, .closeBrace],
            k ∈ flat ++ [.funcWord, .openBrace, .returnWord, .closeBrace] := by decide
        exact fun t ht => hsub _ (c.tokens_subset t ht)
  simp only [tokens, Body.tokens, List.cons_append, List.append_assoc, List.forall_mem_cons,
    List.forall_mem_append]
  refine ⟨f.word.kind_mem (by decide), f.name.kind_mem (by decide), ?_,
    f.body.opening.kind_mem (by decide), hflat (flat_lines f.body.lines),
    f.body.word.kind_mem (by decide), ?_, hclosing⟩
  · exact hflat fun t ht => mem_flat_of_mem_inline (f.params.inline_tokens t ht)
  · exact hflat fun t ht => mem_flat_of_mem_inline (Expression.inline_tokens _ t ht)

theorem Program.known_tokens (p : Program) : ∀ t ∈ p.tokens, t.kind ∈ Kind.known := by
  have hknown : ∀ k ∈ flat ++ [.funcWord, .openBrace, .returnWord, .closeBrace],
      k ∈ Kind.known := by decide
  simp only [tokens, List.forall_mem_append, List.forall_mem_flatMap, List.forall_mem_singleton]
  refine ⟨fun i _ t ht => ?_, p.ending.kind_mem (by decide)⟩
  cases i with
  | line l => exact hknown _ (List.mem_append_left _ (l.flat_tokens t ht))
  | function f => exact hknown _ (f.tokens_subset t ht)

theorem Program.kinds_eq (p : Program) :
    p.kinds = (p.items.flatMap Item.tokens).map (·.kind) ++ [.endOfText] := by
  rw [kinds, tokens, List.map_append, List.map_singleton, p.ending.2]

/-! ## Counting -/

def functions (is : List Item) : List Function :=
  is.filterMap fun
    | .line _ => none
    | .function f => some f

theorem mem_functions {is : List Item} {f : Function} : f ∈ functions is ↔ .function f ∈ is := by
  unfold functions
  rw [List.mem_filterMap]
  constructor
  · rintro ⟨i, hi, hf⟩
    cases i with
    | line l => cases hf
    | function g =>
        cases hf
        exact hi
  · exact fun hf => ⟨_, hf, rfl⟩

/-- There is a brace that closes the body. -/
def Function.IsClosed (f : Function) : Prop := f.body.closing? ≠ none

instance (f : Function) : Decidable f.IsClosed :=
  decidable_of_iff (f.body.closing?.isSome) Option.isSome_iff_ne_none

theorem count_eq_zero_of_forall {k : Kind} {ks : List Kind} (hk : k ∉ ks) {l : List Token}
    (hl : ∀ t ∈ l, t.kind ∈ ks) : (l.map (·.kind)).count k = 0 := by
  rw [List.count_eq_zero]
  intro hmem
  obtain ⟨t, ht, rfl⟩ := List.mem_map.mp hmem
  exact hk (hl t ht)

/-- The tokens that hold a function together, by their kinds. -/
def Function.frame (f : Function) : List Kind :=
  [.funcWord, .openBrace, .returnWord] ++ if f.IsClosed then [.closeBrace] else []

theorem Closing.count_tokens (c : Closing) {k : Kind} (hk : k ≠ .newline) :
    (c.tokens.map (·.kind)).count k = [Kind.closeBrace].count k := by
  have hnewlines : ∀ t ∈ c.newlines.map (·.1), t.kind ∈ [Kind.newline] := by
    rw [List.forall_mem_map]
    exact fun n _ => n.kind_mem (by decide)
  rw [tokens, List.map_append, List.count_append,
    count_eq_zero_of_forall (by simpa using hk) hnewlines, Nat.zero_add, List.map_singleton,
    c.brace.2]

theorem Function.count_tokens (f : Function) {k : Kind} (hk : k ∉ flat) :
    (f.tokens.map (·.kind)).count k = f.frame.count k := by
  have hinline : k ∉ inline := fun h => hk (mem_flat_of_mem_inline h)
  have hsymbol : Kind.symbol ≠ k := by
    rintro rfl
    exact hk (by decide)
  have hparams := count_eq_zero_of_forall hinline f.params.inline_tokens
  have hresult := count_eq_zero_of_forall hinline (Expression.inline_tokens f.body.result)
  have hlines := count_eq_zero_of_forall hk (flat_lines f.body.lines)
  have hclosing : ((f.body.closing?.elim [] Closing.tokens).map (·.kind)).count k =
      (if f.IsClosed then [Kind.closeBrace] else []).count k := by
    cases hc : f.body.closing? with
    | none => simp [IsClosed, hc]
    | some c =>
        rw [if_pos (by simp [IsClosed, hc])]
        exact c.count_tokens fun h => hk (by simp [h, flat])
  simp only [tokens, Body.tokens, List.cons_append, List.append_assoc, List.map_cons,
    List.map_append, List.count_cons, List.count_append, f.word.2, f.name.2, f.body.opening.2,
    f.body.word.2, hparams, hlines, hresult, hclosing, frame, List.count_nil]
  simp [hsymbol]

theorem count_tokens (is : List Item) {k : Kind} (hk : k ∉ flat) :
    ((is.flatMap Item.tokens).map (·.kind)).count k =
      ((functions is).flatMap Function.frame).count k := by
  induction is with
  | nil => rfl
  | cons i is ih =>
      rw [List.flatMap_cons, List.map_append, List.count_append, ih]
      cases i with
      | line l =>
          rw [Item.tokens, count_eq_zero_of_forall hk l.flat_tokens, Nat.zero_add]
          rfl
      | function f =>
          rw [Item.tokens, f.count_tokens hk, ← List.count_append]
          rfl

/-- Every function has one opening brace, one `return`, and at most one closing brace. -/
theorem count_frames (fs : List Function) :
    (fs.flatMap Function.frame).count .returnWord = (fs.flatMap Function.frame).count .openBrace ∧
      (fs.flatMap Function.frame).count .closeBrace ≤
        (fs.flatMap Function.frame).count .openBrace ∧
      ((fs.flatMap Function.frame).count .closeBrace =
        (fs.flatMap Function.frame).count .openBrace ↔ ∀ f ∈ fs, f.IsClosed) := by
  induction fs with
  | nil => simp
  | cons f fs ih =>
      obtain ⟨hreturn, hle, hclosed⟩ := ih
      simp only [List.flatMap_cons, List.count_append, List.forall_mem_cons, hreturn, ← hclosed]
      by_cases hf : f.IsClosed
      · have hframe : f.frame = [.funcWord, .openBrace, .returnWord, .closeBrace] := by
          rw [Function.frame, if_pos hf]
          rfl
        simp [hframe, hf, hle]
      · have hframe : f.frame = [.funcWord, .openBrace, .returnWord] := by
          rw [Function.frame, if_neg hf]
          rfl
        simp only [hframe, hf, false_and, iff_false]
        refine ⟨rfl, ?_, ?_⟩
        · simp
          omega
        · simp
          omega

theorem count_returnWord (is : List Item) :
    ((is.flatMap Item.tokens).map (·.kind)).count .returnWord =
      ((is.flatMap Item.tokens).map (·.kind)).count .openBrace := by
  rw [count_tokens is (by decide), count_tokens is (by decide)]
  exact (count_frames _).1

theorem count_closeBrace_le (is : List Item) :
    ((is.flatMap Item.tokens).map (·.kind)).count .closeBrace ≤
      ((is.flatMap Item.tokens).map (·.kind)).count .openBrace := by
  rw [count_tokens is (by decide), count_tokens is (by decide)]
  exact (count_frames _).2.1

theorem count_closeBrace_lt_iff (is : List Item) :
    ((is.flatMap Item.tokens).map (·.kind)).count .closeBrace <
        ((is.flatMap Item.tokens).map (·.kind)).count .openBrace ↔
      ∃ f ∈ functions is, ¬ f.IsClosed := by
  obtain ⟨-, hle, hclosed⟩ := count_frames (functions is)
  rw [count_tokens is (by decide), count_tokens is (by decide)]
  constructor
  · intro hlt
    by_contra hall
    push Not at hall
    have heq := hclosed.mpr hall
    omega
  · rintro ⟨f, hf, hopen⟩
    refine Nat.lt_of_le_of_ne hle fun heq => ?_
    exact hopen (hclosed.mp heq f hf)

/-! ## Functions that are not finished -/

/-- A function up to a place in its body before the `return`. -/
structure Opened where
  word : Leaf .funcWord
  name : Leaf .symbol
  params : SymbolList
  opening : Leaf .openBrace
  lines : List Line

def Opened.tokens (o : Opened) : List Token :=
  o.word.1 :: o.name.1 :: o.params.tokens ++ o.opening.1 :: o.lines.flatMap Line.tokens

/-- The function with no more than some lines of its body. -/
def Function.opened (f : Function) (lines : List Line) : Opened :=
  ⟨f.word, f.name, f.params, f.body.opening, lines⟩

/-- The function without the brace that closes it. -/
def Function.unclosed (f : Function) : Function :=
  { f with body := { f.body with closing? := none } }

theorem Opened.count_tokens (o : Opened) :
    (o.tokens.map (·.kind)).count .returnWord = 0 ∧
      (o.tokens.map (·.kind)).count .openBrace = 1 := by
  have hparams {k : Kind} (hk : k ∉ inline) : (o.params.tokens.map (·.kind)).count k = 0 :=
    count_eq_zero_of_forall hk o.params.inline_tokens
  have hlines {k : Kind} (hk : k ∉ flat) :
      ((o.lines.flatMap Line.tokens).map (·.kind)).count k = 0 :=
    count_eq_zero_of_forall hk (flat_lines o.lines)
  simp only [tokens, List.cons_append, List.map_cons, List.map_append, List.count_cons,
    List.count_append, o.word.2, o.name.2, o.opening.2, hparams (k := .returnWord) (by decide),
    hparams (k := .openBrace) (by decide), hlines (k := .returnWord) (by decide),
    hlines (k := .openBrace) (by decide)]
  decide

/-- Where the `return` is missing there is no program. -/
theorem not_derives_opened (is : List Item) (o : Opened) :
    ¬ Derives ((is.flatMap Item.tokens ++ o.tokens).map (·.kind) ++ [.endOfText]) := by
  rintro ⟨p, hp⟩
  have hcount := count_returnWord p.items
  have hitems : (p.items.flatMap Item.tokens).map (·.kind) =
      (is.flatMap Item.tokens ++ o.tokens).map (·.kind) :=
    List.append_inj_left' (p.kinds_eq.symm.trans hp) rfl
  obtain ⟨hreturn, hopen⟩ := o.count_tokens
  rw [hitems, List.map_append, List.count_append, List.count_append, count_returnWord is, hreturn,
    hopen] at hcount
  omega

/-! ## Cuts -/

theorem cut_append {α : Type} {l l' front back : List α} {a : α}
    (h : l ++ l' = front ++ a :: back) :
    (∃ k, l = front ++ a :: k ∧ back = k ++ l') ∨ ∃ k, front = l ++ k ∧ l' = k ++ a :: back := by
  rcases List.append_eq_append_iff.mp h with ⟨k, hfront, hl'⟩ | ⟨k, hl, hback⟩
  · exact .inr ⟨k, hfront, hl'⟩
  · cases k with
    | nil => exact .inr ⟨[], by simpa using hl.symm, hback.symm⟩
    | cons b k =>
        obtain ⟨rfl, hk⟩ := List.cons.inj hback
        exact .inl ⟨k, hl, hk⟩

theorem cut_flatMap {α β : Type} {f : α → List β} {l : List α} {front back : List β} {b : β}
    (h : l.flatMap f = front ++ b :: back) :
    ∃ l₁ a l₂ k k', l = l₁ ++ a :: l₂ ∧ f a = k ++ b :: k' ∧ front = l₁.flatMap f ++ k ∧
      back = k' ++ l₂.flatMap f := by
  induction l generalizing front with
  | nil => exact absurd h.symm (by simp)
  | cons a l ih =>
      rw [List.flatMap_cons] at h
      rcases cut_append h with ⟨k', hk', hback⟩ | ⟨k, hfront, hk⟩
      · exact ⟨[], a, l, front, k', rfl, hk', rfl, hback⟩
      · obtain ⟨l₁, a', l₂, j, j', rfl, ha', rfl, hback⟩ := ih hk
        refine ⟨a :: l₁, a', l₂, j, j', rfl, ha', ?_, hback⟩
        rw [hfront, List.flatMap_cons, List.append_assoc]

section

variable {n : Token} (hn : n.kind = .newline)

include hn

theorem newline_not_mem (ks : List Kind) (hks : .newline ∉ ks) {l : List Token}
    (hl : ∀ t ∈ l, t.kind ∈ ks) : n ∉ l := by
  intro hmem
  exact hks (hn ▸ hl n hmem)

theorem Line.cut {l : Line} {front back : List Token} (h : l.tokens = front ++ n :: back) :
    l = .newline ⟨n, hn⟩ ∧ front = [] ∧ back = [] := by
  have hmem : n ∈ l.tokens := by
    rw [h]
    exact List.mem_append_right _ List.mem_cons_self
  have hexpression (e : Expression) : n ∉ Expression.tokens e :=
    newline_not_mem hn inline (by decide) (Expression.inline_tokens e)
  have hleaf {k : Kind} (t : Leaf k) (hk : k ≠ .newline) : n ≠ t.1 := by
    rintro rfl
    exact hk (t.2.symm.trans hn)
  cases l with
  | print word e =>
      rcases List.mem_cons.mp hmem with h | h
      · exact absurd h (hleaf word (by decide))
      · exact absurd h (hexpression e)
  | assign target mark e =>
      rcases List.mem_cons.mp hmem with h | h
      · exact absurd h (hleaf target (by decide))
      · rcases List.mem_cons.mp h with h | h
        · exact absurd h (hleaf mark (by decide))
        · exact absurd h (hexpression e)
  | newline t =>
      obtain ⟨rfl, rfl, rfl⟩ : front = [] ∧ t.1 = n ∧ back = [] := by
        rcases List.singleton_eq_append_iff.mp h with ⟨rfl, h⟩ | ⟨-, h⟩
        · obtain ⟨rfl, rfl⟩ := List.cons.inj h
          exact ⟨rfl, rfl, rfl⟩
        · cases h
      exact ⟨rfl, rfl, rfl⟩

/-- In a program a line end is an item, or it stands in a function. -/
theorem Program.cut {p : Program} {front back : List Token} (h : p.tokens = front ++ n :: back) :
    (∃ is js, p.items = is ++ .line (.newline ⟨n, hn⟩) :: js ∧ front = is.flatMap Item.tokens ∧
        back = js.flatMap Item.tokens ++ [p.ending.1]) ∨
      ∃ is f js k k', p.items = is ++ .function f :: js ∧ f.tokens = k ++ n :: k' ∧
        front = is.flatMap Item.tokens ++ k ∧
        back = k' ++ (js.flatMap Item.tokens ++ [p.ending.1]) := by
  rcases cut_append h with ⟨rest, hitems, hback⟩ | ⟨k, -, hend⟩
  · obtain ⟨is, i, js, k, k', hsplit, hi, hfront, rfl⟩ := cut_flatMap hitems
    cases i with
    | line l =>
        obtain ⟨rfl, rfl, rfl⟩ := Line.cut hn hi
        refine .inl ⟨is, js, hsplit, ?_, hback⟩
        rw [hfront, List.append_nil]
    | function f =>
        refine .inr ⟨is, f, js, k, k', hsplit, hi, hfront, ?_⟩
        rw [hback, List.append_assoc]
  · have hmem : n ∈ [p.ending.1] := by
      rw [hend]
      exact List.mem_append_right _ List.mem_cons_self
    rw [List.mem_singleton.mp hmem, p.ending.2] at hn
    cases hn

/-- In a function a line end is a line of the body, or it stands before the closing brace. -/
theorem Function.cut {f : Function} {front back : List Token} (h : f.tokens = front ++ n :: back) :
    (∃ ls, front = (f.opened ls).tokens) ∨
      ∃ ns : List (Leaf .newline), front = f.unclosed.tokens ++ ns.map (·.1) ∧ f.IsClosed := by
  have htokens : f.tokens = (f.opened []).tokens ++ (f.body.lines.flatMap Line.tokens ++
      ((f.body.word.1 :: Expression.tokens f.body.result) ++
        f.body.closing?.elim [] Closing.tokens)) := by
    simp [tokens, Body.tokens, Opened.tokens, opened]
  have hhead : n ∉ (f.opened []).tokens := by
    refine newline_not_mem hn (.funcWord :: .openBrace :: inline) (by decide) ?_
    simp only [Opened.tokens, opened, List.flatMap_nil, List.cons_append, List.forall_mem_cons,
      List.forall_mem_append]
    refine ⟨f.word.kind_mem (by decide), f.name.kind_mem (by decide), ?_,
      f.body.opening.kind_mem (by decide), by simp⟩
    exact fun t ht => List.mem_cons_of_mem _ (List.mem_cons_of_mem _ (f.params.inline_tokens t ht))
  have hresult : n ∉ f.body.word.1 :: Expression.tokens f.body.result := by
    refine newline_not_mem hn (.returnWord :: inline) (by decide) ?_
    rw [List.forall_mem_cons]
    refine ⟨f.body.word.kind_mem (by decide), ?_⟩
    exact fun t ht => List.mem_cons_of_mem _ (Expression.inline_tokens _ t ht)
  rw [htokens] at h
  rcases cut_append h with ⟨k, hk, -⟩ | ⟨k, hfront, hrest⟩
  · exact absurd (hk ▸ List.mem_append_right _ List.mem_cons_self) hhead
  rcases cut_append hrest with ⟨k', hlines, -⟩ | ⟨k', hk, hrest'⟩
  · obtain ⟨ls, l, ls', j, j', -, hl, hk, -⟩ := cut_flatMap hlines
    obtain ⟨-, rfl, -⟩ := Line.cut hn hl
    refine .inl ⟨ls, ?_⟩
    simp [hfront, hk, Opened.tokens, opened]
  rcases cut_append hrest' with ⟨k'', hk'', -⟩ | ⟨k'', hk', hc'⟩
  · exact absurd (hk'' ▸ List.mem_append_right _ List.mem_cons_self) hresult
  cases hc : f.body.closing? with
  | none =>
      rw [hc] at hc'
      exact absurd hc'.symm (by simp)
  | some c =>
      rw [hc] at hc'
      have hclosing : c.newlines.map (·.1) ++ [c.brace.1] = k'' ++ n :: back := hc'
      rcases cut_append hclosing with ⟨j, hnewlines, -⟩ | ⟨j, -, hbrace⟩
      · obtain ⟨ns, -, -, hns, -⟩ := List.map_eq_append_iff.mp hnewlines
        refine .inr ⟨ns, ?_, by simp [IsClosed, hc]⟩
        simp [hfront, hk, hk', hns, tokens, unclosed, Body.tokens, Opened.tokens, opened]
      · have hmem : n ∈ [c.brace.1] := by
          rw [hbrace]
          exact List.mem_append_right _ List.mem_cons_self
        rw [List.mem_singleton.mp hmem, c.brace.2] at hn
        cases hn

end

end IntScript.Grammar
