import IntScript.Parse.Program
import Mathlib.Data.List.Forall2

/-!
# Reading from two sources that answer alike

A reader touches its source only by looking and dropping.  So where two sources answer every look
alike, every reader of the grammar gives like results on both: like trees, or like errors.  This is
the fundamental lemma of a logical relation, `Simulation.program` at the end, with one lemma for
each reader on the way.

What "alike" means is left open.  It is a relation `K` on tokens, which has to respect kinds, a
relation `Q` on scanning errors, and a relation `R` on the two sources:

| `K`, `Q` | `R` | what it says |
| :-- | :-- | :-- |
| equality | a window and the list of what is ahead of it | scanning on demand is scanning first |
| same kind | lists with the same kinds | only kinds decide whether a text is a program |

A simulation promises nothing behind a dropped end of text (the third part of `LookAlike.ok`).  No
reader goes on there: whatever takes an end of text refuses it.
-/

namespace IntScript

/-- Trees of one shape with like tokens. -/
inductive Tree.Alike (K : Token → Token → Prop) : Tree → Tree → Prop
  | node {f : Form} {t u : Token} {cs ds : List Tree} :
      K t u → List.Forall₂ (Alike K) cs ds → Alike K (.node f t cs) (.node f u ds)

theorem Tree.Alike.leaf {K : Token → Token → Prop} {f : Form} {t u : Token} (h : K t u) :
    Alike K (.leaf f t) (.leaf f u) :=
  .node h .nil

mutual

theorem Tree.Alike.eq : ∀ {n n' : Tree}, Tree.Alike Eq n n' → n = n'
  | .node _ _ _, .node _ _ _, .node ht hc => by rw [ht, Tree.Alike.eq_all hc]

theorem Tree.Alike.eq_all :
    ∀ {cs ds : List Tree}, List.Forall₂ (Tree.Alike Eq) cs ds → cs = ds
  | [], [], .nil => rfl
  | _ :: _, _ :: _, .cons h hs => by rw [Tree.Alike.eq h, Tree.Alike.eq_all hs]

end

/-- Errors of one sort at like places. -/
inductive ParseError.Alike (K : Token → Token → Prop) (Q : ScanError → ScanError → Prop) :
    ParseError → ParseError → Prop
  | scan {d e : ScanError} : Q d e → Alike K Q (.scan d) (.scan e)
  | misfit {x : Expected} {t u : Token} : K t u → Alike K Q (.misfit ⟨x, t⟩) (.misfit ⟨x, u⟩)

theorem ParseError.Alike.eq : ∀ {d e : ParseError}, ParseError.Alike Eq Eq d e → d = e
  | _, _, .scan h => by rw [h]
  | _, _, .misfit h => by rw [h]

section

variable {σ τ : Type} [TokenSource σ] [TokenSource τ]

/-- Like answers to a look `i` places ahead. -/
inductive LookAlike (K : Token → Token → Prop) (Q : ScanError → ScanError → Prop)
    (R : σ → τ → Prop) (i : Nat) :
    Except ScanError Token × σ → Except ScanError Token × τ → Prop
  | ok {t u : Token} {s : σ} {s' : τ} : K t u → R s s' →
      (t.kind ≠ .endOfText → R (TokenSource.drop s (i + 1)) (TokenSource.drop s' (i + 1))) →
      LookAlike K Q R i (.ok t, s) (.ok u, s')
  | error {d e : ScanError} {s : σ} {s' : τ} : Q d e →
      LookAlike K Q R i (.error d, s) (.error e, s')

/-- Sources related by `R` answer alike and stay related; of the first of them a second look at the
next token finds the same token. -/
structure Simulation (K : Token → Token → Prop) (Q : ScanError → ScanError → Prop)
    (R : σ → τ → Prop) : Prop where
  kind_eq {t u : Token} : K t u → t.kind = u.kind
  nowhere : K .nowhere .nowhere
  look {s : σ} {s' : τ} (i : Nat) : R s s' →
    LookAlike K Q R i (TokenSource.peek s i) (TokenSource.peek s' i)
  again {s s₁ : σ} {s' : τ} {t : Token} : R s s' → TokenSource.peek s 0 = (.ok t, s₁) →
    TokenSource.peek s₁ 0 = (.ok t, s₁)

end

namespace Reader

/-! ## Rounds of a repetition -/

section

variable {σ α : Type} [TokenSource σ] {r : Reader σ (Option α)} (hr : Advances r) {s s₁ : σ}

theorem many_of_error {e : ParseError} (h : r s = .error e) : many r hr s = .error e := by
  rw [many]
  split
  · next h' =>
      cases h.symm.trans h'
      rfl
  · next h' => cases h.symm.trans h'
  · next h' => cases h.symm.trans h'

theorem many_of_none (h : r s = .ok (none, s₁)) : many r hr s = .ok ([], s₁) := by
  rw [many]
  split
  · next h' => cases h.symm.trans h'
  · next h' =>
      cases h.symm.trans h'
      rfl
  · next h' => cases h.symm.trans h'

theorem many_of_some {a : α} (h : r s = .ok (some a, s₁)) :
    many r hr s = (do let as ← many r hr; return a :: as : Reader σ (List α)) s₁ := by
  rw [many]
  split
  · next h' => cases h.symm.trans h'
  · next h' => cases h.symm.trans h'
  · next h' =>
      cases h.symm.trans h'
      simp only [bind, StateT.bind, Except.bind]
      split
      · next h'' => rw [h'']
      · next h'' => rw [h'']; rfl

omit hr in
theorem closeBodyFrom_eq (i : Nat) (s : σ) :
    closeBodyFrom i s =
      match TokenSource.peek s i with
      | (.error e, _) => .error (.scan e)
      | (.ok t, s') =>
        if t.kind = .newline then closeBodyFrom (i + 1) s'
        else if t.kind = .closeBrace then .ok ((), TokenSource.drop s' (i + 1))
        else .ok ((), s') := by
  rw [closeBodyFrom]
  split
  · next h => rw [h]
  · next h =>
      rw [h]
      simp only [dite_eq_ite]

end

/-! ## Like results -/

variable {σ τ α β α' β' : Type} {K : Token → Token → Prop} {Q : ScanError → ScanError → Prop}
  {P : α × σ → β × τ → Prop}

/-- Like results of two readers: both fail alike, or both succeed with `P`. -/
inductive Alike (K : Token → Token → Prop) (Q : ScanError → ScanError → Prop)
    (P : α × σ → β × τ → Prop) :
    Except ParseError (α × σ) → Except ParseError (β × τ) → Prop
  | ok {x : α × σ} {y : β × τ} : P x y → Alike K Q P (.ok x) (.ok y)
  | error {d e : ParseError} : ParseError.Alike K Q d e → Alike K Q P (.error d) (.error e)

/-- Like values and related sources. -/
def Both (A : α → β → Prop) (R : σ → τ → Prop) (x : α × σ) (y : β × τ) : Prop :=
  A x.1 y.1 ∧ R x.2 y.2

namespace Alike

theorem exists_of {x : Except ParseError (α × σ)} {y : Except ParseError (β × τ)}
    (h : Alike K Q P x y) :
    (∃ a b, x = .ok a ∧ y = .ok b ∧ P a b) ∨
      ∃ d e, x = .error d ∧ y = .error e ∧ ParseError.Alike K Q d e := by
  cases h with
  | ok hP => exact .inl ⟨_, _, rfl, rfl, hP⟩
  | error he => exact .inr ⟨_, _, rfl, rfl, he⟩

theorem pure {a : α} {b : β} {s : σ} {s' : τ} (h : P (a, s) (b, s')) :
    Alike K Q P ((Pure.pure a : Reader σ α) s) ((Pure.pure b : Reader τ β) s') :=
  .ok h

theorem bind {r : Reader σ α} {r' : Reader τ β} {f : α → Reader σ α'} {f' : β → Reader τ β'}
    {P' : α' × σ → β' × τ → Prop} {s : σ} {s' : τ} (h : Alike K Q P (r s) (r' s'))
    (hf : ∀ a s₁ b s₁', P (a, s₁) (b, s₁') → Alike K Q P' (f a s₁) (f' b s₁')) :
    Alike K Q P' ((r >>= f) s) ((r' >>= f') s') := by
  show Alike K Q P' ((r s).bind fun x => f x.1 x.2) ((r' s').bind fun y => f' y.1 y.2)
  generalize r s = x, r' s' = y at h
  cases h with
  | ok hP => exact hf _ _ _ _ hP
  | error he => exact .error he

theorem ite {c c' : Prop} [Decidable c] [Decidable c'] {r q : Reader σ α} {r' q' : Reader τ β}
    {s : σ} {s' : τ} (hc : c ↔ c') (hr : c → Alike K Q P (r s) (r' s'))
    (hq : ¬ c → Alike K Q P (q s) (q' s')) :
    Alike K Q P ((if c then r else q) s) ((if c' then r' else q') s') := by
  by_cases h : c
  · rw [if_pos h, if_pos (hc.mp h)]
    exact hr h
  · rw [if_neg h, if_neg (fun h' => h (hc.mpr h'))]
    exact hq h

theorem drop [TokenSource σ] [TokenSource τ] {n : Nat} {f : Unit → Reader σ α}
    {f' : Unit → Reader τ β} {s : σ} {s' : τ}
    (h : Alike K Q P (f () (TokenSource.drop s n)) (f' () (TokenSource.drop s' n))) :
    Alike K Q P ((Reader.drop n >>= f) s) ((Reader.drop n >>= f') s') :=
  h

theorem refuse [TokenSource σ] [TokenSource τ] {t u : Token} (h : K t u) (x : Expected) (s : σ)
    (s' : τ) :
    Alike K Q P ((Reader.refuse x t : Reader σ α) s) ((Reader.refuse x u : Reader τ β) s') :=
  .error (.misfit h)

end Alike

end Reader

namespace Simulation

open Reader (Alike Both)

variable {σ τ α β : Type} [TokenSource σ] [TokenSource τ] {K : Token → Token → Prop}
  {Q : ScanError → ScanError → Prop} {R : σ → τ → Prop} {A : α → β → Prop} {s : σ} {s' : τ}

/-! ## Tokens -/

/-- The next token is there and is no end of text. -/
def Continues (s : σ) : Prop := ∃ t s₁, Reader.next s = .ok (t, s₁) ∧ t.kind ≠ .endOfText

/-- What a look at the next token leads to: like tokens, which can be dropped or read again unless
they are ends of text. -/
structure Seen (K : Token → Token → Prop) (R : σ → τ → Prop) (x : Token × σ) (y : Token × τ) :
    Prop where
  alike : K x.1 y.1
  related : R x.2 y.2
  dropped : x.1.kind ≠ .endOfText → R (TokenSource.drop x.2 1) (TokenSource.drop y.2 1)
  continues : x.1.kind ≠ .endOfText → Continues x.2

theorem peek (S : Simulation K Q R) (h : R s s') :
    Alike K Q (Seen K R) (Reader.peek 0 s) (Reader.peek 0 s') := by
  have hlook := S.look 0 h
  have hagain := @S.again s
  simp only [Reader.peek]
  generalize TokenSource.peek s 0 = x, TokenSource.peek s' 0 = y at hlook hagain
  cases hlook with
  | error hQ => exact .error (.scan hQ)
  | @ok t u s₁ s₁' hK hR hdrop =>
      refine .ok ⟨hK, hR, hdrop, fun ht => ⟨t, TokenSource.drop s₁ 1, ?_, ht⟩⟩
      simp only [Reader.next, Reader.peek, bind, StateT.bind, Except.bind, hagain h rfl]
      rfl

theorem next (S : Simulation K Q R) (h : R s s') :
    Alike K Q (fun x y => K x.1 y.1 ∧ (x.1.kind ≠ .endOfText → R x.2 y.2))
      (Reader.next s) (Reader.next s') :=
  (S.peek h).bind fun _ _ _ _ hseen => .ok ⟨hseen.alike, hseen.dropped⟩

theorem next_of_continues (S : Simulation K Q R) (h : R s s') (hs : Continues s) :
    Alike K Q (Both K R) (Reader.next s) (Reader.next s') := by
  obtain ⟨t, s₁, ht, hk⟩ := hs
  have hnext := S.next h
  rw [ht] at hnext ⊢
  generalize Reader.next s' = y at hnext ⊢
  cases hnext with
  | ok hP => exact .ok ⟨hP.1, hP.2 hk⟩

theorem expect (S : Simulation K Q R) {k : Kind} (hk : k ≠ .endOfText) (x : Expected)
    (h : R s s') : Alike K Q (Both K R) (Reader.expect k x s) (Reader.expect k x s') := by
  refine (S.next h).bind fun t s₁ u s₁' ⟨hK, hR⟩ => ?_
  refine .ite (by rw [S.kind_eq hK]) (fun ht => ?_) (fun _ => .refuse hK ..)
  exact .pure ⟨hK, hR (ht ▸ hk)⟩

/-! ## Repetition -/

/-- If one round keeps the sources related, so do all rounds together; what holds of the source
after the round that finds nothing holds at the end. -/
theorem many {r : Reader σ (Option α)} {r' : Reader τ (Option β)} {hr : Reader.Advances r}
    {hr' : Reader.Advances r'} {N : σ → Prop}
    (hitem : ∀ {s s'}, R s s' →
      Alike K Q (fun x y => Both (Option.Rel A) R x y ∧ (x.1 = none → N x.2)) (r s) (r' s'))
    (h : R s s') :
    Alike K Q (fun x y => Both (List.Forall₂ A) R x y ∧ N x.2) (Reader.many r hr s)
      (Reader.many r' hr' s') := by
  induction hn : TokenSource.size s using Nat.strongRecOn generalizing s s' with
  | ind n ih =>
      rcases (hitem h).exists_of with
        ⟨⟨a, s₁⟩, ⟨b, s₁'⟩, hs, hs', ⟨hA, hR⟩, hN⟩ | ⟨d, e, hs, hs', he⟩
      · cases hA with
        | none =>
            rw [Reader.many_of_none hr hs, Reader.many_of_none hr' hs']
            exact .ok ⟨⟨.nil, hR⟩, hN rfl⟩
        | some hA =>
            have hlt := (hr _ _ _ hs).2 rfl
            rw [Reader.many_of_some hr hs, Reader.many_of_some hr' hs']
            exact (ih _ (hn ▸ hlt) hR rfl).bind
              fun _ _ _ _ ⟨⟨hall, hR'⟩, hN'⟩ => .ok ⟨⟨.cons hA hall, hR'⟩, hN'⟩
      · rw [Reader.many_of_error hr hs, Reader.many_of_error hr' hs']
        exact .error he

/-! ## Expressions -/

/-- Nothing has to be known of the source where a repetition ends. -/
def Anything (_ : σ) : Prop := True

theorem listItem (S : Simulation K Q R) (x : Expected) (h : R s s') :
    Alike K Q (fun x y => Both (Option.Rel K) R x y ∧ (x.1 = none → Anything x.2))
      (Reader.listItem x s) (Reader.listItem x s') := by
  refine (S.next h).bind fun t s₁ u s₁' ⟨hK, hR⟩ => ?_
  refine .ite (by rw [S.kind_eq hK]) (fun ht => ?_) fun _ => ?_
  · exact (S.expect (by decide) x (hR (by simp [ht]))).bind
      fun _ _ _ _ ⟨hK', hR'⟩ => .pure ⟨⟨.some hK', hR'⟩, fun _ => trivial⟩
  · refine .ite (by rw [S.kind_eq hK]) (fun ht => ?_) fun _ => .refuse hK ..
    exact .pure ⟨⟨.none, hR (by simp [ht])⟩, fun _ => trivial⟩

theorem symbolList (S : Simulation K Q R) (list item : Form) (x : Expected) (h : R s s') :
    Alike K Q (Both (Tree.Alike K) R) (Reader.symbolList list item x s)
      (Reader.symbolList list item x s') := by
  refine (S.expect (by decide) _ h).bind fun t s₁ u s₁' ⟨hmark, hR₁⟩ => ?_
  refine (S.expect (by decide) x hR₁).bind fun t' s₂ u' s₂' ⟨hfirst, hR₂⟩ => ?_
  refine (many (fun h => S.listItem x h) hR₂).bind fun ts s₃ us s₃' ⟨⟨hothers, hR₃⟩, _⟩ => ?_
  refine .pure ⟨.node hmark ?_, hR₃⟩
  exact List.forall₂_map_left_iff.mpr (List.forall₂_map_right_iff.mpr
    ((List.Forall₂.cons hfirst hothers).imp fun _ _ => .leaf))

theorem atom (S : Simulation K Q R) (h : R s s') :
    Alike K Q (Both (Tree.Alike K) R) (Reader.atom s) (Reader.atom s') := by
  refine (S.next h).bind fun t s₁ u s₁' ⟨hK, hR⟩ => ?_
  refine .ite (by rw [S.kind_eq hK]) (fun ht => .pure ⟨.leaf hK, hR (by simp [ht])⟩) fun _ => ?_
  refine .ite (by rw [S.kind_eq hK]) (fun ht => ?_) fun _ => .refuse hK ..
  refine (S.peek (hR (by simp [ht]))).bind fun t' s₂ u' s₂' hseen => ?_
  refine .ite (by rw [S.kind_eq hseen.alike]) (fun _ => ?_) fun _ => .pure ⟨.leaf hK, hseen.related⟩
  exact (S.symbolList _ _ _ hseen.related).bind
    fun _ _ _ _ ⟨hargs, hR₃⟩ => .pure ⟨.node hK (.cons hargs .nil), hR₃⟩

/-- Like marks with like operands. -/
def OperationAlike (K : Token → Token → Prop) (p q : Token × Tree) : Prop :=
  K p.1 q.1 ∧ Tree.Alike K p.2 q.2

theorem operation (S : Simulation K Q R) (level : Level) {operand : Reader σ Tree}
    {operand' : Reader τ Tree}
    (ho : ∀ {s s'}, R s s' → Alike K Q (Both (Tree.Alike K) R) (operand s) (operand' s'))
    (h : R s s') :
    Alike K Q (fun x y => Both (Option.Rel (OperationAlike K)) R x y ∧ (x.1 = none → Anything x.2))
      (Reader.operation level operand s) (Reader.operation level operand' s') := by
  refine (S.peek h).bind fun t s₁ u s₁' hseen => ?_
  refine .ite (by rw [S.kind_eq hseen.alike]) (fun ht => .drop ?_)
    fun _ => .pure ⟨⟨.none, hseen.related⟩, fun _ => trivial⟩
  exact (ho (hseen.dropped (Level.ne_endOfText_of_mem_marks ht))).bind
    fun _ _ _ _ ⟨hn, hR⟩ => .pure ⟨⟨.some ⟨hseen.alike, hn⟩, hR⟩, fun _ => trivial⟩

theorem foldl_alike (level : Level) {ps qs : List (Token × Tree)}
    (h : List.Forall₂ (OperationAlike K) ps qs) {n n' : Tree} (hn : Tree.Alike K n n') :
    Tree.Alike K (ps.foldl (fun left p => .node level.form p.1 [left, p.2]) n)
      (qs.foldl (fun left p => .node level.form p.1 [left, p.2]) n') := by
  induction h generalizing n n' with
  | nil => exact hn
  | cons hp _ ih => exact ih (.node hp.1 (.cons hn (.cons hp.2 .nil)))

theorem chain (S : Simulation K Q R) (level : Level) {operand : Reader σ Tree}
    {operand' : Reader τ Tree} {hp : Reader.Progresses operand} {hp' : Reader.Progresses operand'}
    (ho : ∀ {s s'}, R s s' → Alike K Q (Both (Tree.Alike K) R) (operand s) (operand' s'))
    (h : R s s') :
    Alike K Q (Both (Tree.Alike K) R) (Reader.chain level operand hp s)
      (Reader.chain level operand' hp' s') := by
  refine (ho h).bind fun n s₁ n' s₁' ⟨hn, hR₁⟩ => ?_
  refine (many (fun h => S.operation level ho h) hR₁).bind
    fun ps s₂ qs s₂' ⟨⟨hall, hR₂⟩, _⟩ => ?_
  exact .pure ⟨foldl_alike level hall hn, hR₂⟩

theorem expression (S : Simulation K Q R) (h : R s s') :
    Alike K Q (Both (Tree.Alike K) R) (Reader.expression s) (Reader.expression s') :=
  S.chain .sum (S.chain .product (S.chain .power S.atom)) h

/-! ## Statements

A print statement and an assignment start with a token that was looked at before: it is no end of
text, which the lemmas take as `Continues`. -/

theorem printStatement (S : Simulation K Q R) (h : R s s') (hs : Continues s) :
    Alike K Q (Both (Tree.Alike K) R) (Reader.printStatement s) (Reader.printStatement s') := by
  refine (S.next_of_continues h hs).bind fun t s₁ u s₁' ⟨hK, hR₁⟩ => ?_
  exact (S.expression hR₁).bind
    fun _ _ _ _ ⟨hn, hR₂⟩ => .pure ⟨.node hK (.cons hn .nil), hR₂⟩

theorem assignment (S : Simulation K Q R) (h : R s s') (hs : Continues s) :
    Alike K Q (Both (Tree.Alike K) R) (Reader.assignment s) (Reader.assignment s') := by
  refine (S.next_of_continues h hs).bind fun t s₁ u s₁' ⟨hname, hR₁⟩ => ?_
  refine (S.expect (by decide) _ hR₁).bind fun t' s₂ u' s₂' ⟨hmark, hR₂⟩ => ?_
  exact (S.expression hR₂).bind
    fun _ _ _ _ ⟨hn, hR₃⟩ => .pure ⟨.node hmark (.cons (.leaf hname) (.cons hn .nil)), hR₃⟩

/-- What one round of a body or of a program finds: a like statement, a line end, or nothing. -/
abbrev RoundAlike (K : Token → Token → Prop) (R : σ → τ → Prop) (N : σ → Prop)
    (x : Option (Option Tree) × σ) (y : Option (Option Tree) × τ) : Prop :=
  Both (Option.Rel (Option.Rel (Tree.Alike K))) R x y ∧ (x.1 = none → N x.2)

omit [TokenSource σ] [TokenSource τ] in
theorem round_of_statement {r : Reader σ Tree} {r' : Reader τ Tree} {N : σ → Prop}
    (h : Alike K Q (Both (Tree.Alike K) R) (r s) (r' s')) :
    Alike K Q (RoundAlike K R N) ((do let n ← r; return some (some n) : Reader σ _) s)
      ((do let n ← r'; return some (some n) : Reader τ _) s') :=
  h.bind fun _ _ _ _ ⟨hn, hR⟩ => .pure ⟨⟨.some (.some hn), hR⟩, by rintro ⟨⟩⟩

theorem round_of_newline {N : σ → Prop} (h : R (TokenSource.drop s 1) (TokenSource.drop s' 1)) :
    Alike K Q (RoundAlike K R N) ((do Reader.drop 1; return some none : Reader σ _) s)
      ((do Reader.drop 1; return some none : Reader τ _) s') :=
  .drop (.pure ⟨⟨.some .none, h⟩, by rintro ⟨⟩⟩)

theorem bodyItem (S : Simulation K Q R) (h : R s s') :
    Alike K Q (RoundAlike K R Continues) (Reader.bodyItem s) (Reader.bodyItem s') := by
  refine (S.peek h).bind fun t s₁ u s₁' hseen => ?_
  have hkind := S.kind_eq hseen.alike
  have hR := hseen.related
  refine .ite (by rw [hkind]) (fun ht => ?_) fun _ => ?_
  · exact round_of_statement (S.printStatement hR (hseen.continues (by simp [ht])))
  · refine .ite (by rw [hkind]) (fun ht => ?_) fun _ => ?_
    · exact round_of_statement (S.assignment hR (hseen.continues (by simp [ht])))
    · refine .ite (by rw [hkind]) (fun ht => ?_) fun _ => ?_
      · exact round_of_newline (hseen.dropped (by simp [ht]))
      · refine .ite (by rw [hkind]) (fun ht => ?_) fun _ => .refuse hseen.alike ..
        exact .pure ⟨⟨.none, hR⟩, fun _ => hseen.continues (by simp [ht])⟩

/-! ## Functions and programs -/

theorem closeBodyFrom (S : Simulation K Q R) (i : Nat) (h : R s s') :
    Alike K Q (Both (fun _ _ => True) R) (Reader.closeBodyFrom i s)
      (Reader.closeBodyFrom i s') := by
  fun_induction Reader.closeBodyFrom i s generalizing s' with
  | case1 i s e s₁ hs =>
      have hlook := S.look i h
      rw [hs] at hlook
      rw [Reader.closeBodyFrom_eq i s']
      generalize TokenSource.peek s' i = y at hlook ⊢
      cases hlook with
      | error hQ => exact .error (.scan hQ)
  | case2 i s t s₁ hs ht ih =>
      have hlook := S.look i h
      rw [hs] at hlook
      rw [Reader.closeBodyFrom_eq i s']
      generalize TokenSource.peek s' i = y at hlook ⊢
      cases hlook with
      | ok hK hR _ =>
          simp only [← S.kind_eq hK, if_pos ht]
          exact ih hR
  | case3 i s t s₁ hs ht ht' =>
      have hlook := S.look i h
      rw [hs] at hlook
      rw [Reader.closeBodyFrom_eq i s']
      generalize TokenSource.peek s' i = y at hlook ⊢
      cases hlook with
      | ok hK _ hdrop =>
          simp only [← S.kind_eq hK, if_neg ht, if_pos ht']
          exact .ok ⟨trivial, hdrop (by simp [ht'])⟩
  | case4 i s t s₁ hs ht ht' =>
      have hlook := S.look i h
      rw [hs] at hlook
      rw [Reader.closeBodyFrom_eq i s']
      generalize TokenSource.peek s' i = y at hlook ⊢
      cases hlook with
      | ok hK hR _ =>
          simp only [← S.kind_eq hK, if_neg ht, if_neg ht']
          exact .ok ⟨trivial, hR⟩

theorem filterMap_alike {ms ns : List (Option Tree)}
    (h : List.Forall₂ (Option.Rel (Tree.Alike K)) ms ns) :
    List.Forall₂ (Tree.Alike K) (ms.filterMap id) (ns.filterMap id) := by
  induction h with
  | nil => exact .nil
  | cons hm _ ih =>
      cases hm with
      | none => exact ih
      | some hn => exact .cons hn ih

theorem body (S : Simulation K Q R) (h : R s s') :
    Alike K Q (Both (Tree.Alike K) R) (Reader.body s) (Reader.body s') := by
  refine (S.expect (by decide) _ h).bind fun t s₁ u s₁' ⟨hmark, hR₁⟩ => ?_
  refine (many (fun h => S.bodyItem h) hR₁).bind fun ms s₂ ns s₂' ⟨⟨hall, hR₂⟩, hs₂⟩ => ?_
  refine (S.next_of_continues hR₂ hs₂).bind fun t' s₃ u' s₃' ⟨hword, hR₃⟩ => ?_
  refine (S.expression hR₃).bind fun n s₄ n' s₄' ⟨hn, hR₄⟩ => ?_
  refine (S.closeBodyFrom 0 hR₄).bind fun _ s₅ _ s₅' ⟨_, hR₅⟩ => ?_
  refine .pure ⟨.node hmark ?_, hR₅⟩
  exact List.rel_append (filterMap_alike hall) (.cons (.node hword (.cons hn .nil)) .nil)

/-- The word before a function has been looked at, and the reader starts by dropping it. -/
theorem function (S : Simulation K Q R)
    (h : R (TokenSource.drop s 1) (TokenSource.drop s' 1)) :
    Alike K Q (Both (Tree.Alike K) R) (Reader.function s) (Reader.function s') := by
  refine .drop ?_
  refine (S.expect (by decide) _ h).bind fun t s₁ u s₁' ⟨hname, hR₁⟩ => ?_
  refine (S.symbolList _ _ _ hR₁).bind fun m s₂ m' s₂' ⟨hparams, hR₂⟩ => ?_
  exact (S.body hR₂).bind
    fun _ _ _ _ ⟨hbody, hR₃⟩ => .pure ⟨.node hname (.cons hparams (.cons hbody .nil)), hR₃⟩

theorem programItem (S : Simulation K Q R) (h : R s s') :
    Alike K Q (RoundAlike K R Anything) (Reader.programItem s) (Reader.programItem s') := by
  refine (S.peek h).bind fun t s₁ u s₁' hseen => ?_
  have hkind := S.kind_eq hseen.alike
  have hR := hseen.related
  refine .ite (by rw [hkind]) (fun ht => ?_) fun _ => ?_
  · exact round_of_statement (S.printStatement hR (hseen.continues (by simp [ht])))
  · refine .ite (by rw [hkind]) (fun ht => ?_) fun _ => ?_
    · exact round_of_statement (S.assignment hR (hseen.continues (by simp [ht])))
    · refine .ite (by rw [hkind]) (fun ht => ?_) fun _ => ?_
      · exact round_of_statement (S.function (hseen.dropped (by simp [ht])))
      · refine .ite (by rw [hkind]) (fun ht => ?_) fun _ => ?_
        · exact round_of_newline (hseen.dropped (by simp [ht]))
        · refine .ite (by rw [hkind]) (fun ht => ?_) fun _ => .refuse hseen.alike ..
          exact .pure ⟨⟨.none, hR⟩, fun _ => trivial⟩

/-- Reading a program from sources that answer alike gives like trees or like errors. -/
theorem program (S : Simulation K Q R) (h : R s s') :
    Alike K Q (Both (Tree.Alike K) R) (Reader.program s) (Reader.program s') := by
  refine (many (fun h => S.programItem h) h).bind fun ms s₁ ns s₁' ⟨⟨hall, hR⟩, _⟩ => ?_
  exact .pure ⟨.node S.nowhere (filterMap_alike hall), hR⟩

end Simulation

end IntScript
