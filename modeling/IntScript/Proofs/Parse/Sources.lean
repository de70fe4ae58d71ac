import IntScript.Proofs.Parse.Simulation
import IntScript.Proofs.Token.Ahead

/-!
# What a program depends on

Two simulations, and what `Simulation.program` says about them.

* A window and the finished list of what is ahead of it answer alike.  So scanning on demand gives
  the tree or the error that scanning everything first would give (`parse_eq_parse`).
* Finished lists of like tokens answer alike (`Tokens.exists_parse_of_match`).  So whether a list of
  tokens is a program depends on its kinds alone (`Tokens.exists_parse_of_sameKinds`).
-/

namespace IntScript

/-! ## Scanning on demand -/

namespace Window

theorem peek_of_getElem? {w : Window} {i : Nat} {t : Token} (h : w.queue[i]? = some t) :
    w.peek i = (.ok t, w) := by
  rw [peek]
  split
  · next h' => rw [Option.some.inj (h.symm.trans h')]
  · next h' => cases h.symm.trans h'

theorem peek_again {w w' : Window} {i : Nat} {t : Token} (h : w.peek i = (.ok t, w')) :
    w'.peek i = (.ok t, w') := by
  fun_induction peek w i with
  | case1 w u hq =>
      cases h
      exact peek_of_getElem? hq
  | case2 w hq u hc =>
      cases h
      exact peek_of_closing? (List.getElem?_eq_none_iff.mp hq) hc
  | case3 w hq e he hc => cases h
  | case4 w hq he hc e s hs => cases h
  | case5 w hq he hc u s hs ih => exact ih h

/-- The list is what is ahead of the window. -/
def Shows (w : Window) (ts : Tokens) : Prop := w.Tidy ∧ w.ahead = ts

theorem look_shows {w : Window} {ts : Tokens} (i : Nat) (h : w.Shows ts) :
    LookAlike Eq Eq Shows i (TokenSource.peek w i) (TokenSource.peek ts i) := by
  obtain ⟨hw, rfl⟩ := h
  obtain ⟨hanswer, hahead, htidy⟩ := peek_spec hw i
  have hlist : TokenSource.peek w.ahead i = (w.ahead.answer i, w.ahead) := rfl
  have hwindow : TokenSource.peek w i = w.peek i := rfl
  rw [hlist, hwindow, ← hanswer]
  rcases hpeek : w.peek i with ⟨a, w'⟩
  rw [hpeek] at hahead htidy
  cases a with
  | error e => exact .error rfl
  | ok t =>
      refine .ok rfl ⟨htidy, hahead⟩ fun ht => ?_
      obtain ⟨hdrop, htidy'⟩ := drop_spec htidy (getElem?_queue_of_peek hpeek ht) ht
      rw [hahead] at hdrop
      exact ⟨htidy', hdrop⟩

theorem simulation_shows : Simulation Eq Eq Shows where
  kind_eq h := congrArg Token.kind h
  nowhere := rfl
  look := look_shows
  again _ h := peek_again h

end Window

/-- Reading through a window is reading the finished list. -/
theorem parse_eq_parse (bs : List UInt8) (kw : Keywords) :
    parse bs kw = (Tokens.ofBytes bs kw).parse := by
  have hstart : (Window.ofBytes bs kw).Shows (Tokens.ofBytes bs kw) :=
    ⟨Window.tidy_ofBytes bs kw, Window.ahead_ofBytes bs kw⟩
  have h := Window.simulation_shows.program hstart
  rw [parse, Tokens.parse]
  rcases h.exists_of with ⟨a, b, ha, hb, hab⟩ | ⟨d, e, hd, he, hde⟩
  · rw [ha, hb]
    exact congrArg Except.ok hab.1.eq
  · rw [hd, he, hde.eq]
    rfl

/-! ## Lists of like tokens -/

namespace Tokens

/-- The tokens are related one by one, and an error stands behind both lists or behind none. -/
def Match (K : Token → Token → Prop) (ts us : Tokens) : Prop :=
  List.Forall₂ K ts.list us.list ∧ (ts.error?.isSome = us.error?.isSome)

section

variable {K : Token → Token → Prop}

theorem Match.drop {ts us : Tokens} (h : Match K ts us) (n : Nat) :
    Match K (TokenSource.drop ts n) (TokenSource.drop us n) :=
  ⟨List.forall₂_drop n h.1, h.2⟩

theorem rel_head? {l l' : List Token} (h : List.Forall₂ K l l') :
    Option.Rel K l.head? l'.head? := by
  cases h with
  | nil => exact .none
  | cons ht _ => exact .some ht

theorem Match.ending (hkind : ∀ t u, K t u → t.kind = u.kind) (hnowhere : K .nowhere .nowhere)
    {ts us : Tokens} (h : Match K ts us) : K ts.ending us.ending := by
  have hlast := rel_head? (List.rel_reverse h.1)
  rw [List.head?_reverse, List.head?_reverse] at hlast
  unfold Tokens.ending
  generalize ts.list.getLast? = t?, us.list.getLast? = u? at hlast
  cases hlast with
  | none => exact hnowhere
  | @some t u htu =>
      dsimp only
      rw [← hkind t u htu]
      split
      · exact htu
      · exact hnowhere

theorem look_match (hkind : ∀ t u, K t u → t.kind = u.kind) (hnowhere : K .nowhere .nowhere)
    {ts us : Tokens} (i : Nat) (h : Match K ts us) :
    LookAlike K (fun _ _ => True) (Match K) i (TokenSource.peek ts i) (TokenSource.peek us i) := by
  have hlook : ∀ vs : Tokens, TokenSource.peek vs i = (vs.answer i, vs) := fun _ => rfl
  have herror := h.2
  rw [hlook, hlook]
  unfold answer
  rw [← List.head?_drop, ← List.head?_drop]
  have hanswer : Option.Rel K (ts.list.drop i).head? (us.list.drop i).head? :=
    rel_head? (List.forall₂_drop i h.1)
  generalize (ts.list.drop i).head? = t?, (us.list.drop i).head? = u? at hanswer
  cases hanswer with
  | some htu => exact .ok htu h fun _ => h.drop (i + 1)
  | none =>
      dsimp only
      cases hts : ts.error? <;> cases hus : us.error? <;> rw [hts, hus] at herror
      · exact .ok (h.ending hkind hnowhere) h fun _ => h.drop (i + 1)
      · cases herror
      · cases herror
      · exact .error trivial

theorem simulation_match (hkind : ∀ t u, K t u → t.kind = u.kind) (hnowhere : K .nowhere .nowhere) :
    Simulation K (fun _ _ => True) (Match K) where
  kind_eq h := hkind _ _ h
  nowhere := hnowhere
  look := look_match hkind hnowhere
  again := by
    intro ts s₁ us t _ h
    obtain rfl : ts = s₁ := congrArg Prod.snd h
    exact h

/-- If one of two lists of like tokens is a program, the other is one, with a like tree. -/
theorem exists_parse_of_match (hkind : ∀ t u, K t u → t.kind = u.kind)
    (hnowhere : K .nowhere .nowhere) {ts us : Tokens} {n : Tree} (h : Match K ts us)
    (hn : ts.parse = .ok n) : ∃ n', us.parse = .ok n' ∧ Tree.Alike K n n' := by
  rcases ((simulation_match hkind hnowhere).program h).exists_of with
    ⟨a, b, ha, hb, hab⟩ | ⟨d, e, hd, -, -⟩
  · rw [parse, ha] at hn
    cases hn
    exact ⟨b.1, by rw [parse, hb]; rfl, hab.1⟩
  · rw [parse, hd] at hn
    cases hn

/-- If one of them has a token that does not fit, the other has one too, and the same would have
fitted there. -/
theorem exists_misfit_of_match (hkind : ∀ t u, K t u → t.kind = u.kind)
    (hnowhere : K .nowhere .nowhere) {ts us : Tokens} {m : Misfit} (h : Match K ts us)
    (hm : ts.parse = .error (.misfit m)) :
    ∃ m', us.parse = .error (.misfit m') ∧ m.expected = m'.expected ∧ K m.found m'.found := by
  rcases ((simulation_match hkind hnowhere).program h).exists_of with
    ⟨a, b, ha, -, -⟩ | ⟨d, e, hd, he, hde⟩
  · rw [parse, ha] at hm
    cases hm
  · rw [parse, hd] at hm
    cases hm
    cases hde with
    | @misfit x t u htu => exact ⟨⟨x, u⟩, by rw [parse, he]; rfl, rfl, htu⟩

end

/-! ## Kinds -/

def kinds (ts : Tokens) : List Kind := ts.list.map (·.kind)

/-- Two lists have the same kinds and end alike. -/
def SameKinds (ts us : Tokens) : Prop := ts.kinds = us.kinds ∧ ts.error? = us.error?

theorem exists_parse_of_sameKinds {ts us : Tokens} {n : Tree} (h : ts.SameKinds us)
    (hn : ts.parse = .ok n) : ∃ n', us.parse = .ok n' := by
  have hmatch : Match (fun t u => t.kind = u.kind) ts us := by
    have hkinds : List.Forall₂ Eq ts.kinds us.kinds := by
      rw [h.1]
      exact List.forall₂_same.mpr fun _ _ => rfl
    refine ⟨?_, by rw [h.2]⟩
    exact List.forall₂_map_right_iff.mp (List.forall₂_map_left_iff.mp hkinds)
  obtain ⟨n', hn', -⟩ := exists_parse_of_match (fun _ _ h => h) rfl hmatch hn
  exact ⟨n', hn'⟩

end Tokens

end IntScript
