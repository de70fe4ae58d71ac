import IntScript.Proofs.Grammar.Program
import IntScript.Proofs.Parse.Sources

/-!
# How often a reader looks

A reader reaches a text only by looking at tokens and dropping them, and nothing is scanned but for
a look.  So what reading costs is the number of its looks.  To count them without touching the
readers, the same readers are run on a source with a ration (`Rationed`): it answers so many looks
and refuses all others, with an error that can be chosen.  A reader looks `c` times if every smaller
ration gets it refused, and with any other it comes out as it does without one and `c` looks are
gone (`Reader.Looks`).

Main statement: reading a program takes at most five looks for each token, and one more
(`Reader.exists_looks_program`).

The bound is a matter of credit.  There are five looks for each token that is still ahead, and every
reader is lent a few more and hands on what it has not used (`Window.Spares`):

| reader | is lent | hands on |
| :-- | :-- | :-- |
| a number, a variable or a call | 1 | 4 |
| a power, a product, an expression | 1 | 3, 2, 1 |
| a list of symbols | 1 | 1 |
| a statement, its first token having been looked at | 0 | 1 |
| a body | 1 | 1, behind line ends |

A body that is not closed is the one place where looks are lost.  The line ends behind it are looked
at for a brace, and stay.  `Window.SparesBehindNewlines` is the credit with one look less for each
line end in front; it goes to the rounds of the program, which take these line ends one by one.
-/

namespace IntScript

/-! ## Rations -/

/-- A source that answers so many looks, and from then on refuses to be looked at. -/
structure Rationed (σ : Type) where
  source : σ
  looks : Nat
  refusal : ScanError

namespace Rationed

variable {σ : Type} [TokenSource σ]

def peek (s : Rationed σ) (i : Nat) : Except ScanError Token × Rationed σ :=
  match s.looks with
  | 0 => (.error s.refusal, s)
  | n + 1 =>
    ((TokenSource.peek s.source i).1,
      { s with source := (TokenSource.peek s.source i).2, looks := n })

theorem peek_source {s s' : Rationed σ} {i : Nat} {t : Token} (h : s.peek i = (.ok t, s')) :
    TokenSource.peek s.source i = (.ok t, s'.source) := by
  unfold peek at h
  split at h
  · cases h
  · obtain ⟨ht, rfl⟩ := Prod.mk.inj h
    exact Prod.ext ht rfl

instance : TokenSource (Rationed σ) where
  peek := peek
  drop s n := { s with source := TokenSource.drop s.source n }
  size s := TokenSource.size s.source
  span s := TokenSource.span s.source
  size_peek_le s i := by
    unfold peek
    split
    · exact Nat.le_refl _
    · exact TokenSource.size_peek_le s.source i
  size_drop_le s n := TokenSource.size_drop_le s.source n
  size_drop_lt h ht := TokenSource.size_drop_lt (peek_source h) ht
  lt_span_of_peek h ht := TokenSource.lt_span_of_peek (peek_source h) ht
  span_peek_le h ht := TokenSource.span_peek_le (peek_source h) ht

end Rationed

namespace Reader

/-! ## Counting looks -/

variable {σ α β : Type}

/-- From `s`, the reader looks `c` times: on a smaller ration it is refused, and on any other it
comes out as it does without one and has used `c` looks.  The two readers are one reader of the
grammar, for the two sources. -/
def Looks (r : Reader σ α) (r' : Reader (Rationed σ) α) (s : σ) (c : Nat) : Prop :=
  ∀ n e, r' ⟨s, n, e⟩ =
    if n < c then .error (.scan e) else (r s).map fun x => (x.1, ⟨x.2, n - c, e⟩)

section

variable {r : Reader σ α} {r' : Reader (Rationed σ) α} {f : α → Reader σ β}
  {f' : α → Reader (Rationed σ) β} {s s₁ : σ} {c d : Nat}

theorem Looks.bind_of_error {e : ParseError} (h : Looks r r' s c) (hr : r s = .error e) :
    Looks (r >>= f) (r' >>= f') s c := by
  intro n x
  have hn := h n x
  rw [hr] at hn
  rw [Reader.bind_of_error hr, Reader.bind_of_error (e := if n < c then .scan x else e)]
  · split <;> rfl
  · rw [hn]
    split <;> rfl

theorem Looks.bind_of_ok {a : α} (h : Looks r r' s c) (hr : r s = .ok (a, s₁))
    (hf : Looks (f a) (f' a) s₁ d) : Looks (r >>= f) (r' >>= f') s (c + d) := by
  intro n x
  have hn := h n x
  rw [hr] at hn
  rw [Reader.bind_of_ok hr]
  -- the ration runs out in the first reader, in the second one, or not at all
  by_cases hlt : n < c
  · rw [if_pos hlt] at hn
    rw [Reader.bind_of_error hn, if_pos (by omega)]
  · rw [if_neg hlt] at hn
    rw [Reader.bind_of_ok hn, hf (n - c) x, Nat.sub_sub]
    by_cases hlt' : n - c < d
    · rw [if_pos hlt', if_pos (by omega)]
    · rw [if_neg hlt', if_neg (by omega)]

end

theorem looks_peek [TokenSource σ] (i : Nat) (s : σ) : Looks (peek i) (peek i) s 1 := by
  intro n e
  cases n with
  | zero => rfl
  | succ n =>
      rw [if_neg (by omega), Nat.add_sub_cancel]
      simp only [peek, TokenSource.peek, Rationed.peek]
      rcases TokenSource.peek s i with ⟨a, s'⟩
      cases a <;> rfl

/-- With `n` looks to spend the reader need not be refused, and if it succeeds then `Q` holds of
what it reads, of the source it leaves and of the looks that are left. -/
def Affords (r : Reader σ α) (r' : Reader (Rationed σ) α) (s : σ) (n : Nat)
    (Q : α → σ → Nat → Prop) : Prop :=
  ∃ c ≤ n, Looks r r' s c ∧ ∀ a s', r s = .ok (a, s') → Q a s' (n - c)

namespace Affords

variable {r : Reader σ α} {r' : Reader (Rationed σ) α} {f : α → Reader σ β}
  {f' : α → Reader (Rationed σ) β} {s : σ} {n : Nat} {Q Q' : α → σ → Nat → Prop}
  {P : β → σ → Nat → Prop}

theorem mono (h : Affords r r' s n Q) (hQ : ∀ a s' k, Q a s' k → Q' a s' k) :
    Affords r r' s n Q' := by
  obtain ⟨c, hc, hlooks, hok⟩ := h
  exact ⟨c, hc, hlooks, fun a s' hr => hQ _ _ _ (hok a s' hr)⟩

theorem pure {a : α} (h : Q a s n) : Affords (Pure.pure a) (Pure.pure a) s n Q := by
  refine ⟨0, Nat.zero_le n, fun _ _ => rfl, ?_⟩
  intro b s' hr
  cases hr
  exact h

theorem refuse (x : Expected) (t : Token) :
    Affords (Reader.refuse x t) (Reader.refuse x t) s n Q := by
  refine ⟨0, Nat.zero_le n, fun _ _ => rfl, ?_⟩
  intro b s' hr
  cases hr

theorem drop [TokenSource σ] {k : Nat} {Q : Unit → σ → Nat → Prop}
    (h : Q () (TokenSource.drop s k) n) : Affords (Reader.drop k) (Reader.drop k) s n Q := by
  refine ⟨0, Nat.zero_le n, fun _ _ => rfl, ?_⟩
  intro b s' hr
  cases hr
  exact h

theorem peek [TokenSource σ] {i : Nat} {Q : Token → σ → Nat → Prop} (hn : 0 < n)
    (h : ∀ t s', TokenSource.peek s i = (.ok t, s') → Q t s' (n - 1)) :
    Affords (Reader.peek i) (Reader.peek i) s n Q :=
  ⟨1, hn, looks_peek i s, fun t s' hr => h t s' (peek_eq_ok hr)⟩

theorem bind (h : Affords r r' s n fun a s' k => Affords (f a) (f' a) s' k P) :
    Affords (r >>= f) (r' >>= f') s n P := by
  obtain ⟨c, hc, hlooks, hok⟩ := h
  cases hr : r s with
  | error e =>
      refine ⟨c, hc, hlooks.bind_of_error hr, ?_⟩
      intro b s' hb
      rw [Reader.bind_of_error hr] at hb
      cases hb
  | ok x =>
      obtain ⟨d, hd, hlooks', hok'⟩ := hok x.1 x.2 hr
      refine ⟨c + d, by omega, hlooks.bind_of_ok hr hlooks', ?_⟩
      intro b s' hb
      rw [Reader.bind_of_ok hr] at hb
      rw [← Nat.sub_sub]
      exact hok' b s' hb

theorem ite {p : Prop} [Decidable p] {q : Reader σ α} {q' : Reader (Rationed σ) α}
    (hr : p → Affords r r' s n Q) (hq : ¬ p → Affords q q' s n Q) :
    Affords (if p then r else q) (if p then r' else q') s n Q := by
  by_cases hp : p
  · rw [if_pos hp, if_pos hp]
    exact hr hp
  · rw [if_neg hp, if_neg hp]
    exact hq hp

end Affords

section

variable [TokenSource σ]

/-- What a repetition does behind one round. -/
def goOn (rest : Reader σ (List α)) : Option α → Reader σ (List α)
  | none => return []
  | some a => do
    let as ← rest
    return a :: as

theorem many_eq_bind {r : Reader σ (Option α)} (hr : Advances r) :
    many r hr = r >>= goOn (many r hr) := by
  funext s
  rcases h : r s with e | ⟨_ | a, s₁⟩
  · rw [many_of_error hr h, Reader.bind_of_error h]
  · rw [many_of_none hr h, Reader.bind_of_ok h]
    rfl
  · rw [many_of_some hr h, Reader.bind_of_ok h]
    rfl

/-- If `I` holds before every round and `N` behind the last one, the rounds together can be
afforded. -/
theorem Affords.many {r : Reader σ (Option α)} {r' : Reader (Rationed σ) (Option α)}
    {hr : Advances r} {hr' : Advances r'} {I N : σ → Nat → Prop}
    (hround : ∀ {s n}, I s n →
      Affords r r' s n fun a s' k => (a.isSome → I s' k) ∧ (a = none → N s' k))
    {s : σ} {n : Nat} (h : I s n) :
    Affords (many r hr) (many r' hr') s n fun _ s' k => N s' k := by
  -- on the size of the source, which a round that finds something makes smaller
  induction hsize : TokenSource.size s using Nat.strongRecOn generalizing s n with
  | ind size ih =>
      obtain ⟨c, hc, hlooks, hok⟩ := hround h
      rw [many_eq_bind hr, many_eq_bind hr']
      refine .bind ⟨c, hc, hlooks, ?_⟩
      intro a s' ha
      obtain ⟨hsome, hnone⟩ := hok a s' ha
      cases a with
      | none => exact .pure (hnone rfl)
      | some a =>
          have hlt := (hr _ _ _ ha).2 rfl
          exact .bind ((ih _ (hsize ▸ hlt) (hsome rfl) rfl).mono fun _ _ _ hN => .pure hN)

end

end Reader

/-! ## Line ends in front -/

namespace Tokens

/-- The number of line ends before the first other token. -/
def newlines (ts : Tokens) : Nat := ts.list.findIdx fun t => t.kind ≠ .newline

theorem newlines_le (ts : Tokens) : ts.newlines ≤ ts.list.length := List.findIdx_le_length

theorem answer_of_lt_newlines (ts : Tokens) {i : Nat} (hi : i < ts.newlines) :
    ∃ t, ts.answer i = .ok t ∧ t.kind = .newline := by
  have hlt : i < ts.list.length := Nat.lt_of_lt_of_le hi ts.newlines_le
  refine ⟨ts.list[i], by simp only [answer, List.getElem?_eq_getElem hlt], ?_⟩
  simpa using List.not_of_lt_findIdx hi

theorem getElem?_of_answer {ts : Tokens} {i : Nat} {t : Token} (h : ts.answer i = .ok t)
    (ht : t.kind ≠ .endOfText) : ts.list[i]? = some t := by
  have hlt := lt_length_of_answer h ht
  rw [answer, List.getElem?_eq_getElem hlt] at h
  rw [List.getElem?_eq_getElem hlt, Except.ok.inj h]

theorem kind_of_answer_newlines (ts : Tokens) {t : Token} (h : ts.answer ts.newlines = .ok t) :
    t.kind ≠ .newline := by
  intro ht
  obtain ⟨hlt, hget⟩ := List.getElem?_eq_some_iff.mp (getElem?_of_answer h (by simp [ht]))
  have hkind := List.findIdx_getElem (w := hlt)
  simp only [decide_eq_true_eq] at hkind
  exact hkind (hget ▸ ht)

theorem newlines_of_head {ts : Tokens} {t : Token} (h : ts.list[0]? = some t) :
    ts.newlines = if t.kind = .newline then (TokenSource.drop ts 1).newlines + 1 else 0 := by
  obtain ⟨_ | ⟨u, l⟩, e?⟩ := ts
  · cases h
  · obtain rfl : u = t := Option.some.inj h
    have hcons : newlines ⟨u :: l, e?⟩ = if u.kind = .newline then newlines ⟨l, e?⟩ + 1 else 0 := by
      by_cases hu : u.kind = .newline <;> simp [newlines, List.findIdx_cons, hu]
    exact hcons

end Tokens

namespace Window

theorem peek_of_next {w : Window} {i : Nat} (hi : w.queue.length ≤ i) (hc : w.closing? = none)
    (he : w.error? = none) :
    (∀ e s, w.scanner.next = (.error e, s) →
      w.peek i = (.error e, { w with scanner := s, error? := some e })) ∧
    ∀ t s, w.scanner.next = (.ok t, s) →
      w.peek i = peek { w with scanner := s, queue := w.queue ++ [t] } i := by
  have hnone : w.queue[i]? = none := List.getElem?_eq_none_iff.mpr hi
  constructor
  · intro e s hs
    rw [peek]
    split
    · next h => cases hnone.symm.trans h
    · simp only [hc, he, hs]
  · intro t s hs
    conv_lhs => rw [peek]
    split
    · next h => cases hnone.symm.trans h
    · simp only [hc, he, hs]

/-- A look takes up what an earlier one has begun. -/
theorem peek_peek (w : Window) {i j : Nat} (hij : i ≤ j) : (w.peek i).2.peek j = w.peek j := by
  fun_induction peek w i with
  | case1 | case2 | case3 => rfl
  | case4 w hq he hc e s hs =>
      have hj : w.queue.length ≤ j := Nat.le_trans (List.getElem?_eq_none_iff.mp hq) hij
      rw [(peek_of_next hj hc he).1 e s hs, peek]
      split
      · next h => exact absurd (List.getElem?_eq_some_iff.mp h).1 (Nat.not_lt.mpr hj)
      · have hc' : closing? { w with scanner := s, error? := some e } = none := hc
        simp only [hc']
  | case5 w hq he hc t s hs ih =>
      have hj : w.queue.length ≤ j := Nat.le_trans (List.getElem?_eq_none_iff.mp hq) hij
      rw [ih, (peek_of_next hj hc he).2 t s hs]

section

variable {w w' : Window} {i : Nat} {t : Token}

theorem peek_of_lt_newlines (hw : w.Tidy) (hi : i < w.ahead.newlines) :
    ∃ t, w.peek i = (.ok t, (w.peek i).2) ∧ t.kind = .newline := by
  obtain ⟨t, ht, hkind⟩ := w.ahead.answer_of_lt_newlines hi
  exact ⟨t, Prod.ext ((peek_spec hw i).1.trans ht) rfl, hkind⟩

theorem kind_of_peek_newlines (hw : w.Tidy) (h : w.peek w.ahead.newlines = (.ok t, w')) :
    t.kind ≠ .newline := by
  refine w.ahead.kind_of_answer_newlines ?_
  rw [← (peek_spec hw _).1, h]

end

end Window

namespace Reader

/-- Drops the first `k` tokens with the closing brace behind them, if there is one. -/
def closeAt {σ : Type} [TokenSource σ] (k : Nat) : Reader σ Unit := do
  let t ← peek k
  if t.kind = .closeBrace then drop (k + 1) else return ()

theorem closeBodyFrom_eq_bind (σ : Type) [TokenSource σ] (i : Nat) :
    (closeBodyFrom i : Reader σ Unit) = (do
      let t ← peek i
      if t.kind = .newline then closeBodyFrom (i + 1)
      else if t.kind = .closeBrace then drop (i + 1) else return ()) := by
  funext s
  rw [closeBodyFrom_eq]
  simp only [bind, StateT.bind, Except.bind, peek]
  rcases TokenSource.peek s i with ⟨e | t, s'⟩
  · rfl
  · dsimp only
    split
    · rfl
    · split <;> rfl

section

variable {w w' : Window} {i k : Nat}

theorem peek_of_ok {t : Token} (h : w.peek i = (.ok t, w')) : peek i w = .ok (t, w') := by
  simp only [peek, TokenSource.peek, h]

theorem peek_of_error {e : ScanError} (h : w.peek i = (.error e, w')) :
    (peek i : Reader Window Token) w = .error (.scan e) := by
  simp only [peek, TokenSource.peek, h]

theorem closeAt_peek (w : Window) (hik : i ≤ k) : closeAt k (w.peek i).2 = closeAt k w := by
  have hpeek : (peek k : Reader Window Token) (w.peek i).2 = peek k w := by
    simp only [peek, TokenSource.peek, w.peek_peek hik]
  simp only [closeAt, bind, StateT.bind, hpeek]

theorem looks_closeBodyFrom (hw : w.Tidy) (hk : w.ahead.newlines = i + k) :
    Looks (closeBodyFrom i) (closeBodyFrom i) w (1 + k) ∧
      closeBodyFrom i w = closeAt (i + k) w := by
  -- on the number of line ends still to be gone past; each look leaves another window
  induction k generalizing w i with
  | zero =>
      rw [closeBodyFrom_eq_bind Window, closeBodyFrom_eq_bind (Rationed Window), Nat.add_zero i]
      rcases hpeek : w.peek i with ⟨e | t, w₁⟩
      · have herror := peek_of_error hpeek
        refine ⟨(looks_peek i w).bind_of_error herror, ?_⟩
        rw [bind_of_error herror, closeAt, bind_of_error herror]
      · have hok := peek_of_ok hpeek
        have ht : t.kind ≠ .newline :=
          Window.kind_of_peek_newlines hw (by rw [hk, Nat.add_zero, hpeek])
        refine ⟨(looks_peek i w).bind_of_ok hok ?_, ?_⟩
        · rw [if_neg ht, if_neg ht]
          intro n e
          split <;> rfl
        · rw [bind_of_ok hok, if_neg ht, closeAt, bind_of_ok hok]
  | succ k ih =>
      rw [closeBodyFrom_eq_bind Window, closeBodyFrom_eq_bind (Rationed Window)]
      obtain ⟨-, hahead, htidy⟩ := Window.peek_spec hw i
      obtain ⟨t, hpeek, hkind⟩ := Window.peek_of_lt_newlines (i := i) hw (by omega)
      have hok := peek_of_ok hpeek
      obtain ⟨hlooks, hclose⟩ := ih (i := i + 1) htidy (by rw [hahead, hk]; omega)
      refine ⟨(looks_peek i w).bind_of_ok hok ?_, ?_⟩
      · rw [if_pos hkind, if_pos hkind, Nat.add_comm k 1]
        exact hlooks
      · rw [bind_of_ok hok, if_pos hkind, hclose, Nat.add_right_comm, Nat.add_assoc,
          closeAt_peek w (by omega)]

end

end Reader

/-! ## Credit -/

namespace Window

/-- The window is tidy, and `n` looks are five for each token ahead of it and `x` more. -/
structure Spares (x : Nat) (w : Window) (n : Nat) : Prop where
  tidy : w.Tidy
  le : 5 * w.ahead.list.length + x ≤ n

/-- The same with one look less for each line end in front. -/
structure SparesBehindNewlines (x : Nat) (w : Window) (n : Nat) : Prop where
  tidy : w.Tidy
  le : 5 * w.ahead.list.length + x ≤ n + w.ahead.newlines

section

variable {w w' : Window} {n x y i : Nat} {t : Token}

theorem Spares.mono (h : Spares x w n) (hy : y ≤ x) : Spares y w n :=
  ⟨h.tidy, Nat.le_trans (Nat.add_le_add_left hy _) h.le⟩

theorem Spares.peek (h : Spares (x + 1) w n) (hp : w.peek i = (.ok t, w')) :
    Spares x w' (n - 1) := by
  have hle := h.le
  obtain ⟨-, hahead, htidy⟩ := peek_spec h.tidy i
  rw [hp] at hahead htidy
  refine ⟨htidy, ?_⟩
  rw [hahead]
  omega

theorem lt_length_ahead (hq : w.queue[i]? = some t) (ht : t.kind ≠ .endOfText) :
    i < w.ahead.list.length :=
  Tokens.lt_length_of_answer (answer_ahead_of_getElem? hq) ht

theorem length_ahead_drop (hw : w.Tidy) (hq : w.queue[i]? = some t) (ht : t.kind ≠ .endOfText) :
    (w.drop (i + 1)).ahead.list.length + (i + 1) = w.ahead.list.length := by
  have hlt := lt_length_ahead hq ht
  have hlength : (TokenSource.drop w.ahead (i + 1)).list.length = w.ahead.list.length - (i + 1) :=
    List.length_drop
  rw [(drop_spec hw hq ht).1]
  omega

theorem Spares.drop (h : Spares x w n) (hq : w.queue[i]? = some t) (ht : t.kind ≠ .endOfText) :
    Spares (x + 5 * (i + 1)) (w.drop (i + 1)) n := by
  have hle := h.le
  have hlength := length_ahead_drop h.tidy hq ht
  refine ⟨(drop_spec h.tidy hq ht).2, ?_⟩
  omega

theorem Spares.of_newlines (h : SparesBehindNewlines x w n) (hq : w.queue[0]? = some t)
    (ht : t.kind ≠ .endOfText) (hkind : t.kind ≠ .newline) : Spares x w n := by
  have hle := h.le
  have hhead := Tokens.getElem?_of_answer (answer_ahead_of_getElem? hq) ht
  rw [Tokens.newlines_of_head hhead, if_neg hkind] at hle
  exact ⟨h.tidy, hle⟩

theorem Spares.behindNewlines (h : Spares x w n) : SparesBehindNewlines x w n :=
  ⟨h.tidy, Nat.le_add_right_of_le h.le⟩

theorem SparesBehindNewlines.drop (h : SparesBehindNewlines x w n) (hq : w.queue[0]? = some t)
    (ht : t.kind = .newline) : SparesBehindNewlines (x + 4) (w.drop 1) n := by
  have hkind : t.kind ≠ .endOfText := by simp [ht]
  have hle := h.le
  have hlength := length_ahead_drop h.tidy hq hkind
  have hhead := Tokens.getElem?_of_answer (answer_ahead_of_getElem? hq) hkind
  obtain ⟨hahead, htidy⟩ := drop_spec h.tidy hq hkind
  rw [Nat.zero_add] at hlength hahead htidy
  rw [Tokens.newlines_of_head hhead, if_pos ht, ← hahead] at hle
  refine ⟨htidy, ?_⟩
  omega

end

end Window

namespace Reader

open Window (Spares SparesBehindNewlines)

section

variable {w : Window} {n x : Nat} {t : Token}

/-! ## Tokens -/

theorem affords_peek (h : Spares (x + 1) w n) :
    Affords (peek 0) (peek 0) w n fun t w' k =>
      Spares x w' k ∧ (t.kind ≠ .endOfText → w'.queue[0]? = some t) := by
  refine .peek (by have := h.le; omega) ?_
  intro t w' hp
  exact ⟨h.peek hp, Window.getElem?_queue_of_peek hp⟩

theorem affords_drop (h : Spares x w n) (hq : w.queue[0]? = some t) (ht : t.kind ≠ .endOfText) :
    Affords (drop 1) (drop 1) w n fun _ w' k => Spares (x + 5) w' k :=
  .drop (h.drop hq ht)

theorem affords_next (h : Spares (x + 1) w n) :
    Affords next next w n fun t w' k => t.kind ≠ .endOfText → Spares (x + 5) w' k := by
  refine .bind ((affords_peek h).mono fun t w' k ⟨hspares, hq⟩ => .bind (.drop (.pure ?_)))
  intro ht
  exact hspares.drop (hq ht) ht

/-- A token that has been looked at before pays for the look at it. -/
theorem affords_next_of_seen (h : Spares x w n) (hq : w.queue[0]? = some t)
    (ht : t.kind ≠ .endOfText) : Affords next next w n fun _ w' k => Spares (x + 4) w' k := by
  have hle := h.le
  have hlt := Window.lt_length_ahead hq ht
  refine .bind (.peek (by omega) ?_)
  intro u w' hp
  obtain ⟨rfl, rfl⟩ : t = u ∧ w = w' := by
    cases (Window.peek_of_getElem? hq).symm.trans hp
    exact ⟨rfl, rfl⟩
  have hdrop := h.drop hq ht
  have hle' : 5 * (w.drop 1).ahead.list.length + (x + 5) ≤ n := hdrop.le
  have hrest : 5 * (w.drop 1).ahead.list.length + (x + 4) ≤ n - 1 := by omega
  exact .bind (.drop (.pure ⟨hdrop.tidy, hrest⟩))

theorem affords_expect {k : Kind} (hk : k ≠ .endOfText) (e : Expected) (h : Spares (x + 1) w n) :
    Affords (expect k e) (expect k e) w n fun _ w' m => Spares (x + 5) w' m := by
  refine .bind ((affords_next h).mono fun t w' m hspares => ?_)
  refine .ite (fun ht => .pure (hspares (ht ▸ hk))) fun _ => .refuse e t

/-! ## Expressions -/

theorem affords_listItem (e : Expected) (h : Spares (x + 1) w n) :
    Affords (listItem e) (listItem e) w n fun a w' k =>
      (a.isSome → Spares (x + 1) w' k) ∧ (a = none → Spares (x + 1) w' k) := by
  refine .bind ((affords_next h).mono fun t w₁ k₁ hspares => ?_)
  refine .ite (fun ht => ?_) fun _ => .ite (fun ht => ?_) fun _ => .refuse ..
  · have hcomma := (hspares (by simp [ht])).mono (y := x + 3 + 1) (by omega)
    refine .bind ((affords_expect (by decide) e hcomma).mono fun u w₂ k₂ h₂ => .pure ?_)
    exact ⟨fun _ => h₂.mono (by omega), by rintro ⟨⟩⟩
  · have hclose := (hspares (by simp [ht])).mono (y := x + 1) (by omega)
    exact .pure ⟨fun _ => hclose, fun _ => hclose⟩

/-- With one look to spare the reader can be afforded, and it leaves `y`. -/
def Leaves {α : Type} (y : Nat) (r : Reader Window α) (r' : Reader (Rationed Window) α) : Prop :=
  ∀ {x w n}, Spares (x + 1) w n → Affords r r' w n fun _ w' k => Spares (x + y) w' k

theorem Leaves.mono {α : Type} {r : Reader Window α} {r' : Reader (Rationed Window) α} {y z : Nat}
    (h : Leaves y r r') (hz : z ≤ y) : Leaves z r r' :=
  fun hspares => (h hspares).mono fun _ _ _ h' => h'.mono (by omega)

theorem leaves_symbolList (list item : Form) (e : Expected) :
    Leaves 1 (symbolList list item e) (symbolList list item e) := by
  intro x w n h
  refine .bind ((affords_expect (by decide) _ h).mono fun mark w₁ k₁ h₁ => ?_)
  have h₁ := h₁.mono (y := x + 4 + 1) (by omega)
  refine .bind ((affords_expect (by decide) e h₁).mono fun first w₂ k₂ h₂ => ?_)
  have h₂ := h₂.mono (y := x + 1) (by omega)
  exact .bind ((Affords.many (affords_listItem e) h₂).mono fun others w₃ k₃ h₃ => .pure h₃)

theorem leaves_atom : Leaves 4 atom atom := by
  intro x w n h
  refine .bind ((affords_next h).mono fun t w₁ k₁ h₁ => ?_)
  refine .ite (fun ht => ?_) fun _ => .ite (fun ht => ?_) fun _ => .refuse ..
  · exact .pure ((h₁ (by simp [ht])).mono (by omega))
  · have h₁ := (h₁ (by simp [ht])).mono (y := x + 3 + 1 + 1) (by omega)
    refine .bind ((affords_peek h₁).mono fun u w₂ k₂ ⟨h₂, _⟩ => ?_)
    refine .ite (fun _ => ?_) fun _ => .pure h₂
    exact .bind ((leaves_symbolList _ _ _ h₂).mono fun args w₃ k₃ h₃ => .pure h₃)

section

variable {operand : Reader Window Tree} {operand' : Reader (Rationed Window) Tree} {y : Nat}

/-- A mark pays for the look at the operand behind it. -/
theorem affords_operation (level : Level) (ho : Leaves 1 operand operand')
    (h : Spares (x + 1) w n) :
    Affords (operation level operand) (operation level operand') w n fun a w' k =>
      (a.isSome → Spares (x + 1) w' k) ∧ (a = none → Spares x w' k) := by
  refine .bind ((affords_peek h).mono fun mark w₁ k₁ ⟨h₁, hq⟩ => ?_)
  refine .ite (fun hmark => ?_) fun _ => .pure ⟨by rintro ⟨⟩, fun _ => h₁⟩
  have hkind := Level.ne_endOfText_of_mem_marks hmark
  refine .bind ((affords_drop h₁ (hq hkind) hkind).mono fun _ w₂ k₂ h₂ => ?_)
  have h₂ := h₂.mono (y := x + 1) (by omega)
  refine .bind ((ho h₂).mono fun right w₃ k₃ h₃ => .pure ?_)
  exact ⟨fun _ => h₃, by rintro ⟨⟩⟩

/-- A chain looks once more than its operands do, at the token behind it. -/
theorem leaves_chain (level : Level) {hp : Progresses operand} {hp' : Progresses operand'}
    (ho : Leaves (y + 1) operand operand') :
    Leaves y (chain level operand hp) (chain level operand' hp') := by
  intro x w n h
  refine .bind ((ho h).mono fun first w₁ k₁ h₁ => ?_)
  have hround {w : Window} {n : Nat} (h : Spares (x + y + 1) w n) :=
    affords_operation level (ho.mono (z := 1) (by omega)) h
  exact .bind ((Affords.many hround h₁).mono fun others w₂ k₂ h₂ => .pure h₂)

end

theorem leaves_expression : Leaves 1 expression expression :=
  leaves_chain .sum (leaves_chain .product (leaves_chain .power leaves_atom))

/-! ## Statements -/

theorem affords_printStatement (h : Spares x w n) (hq : w.queue[0]? = some t)
    (ht : t.kind ≠ .endOfText) :
    Affords printStatement printStatement w n fun _ w' k => Spares (x + 1) w' k := by
  refine .bind ((affords_next_of_seen h hq ht).mono fun word w₁ k₁ h₁ => ?_)
  have h₁ := h₁.mono (y := x + 1) (by omega)
  exact .bind ((leaves_expression h₁).mono fun e w₂ k₂ h₂ => .pure h₂)

theorem affords_assignment (h : Spares x w n) (hq : w.queue[0]? = some t)
    (ht : t.kind ≠ .endOfText) :
    Affords assignment assignment w n fun _ w' k => Spares (x + 1) w' k := by
  refine .bind ((affords_next_of_seen h hq ht).mono fun name w₁ k₁ h₁ => ?_)
  have h₁ := h₁.mono (y := x + 1) (by omega)
  refine .bind ((affords_expect (by decide) _ h₁).mono fun mark w₂ k₂ h₂ => ?_)
  have h₂ := h₂.mono (y := x + 1) (by omega)
  exact .bind ((leaves_expression h₂).mono fun e w₃ k₃ h₃ => .pure h₃)

/-- The next token has been looked at, and it is no end of text. -/
def Seen (w : Window) : Prop := ∃ t, w.queue[0]? = some t ∧ t.kind ≠ .endOfText

theorem affords_bodyItem (h : Spares (x + 1) w n) :
    Affords bodyItem bodyItem w n fun a w' k =>
      (a.isSome → Spares (x + 1) w' k) ∧ (a = none → Spares x w' k ∧ Seen w') := by
  refine .bind ((affords_peek h).mono fun t w₁ k₁ ⟨h₁, hq⟩ => ?_)
  refine .ite (fun ht => ?_) fun _ => .ite (fun ht => ?_) fun _ => .ite (fun ht => ?_) fun _ =>
    .ite (fun ht => ?_) fun _ => .refuse ..
  all_goals have hkind : t.kind ≠ .endOfText := by simp [ht]
  · refine .bind ((affords_printStatement h₁ (hq hkind) hkind).mono fun s w₂ k₂ h₂ => .pure ?_)
    exact ⟨fun _ => h₂, by rintro ⟨⟩⟩
  · refine .bind ((affords_assignment h₁ (hq hkind) hkind).mono fun s w₂ k₂ h₂ => .pure ?_)
    exact ⟨fun _ => h₂, by rintro ⟨⟩⟩
  · refine .bind ((affords_drop h₁ (hq hkind) hkind).mono fun _ w₂ k₂ h₂ => .pure ?_)
    exact ⟨fun _ => h₂.mono (by omega), by rintro ⟨⟩⟩
  · exact .pure ⟨by rintro ⟨⟩, fun _ => ⟨h₁, t, hq hkind, hkind⟩⟩

/-! ## Functions -/

/-- Line ends that are looked at for a brace and found to have none behind them are not paid for. -/
theorem affords_closeBody (h : Spares (x + 1) w n) :
    Affords closeBody closeBody w n fun _ w' k => SparesBehindNewlines x w' k := by
  have hle := h.le
  have hnewlines := w.ahead.newlines_le
  obtain ⟨hlooks, hclose⟩ := looks_closeBodyFrom (i := 0) h.tidy (Nat.zero_add _).symm
  refine ⟨1 + w.ahead.newlines, by omega, hlooks, ?_⟩
  intro _ w' hok
  rw [closeBody, hclose, Nat.zero_add] at hok
  obtain ⟨t, w₁, hpeek, hrest⟩ := bind_eq_ok hok
  have hpeek : w.peek w.ahead.newlines = (.ok t, w₁) := peek_eq_ok hpeek
  obtain ⟨-, hahead, htidy⟩ := Window.peek_spec h.tidy w.ahead.newlines
  rw [hpeek] at hahead htidy
  have h₁ : Spares (x + 1) w₁ n := ⟨htidy, by rwa [hahead]⟩
  split at hrest
  · -- the line ends go with the brace, and pay for the looks at them
    next hbrace =>
      have hkind : t.kind ≠ .endOfText := by simp [hbrace]
      have hdrop := h₁.drop (Window.getElem?_queue_of_peek hpeek hkind) hkind
      cases hrest
      refine ⟨hdrop.tidy, ?_⟩
      have hdropped : 5 * (w₁.drop (w.ahead.newlines + 1)).ahead.list.length +
          (x + 1 + 5 * (w.ahead.newlines + 1)) ≤ n := hdrop.le
      have hwindow : TokenSource.drop w₁ (w.ahead.newlines + 1) = w₁.drop (w.ahead.newlines + 1) :=
        rfl
      rw [hwindow]
      omega
  · -- they stay, and one look at each of them is gone
    cases hrest
    refine ⟨htidy, ?_⟩
    rw [hahead]
    omega

theorem affords_body (h : Spares (x + 1) w n) :
    Affords body body w n fun _ w' k => SparesBehindNewlines (x + 1) w' k := by
  refine .bind ((affords_expect (by decide) _ h).mono fun mark w₁ k₁ h₁ => ?_)
  have h₁ := h₁.mono (y := x + 4 + 1) (by omega)
  refine .bind ((Affords.many (fun h => affords_bodyItem h) h₁).mono fun items w₂ k₂ h₂ => ?_)
  obtain ⟨h₂, t, hq, ht⟩ := h₂
  refine .bind ((affords_next_of_seen h₂ hq ht).mono fun word w₃ k₃ h₃ => ?_)
  have h₃ := h₃.mono (y := x + 1 + 1) (by omega)
  refine .bind ((leaves_expression h₃).mono fun e w₄ k₄ h₄ => ?_)
  exact .bind ((affords_closeBody h₄).mono fun _ w₅ k₅ h₅ => .pure h₅)

theorem affords_function (h : Spares x w n) (hq : w.queue[0]? = some t)
    (ht : t.kind ≠ .endOfText) :
    Affords function function w n fun _ w' k => SparesBehindNewlines (x + 1) w' k := by
  refine .bind ((affords_drop h hq ht).mono fun _ w₁ k₁ h₁ => ?_)
  have h₁ := h₁.mono (y := x + 1) (by omega)
  refine .bind ((affords_expect (by decide) _ h₁).mono fun name w₂ k₂ h₂ => ?_)
  have h₂ := h₂.mono (y := x + 1) (by omega)
  refine .bind ((leaves_symbolList _ _ _ h₂).mono fun params w₃ k₃ h₃ => ?_)
  exact .bind ((affords_body h₃).mono fun b w₄ k₄ h₄ => .pure h₄)

/-! ## Programs -/

theorem affords_programItem (h : SparesBehindNewlines 1 w n) :
    Affords programItem programItem w n fun a w' k =>
      (a.isSome → SparesBehindNewlines 1 w' k) ∧ (a = none → True) := by
  have hle := h.le
  have hnewlines := w.ahead.newlines_le
  refine .bind (.peek (by omega) fun t w₁ hp => ?_)
  have hp : w.peek 0 = (.ok t, w₁) := hp
  have hq := Window.getElem?_queue_of_peek hp
  obtain ⟨-, hahead, htidy⟩ := Window.peek_spec h.tidy 0
  rw [hp] at hahead htidy
  have h₁ : SparesBehindNewlines 0 w₁ (n - 1) := by
    refine ⟨htidy, ?_⟩
    rw [hahead]
    omega
  refine .ite (fun ht => ?_) fun _ => .ite (fun ht => ?_) fun _ => .ite (fun ht => ?_) fun _ =>
    .ite (fun ht => ?_) fun _ => .ite (fun _ => .pure ⟨by rintro ⟨⟩, fun _ => trivial⟩) fun _ =>
      .refuse ..
  all_goals have hkind : t.kind ≠ .endOfText := by simp [ht]
  · have h₁ := Spares.of_newlines h₁ (hq hkind) hkind (by simp [ht])
    refine .bind ((affords_printStatement h₁ (hq hkind) hkind).mono fun s w₂ k₂ h₂ => .pure ?_)
    exact ⟨fun _ => h₂.behindNewlines, fun _ => trivial⟩
  · have h₁ := Spares.of_newlines h₁ (hq hkind) hkind (by simp [ht])
    refine .bind ((affords_assignment h₁ (hq hkind) hkind).mono fun s w₂ k₂ h₂ => .pure ?_)
    exact ⟨fun _ => h₂.behindNewlines, fun _ => trivial⟩
  · have h₁ := Spares.of_newlines h₁ (hq hkind) hkind (by simp [ht])
    refine .bind ((affords_function h₁ (hq hkind) hkind).mono fun s w₂ k₂ h₂ => .pure ?_)
    exact ⟨fun _ => h₂, fun _ => trivial⟩
  · -- of the five looks for a line end at most two are gone: the earlier one and this one
    have h₂ := h₁.drop (hq hkind) ht
    refine .bind (.drop (.pure ⟨fun _ => ⟨h₂.tidy, ?_⟩, fun _ => trivial⟩))
    exact Nat.le_trans (Nat.add_le_add_left (by omega) _) h₂.le

theorem exists_looks_program (hw : w.Tidy) :
    ∃ c ≤ 5 * w.ahead.list.length + 1, Looks program program w c := by
  have h : SparesBehindNewlines 1 w (5 * w.ahead.list.length + 1) := ⟨hw, Nat.le_add_right _ _⟩
  have hprogram : Affords program program w (5 * w.ahead.list.length + 1) fun _ _ _ => True :=
    .bind ((Affords.many (fun h => affords_programItem h) h).mono fun _ _ _ _ => .pure trivial)
  obtain ⟨c, hc, hlooks, -⟩ := hprogram
  exact ⟨c, hc, hlooks⟩

end

end Reader

end IntScript
