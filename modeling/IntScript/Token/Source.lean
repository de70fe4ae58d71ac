import IntScript.Token.Scanner

/-!
# Sources of tokens

What a parser reads from: any of the tokens ahead can be looked at, and tokens can be dropped from
the front. Looking may change the source (it may have to scan), but not what is ahead. Two measures
bound the work a reader can do, `size` for dropping and `span` for looking further and further ahead.

A finished list of tokens is a source.
-/

namespace IntScript

/-- Tokens to be looked at and dropped. -/
class TokenSource (σ : Type) where
  /-- The token `i` places ahead, or the error that stands before it. Nothing stands behind an end of
  text: looking past one gives that end of text. -/
  peek : σ → Nat → Except ScanError Token × σ
  /-- Drops the first `n` tokens looked at. -/
  drop : σ → Nat → σ
  /-- At least the number of tokens left, ends of text apart. -/
  size : σ → Nat
  /-- At least the number of tokens ahead that are not an end of text. -/
  span : σ → Nat
  size_peek_le (s : σ) (i : Nat) : size (peek s i).2 ≤ size s
  size_drop_le (s : σ) (n : Nat) : size (drop s n) ≤ size s
  size_drop_lt {s s' : σ} {t : Token} (h : peek s 0 = (.ok t, s')) (ht : t.kind ≠ .endOfText) :
    size (drop s' 1) < size s
  lt_span_of_peek {s s' : σ} {i : Nat} {t : Token} (h : peek s i = (.ok t, s'))
    (ht : t.kind ≠ .endOfText) : i < span s
  span_peek_le {s s' : σ} {i : Nat} {t : Token} (h : peek s i = (.ok t, s'))
    (ht : t.kind ≠ .endOfText) : span s' ≤ span s

namespace Tokens

/-- What stands behind the last token of a list without an error: its end of text. -/
def ending (ts : Tokens) : Token :=
  match ts.list.getLast? with
  | some t => if t.kind = .endOfText then t else .nowhere
  | none => .nowhere

theorem kind_ending (ts : Tokens) : ts.ending.kind = .endOfText := by
  unfold ending
  split
  · split
    · assumption
    · rfl
  · rfl

/-- The answer of a finished list `i` places ahead. -/
def answer (ts : Tokens) (i : Nat) : Except ScanError Token :=
  match ts.list[i]? with
  | some t => .ok t
  | none =>
    match ts.error? with
    | some e => .error e
    | none => .ok ts.ending

theorem lt_length_of_answer {ts : Tokens} {i : Nat} {t : Token} (h : ts.answer i = .ok t)
    (ht : t.kind ≠ .endOfText) : i < ts.list.length := by
  unfold answer at h
  split at h
  · exact (List.getElem?_eq_some_iff.1 ‹_›).1
  · split at h
    · cases h
    · rw [Except.ok.injEq] at h
      exact absurd (h ▸ ts.kind_ending) ht

instance : TokenSource Tokens where
  peek ts i := (ts.answer i, ts)
  drop ts n := { ts with list := ts.list.drop n }
  size ts := ts.list.length
  span ts := ts.list.length
  size_peek_le _ _ := Nat.le_refl _
  size_drop_le ts n := by simp
  size_drop_lt := by
    intro s s' t h ht
    simp only [Prod.mk.injEq] at h
    have := lt_length_of_answer h.1 ht
    simp only [← h.2, List.length_drop]
    omega
  lt_span_of_peek := by
    intro s s' i t h ht
    simp only [Prod.mk.injEq] at h
    exact lt_length_of_answer h.1 ht
  span_peek_le := by
    intro s s' i t h _
    simp only [Prod.mk.injEq] at h
    exact Nat.le_of_eq (by rw [← h.2])

end Tokens

end IntScript
