import IntScript.Token.Window

/-!
# What is ahead of a window

A window is a queue, a scanner and perhaps an error it remembers.  A reader of the window sees only
one thing through all of this: the tokens that are still ahead.  `Window.ahead` is that thing, as a
finished list, and the two laws of the window are stated against it:

    peek    answers as the finished list does, and leaves what is ahead as it was
    drop    after a look at a token that is no end of text, drops from what is ahead

The second law needs its condition.  Dropping an end of text empties the queue, and the scanner then
goes on behind a reserved word that stands for the end of the text; a finished list does not.

The invariant behind both is `Window.Tidy`: in the queue an end of text can only be the last token.
-/

namespace IntScript

namespace Tokens

/-- Tokens put before the tokens of a list. -/
def prepend (l : List Token) (ts : Tokens) : Tokens := { ts with list := l ++ ts.list }

@[simp] theorem list_prepend (l : List Token) (ts : Tokens) :
    (ts.prepend l).list = l ++ ts.list := rfl

theorem prepend_append (l l' : List Token) (ts : Tokens) :
    ts.prepend (l ++ l') = (ts.prepend l').prepend l := by
  simp only [prepend, List.append_assoc]

/-- What scanning a text to its end can give: an end of text stands behind all other tokens, or an
error does and there is no end of text. -/
inductive Finished : Tokens → Prop
  | whole {l : List Token} {t : Token} :
      (∀ u ∈ l, u.kind ≠ .endOfText) → t.kind = .endOfText → Finished ⟨l ++ [t], none⟩
  | broken {l : List Token} {e : ScanError} :
      (∀ u ∈ l, u.kind ≠ .endOfText) → Finished ⟨l, some e⟩

theorem Finished.exists_last {ts : Tokens} (h : ts.Finished) (he : ts.error? = none) :
    ∃ l t, ts.list = l ++ [t] ∧ t.kind = .endOfText ∧ ∀ u ∈ l, u.kind ≠ .endOfText := by
  cases h with
  | whole hno hend => exact ⟨_, _, rfl, hend, hno⟩
  | broken hno => cases he

theorem Finished.of_endOfText {ts : Tokens} {l k : List Token} {t : Token} (h : ts.Finished)
    (hl : ts.list = l ++ t :: k) (ht : t.kind = .endOfText) : k = [] ∧ ts.error? = none := by
  cases h with
  | @broken l' e hno =>
      have hl : l' = l ++ t :: k := hl
      exact absurd ht (hno t (by simp [hl]))
  | @whole l' u hno hend =>
      have hl : l' ++ [u] = l ++ t :: k := hl
      refine ⟨?_, rfl⟩
      rcases List.eq_nil_or_concat k with rfl | ⟨k', v, rfl⟩
      · rfl
      · -- before the last token there is no end of text
        rw [List.concat_eq_append, ← List.cons_append, ← List.append_assoc] at hl
        have hl' : l' = l ++ t :: k' := List.append_inj_left' hl rfl
        exact absurd ht (hno t (by simp [hl']))

theorem Finished.cons {ts : Tokens} {t : Token} (h : ts.Finished) (ht : t.kind ≠ .endOfText) :
    Finished { ts with list := t :: ts.list } := by
  have hcons : ∀ {l : List Token}, (∀ u ∈ l, u.kind ≠ .endOfText) →
      ∀ u ∈ t :: l, u.kind ≠ .endOfText := by
    intro l hl u hu
    rcases List.mem_cons.mp hu with rfl | hu
    · exact ht
    · exact hl u hu
  cases h with
  | whole hl ht' => exact .whole (hcons hl) ht'
  | broken hl => exact .broken (hcons hl)

end Tokens

/-! ## Scanning everything -/

namespace Scanner

theorem drain_of_error {s s' : Scanner} {e : ScanError} (h : s.next = (.error e, s')) :
    s.drain.1 = ⟨[], some e⟩ := by
  rw [drain]
  split
  · next h' =>
      rw [h] at h'
      cases h'
      rfl
  · next h' =>
      rw [h] at h'
      cases h'

theorem drain_of_endOfText {s s' : Scanner} {t : Token} (h : s.next = (.ok t, s'))
    (ht : t.kind = .endOfText) : s.drain.1 = ⟨[t], none⟩ := by
  rw [drain]
  split
  · next h' =>
      rw [h] at h'
      cases h'
  · next h' =>
      rw [h] at h'
      cases h'
      rw [dif_pos ht]

theorem drain_of_token {s s' : Scanner} {t : Token} (h : s.next = (.ok t, s'))
    (ht : t.kind ≠ .endOfText) : s.drain.1 = s'.drain.1.prepend [t] := by
  rw [drain]
  split
  · next h' =>
      rw [h] at h'
      cases h'
  · next h' =>
      rw [h] at h'
      cases h'
      rw [dif_neg ht]
      rfl

theorem finished_drain (s : Scanner) : s.drain.1.Finished := by
  fun_induction drain s with
  | case1 s e s' h => exact .broken (by simp)
  | case2 s t s' h ht => exact Tokens.Finished.whole (l := []) (by simp) ht
  | case3 s t s' h ht ts last hd ih =>
      rw [hd] at ih
      exact ih.cons ht

end Scanner

/-- The tokens of a text end at the first end of text or before the first error. -/
theorem Tokens.finished_ofBytes (bs : List UInt8) (kw : Keywords) : (ofBytes bs kw).Finished :=
  (Scanner.ofBytes bs kw).finished_drain

/-! ## The window -/

namespace Window

/-- The tokens not dropped yet, as a finished list. -/
def ahead (w : Window) : Tokens :=
  match w.closing?, w.error? with
  | some _, _ => ⟨w.queue, none⟩
  | none, some e => ⟨w.queue, some e⟩
  | none, none => w.scanner.drain.1.prepend w.queue

theorem ahead_of_closing {w : Window} {t : Token} (hc : w.closing? = some t) :
    w.ahead = ⟨w.queue, none⟩ := by
  simp only [ahead, hc]

theorem ahead_of_error {w : Window} {e : ScanError} (hc : w.closing? = none)
    (he : w.error? = some e) : w.ahead = ⟨w.queue, some e⟩ := by
  simp only [ahead, hc, he]

theorem ahead_of_scanner {w : Window} (hc : w.closing? = none) (he : w.error? = none) :
    w.ahead = w.scanner.drain.1.prepend w.queue := by
  simp only [ahead, hc, he]

/-- An end of text in the queue is its last token. -/
def Tidy (w : Window) : Prop := ∀ t ∈ w.queue.dropLast, t.kind ≠ .endOfText

theorem ahead_ofBytes (bs : List UInt8) (kw : Keywords) :
    (ofBytes bs kw).ahead = Tokens.ofBytes bs kw := rfl

theorem tidy_ofBytes (bs : List UInt8) (kw : Keywords) : (ofBytes bs kw).Tidy := by
  intro t ht
  cases ht

theorem closing?_eq_some {w : Window} {t : Token} (h : w.closing? = some t) :
    w.queue.getLast? = some t ∧ t.kind = .endOfText := by
  obtain ⟨h₁, h₂⟩ := Option.filter_eq_some_iff.mp h
  exact ⟨h₁, by simpa using h₂⟩

theorem closing?_of_getLast? {w : Window} {t : Token} (h : w.queue.getLast? = some t) :
    w.closing? = if t.kind = .endOfText then some t else none := by
  simp only [closing?, h, Option.filter, decide_eq_true_eq]

theorem Tidy.kind_ne_of_mem {w : Window} (hw : w.Tidy) (hc : w.closing? = none) {t : Token}
    (ht : t ∈ w.queue) : t.kind ≠ .endOfText := by
  intro hk
  cases hlast : w.queue.getLast? with
  | none =>
      rw [List.getLast?_eq_none_iff.mp hlast] at ht
      cases ht
  | some u =>
      rw [closing?_of_getLast? hlast] at hc
      obtain ⟨l, hl⟩ := List.getLast?_eq_some_iff.mp hlast
      rw [hl] at ht
      rcases List.mem_append.mp ht with ht | ht
      · refine hw t ?_ hk
        rwa [hl, List.dropLast_concat]
      · rw [← List.mem_singleton.mp ht, if_pos hk] at hc
        cases hc

theorem Tidy.push {w : Window} (hw : w.Tidy) (hc : w.closing? = none) (s : Scanner) (t : Token) :
    Tidy { w with scanner := s, queue := w.queue ++ [t] } := by
  intro u hu
  rw [List.dropLast_concat] at hu
  exact hw.kind_ne_of_mem hc hu

theorem Tidy.drop {w : Window} (hw : w.Tidy) (n : Nat) : (w.drop n).Tidy := by
  intro u hu
  by_cases hnil : w.queue.drop n = []
  · simp only [Window.drop, hnil] at hu
    cases hu
  · refine hw u ?_
    rw [← List.take_append_drop n w.queue, List.dropLast_append_of_ne_nil hnil]
    exact List.mem_append_right _ hu

theorem ahead_push {w : Window} {t : Token} {s : Scanner} (hc : w.closing? = none)
    (he : w.error? = none) (hs : w.scanner.next = (.ok t, s)) :
    ahead { w with scanner := s, queue := w.queue ++ [t] } = w.ahead := by
  rw [ahead_of_scanner hc he]
  by_cases ht : t.kind = .endOfText
  · have hc' : closing? { w with scanner := s, queue := w.queue ++ [t] } = some t := by
      rw [closing?_of_getLast? List.getLast?_concat, if_pos ht]
    rw [ahead_of_closing hc', Scanner.drain_of_endOfText hs ht]
    rfl
  · have hc' : closing? { w with scanner := s, queue := w.queue ++ [t] } = none := by
      rw [closing?_of_getLast? List.getLast?_concat, if_neg ht]
    rw [ahead_of_scanner hc' he, Scanner.drain_of_token hs ht, ← Tokens.prepend_append]

/-- An error to come is ahead of a window before it is found. -/
theorem ahead_of_next_error {w : Window} {e : ScanError} {s : Scanner} (hc : w.closing? = none)
    (he : w.error? = none) (hs : w.scanner.next = (.error e, s)) :
    w.ahead = ⟨w.queue, some e⟩ := by
  rw [ahead_of_scanner hc he, Scanner.drain_of_error hs]
  simp only [Tokens.prepend, List.append_nil]

theorem answer_ahead_of_getElem? {w : Window} {i : Nat} {t : Token} (h : w.queue[i]? = some t) :
    w.ahead.answer i = .ok t := by
  have hlist : ∃ l, w.ahead.list = w.queue ++ l := by
    simp only [ahead]
    split
    · exact ⟨[], by simp⟩
    · exact ⟨[], by simp⟩
    · exact ⟨_, rfl⟩
  obtain ⟨l, hl⟩ := hlist
  have hi := (List.getElem?_eq_some_iff.mp h).1
  simp only [Tokens.answer, hl, List.getElem?_append_left hi, h]

/-- Looking answers as the finished list of what is ahead does, and changes nothing ahead. -/
theorem peek_spec {w : Window} (hw : w.Tidy) (i : Nat) :
    (w.peek i).1 = w.ahead.answer i ∧ (w.peek i).2.ahead = w.ahead ∧ (w.peek i).2.Tidy := by
  fun_induction peek w i with
  | case1 w t hq => exact ⟨(answer_ahead_of_getElem? hq).symm, rfl, hw⟩
  | case2 w hq t hc =>
      obtain ⟨hlast, ht⟩ := closing?_eq_some hc
      refine ⟨?_, rfl, hw⟩
      simp only [ahead_of_closing hc, Tokens.answer, hq, Tokens.ending, hlast, if_pos ht]
  | case3 w hq e he hc =>
      refine ⟨?_, rfl, hw⟩
      simp only [ahead_of_error hc he, Tokens.answer, hq]
  | case4 w hq he hc e s hs =>
      rw [ahead_of_next_error hc he hs]
      exact ⟨by simp only [Tokens.answer, hq], ahead_of_error hc rfl, hw⟩
  | case5 w hq he hc t s hs ih =>
      have h := ih (hw.push hc s t)
      rwa [ahead_push hc he hs] at h

/-- Dropping up to a token of the queue that is no end of text drops these tokens from what is
ahead. -/
theorem drop_spec {w : Window} (hw : w.Tidy) {i : Nat} {t : Token} (h : w.queue[i]? = some t)
    (ht : t.kind ≠ .endOfText) :
    (w.drop (i + 1)).ahead = TokenSource.drop w.ahead (i + 1) ∧ (w.drop (i + 1)).Tidy := by
  have hi : i + 1 ≤ w.queue.length := (List.getElem?_eq_some_iff.mp h).1
  have hclosing : (w.drop (i + 1)).closing? = w.closing? := by
    by_cases hlen : w.queue.length ≤ i + 1
    · have hlast : w.queue.getLast? = some t := by
        rw [List.getLast?_eq_getElem?, ← h]
        congr 1
        omega
      rw [closing?_of_getLast? hlast, if_neg ht]
      simp [closing?, drop, List.drop_eq_nil_of_le hlen]
    · simp only [closing?, drop, List.getLast?_drop, if_neg hlen]
  constructor
  · cases hc : w.closing? with
    | some u =>
        rw [ahead_of_closing hc, ahead_of_closing (hclosing.trans hc)]
        rfl
    | none =>
        cases he : w.error? with
        | some e =>
            rw [ahead_of_error hc he, ahead_of_error (hclosing.trans hc) he]
            rfl
        | none =>
            rw [ahead_of_scanner hc he, ahead_of_scanner (hclosing.trans hc) he]
            simp only [Tokens.prepend, TokenSource.drop, drop, List.drop_append_of_le_length hi]
  · exact hw.drop (i + 1)

end Window

end IntScript
