import IntScript.Token.Source

/-!
# A window on a scanner

Tokens are scanned only when they are looked at and wait in a queue until they are dropped. Looking
stops at an end of text at the back of the queue. An error of the scanner is kept, and answers every
later look that would need another token.
-/

namespace IntScript

/-- A scanner with the tokens looked at but not dropped yet. -/
structure Window where
  scanner : Scanner
  queue : List Token
  error? : Option ScanError

/-- A demand that no window can meet. -/
inductive WindowMisuse where
  | look
  | eat
  deriving DecidableEq, Repr

def WindowMisuse.message : WindowMisuse → String
  | .look => "lexer: LookAhead requires n >= 1"
  | .eat => "lexer: Eat requires n >= 1"

namespace Window

/-- A window on a scanner, with nothing looked at. -/
def ofScanner (s : Scanner) : Window := ⟨s, [], none⟩

def ofBytes (bs : List UInt8) (kw : Keywords) : Window := ofScanner (.ofBytes bs kw)

/-- The end of text at the back of the queue, if there is one. -/
def closing? (w : Window) : Option Token := w.queue.getLast?.filter fun t => t.kind = .endOfText

def peek (w : Window) (i : Nat) : Except ScanError Token × Window :=
  match _h : w.queue[i]? with
  | some t => (.ok t, w)
  | none =>
    match w.closing?, w.error? with
    | some t, _ => (.ok t, w)
    | none, some e => (.error e, w)
    | none, none =>
      match w.scanner.next with
      | (.error e, s) => (.error e, { w with scanner := s, error? := some e })
      | (.ok t, s) => peek { w with scanner := s, queue := w.queue ++ [t] } i
termination_by i + 1 - w.queue.length
decreasing_by
  have := List.getElem?_eq_none_iff.1 _h
  simp only [List.length_append, List.length_singleton]
  omega

theorem peek_of_closing? {w : Window} {i : Nat} {t : Token} (hi : w.queue.length ≤ i)
    (h : w.closing? = some t) : w.peek i = (.ok t, w) := by
  rw [peek]
  split
  · rename_i h'
    exact absurd (List.getElem?_eq_some_iff.1 h').1 (Nat.not_lt.2 hi)
  · simp [h]

/-- A token just scanned that is an end of text answers the look it was scanned for. -/
theorem peek_push_endOfText {w : Window} {i : Nat} {t : Token} (hi : w.queue[i]? = none)
    (ht : t.kind = .endOfText) (s : Scanner) :
    ({ w with scanner := s, queue := w.queue ++ [t] } : Window).peek i =
      (.ok t, { w with scanner := s, queue := w.queue ++ [t] }) := by
  have hlen := List.getElem?_eq_none_iff.1 hi
  rcases Nat.eq_or_lt_of_le hlen with heq | hlt
  · subst heq
    rw [peek]
    split
    · rename_i h
      rw [List.getElem?_concat_length, Option.some.injEq] at h
      rw [h]
    · rename_i h
      rw [List.getElem?_concat_length] at h
      cases h
  · refine peek_of_closing? ?_ ?_
    · simpa using Nat.succ_le_of_lt hlt
    · simp [closing?, ht]

/-- What is looked at and is not an end of text waits in the queue. -/
theorem getElem?_queue_of_peek {w w' : Window} {i : Nat} {t : Token} (h : w.peek i = (.ok t, w'))
    (ht : t.kind ≠ .endOfText) : w'.queue[i]? = some t := by
  fun_induction peek w i with
  | case1 w t' hq =>
    simp only [Prod.mk.injEq, Except.ok.injEq] at h
    rw [← h.1, ← h.2, hq]
  | case2 w hq t' hc =>
    simp only [Prod.mk.injEq, Except.ok.injEq] at h
    have hk := (Option.filter_eq_some_iff.1 hc).2
    simp only [decide_eq_true_eq] at hk
    exact absurd (h.1 ▸ hk) ht
  | case3 w hq hc e he => simp at h
  | case4 w hq hc he e s hs => simp at h
  | case5 w hq hc he t' s hs ih => exact ih h

/-- Queued tokens that are not ends of text, and characters not scanned yet. -/
def size (w : Window) : Nat :=
  (w.queue.filter fun t => t.kind ≠ .endOfText).length + w.scanner.rest.length

/-- Queued tokens and characters not scanned yet. -/
def span (w : Window) : Nat := w.queue.length + w.scanner.rest.length

theorem size_peek_le (w : Window) (i : Nat) : (w.peek i).2.size ≤ w.size := by
  fun_induction peek w i with
  | case1 | case2 | case3 => exact Nat.le_refl _
  | case4 w hq hc he e s hs =>
    have := Scanner.length_next_le w.scanner
    rw [hs] at this
    exact Nat.add_le_add_left this _
  | case5 w hq hc he t s hs ih =>
    refine Nat.le_trans ih ?_
    by_cases ht : t.kind = .endOfText
    · have := Scanner.length_next_le w.scanner
      rw [hs] at this
      simpa [size, ht] using this
    · have := Scanner.length_lt_of_next hs ht
      simp only [size, List.filter_append, List.length_append, List.filter_cons, ht, not_false_eq_true,
        decide_true, if_true, List.filter_nil, List.length_singleton, ne_eq]
      omega

theorem span_peek_le {w w' : Window} {i : Nat} {t : Token} (h : w.peek i = (.ok t, w'))
    (ht : t.kind ≠ .endOfText) : w'.span ≤ w.span := by
  fun_induction peek w i with
  | case1 | case2 =>
    simp only [Prod.mk.injEq] at h
    exact Nat.le_of_eq (by rw [← h.2])
  | case3 w hq hc e he => simp at h
  | case4 w hq hc he e s hs => simp at h
  | case5 w hq hc he t' s hs ih =>
    by_cases ht' : t'.kind = .endOfText
    · rw [peek_push_endOfText hq ht' s] at h
      simp only [Prod.mk.injEq, Except.ok.injEq] at h
      exact absurd (h.1 ▸ ht') ht
    · refine Nat.le_trans (ih h) ?_
      have := Scanner.length_lt_of_next hs ht'
      simp only [span, List.length_append, List.length_singleton]
      omega

/-- Drops the first `n` tokens of the queue, as far as there are any. -/
def drop (w : Window) (n : Nat) : Window := { w with queue := w.queue.drop n }

theorem size_drop_le (w : Window) (n : Nat) : (w.drop n).size ≤ w.size :=
  Nat.add_le_add_right ((List.drop_sublist n w.queue).filter _).length_le _

theorem size_drop_lt {w w' : Window} {t : Token} (h : w.peek 0 = (.ok t, w'))
    (ht : t.kind ≠ .endOfText) : (w'.drop 1).size < w.size := by
  refine Nat.lt_of_lt_of_le ?_ (h ▸ size_peek_le w 0)
  have hq := getElem?_queue_of_peek h ht
  cases hqueue : w'.queue with
  | nil => simp [hqueue] at hq
  | cons t' rest =>
    simp only [hqueue, List.getElem?_cons_zero, Option.some.injEq] at hq
    subst hq
    simp [size, drop, hqueue, ht]

instance : TokenSource Window where
  peek := peek
  drop := drop
  size := size
  span := span
  size_peek_le := size_peek_le
  size_drop_le := size_drop_le
  size_drop_lt := size_drop_lt
  lt_span_of_peek := fun h ht =>
    Nat.lt_of_lt_of_le (List.getElem?_eq_some_iff.1 (getElem?_queue_of_peek h ht)).1
      (Nat.le_trans (Nat.le_add_right _ _) (span_peek_le h ht))
  span_peek_le := span_peek_le

def buffered (w : Window) : Nat := w.queue.length

/-- The `n`-th token ahead, counted from one. -/
def lookAhead (w : Window) (n : Int) : Except WindowMisuse (Except ScanError Token × Window) :=
  if n ≤ 0 then .error .look else .ok (w.peek (n.toNat - 1))

/-- Drops `n` tokens, at least one being asked for. -/
def eat (w : Window) (n : Int) : Except WindowMisuse Window :=
  if n ≤ 0 then .error .eat else .ok (w.drop n.toNat)

/-- Lets the scanner start on another text; what was looked at stays. -/
def restart (w : Window) (bs : List UInt8) : Window :=
  { w with scanner := w.scanner.restart bs }

end Window

end IntScript
