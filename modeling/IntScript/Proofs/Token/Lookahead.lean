import IntScript.Proofs.Token.Ahead
import IntScript.Proofs.Token.Stream

/-!
# Looking ahead

A window shows the answers of its scanner, one after the other, however they are looked at and
dropped.  A look shows the answer at its distance, but it passes over no end of text and no error:
from there on it shows just that.

Main statement: after any looks and drops, the queue of a window and all that can be looked at are
read off the answers of the scanner and the number of tokens dropped (`Window.mirrors_stream`).

The number of tokens dropped is not the number asked for, since no more are dropped than are in the
queue.  So a look can change what a later look shows (`Window.look_changes_later_look`): it puts
tokens into the queue, and a drop between the two takes them.  This is the only way.  Where as many
tokens are dropped as without the first look, the second one shows the same, and as many are dropped
unless a drop asks for more tokens than were looked at (`Window.Frugal`).
-/

namespace IntScript

namespace Scanner

/-! ## What a look shows of the answers -/

/-- The answers that no look passes over. -/
def isLast : Except ScanError Token → Bool
  | .ok t => t.kind = .endOfText
  | .error _ => true

/-- The number of answers that a look passes over if it would pass over `i` of them. -/
def reach (answers : Nat → Except ScanError Token) (e i : Nat) : Nat :=
  (List.range' e i).findIdx fun n => isLast (answers n)

/-- The answer that a look shows behind those it passes over. -/
def reply (answers : Nat → Except ScanError Token) (e i : Nat) : Except ScanError Token :=
  answers (e + reach answers e i)

/-- The number of tokens that a look must have seen. -/
def needed (answers : Nat → Except ScanError Token) (e i : Nat) : Nat :=
  match reply answers e i with
  | .ok _ => reach answers e i + 1
  | .error _ => reach answers e i

section

variable {answers : Nat → Except ScanError Token} {e i k : Nat}

theorem reach_eq_add (hk : k ≤ i) (h : ∀ j < k, isLast (answers (e + j)) = false) :
    reach answers e i = k + reach answers (e + k) (i - k) := by
  induction k generalizing e i with
  | zero => simp
  | succ k ih =>
      obtain ⟨i, rfl⟩ : ∃ i', i = i' + 1 := ⟨i - 1, by omega⟩
      have hfirst : isLast (answers e) = false := h 0 (Nat.succ_pos k)
      have hstep : reach answers e (i + 1) = reach answers (e + 1) i + 1 := by
        simp [reach, List.range'_succ, List.findIdx_cons, hfirst]
      have hrest : ∀ j < k, isLast (answers (e + 1 + j)) = false := by
        intro j hj
        rw [Nat.add_assoc, Nat.add_comm 1 j]
        exact h (j + 1) (Nat.succ_lt_succ hj)
      rw [hstep, ih (Nat.le_of_succ_le_succ hk) hrest, Nat.add_assoc e 1 k, Nat.add_comm 1 k,
        Nat.succ_sub_succ]
      omega

theorem reach_eq (hk : k ≤ i) (h : ∀ j < k, isLast (answers (e + j)) = false)
    (hlast : k < i → isLast (answers (e + k)) = true) : reach answers e i = k := by
  have hstop : reach answers (e + k) (i - k) = 0 := by
    rcases Nat.eq_or_lt_of_le hk with rfl | hlt
    · simp [reach]
    · obtain ⟨d, hd⟩ : ∃ d, i - k = d + 1 := ⟨i - k - 1, by omega⟩
      simp [hd, reach, List.range'_succ, List.findIdx_cons, hlast hlt]
  rw [reach_eq_add hk h, hstop, Nat.add_zero]

theorem reply_of_ok {t : Token} (hreach : reach answers e i = k) (h : answers (e + k) = .ok t) :
    reply answers e i = .ok t ∧ needed answers e i = k + 1 := by
  have hreply : reply answers e i = .ok t := by rw [reply, hreach, h]
  simp only [needed, hreply, hreach, and_self]

theorem reply_of_error {x : ScanError} (hreach : reach answers e i = k)
    (h : answers (e + k) = .error x) :
    reply answers e i = .error x ∧ needed answers e i = k := by
  have hreply : reply answers e i = .error x := by rw [reply, hreach, h]
  simp only [needed, hreply, hreach, and_self]

theorem reach_le_needed : reach answers e i ≤ needed answers e i := by
  unfold needed
  split
  · exact Nat.le_succ _
  · exact Nat.le_refl _

theorem lt_needed {t : Token} (hk : k ≤ i) (h : ∀ j < k, isLast (answers (e + j)) = false)
    (ht : answers (e + k) = .ok t) : k < needed answers e i := by
  have hreach : k ≤ reach answers e i := by
    rw [reach_eq_add hk h]
    exact Nat.le_add_right _ _
  rcases Nat.eq_or_lt_of_le hreach with heq | hlt
  · rw [(reply_of_ok heq.symm ht).2]
    exact Nat.lt_succ_self k
  · exact Nat.lt_of_lt_of_le hlt reach_le_needed

end

end Scanner

namespace Window

open Scanner

/-! ## Windows on the answers of a scanner -/

/-- The window is on the answers of the scanner behind the first `e` of them. -/
structure Faithful (s : Scanner) (e : Nat) (w : Window) : Prop where
  queue : ∀ i t, w.queue[i]? = some t → s.answer (e + i) = .ok t
  tidy : w.Tidy
  scanner : w.error? = none → w.scanner = s.after (e + w.buffered)
  error : ∀ x, w.error? = some x → s.answer (e + w.buffered) = .error x

theorem faithful_ofScanner (s : Scanner) : Faithful s 0 (ofScanner s) where
  queue := by
    intro i t h
    cases h
  tidy := by
    intro t h
    cases h
  scanner := by
    intro _
    rfl
  error := by
    intro x h
    cases h

namespace Faithful

variable {s : Scanner} {e : Nat} {w : Window}

theorem drop (h : Faithful s e w) (n : Nat) :
    Faithful s (e + min n w.buffered) (w.drop n) := by
  have hplace : e + min n w.buffered + (w.drop n).buffered = e + w.buffered := by
    simp only [buffered, Window.drop, List.length_drop]
    omega
  refine ⟨?_, h.tidy.drop n, ?_, ?_⟩
  · intro i t ht
    have ht : w.queue[n + i]? = some t := by rwa [Window.drop, List.getElem?_drop] at ht
    have hlt : n + i < w.buffered := (List.getElem?_eq_some_iff.mp ht).1
    rw [Nat.min_eq_left (by omega), Nat.add_assoc]
    exact h.queue (n + i) t ht
  · rw [hplace]
    exact h.scanner
  · rw [hplace]
    exact h.error

theorem answer_of_next (h : Faithful s e w) (he : w.error? = none) :
    s.answer (e + w.buffered) = w.scanner.next.1 := by
  rw [h.scanner he]
  rfl

theorem push (h : Faithful s e w) (hc : w.closing? = none) (he : w.error? = none) {t : Token}
    {s' : Scanner} (hnext : w.scanner.next = (.ok t, s')) :
    Faithful s e { w with scanner := s', queue := w.queue ++ [t] } := by
  refine ⟨?_, h.tidy.push hc s' t, ?_, ?_⟩
  · intro i u hu
    rcases Nat.lt_or_ge i w.queue.length with hi | hi
    · rw [List.getElem?_append_left hi] at hu
      exact h.queue i u hu
    · obtain ⟨hlt, -⟩ := List.getElem?_eq_some_iff.mp hu
      obtain rfl : i = w.queue.length := by
        rw [List.length_append, List.length_singleton] at hlt
        omega
      rw [List.getElem?_concat_length] at hu
      cases hu
      exact (h.answer_of_next he).trans (congrArg Prod.fst hnext)
  · intro _
    have hlength : buffered { w with scanner := s', queue := w.queue ++ [t] } = w.buffered + 1 :=
      List.length_append
    rw [hlength, ← Nat.add_assoc, after_succ, ← h.scanner he, hnext]
  · intro x hx
    cases he.symm.trans hx

theorem fail (h : Faithful s e w) (he : w.error? = none) {x : ScanError} {s' : Scanner}
    (hnext : w.scanner.next = (.error x, s')) :
    Faithful s e { w with scanner := s', error? := some x } where
  queue := h.queue
  tidy := h.tidy
  scanner := by
    intro hw
    cases hw
  error := by
    intro y hy
    cases hy
    exact (h.answer_of_next he).trans (congrArg Prod.fst hnext)

/-- The tokens of a queue are passed over, apart from an end of text at its back. -/
theorem isLast_of_lt (h : Faithful s e w) {k : Nat} (hk : k ≤ w.buffered)
    (hback : w.closing? = none ∨ k < w.buffered) :
    ∀ j < k, isLast (s.answer (e + j)) = false := by
  intro j hj
  have hj' : j < w.queue.length := Nat.lt_of_lt_of_le hj hk
  have hget : w.queue[j]? = some w.queue[j] := List.getElem?_eq_getElem hj'
  have hkind : w.queue[j].kind ≠ .endOfText := by
    rcases hback with hc | hlt
    · exact h.tidy.kind_ne_of_mem hc (List.getElem_mem hj')
    · refine h.tidy _ ?_
      refine List.mem_of_getElem? (i := j) ?_
      rw [List.getElem?_dropLast, if_pos (by unfold buffered at hlt; omega), hget]
  rw [h.queue j _ hget]
  exact decide_eq_false hkind

/-- A look that comes to an error shows it, and needs no more than is in the queue. -/
theorem reply_of_error (h : Faithful s e w) (hc : w.closing? = none) {x : ScanError}
    (hx : s.answer (e + w.buffered) = .error x) {i : Nat} (hi : w.queue[i]? = none) :
    reply s.answer e i = .error x ∧ needed s.answer e i = w.buffered := by
  have hlength : w.buffered ≤ i := List.getElem?_eq_none_iff.mp hi
  refine Scanner.reply_of_error ?_ hx
  refine reach_eq hlength (h.isLast_of_lt (Nat.le_refl _) (.inl hc)) ?_
  intro _
  rw [hx]
  rfl

theorem peek (h : Faithful s e w) (i : Nat) :
    (w.peek i).1 = reply s.answer e i ∧ Faithful s e (w.peek i).2 ∧
      (w.peek i).2.buffered = max w.buffered (needed s.answer e i) := by
  fun_induction Window.peek w i with
  | case1 w t hq =>
      have hi : i < w.buffered := (List.getElem?_eq_some_iff.mp hq).1
      have hreach : reach s.answer e i = i := by
        refine reach_eq (Nat.le_refl i) (h.isLast_of_lt (Nat.le_of_lt hi) (.inr hi)) ?_
        intro hlt
        exact absurd hlt (Nat.lt_irrefl i)
      obtain ⟨hreply, hneeded⟩ := reply_of_ok hreach (h.queue i t hq)
      refine ⟨hreply.symm, h, ?_⟩
      rw [hneeded, Nat.max_eq_left hi]
  | case2 w hq t hc =>
      obtain ⟨hlast, ht⟩ := closing?_eq_some hc
      obtain ⟨l, hl⟩ := List.getLast?_eq_some_iff.mp hlast
      have hlength : w.buffered = l.length + 1 := by rw [buffered, hl, List.length_append]; rfl
      have hi : w.buffered ≤ i := List.getElem?_eq_none_iff.mp hq
      have hback : s.answer (e + l.length) = .ok t := by
        refine h.queue l.length t ?_
        rw [hl, List.getElem?_concat_length]
      have hreach : reach s.answer e i = l.length := by
        refine reach_eq (by omega) (h.isLast_of_lt (by omega) (.inr (by omega))) ?_
        intro _
        rw [hback]
        exact decide_eq_true ht
      obtain ⟨hreply, hneeded⟩ := reply_of_ok hreach hback
      refine ⟨hreply.symm, h, ?_⟩
      rw [hneeded, hlength, Nat.max_self]
  | case3 w hq x he hc =>
      obtain ⟨hreply, hneeded⟩ := h.reply_of_error hc (h.error x he) hq
      refine ⟨hreply.symm, h, ?_⟩
      rw [hneeded, Nat.max_self]
  | case4 w hq he hc x s' hnext =>
      have hx := (h.answer_of_next he).trans (congrArg Prod.fst hnext)
      obtain ⟨hreply, hneeded⟩ := h.reply_of_error hc hx hq
      refine ⟨hreply.symm, h.fail he hnext, ?_⟩
      rw [hneeded, Nat.max_self]
      rfl
  | case5 w hq he hc t s' hnext ih =>
      obtain ⟨hreply, hfaithful, hbuffered⟩ := ih (h.push hc he hnext)
      have ht := (h.answer_of_next he).trans (congrArg Prod.fst hnext)
      have hneeded : w.buffered < needed s.answer e i :=
        lt_needed (List.getElem?_eq_none_iff.mp hq) (h.isLast_of_lt (Nat.le_refl _) (.inl hc)) ht
      refine ⟨hreply, hfaithful, ?_⟩
      have hlength : buffered { w with scanner := s', queue := w.queue ++ [t] } = w.buffered + 1 :=
        List.length_append
      rw [hbuffered, hlength, Nat.max_eq_right hneeded, Nat.max_eq_right (Nat.le_of_lt hneeded)]

end Faithful

/-! ## Looks and drops -/

/-- What can be asked of a window. -/
inductive Use where
  | look (n : Int)
  | eat (n : Int)
  deriving DecidableEq, Repr

/-- The number of tokens that are to be dropped. -/
def Use.demand : Use → Nat
  | .look _ => 0
  | .eat n => n.toNat

/-- The window after a use. One that cannot be met changes nothing. -/
def use (w : Window) : Use → Window
  | .look n =>
    match w.lookAhead n with
    | .ok (_, w') => w'
    | .error _ => w
  | .eat n =>
    match w.eat n with
    | .ok w' => w'
    | .error _ => w

def after (w : Window) : List Use → Window
  | [] => w
  | u :: us => (w.use u).after us

/-- The number of tokens dropped by several uses. -/
def removed (w : Window) : List Use → Nat
  | [] => 0
  | u :: us => min u.demand w.buffered + (w.use u).removed us

def seen (w : Window) (n : Int) : Except WindowMisuse (Except ScanError Token) :=
  (w.lookAhead n).map Prod.fst

/-- No use asks to drop more tokens than were looked at. -/
def Frugal (w : Window) : List Use → Prop
  | [] => True
  | u :: us => u.demand ≤ w.buffered ∧ (w.use u).Frugal us

theorem use_look (w : Window) (n : Int) :
    w.use (.look n) = if n ≤ 0 then w else (w.peek (n.toNat - 1)).2 := by
  by_cases hn : n ≤ 0
  · simp only [use, lookAhead, if_pos hn]
  · simp only [use, lookAhead, if_neg hn]

theorem use_eat (w : Window) (n : Int) : w.use (.eat n) = w.drop n.toNat := by
  by_cases hn : n ≤ 0
  · simp only [use, eat, if_pos hn, Int.toNat_of_nonpos hn]
    rfl
  · simp only [use, eat, if_neg hn]

namespace Faithful

variable {s : Scanner} {e : Nat} {w : Window}

theorem use (h : Faithful s e w) (u : Use) :
    Faithful s (e + min u.demand w.buffered) (w.use u) := by
  cases u with
  | look n =>
      rw [Use.demand, Nat.zero_min, Nat.add_zero, use_look]
      split
      · exact h
      · exact (h.peek _).2.1
  | eat n =>
      rw [use_eat]
      exact h.drop n.toNat

theorem after (h : Faithful s e w) (us : List Use) :
    Faithful s (e + w.removed us) (w.after us) := by
  induction us generalizing e w with
  | nil => exact h
  | cons u us ih =>
      rw [removed, ← Nat.add_assoc]
      exact ih (h.use u)

theorem seen (h : Faithful s e w) (n : Int) :
    w.seen n = if n ≤ 0 then .error .look else .ok (reply s.answer e (n.toNat - 1)) := by
  rw [← (h.peek _).1]
  unfold Window.seen lookAhead
  split
  · rfl
  · rfl

theorem buffered_use_le (h : Faithful s e w) {w' : Window} (h' : Faithful s e w')
    (hle : w.buffered ≤ w'.buffered) (u : Use) : (w.use u).buffered ≤ (w'.use u).buffered := by
  cases u with
  | look n =>
      rw [use_look, use_look]
      split
      · exact hle
      · rw [(h.peek _).2.2, (h'.peek _).2.2]
        omega
  | eat n =>
      rw [use_eat, use_eat]
      simp only [buffered, Window.drop, List.length_drop] at hle ⊢
      omega

/-- A window that has looked further drops the same tokens, as long as they were looked at. -/
theorem removed_eq (h : Faithful s e w) {w' : Window} (h' : Faithful s e w')
    (hle : w.buffered ≤ w'.buffered) {us : List Use} (hus : w.Frugal us) :
    w'.removed us = w.removed us := by
  induction us generalizing e w w' with
  | nil => rfl
  | cons u us ih =>
      obtain ⟨hu, hus⟩ := hus
      have hgone : min u.demand w'.buffered = min u.demand w.buffered := by omega
      have hrest := h'.use u
      rw [hgone] at hrest
      rw [removed, removed, hgone, ih (h.use u) hrest (h.buffered_use_le h' hle u) hus]

theorem map_queue (h : Faithful s e w) :
    w.queue.map .ok = (List.range' e w.buffered).map s.answer := by
  refine List.ext_getElem (by simp [buffered]) ?_
  intro i hi _
  have hi : i < w.queue.length := by rwa [List.length_map] at hi
  have hanswer := h.queue i _ (List.getElem?_eq_getElem hi)
  simp [hanswer]

theorem removed_look (h : Faithful s e w) (n : Int) {us : List Use} (hus : w.Frugal us) :
    (w.use (.look n)).removed us = w.removed us := by
  have hle : w.buffered ≤ (w.use (.look n)).buffered := by
    rw [use_look]
    split
    · exact Nat.le_refl _
    · rw [(h.peek _).2.2]
      exact Nat.le_max_left _ _
  exact h.removed_eq (h.use (.look n)) hle hus

/-- What is looked at depends on nothing but the place in the answers. -/
theorem seen_eq (h : Faithful s e w) {w' : Window} (h' : Faithful s e w') (m : Int) :
    w'.seen m = w.seen m := by
  rw [h'.seen, h.seen]

end Faithful

theorem faithful_after (bs : List UInt8) (kw : Keywords) (uses : List Use) :
    Faithful (.ofBytes bs kw) ((ofBytes bs kw).removed uses) ((ofBytes bs kw).after uses) := by
  have hafter := (faithful_ofScanner (.ofBytes bs kw)).after uses
  rwa [Nat.zero_add] at hafter

/-- A window shows the answers of its scanner behind those that were dropped, and of all that was
done with it nothing but their number matters.  So a look changes what is looked at later only by
what is dropped in between, and it changes nothing there if no drop asks for more tokens than are in
the queue without it. -/
theorem mirrors_stream (bs : List UInt8) (kw : Keywords) (uses : List Use) :
    let answers := (Scanner.ofBytes bs kw).answer
    let w := (ofBytes bs kw).after uses
    let e := (ofBytes bs kw).removed uses
    (∀ n m t, answers n = .ok t → t.literal = "" → n ≤ m → answers m = .ok t) ∧
    (∀ n m x, answers n = .error x → n ≤ m → answers m = .error x) ∧
    w.queue.map .ok = (List.range' e w.buffered).map answers ∧
    (∀ t ∈ w.queue.dropLast, t.kind ≠ .endOfText) ∧
    (∀ n : Int, 1 ≤ n → w.seen n = .ok (reply answers e (n.toNat - 1))) ∧
    (∀ others, (ofBytes bs kw).removed others = e →
      ∀ m, ((ofBytes bs kw).after others).seen m = w.seen m) ∧
    (∀ n later, (w.use (.look n)).removed later = w.removed later →
      ∀ m, ((w.use (.look n)).after later).seen m = (w.after later).seen m) ∧
    (∀ n later, w.Frugal later → (w.use (.look n)).removed later = w.removed later) := by
  intro answers w e
  have hfaithful : Faithful (.ofBytes bs kw) e w := faithful_after bs kw uses
  refine ⟨?_, ?_, hfaithful.map_queue, hfaithful.tidy, ?_, ?_, ?_, ?_⟩
  · intro n m t ht hempty hm
    rw [← ht]
    refine answer_of_taken_nil ?_ hm
    show taken (answers n) = []
    rw [ht]
    exact congrArg String.toList hempty
  · intro n m x hx hm
    rw [← hx]
    refine answer_of_taken_nil ?_ hm
    show taken (answers n) = []
    rw [hx]
    rfl
  · intro n hn
    rw [hfaithful.seen, if_neg (by omega)]
  · intro others hothers m
    have hother := faithful_after bs kw others
    rw [hothers] at hother
    exact hfaithful.seen_eq hother m
  · intro n later hremoved m
    have hlook := (hfaithful.use (.look n)).after later
    rw [hremoved] at hlook
    exact (hfaithful.after later).seen_eq hlook m
  · intro n later hlater
    exact hfaithful.removed_look n hlater

/-- Two tokens are dropped where five are asked for, since no look passes over the word that ends
the text; behind it the scanner goes on. -/
theorem mirrors_stream_stop :
    let words : Keywords := ⟨[("stop", .endOfText)], by decide⟩
    let bs := "a stop b c $".toUTF8.toList
    let w := (ofBytes bs words).after [.look 3, .eat 5, .look 1]
    let w' := (ofBytes bs words).after [.look 3, .eat 5, .look 1, .look 2, .eat 1]
    (ofBytes bs words).removed [.look 3, .eat 5, .look 1] = 2 ∧ w.Frugal [.eat 1] ∧
      w.seen 2 = .ok (.ok ⟨.symbol, "c", ⟨1, 10⟩⟩) ∧
      w.seen 4 = .ok (.error ⟨'$', ⟨1, 12⟩⟩) ∧
      w'.seen 1 = (w.after [.eat 1]).seen 1 := by
  intro words bs w w'
  have hfrugal : w.Frugal [.eat 1] := ⟨by decide +kernel, trivial⟩
  obtain ⟨-, -, -, -, hseen, -, hlook, hremoved⟩ :=
    mirrors_stream bs words [.look 3, .eat 5, .look 1]
  refine ⟨by decide +kernel, hfrugal, ?_, ?_, hlook 2 [.eat 1] (hremoved 2 [.eat 1] hfrugal) 1⟩
  · exact (hseen 2 (by decide)).trans (by decide +kernel)
  · exact (hseen 4 (by decide)).trans (by decide +kernel)

/-- A token that was not looked at is not dropped, so a look at the first token makes a later look
show the second one. -/
theorem look_changes_later_look :
    ((ofBytes "a b".toUTF8.toList .standard).after [.eat 1]).seen 1 =
        .ok (.ok ⟨.symbol, "a", ⟨1, 1⟩⟩) ∧
      (((ofBytes "a b".toUTF8.toList .standard).use (.look 1)).after [.eat 1]).seen 1 =
        .ok (.ok ⟨.symbol, "b", ⟨1, 3⟩⟩) ∧
      ¬ ∀ n later m, (((ofBytes "a b".toUTF8.toList .standard).use (.look n)).after later).seen m =
        ((ofBytes "a b".toUTF8.toList .standard).after later).seen m := by
  have hwithout : ((ofBytes "a b".toUTF8.toList .standard).after [.eat 1]).seen 1 =
      .ok (.ok ⟨.symbol, "a", ⟨1, 1⟩⟩) := by decide +kernel
  have hwith : (((ofBytes "a b".toUTF8.toList .standard).use (.look 1)).after [.eat 1]).seen 1 =
      .ok (.ok ⟨.symbol, "b", ⟨1, 3⟩⟩) := by decide +kernel
  refine ⟨hwithout, hwith, ?_⟩
  intro hsame
  exact absurd (hwith.symm.trans ((hsame 1 [.eat 1] 1).trans hwithout)) (by decide)

end Window

end IntScript
