import IntScript.Proofs.Token.Partition

/-!
# The answers of a scanner

A scanner can be asked for its next token as often as one likes.  Its answers follow the text up to
the first character that is no token, or to the end of the text, and from there on they stay the
same (`Scanner.answer_of_taken_nil`).

Main statement: each answer is at the position that its offset in the text has
(`Scanner.pos_answer`).  Rows and columns are counted here from the text alone (`Position.behind`),
while the scanner moves its position along with every gap, line end, run and mark.  The invariant is
that the characters behind the scanner and those in front of it are the text, and that its position
is the one behind the former (`Scanner.Stands`).  As the scanner only moves on, no two tokens of a text
are at one position (`Tokens.eq_of_pos_eq`).
-/

namespace IntScript

/-! ## Positions -/

namespace Position

/-- The position behind the first characters of a text: one row for each line end among them, and
one column for each character behind the last line end. -/
def behind (front : List Char) : Position :=
  ⟨1 + front.count '\n', 1 + (front.reverse.takeWhile (· ≠ '\n')).length⟩

theorem behind_append {front cs : List Char} (h : '\n' ∉ cs) :
    behind (front ++ cs) = (behind front).advance cs.length := by
  have hrow : (front ++ cs).count '\n' = front.count '\n' := by
    rw [List.count_append, List.count_eq_zero.mpr h, Nat.add_zero]
  have hcol : ((front ++ cs).reverse.takeWhile (· ≠ '\n')).length =
      cs.length + (front.reverse.takeWhile (· ≠ '\n')).length := by
    rw [List.reverse_append, List.takeWhile_append_of_pos, List.length_append, List.length_reverse]
    intro c hc
    have hne : c ≠ '\n' := by
      rintro rfl
      exact h (List.mem_reverse.mp hc)
    exact decide_eq_true hne
  simp only [behind, advance, hrow, hcol, mk.injEq, true_and]
  omega

theorem behind_concat (front : List Char) (c : Char) :
    behind (front ++ [c]) = (behind front).past c := by
  rw [past]
  split
  · next hc =>
      subst hc
      simp [behind, nextLine, Int.add_assoc]
  · next hc =>
      refine behind_append ?_
      intro hmem
      exact hc (List.mem_singleton.mp hmem).symm

/-- The one position is in front of the other: in a row above, or to the left in the same row. -/
def Before (p q : Position) : Prop := p.row < q.row ∨ p.row = q.row ∧ p.col < q.col

/-- The one position is in front of the other, or the other itself. -/
def UpTo (p q : Position) : Prop := p.row < q.row ∨ p.row = q.row ∧ p.col ≤ q.col

theorem Before.ne {p q : Position} (h : p.Before q) : p ≠ q := by
  rintro rfl
  unfold Before at h
  omega

theorem UpTo.trans {p q r : Position} (h : p.UpTo q) (h' : q.UpTo r) : p.UpTo r := by
  unfold UpTo at h h' ⊢
  omega

theorem Before.upTo {p q : Position} (h : p.Before q) : p.UpTo q := by
  unfold Before at h
  unfold UpTo
  omega

theorem Before.trans_upTo {p q r : Position} (h : p.Before q) (h' : q.UpTo r) : p.Before r := by
  unfold Before at h ⊢
  unfold UpTo at h'
  omega

theorem upTo_advance (p : Position) (n : Nat) : p.UpTo (p.advance n) :=
  .inr ⟨rfl, Int.le_add_of_nonneg_right (Int.natCast_nonneg n)⟩

theorem before_advance (p : Position) {n : Nat} (h : 0 < n) : p.Before (p.advance n) :=
  .inr ⟨rfl, Int.lt_add_of_pos_right p.col (Int.natCast_pos.mpr h)⟩

theorem before_past (p : Position) (c : Char) : p.Before (p.past c) := by
  rw [past]
  split
  · exact .inl (Int.lt_add_one_of_le (Int.le_refl p.row))
  · exact p.before_advance Nat.one_pos

end Position

namespace Scanner

/-! ## Answer after answer -/

def after (s : Scanner) : Nat → Scanner
  | 0 => s
  | n + 1 => s.next.2.after n

/-- The answer after `n` others. -/
def answer (s : Scanner) (n : Nat) : Except ScanError Token := (s.after n).next.1

theorem after_succ (s : Scanner) (n : Nat) : s.after (n + 1) = (s.after n).next.2 := by
  induction n generalizing s with
  | zero => rfl
  | succ n ih => exact ih s.next.2

theorem answer_succ (s : Scanner) (n : Nat) : s.answer (n + 1) = s.next.2.answer n := rfl

theorem skipGap_skipGap (s : Scanner) : s.skipGap.skipGap = s.skipGap := by
  have hhere : s.skipGap.rest.takeWhile isGap = [] ∧
      s.skipGap.rest.dropWhile isGap = s.skipGap.rest := by
    cases hrest : s.skipGap.rest with
    | nil => exact ⟨rfl, rfl⟩
    | cons c cs =>
        have hc := isGap_of_skipGap hrest
        simp [hc]
  have hmoved : s.skipGap.skipGap =
      { s.skipGap with
        rest := s.skipGap.rest.dropWhile isGap
        pos := s.skipGap.pos.advance (s.skipGap.rest.takeWhile isGap).length } := rfl
  rw [hmoved, hhere.1, hhere.2]
  simp [Position.advance]

/-- A scanner that takes nothing does not move; it is at the end of its text, or it has failed. -/
theorem Takes.of_taken_nil {s : Scanner} {r : Except ScanError Token × Scanner} (h : Takes s r)
    (hr : taken r.1 = []) :
    r.2 = s ∧ ∀ t, r.1 = .ok t → t.kind = .endOfText ∧ s.rest = [] := by
  cases h with
  | ending hrest =>
      refine ⟨rfl, ?_⟩
      intro t ht
      cases ht
      exact ⟨rfl, hrest⟩
  | sign _ _ _ =>
      rw [taken_sign] at hr
      cases hr
  | run run _ hrun =>
      rw [taken_run] at hr
      exact absurd hr hrun.ne_nil
  | nothing _ _ _ =>
      refine ⟨rfl, ?_⟩
      intro t ht
      cases ht

theorem answer_of_taken_nil {s : Scanner} {n m : Nat} (h : taken (s.answer n) = []) (hm : n ≤ m) :
    s.answer m = s.answer n := by
  induction m, hm using Nat.le_induction with
  | base => rfl
  | succ m hm ih =>
      have hstill : s.after (m + 1) = (s.after m).skipGap := by
        rw [after_succ]
        refine ((takes_next (s.after m)).of_taken_nil ?_).1
        rw [← answer, ih]
        exact h
      rw [← ih, answer, answer, hstill, next_eq_front, next_eq_front, skipGap_skipGap]

theorem answer_of_getElem? {s : Scanner} {n : Nat} {t : Token} (h : s.drain.1.list[n]? = some t) :
    s.answer n = .ok t := by
  fun_induction drain s generalizing n with
  | case1 s e s' hnext => cases h
  | case2 s u s' hnext _ =>
      cases n with
      | zero =>
          cases h
          exact congrArg Prod.fst hnext
      | succ n => cases h
  | case3 s u s' hnext _ ts last hdrain ih =>
      cases n with
      | zero =>
          cases h
          exact congrArg Prod.fst hnext
      | succ n =>
          rw [answer_succ, hnext]
          rw [hdrain] at ih
          exact ih h

theorem answer_of_error? {s : Scanner} {e : ScanError} (h : s.drain.1.error? = some e) :
    s.answer s.drain.1.list.length = .error e := by
  fun_induction drain s with
  | case1 s e' s' hnext =>
      cases h
      exact congrArg Prod.fst hnext
  | case2 s t s' hnext _ => cases h
  | case3 s t s' hnext _ ts last hdrain ih =>
      rw [hdrain] at ih
      show s.answer (ts.list.length + 1) = .error e
      rw [answer_succ, hnext]
      exact ih h

/-! ## Offsets -/

/-- The offset behind the gap at an offset. -/
def skip (text : List Char) (p : Nat) : Nat := p + ((text.drop p).takeWhile isGap).length

/-- The offset of each of the answers that a text gets, when every answer takes its characters and
gaps are passed over. -/
def offset (text : List Char) (answers : Nat → Except ScanError Token) : Nat → Nat
  | 0 => skip text 0
  | n + 1 => skip text (offset text answers n + (taken (answers n)).length)

/-- The scanner has read the first characters of the text and no others. -/
def Stands (text front : List Char) (s : Scanner) : Prop :=
  text = front ++ s.rest ∧ s.pos = .behind front

theorem Stands.skipGap {text front : List Char} {s : Scanner} (h : Stands text front s) :
    Stands text (front ++ s.rest.takeWhile isGap) s.skipGap := by
  obtain ⟨htext, hpos⟩ := h
  have hline : '\n' ∉ s.rest.takeWhile isGap := by
    intro hmem
    cases List.mem_takeWhile_imp hmem
  refine ⟨?_, ?_⟩
  · rw [htext, List.append_assoc]
    exact congrArg (front ++ ·) List.takeWhile_append_dropWhile.symm
  · rw [Position.behind_append hline, ← hpos]
    rfl

theorem Stands.takes {text front : List Char} {s : Scanner} {r : Except ScanError Token × Scanner}
    (h : Stands text front s) (htakes : Takes s r) : Stands text (front ++ taken r.1) r.2 := by
  obtain ⟨htext, hpos⟩ := h
  refine ⟨?_, ?_⟩
  · rw [htext, htakes.rest_eq, List.append_assoc]
  · cases htakes with
    | ending _ | nothing _ _ _ => rwa [← List.append_nil front] at hpos
    | sign _ _ _ => rw [taken_sign, Position.behind_concat, ← hpos]
    | @run run cs rest _ hrun =>
        have hline : '\n' ∉ cs := by
          intro hmem
          cases run.has_newline.symm.trans (hrun.has '\n' hmem)
        rw [taken_run, Position.behind_append hline, ← hpos]

theorem Stands.length_skipGap {text front : List Char} {s : Scanner} (h : Stands text front s) :
    (front ++ s.rest.takeWhile isGap).length = skip text front.length := by
  rw [skip, h.1, List.drop_left, List.length_append]

/-- Each answer is given at its offset. -/
theorem exists_stands {text : List Char} {s : Scanner} (h : Stands text [] s) (n : Nat) :
    ∃ front, front.length = offset text s.answer n ∧ Stands text front (s.after n).skipGap := by
  induction n with
  | zero => exact ⟨_, h.length_skipGap, h.skipGap⟩
  | succ n ih =>
      obtain ⟨front, hlength, hstands⟩ := ih
      have hnext := hstands.takes (takes_next (s.after n))
      rw [← after_succ] at hnext
      refine ⟨_, ?_, hnext.skipGap⟩
      rw [hnext.length_skipGap, List.length_append, hlength]
      rfl

theorem Takes.of_ok {s : Scanner} {r : Except ScanError Token × Scanner} {t : Token}
    (h : Takes s r) (hr : r.1 = .ok t) :
    t.pos = s.pos ∧ t.literal.toList <+: s.rest ∧
      (t.literal = "" → t.kind = .endOfText ∧ s.rest = []) := by
  have htaken : taken r.1 = t.literal.toList := by rw [hr, taken]
  refine ⟨?_, ?_, ?_⟩
  · cases h <;> cases hr <;> rfl
  · rw [h.rest_eq, htaken]
    exact List.prefix_append _ _
  · intro hempty
    rw [hempty] at htaken
    exact (h.of_taken_nil htaken).2 t hr

theorem Takes.of_error {s : Scanner} {r : Except ScanError Token × Scanner} {e : ScanError}
    (h : Takes s r) (hr : r.1 = .error e) : e.pos = s.pos ∧ s.rest.head? = some e.char := by
  cases h with
  | ending _ | sign _ _ _ | run _ _ _ => cases hr
  | nothing hrest _ _ =>
      cases hr
      rw [hrest]
      exact ⟨rfl, rfl⟩

/-! ## Order -/

theorem Takes.before {s : Scanner} {r : Except ScanError Token × Scanner} {t : Token}
    (h : Takes s r) (hr : r.1 = .ok t) (ht : t.kind ≠ .endOfText) : t.pos.Before r.2.pos := by
  cases h with
  | ending _ =>
      cases hr
      exact absurd rfl ht
  | @sign c _ _ _ _ _ =>
      cases hr
      exact s.pos.before_past c
  | run _ _ hrun =>
      cases hr
      exact s.pos.before_advance (List.length_pos_iff.mpr hrun.ne_nil)
  | nothing _ _ _ => cases hr

theorem before_drain (s : Scanner) :
    (∀ t ∈ s.drain.1.list, s.pos.UpTo t.pos) ∧
      s.drain.1.list.Pairwise fun t u => t.pos.Before u.pos := by
  have hhere {s s' : Scanner} {t : Token} (hs : s.next = (.ok t, s')) : s.pos.UpTo t.pos := by
    have htakes := takes_next s
    rw [hs] at htakes
    rw [(htakes.of_ok rfl).1]
    exact s.pos.upTo_advance _
  fun_induction drain s with
  | case1 s e s' hs =>
      refine ⟨?_, .nil⟩
      intro t ht
      cases ht
  | case2 s t s' hs ht =>
      refine ⟨?_, List.pairwise_singleton _ _⟩
      intro u hu
      rw [List.mem_singleton.mp hu]
      exact hhere hs
  | case3 s t s' hs ht ts last hd ih =>
      rw [hd] at ih
      obtain ⟨hafter, hpairwise⟩ := ih
      have hbefore : t.pos.Before s'.pos := by
        have htakes := takes_next s
        rw [hs] at htakes
        exact htakes.before rfl ht
      refine ⟨?_, List.pairwise_cons.mpr ⟨?_, hpairwise⟩⟩
      · intro u hu
        rcases List.mem_cons.mp hu with rfl | hu
        · exact hhere hs
        · exact (hhere hs).trans (hbefore.upTo.trans (hafter u hu))
      · intro u hu
        exact hbefore.trans_upTo (hafter u hu)

end Scanner

theorem Tokens.eq_of_pos_eq {bs : List UInt8} {kw : Keywords} {t u : Token}
    (ht : t ∈ (Tokens.ofBytes bs kw).list) (hu : u ∈ (Tokens.ofBytes bs kw).list)
    (h : t.pos = u.pos) : t = u := by
  have hbefore := (Scanner.before_drain (.ofBytes bs kw)).2
  refine List.Pairwise.forall_of_forall_of_flip (R := fun t u => t.pos = u.pos → t = u)
    (fun t _ _ => rfl) (hbefore.imp ?_) (hbefore.imp ?_) ht hu h
  · intro t u htu heq
    exact absurd heq htu.ne
  · intro u t hut heq
    exact absurd heq.symm hut.ne

namespace Scanner

/-! ## Main statement -/

/-- Every token is at the position of its first character, and every error at that of the character
that is none; these are counted in the text. -/
theorem pos_answer (bs : List UInt8) (kw : Keywords) (n : Nat) :
    let text := Text.Utf8.decode bs
    let s := ofBytes bs kw
    let ts := Tokens.ofBytes bs kw
    let p := offset text s.answer n
    (∀ t, s.answer n = .ok t →
      t.pos = .behind (text.take p) ∧ t.literal.toList <+: text.drop p ∧
        (t.literal = "" → t.kind = .endOfText ∧ p = text.length)) ∧
    (∀ e, s.answer n = .error e → e.pos = .behind (text.take p) ∧ text[p]? = some e.char) ∧
    (∀ t, ts.list[n]? = some t → s.answer n = .ok t) ∧
    (∀ e, ts.error? = some e → s.answer ts.list.length = .error e) := by
  intro text s ts p
  have hstart : Stands text [] s := ⟨rfl, rfl⟩
  obtain ⟨front, hlength, htext, hpos⟩ := exists_stands hstart n
  have htake : text.take p = front := by
    rw [htext]
    exact List.take_left' hlength
  have hdrop : text.drop p = (s.after n).skipGap.rest := by
    rw [htext]
    exact List.drop_left' hlength
  have htakes := takes_next (s.after n)
  rw [htake, hdrop, ← List.head?_drop, hdrop, ← hpos]
  refine ⟨?_, ?_, ?_, ?_⟩
  · intro t ht
    obtain ⟨hhere, hliteral, hend⟩ := htakes.of_ok ht
    refine ⟨hhere, hliteral, ?_⟩
    intro hempty
    obtain ⟨hkind, hrest⟩ := hend hempty
    refine ⟨hkind, ?_⟩
    rw [htext, hrest, List.append_nil]
    exact hlength.symm
  · intro e he
    exact htakes.of_error he
  · intro t ht
    exact answer_of_getElem? ht
  · intro e he
    exact answer_of_error? he

/-- A carriage return and a form feed start no row. -/
theorem pos_answer_dollar :
    let bs := "a\n \r\x0c\n é $".toUTF8.toList
    let text := Text.Utf8.decode bs
    let s := ofBytes bs .standard
    let p := offset text s.answer
    s.answer 3 = .ok ⟨.symbol, "é", ⟨3, 2⟩⟩ ∧ p 3 = 7 ∧ ⟨3, 2⟩ = Position.behind (text.take (p 3)) ∧
      s.answer 4 = .error ⟨'$', ⟨3, 4⟩⟩ ∧ p 4 = 9 ∧
      ⟨3, 4⟩ = Position.behind (text.take (p 4)) := by
  intro bs text s p
  have hword : s.answer 3 = .ok ⟨.symbol, "é", ⟨3, 2⟩⟩ := by decide +kernel
  have hdollar : s.answer 4 = .error ⟨'$', ⟨3, 4⟩⟩ := by decide +kernel
  obtain ⟨hpos, -⟩ := (pos_answer bs .standard 3).1 _ hword
  obtain ⟨hpos', -⟩ := (pos_answer bs .standard 4).2.1 _ hdollar
  exact ⟨hword, by decide +kernel, hpos, hdollar, by decide +kernel, hpos'⟩

end Scanner

end IntScript
