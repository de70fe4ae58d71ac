import IntScript.Proofs.Token.Ahead
import IntScript.Text.Utf8.Lemmas
import Mathlib.Data.List.TakeWhile

/-!
# Two texts, one behind the other

No token goes across a character that is no letter and no digit.  So if a text goes on behind such a
character, its tokens stay, and those of what follows come in place of its end of text
(`Tokens.ofBytes_followed`).  If the character is a line end, they are the tokens of a second text,
further down (`Tokens.ofBytes_joined`).  How much further, the line ends in the first text tell.

All of this needs that no reserved word stands for the end of a text.  If one does, scanning the
first text stops at it and the rest of that text is never looked at.
-/

namespace IntScript

/-! ## Characters of one byte -/

namespace Text.Utf8

theorem count_of_tails? {a : UInt8} (ha : a.toNat < 0x80) {n v w : Nat} {bs rest : List UInt8}
    (h : tails? n v bs = some (w, rest)) : rest.count a = bs.count a := by
  fun_induction tails? n v bs with
  | case1 v bs =>
      cases h
      rfl
  | case2 => cases h
  | case3 n v b bs hb ih =>
      have hne : b ≠ a := by
        rintro rfl
        omega
      rw [List.count_cons_of_ne hne, ih h]
  | case4 => cases h

theorem le_least_of_lead? {b : Nat} {l : Lead} (h : lead? b = some l) (hb : 0x80 ≤ b) :
    0x80 ≤ l.least := by
  rw [lead?, if_neg (by omega)] at h
  split at h
  · cases h
  · split at h
    · cases h
      simp
    · split at h
      · cases h
        simp
      · split at h
        · cases h
          simp
        · cases h

theorem toNat_ofNat_ascii {a : UInt8} (ha : a.toNat < 0x80) :
    (Char.ofNat a.toNat).toNat = a.toNat := by
  rw [Char.ofNat, dif_pos (.inl (by omega))]
  rfl

theorem of_next?_of_le {a : UInt8} (ha : a.toNat < 0x80) {b : UInt8} {bs rest : List UInt8} {c : Char}
    (hb : 0x80 ≤ b.toNat) (h : next? (b :: bs) = some (c, rest)) :
    c ≠ Char.ofNat a.toNat ∧ rest.count a = bs.count a := by
  simp only [next?] at h
  split at h
  · cases h
  · next l hl =>
      split at h
      · cases h
      · next v tail htails =>
          split at h
          · next hv =>
              cases h
              refine ⟨fun hc => ?_, count_of_tails? ha htails⟩
              have hnat : (Char.ofNat v).toNat = v := by
                rw [Char.ofNat, dif_pos hv.2]
                rfl
              rw [hc, toNat_ofNat_ascii ha] at hnat
              have hleast := le_least_of_lead? hl hb
              omega
          · cases h

/-- An ASCII character is one byte, and no other character has that byte in it. -/
theorem count_decode {a : UInt8} (ha : a.toNat < 0x80) (bs : List UInt8) :
    (decode bs).count (Char.ofNat a.toNat) = bs.count a := by
  fun_induction decode bs with
  | case1 => rfl
  | case2 b bs c rest h ih =>
      by_cases hb : b.toNat < 0x80
      · rw [next?_ascii hb] at h
        cases h
        by_cases hab : b = a
        · subst hab
          rw [List.count_cons_self, List.count_cons_self, ih]
        · have hc : Char.ofNat b.toNat ≠ Char.ofNat a.toNat := by
            intro hc
            have hnat := congrArg Char.toNat hc
            rw [toNat_ofNat_ascii hb, toNat_ofNat_ascii ha] at hnat
            exact hab (UInt8.toNat_inj.mp hnat)
          rw [List.count_cons_of_ne hc, List.count_cons_of_ne hab, ih]
      · have hab : b ≠ a := by
          rintro rfl
          exact hb ha
        obtain ⟨hc, hrest⟩ := of_next?_of_le ha (Nat.le_of_not_lt hb) h
        rw [List.count_cons_of_ne hc, List.count_cons_of_ne hab, ih, hrest]
  | case3 b bs h ih =>
      have hab : b ≠ a := by
        rintro rfl
        rw [next?_ascii ha] at h
        cases h
      have hc : replacement ≠ Char.ofNat a.toNat := by
        intro hc
        have hnat := congrArg Char.toNat hc
        rw [toNat_ofNat_ascii ha] at hnat
        exact absurd ha (by rw [← hnat]; decide)
      rw [List.count_cons_of_ne hc, List.count_cons_of_ne hab, ih]

end Text.Utf8

/-! ## Further down -/

/-- The position so many rows further down. -/
def Position.lower (k : Nat) (p : Position) : Position := { p with row := p.row + k }

theorem Position.nextLine_lower (p : Position) (k : Nat) :
    (p.lower k).nextLine = p.nextLine.lower k := by
  simp only [lower, nextLine, Position.mk.injEq, and_true]
  omega

def Token.lower (k : Nat) (t : Token) : Token := { t with pos := t.pos.lower k }

@[simp] theorem Token.kind_lower (k : Nat) (t : Token) : (t.lower k).kind = t.kind := rfl

def ScanError.lower (k : Nat) (e : ScanError) : ScanError := { e with pos := e.pos.lower k }

def Tokens.lower (k : Nat) (ts : Tokens) : Tokens :=
  ⟨ts.list.map (Token.lower k), ts.error?.map (ScanError.lower k)⟩

namespace Scanner

/-- The same text so many rows further down. -/
def lower (k : Nat) (s : Scanner) : Scanner := { s with pos := s.pos.lower k }

/-- The next token of a text that does not start with a gap. -/
def front (s : Scanner) : Except ScanError Token × Scanner :=
  match s.rest with
  | [] => (.ok ⟨.endOfText, "", s.pos⟩, s)
  | c :: cs =>
    if c = '\n' then
      (.ok ⟨.newline, "\n", s.pos⟩, { s with rest := cs, pos := s.pos.nextLine })
    else if Text.isLetter c then
      ((.ok (s.cutRun Text.isLetter s.keywords.classify).1),
        (s.cutRun Text.isLetter s.keywords.classify).2)
    else if Text.Decimal.isDigit c then
      ((.ok (s.cutRun Text.Decimal.isDigit fun _ => .integer).1),
        (s.cutRun Text.Decimal.isDigit fun _ => .integer).2)
    else
      match Kind.ofMark? c with
      | some k => (.ok ⟨k, c.toString, s.pos⟩, { s with rest := cs, pos := s.pos.advance 1 })
      | none => (.error ⟨c, s.pos⟩, s)

theorem next_eq_front (s : Scanner) : s.next = s.skipGap.front := rfl

/-! ### Further down -/

theorem front_lower (k : Nat) (s : Scanner) :
    (s.lower k).front =
      ((s.front.1.map (Token.lower k)).mapError (ScanError.lower k), s.front.2.lower k) := by
  unfold front
  rw [show (s.lower k).rest = s.rest from rfl]
  cases s.rest with
  | nil => rfl
  | cons c cs =>
      dsimp only
      split
      · have hnext : (s.lower k).pos.nextLine = s.pos.nextLine.lower k := s.pos.nextLine_lower k
        rw [hnext]
        rfl
      · split
        · rfl
        · split
          · rfl
          · split
            · rfl
            · rfl

theorem next_lower (k : Nat) (s : Scanner) :
    (s.lower k).next =
      ((s.next.1.map (Token.lower k)).mapError (ScanError.lower k), s.next.2.lower k) :=
  front_lower k s.skipGap

theorem drain_lower (k : Nat) (s : Scanner) : (s.lower k).drain.1 = s.drain.1.lower k := by
  fun_induction drain s with
  | case1 s e s' h =>
      have hnext := next_lower k s
      rw [h] at hnext
      exact drain_of_error hnext
  | case2 s t s' h ht =>
      have hnext := next_lower k s
      rw [h] at hnext
      exact drain_of_endOfText hnext ht
  | case3 s t s' h ht ts last hd ih =>
      have hnext := next_lower k s
      rw [h] at hnext
      rw [drain_of_token hnext ht, ih, hd]
      rfl

/-! ### Followed by more text -/

/-- No word and no number goes on into the text. -/
def Apart (cs : List Char) : Prop :=
  ∀ c ∈ cs.head?, Text.isLetter c = false ∧ Text.Decimal.isDigit c = false

theorem apart_newline (cs : List Char) : Apart ('\n' :: cs) := by
  intro c hc
  cases hc
  decide +kernel

theorem apart_space (cs : List Char) : Apart (' ' :: cs) := by
  intro c hc
  cases hc
  decide +kernel

/-- The text with more text behind it. -/
def followedBy (cs : List Char) (s : Scanner) : Scanner := { s with rest := s.rest ++ cs }

section

variable {p : Char → Bool} {cs : List Char} (hp : ∀ c ∈ cs.head?, p c = false)

include hp

theorem takeWhile_followed (l : List Char) : (l ++ cs).takeWhile p = l.takeWhile p := by
  induction l with
  | nil =>
      cases cs with
      | nil => rfl
      | cons c cs => exact List.takeWhile_cons_of_neg (by simp [hp c rfl])
  | cons c l ih => rw [List.cons_append, List.takeWhile_cons, List.takeWhile_cons, ih]

theorem dropWhile_followed (l : List Char) : (l ++ cs).dropWhile p = l.dropWhile p ++ cs := by
  induction l with
  | nil =>
      cases cs with
      | nil => rfl
      | cons c cs => exact List.dropWhile_cons_of_neg (by simp [hp c rfl])
  | cons c l ih =>
      rw [List.cons_append, List.dropWhile_cons, List.dropWhile_cons, ih]
      split
      · rfl
      · rfl

theorem cutRun_followedBy (s : Scanner) (kind : String → Kind) :
    (s.followedBy cs).cutRun p kind = ((s.cutRun p kind).1, (s.cutRun p kind).2.followedBy cs) := by
  simp only [cutRun, followedBy, takeWhile_followed hp, dropWhile_followed hp]

end

theorem count_dropWhile {p : Char → Bool} (hp : p '\n' = false) (l : List Char) :
    (l.dropWhile p).count '\n' = l.count '\n' := by
  induction l with
  | nil => rfl
  | cons c l ih =>
      rw [List.dropWhile_cons]
      split
      · next hc =>
          have hne : c ≠ '\n' := by
            rintro rfl
            rw [hp] at hc
            cases hc
          rw [ih, List.count_cons_of_ne hne]
      · rfl

/-- Where there is text left, what follows it makes no difference. -/
theorem front_followedBy {cs : List Char} (hcs : Apart cs) {s : Scanner} (h : s.rest ≠ []) :
    (s.followedBy cs).front = (s.front.1, s.front.2.followedBy cs) := by
  have hletters := cutRun_followedBy (fun c hc => (hcs c hc).1) s s.keywords.classify
  have hdigits := cutRun_followedBy (fun c hc => (hcs c hc).2) s fun _ => .integer
  obtain ⟨c, l, hrest⟩ := List.exists_cons_of_ne_nil h
  have hrest' : (s.followedBy cs).rest = c :: (l ++ cs) := by
    rw [followedBy, hrest, List.cons_append]
  unfold front
  rw [hrest, hrest']
  dsimp only
  split
  · rfl
  · split
    · rw [show (s.followedBy cs).keywords = s.keywords from rfl, hletters]
    · split
      · rw [hdigits]
      · split
        · rfl
        · rw [show (s.followedBy cs).pos = s.pos from rfl]

theorem isGap_of_skipGap {s : Scanner} {c : Char} {cs : List Char} (h : s.skipGap.rest = c :: cs) :
    isGap c = false := by
  have hhead := List.head?_dropWhile_not isGap s.rest
  rw [show s.rest.dropWhile isGap = c :: cs from h] at hhead
  simpa using hhead

theorem skipGap_followedBy (cs : List Char) {s : Scanner} (h : s.skipGap.rest ≠ []) :
    (s.followedBy cs).skipGap = s.skipGap.followedBy cs := by
  obtain ⟨c, l, hrest⟩ := List.exists_cons_of_ne_nil h
  have hc := isGap_of_skipGap hrest
  obtain ⟨rest, pos, kw⟩ := s
  simp only [skipGap, followedBy, mk.injEq, and_true] at hrest ⊢
  -- the gap ends at a character of the text, so it does not reach what follows
  have hsplit := List.takeWhile_append_dropWhile (p := isGap) (l := rest)
  rw [hrest] at hsplit
  have hgap : ∀ d ∈ rest.takeWhile isGap, isGap d = true := fun d hd => List.mem_takeWhile_imp hd
  generalize rest.takeWhile isGap = gap at hsplit hgap ⊢
  rw [← hsplit, List.append_assoc, List.takeWhile_append_of_pos hgap,
    List.dropWhile_append_of_pos hgap, List.dropWhile_append_of_pos hgap]
  simp [hc]

theorem next_followedBy {cs : List Char} (hcs : Apart cs) {s : Scanner} (h : s.skipGap.rest ≠ []) :
    (s.followedBy cs).next = (s.next.1, s.next.2.followedBy cs) := by
  rw [next_eq_front, skipGap_followedBy cs h]
  exact front_followedBy hcs h

/-- Where there is none left, what follows is next. -/
theorem next_followedBy_end (cs : List Char) {s : Scanner} (h : s.skipGap.rest = []) :
    (s.followedBy cs).next = next ⟨cs, s.skipGap.pos, s.keywords⟩ := by
  have hgap : ∀ c ∈ s.rest, isGap c = true := List.dropWhile_eq_nil_iff.mp h
  have hskip : (s.followedBy cs).skipGap = skipGap ⟨cs, s.skipGap.pos, s.keywords⟩ := by
    simp only [skipGap, followedBy, List.takeWhile_append_of_pos hgap,
      List.dropWhile_append_of_pos hgap, Position.advance, mk.injEq, Position.mk.injEq, true_and,
      and_true, List.length_append, List.takeWhile_eq_self_iff.mpr hgap]
    omega
  rw [next_eq_front, next_eq_front, hskip]

/-! ### The last row -/

/-- The row that the text ends on. -/
def lastRow (s : Scanner) : Int := s.pos.row + s.rest.count '\n'

theorem lastRow_skipGap (s : Scanner) : s.skipGap.lastRow = s.lastRow := by
  unfold lastRow
  rw [show s.skipGap.rest = s.rest.dropWhile isGap from rfl, count_dropWhile rfl]
  rfl

theorem lastRow_cutRun {p : Char → Bool} (hp : p '\n' = false) (s : Scanner)
    (kind : String → Kind) : (s.cutRun p kind).2.lastRow = s.lastRow := by
  unfold lastRow
  rw [show (s.cutRun p kind).2.rest = s.rest.dropWhile p from rfl, count_dropWhile hp]
  rfl

theorem lastRow_next (s : Scanner) : s.next.2.lastRow = s.lastRow := by
  rw [next_eq_front, ← lastRow_skipGap s]
  generalize s.skipGap = s
  unfold front
  split
  · rfl
  · next c cs hrest =>
      split
      · next hc =>
          unfold lastRow
          rw [hrest, hc, List.count_cons_self]
          simp only [Position.nextLine]
          omega
      · next hc =>
          split
          · exact lastRow_cutRun (by decide +kernel) s s.keywords.classify
          · split
            · exact lastRow_cutRun (by decide +kernel) s fun _ => .integer
            · split
              · unfold lastRow
                rw [hrest, List.count_cons_of_ne hc]
                rfl
              · rfl

/-! ### All tokens -/

theorem keywords_next (s : Scanner) : s.next.2.keywords = s.keywords := by
  rw [next_eq_front, show s.keywords = s.skipGap.keywords from rfl]
  generalize s.skipGap = s
  unfold front
  repeat' split
  all_goals rfl

/-- If no reserved word stands for it, an end of text comes at the end of the text. -/
theorem rest_of_endOfText {s s' : Scanner} {t : Token}
    (hkw : ∀ word, s.keywords.get? word ≠ some .endOfText) (h : s.next = (.ok t, s'))
    (ht : t.kind = .endOfText) : s.skipGap.rest = [] ∧ t.pos = s.skipGap.pos := by
  rw [next_eq_front] at h
  rw [show s.keywords = s.skipGap.keywords from rfl] at hkw
  generalize s.skipGap = s at h hkw ⊢
  unfold front at h
  split at h
  · next hrest =>
      cases h
      exact ⟨hrest, rfl⟩
  · exfalso
    split at h
    · cases h
      cases ht
    · split at h
      · cases h
        have hword : s.keywords.classify (String.ofList (s.rest.takeWhile Text.isLetter)) =
          .endOfText := ht
        unfold Keywords.classify at hword
        cases hget : s.keywords.get? (String.ofList (s.rest.takeWhile Text.isLetter)) with
        | none =>
            rw [hget] at hword
            cases hword
        | some k =>
            rw [hget] at hword
            exact hkw _ (hget.trans (congrArg some hword))
      · split at h
        · cases h
          cases ht
        · split at h
          · next c cs _ _ _ _ k hk =>
              cases h
              obtain rfl : k = .endOfText := ht
              unfold Kind.ofMark? at hk
              split at hk <;> cases hk
          · cases h

theorem drain_of_next_eq {s s' : Scanner} (h : s.next = s'.next) : s.drain = s'.drain := by
  rw [drain, drain, h]

/-- The tokens of a text with more text behind it.  If a character stops the scanner, nothing behind
it is looked at; if not, the tokens of what follows come in place of the end of text. -/
theorem drain_followedBy {cs : List Char} (hcs : Apart cs) (s : Scanner)
    (hkw : ∀ word, s.keywords.get? word ≠ some .endOfText) :
    (s.drain.1.error? ≠ none ∧ (s.followedBy cs).drain.1 = s.drain.1) ∨
      ∃ l t, s.drain.1 = ⟨l ++ [t], none⟩ ∧ t.pos.row = s.lastRow ∧
        (s.followedBy cs).drain.1 = (drain ⟨cs, t.pos, s.keywords⟩).1.prepend l := by
  have hleft : ∀ {s : Scanner} {r s'}, s.next = (r, s') → (∀ t, r = .ok t → t.kind ≠ .endOfText) →
      (s.followedBy cs).next = (r, s'.followedBy cs) := by
    intro s r s' h hr
    have hrest : s.skipGap.rest ≠ [] := by
      intro hrest
      rw [next_eq_front, front, hrest] at h
      cases h
      exact hr _ rfl rfl
    rw [next_followedBy hcs hrest, h]
  fun_induction drain s with
  | case1 s e s' h =>
      have hnext := hleft h (fun t ht => by cases ht)
      exact .inl ⟨by simp, drain_of_error hnext⟩
  | case2 s t s' h ht =>
      obtain ⟨hrest, hpos⟩ := rest_of_endOfText hkw h ht
      refine .inr ⟨[], t, rfl, ?_, ?_⟩
      · rw [hpos, ← lastRow_skipGap, lastRow, hrest]
        simp
      · rw [hpos, drain_of_next_eq (next_followedBy_end cs hrest)]
        rfl
  | case3 s t s' h ht ts last hd ih =>
      have hkeywords : s'.keywords = s.keywords := by rw [← keywords_next s, h]
      have hrow' : s'.lastRow = s.lastRow := by rw [← lastRow_next s, h]
      have hnext := hleft h (fun u hu => by cases hu; exact ht)
      rw [hd, hkeywords] at ih
      rcases ih hkw with ⟨he, hdrain⟩ | ⟨l, u, hl, hrow, hdrain⟩
      · refine .inl ⟨he, ?_⟩
        rw [drain_of_token hnext ht, hdrain]
        rfl
      · refine .inr ⟨t :: l, u, ?_, hrow.trans hrow', ?_⟩
        · obtain rfl : ts = ⟨l ++ [u], none⟩ := hl
          rfl
        · rw [drain_of_token hnext ht, hdrain, ← Tokens.prepend_append]
          rfl

theorem drain_newline (cs : List Char) (pos : Position) (kw : Keywords) :
    (drain ⟨'\n' :: cs, pos, kw⟩).1 =
      (drain ⟨cs, pos.nextLine, kw⟩).1.prepend [⟨.newline, "\n", pos⟩] := by
  have hnext : next ⟨'\n' :: cs, pos, kw⟩ =
      (.ok ⟨.newline, "\n", pos⟩, ⟨cs, pos.nextLine, kw⟩) := by
    have hpos : pos.advance 0 = pos := by simp [Position.advance]
    have hskip : skipGap ⟨'\n' :: cs, pos, kw⟩ = ⟨'\n' :: cs, pos, kw⟩ :=
      congrArg (Scanner.mk ('\n' :: cs) · kw) hpos
    rw [next_eq_front, hskip]
    rfl
  exact drain_of_token hnext (by simp)

end Scanner

theorem Tokens.ofBytes_followed {kw : Keywords} (hkw : ∀ word, kw.get? word ≠ some .endOfText)
    (bs : List UInt8) {b : UInt8} (hb : b.toNat < 0x80) (more : List UInt8)
    (hmore : Scanner.Apart (Text.Utf8.decode (b :: more))) :
    ((ofBytes bs kw).error? ≠ none ∧ ofBytes (bs ++ b :: more) kw = ofBytes bs kw) ∨
      ∃ l t, ofBytes bs kw = ⟨l ++ [t], none⟩ ∧ t.pos.row = 1 + (bs.count 10 : Int) ∧
        ofBytes (bs ++ b :: more) kw =
          (Scanner.drain ⟨Text.Utf8.decode (b :: more), t.pos, kw⟩).1.prepend l := by
  have hjoined : Scanner.ofBytes (bs ++ b :: more) kw =
      (Scanner.ofBytes bs kw).followedBy (Text.Utf8.decode (b :: more)) := by
    unfold Scanner.ofBytes
    rw [Text.Utf8.decode_append_ascii bs hb]
    rfl
  have hlast : (Scanner.ofBytes bs kw).lastRow = 1 + bs.count 10 := by
    rw [← Text.Utf8.count_decode (by decide) bs]
    rfl
  have hdrain := Scanner.drain_followedBy hmore (.ofBytes bs kw) hkw
  rw [← hjoined, hlast] at hdrain
  exact hdrain

theorem Text.Utf8.decode_newline (bs : List UInt8) : decode (10 :: bs) = '\n' :: decode bs :=
  decode_ascii (by decide) bs

/-- The tokens of two texts, one below the other. -/
theorem Tokens.ofBytes_joined {kw : Keywords} (hkw : ∀ word, kw.get? word ≠ some .endOfText)
    (above below : List UInt8) (he : (ofBytes above kw).error? = none) :
    ∃ l t, (ofBytes above kw).list = l ++ [t] ∧
      ofBytes (above ++ 10 :: below) kw =
        ((ofBytes below kw).lower (1 + above.count 10)).prepend
          (l ++ [⟨.newline, "\n", t.pos⟩]) := by
  have happart : Scanner.Apart (Text.Utf8.decode (10 :: below)) := by
    rw [Text.Utf8.decode_newline]
    exact Scanner.apart_newline _
  rcases ofBytes_followed hkw above (by decide) below happart with ⟨hne, -⟩ | ⟨l, t, hl, hrow, hdrain⟩
  · exact absurd he hne
  · refine ⟨l, t, congrArg Tokens.list hl, ?_⟩
    have hbelow : Scanner.mk (Text.Utf8.decode below) t.pos.nextLine kw =
        (Scanner.ofBytes below kw).lower (1 + above.count 10) := by
      have hstart : t.pos.nextLine = Position.start.lower (1 + above.count 10) := by
        simp only [Position.nextLine, Position.lower, Position.start, hrow, Position.mk.injEq,
          and_true]
        omega
      rw [hstart]
      rfl
    rw [hdrain, Text.Utf8.decode_newline, Scanner.drain_newline, hbelow, Scanner.drain_lower,
      Tokens.prepend_append]
    rfl

theorem Tokens.error?_of_joined {kw : Keywords} (hkw : ∀ word, kw.get? word ≠ some .endOfText)
    {above below : List UInt8} (he : (ofBytes (above ++ 10 :: below) kw).error? = none) :
    (ofBytes above kw).error? = none ∧ (ofBytes below kw).error? = none := by
  have happart : Scanner.Apart (Text.Utf8.decode (10 :: below)) := by
    rw [Text.Utf8.decode_newline]
    exact Scanner.apart_newline _
  have habove : (ofBytes above kw).error? = none := by
    rcases ofBytes_followed hkw above (by decide) below happart with ⟨hne, hsame⟩ | ⟨l, t, hl, -, -⟩
    · rw [hsame] at he
      exact absurd he hne
    · rw [hl]
  obtain ⟨l, t, -, hjoined⟩ := ofBytes_joined hkw above below habove
  refine ⟨habove, ?_⟩
  rw [hjoined] at he
  exact Option.map_eq_none_iff.mp he

end IntScript
