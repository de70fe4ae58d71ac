import IntScript.Proofs.Parse.Sources
import IntScript.Proofs.Token.Joined

/-!
# Characters and the tokens they are read as

Both ways between a text and the kinds of its tokens.

Every kind of the grammar can be written (`Kind.spelling`), and kinds that are written one after the
other, with a space before each, are read as these kinds (`Scanner.drain_spelled`).

Every token is read from characters of one class (`Scanner.Spells`).  So in a text that is read to
its end every character is a blank or belongs to a token, and there are as many line ends and marks as
there are characters of them (`Tokens.count_sign`).
-/

namespace IntScript

namespace Kind

/-- How a token of the kind can be written where the reserved words are the standard ones. -/
def spelling : Kind → List Char
  | .endOfText => []
  | .newline => ['\n']
  | .symbol => ['a']
  | .integer => ['0']
  | .assign => ['=']
  | .add => ['+']
  | .sub => ['-']
  | .mul => ['*']
  | .div => ['/']
  | .mod => ['%']
  | .pow => ['^']
  | .openParen => ['(']
  | .closeParen => [')']
  | .openBrace => ['\x7b']
  | .closeBrace => ['\x7d']
  | .comma => [',']
  | .printWord => ['p', 'r', 'i', 'n', 't']
  | .funcWord => ['f', 'u', 'n', 'c']
  | .returnWord => ['r', 'e', 't', 'u', 'r', 'n']
  | .whileWord => ['w', 'h', 'i', 'l', 'e']
  | .unused _ => []

/-- The kind of a token of one character that is not a word or a number: a line end or a mark. -/
def ofSign? (c : Char) : Option Kind := if c = '\n' then some .newline else ofMark? c

theorem spelling_of_ofSign? {c : Char} {k : Kind} (h : ofSign? c = some k) : k.spelling = [c] := by
  unfold ofSign? at h
  split at h
  · next hc =>
      cases h
      rw [hc, spelling]
  · unfold ofMark? at h
    split at h <;> cases h <;> rfl

theorem not_mem_of_ofSign? {c : Char} {k : Kind} (h : ofSign? c = some k) :
    k ∉ [.endOfText, .integer, .symbol, .funcWord, .printWord, .returnWord, .whileWord] := by
  unfold ofSign? at h
  split at h
  · cases h
    decide
  · unfold ofMark? at h
    split at h <;> cases h <;> decide

/-- The kinds one after the other, with a space before each and one at the end. -/
def spelled : List Kind → List Char
  | [] => [' ']
  | k :: ks => ' ' :: (k.spelling ++ spelled ks)

theorem exists_spelled (ks : List Kind) : ∃ cs, spelled ks = ' ' :: cs := by
  cases ks with
  | nil => exact ⟨[], rfl⟩
  | cons k ks => exact ⟨_, rfl⟩

end Kind

namespace Scanner

/-! ## Writing -/

theorem next_spelling {k : Kind} (hk : k ∈ Kind.known) (hend : k ≠ .endOfText) {cs : List Char}
    (hcs : Apart cs) (pos : Position) :
    ∃ t pos', next ⟨k.spelling ++ cs, pos, .standard⟩ = (.ok t, ⟨cs, pos', .standard⟩) ∧
      t.kind = k := by
  have hread : (∃ t pos', next ⟨k.spelling, pos, .standard⟩ = (.ok t, ⟨[], pos', .standard⟩) ∧
      t.kind = k) ∧ (skipGap ⟨k.spelling, pos, .standard⟩).rest ≠ [] := by
    cases k with
    | endOfText => exact absurd rfl hend
    | unused n => exact absurd hk (by simp [Kind.known])
    | _ => exact ⟨⟨_, _, rfl, rfl⟩, List.cons_ne_nil _ _⟩
  obtain ⟨⟨t, pos', hnext, hkind⟩, hrest⟩ := hread
  have hfollowed := next_followedBy hcs hrest
  rw [hnext] at hfollowed
  exact ⟨t, pos', hfollowed, hkind⟩

/-- Kinds that are written are read. -/
theorem drain_spelled (ks : List Kind) (hks : ∀ k ∈ ks, k ∈ Kind.known ∧ k ≠ .endOfText)
    (pos : Position) :
    (drain ⟨Kind.spelled ks, pos, .standard⟩).1.kinds = ks ++ [.endOfText] ∧
      (drain ⟨Kind.spelled ks, pos, .standard⟩).1.error? = none := by
  induction ks generalizing pos with
  | nil =>
      have hnext : next ⟨[' '], pos, .standard⟩ = (.ok ⟨.endOfText, "", pos.advance 1⟩, _) := rfl
      rw [Kind.spelled, drain_of_endOfText hnext rfl]
      exact ⟨rfl, rfl⟩
  | cons k ks ih =>
      obtain ⟨hk, hend⟩ := hks k List.mem_cons_self
      have hcs : Apart (Kind.spelled ks) := by
        obtain ⟨cs, hspelled⟩ := Kind.exists_spelled ks
        rw [hspelled]
        exact apart_space cs
      obtain ⟨t, pos', hnext, rfl⟩ := next_spelling hk hend hcs (pos.advance 1)
      have hspace := next_followedBy_end (s := ⟨[' '], pos, .standard⟩)
        (t.kind.spelling ++ Kind.spelled ks) rfl
      obtain ⟨hkinds, herror⟩ := ih (fun j hj => hks j (List.mem_cons_of_mem _ hj)) pos'
      have hdrain := drain_of_token (hspace.trans hnext) hend
      have hspelled : Scanner.mk (Kind.spelled (t.kind :: ks)) pos .standard =
          followedBy (t.kind.spelling ++ Kind.spelled ks) ⟨[' '], pos, .standard⟩ := rfl
      rw [hspelled, hdrain]
      exact ⟨congrArg (t.kind :: ·) hkinds, herror⟩

/-! ## Reading -/

/-- The characters that a token of a kind is read from. -/
inductive Spells (kw : Keywords) : List Char → Kind → Prop
  | sign {c : Char} {k : Kind} : Kind.ofSign? c = some k → Spells kw [c] k
  | word {cs : List Char} : (∀ c ∈ cs, Text.isLetter c) →
      Spells kw cs (kw.classify (String.ofList cs))
  | number {cs : List Char} : (∀ c ∈ cs, Text.Decimal.isDigit c) → Spells kw cs .integer

theorem exists_spells_of_next {s s' : Scanner} {t : Token} (h : s.next = (.ok t, s'))
    (ht : t.kind ≠ .endOfText) :
    ∃ gap cs, s.rest = gap ++ (cs ++ s'.rest) ∧ (∀ c ∈ gap, isGap c) ∧
      Spells s.keywords cs t.kind := by
  have hgap : ∀ c ∈ s.rest.takeWhile isGap, isGap c := fun c hc => List.mem_takeWhile_imp hc
  refine ⟨s.rest.takeWhile isGap, ?_⟩
  suffices hfront : ∃ cs, s.skipGap.rest = cs ++ s'.rest ∧ Spells s.keywords cs t.kind by
    obtain ⟨cs, hcs, hspells⟩ := hfront
    refine ⟨cs, ?_, hgap, hspells⟩
    rw [← hcs]
    exact List.takeWhile_append_dropWhile.symm
  rw [next_eq_front] at h
  rw [show s.keywords = s.skipGap.keywords from rfl]
  clear hgap
  generalize s.skipGap = s at h ⊢
  unfold front at h
  split at h
  · cases h
    exact absurd rfl ht
  · next c cs hrest =>
      split at h
      · next hc =>
          cases h
          exact ⟨[c], hrest, .sign (if_pos hc)⟩
      · next hc =>
          split at h
          · cases h
            exact ⟨_, List.takeWhile_append_dropWhile.symm,
              .word fun c hc => List.mem_takeWhile_imp hc⟩
          · split at h
            · cases h
              exact ⟨_, List.takeWhile_append_dropWhile.symm,
                .number fun c hc => List.mem_takeWhile_imp hc⟩
            · split at h
              · next k hk =>
                  cases h
                  exact ⟨[c], hrest, .sign ((if_neg hc).trans hk)⟩
              · cases h

end Scanner

/-- Every reserved word has one of the four uses. -/
def Keywords.Usable (kw : Keywords) : Prop :=
  ∀ word k, kw.get? word = some k → k ∈ [.funcWord, .printWord, .returnWord, .whileWord]

theorem Keywords.usable_standard : Keywords.standard.Usable := by
  intro word k h
  obtain ⟨l₁, l₂, hl, -⟩ := List.lookup_eq_some_iff.mp h
  have hmem : (word, k) ∈ Keywords.standard.entries := by
    rw [hl]
    exact List.mem_append_right _ List.mem_cons_self
  have hall : ∀ p ∈ Keywords.standard.entries,
      p.2 ∈ [.funcWord, .printWord, .returnWord, .whileWord] := by decide
  exact hall _ hmem

theorem Keywords.Usable.ne_endOfText {kw : Keywords} (h : kw.Usable) (word : String) :
    kw.get? word ≠ some .endOfText :=
  fun hword => absurd (h word _ hword) (by decide)

theorem Keywords.Usable.classify_mem {kw : Keywords} (h : kw.Usable) (word : String) :
    kw.classify word ∈ [.symbol, .funcWord, .printWord, .returnWord, .whileWord] := by
  unfold classify
  cases hget : kw.get? word with
  | none => exact List.mem_cons_self
  | some k => exact List.mem_cons_of_mem _ (h word k hget)

namespace Scanner

/-- The character is in no gap, no word and no number. -/
structure Lone (c : Char) : Prop where
  gap : isGap c = false
  letter : Text.isLetter c = false
  digit : Text.Decimal.isDigit c = false

instance (c : Char) : Decidable (Lone c) :=
  decidable_of_iff (isGap c = false ∧ Text.isLetter c = false ∧ Text.Decimal.isDigit c = false)
    ⟨fun h => ⟨h.1, h.2.1, h.2.2⟩, fun h => ⟨h.gap, h.letter, h.digit⟩⟩

theorem Lone.count_eq_zero {c : Char} {p : Char → Bool} (hc : p c = false) {cs : List Char}
    (hcs : ∀ d ∈ cs, p d) : cs.count c = 0 := by
  rw [List.count_eq_zero]
  intro hmem
  rw [hcs c hmem] at hc
  cases hc

theorem countP_ofSign? (c : Char) {k : Kind}
    (hk : k ∈ [.endOfText, .integer, .symbol, .funcWord, .printWord, .returnWord, .whileWord]) :
    [k].countP (Kind.ofSign? c = some ·) = 0 := by
  rw [List.countP_eq_zero]
  intro j hj hsign
  rw [List.mem_singleton.mp hj] at hsign
  exact Kind.not_mem_of_ofSign? (of_decide_eq_true hsign) hk

theorem Spells.count {kw : Keywords} (hkw : kw.Usable) {c : Char} (hc : Lone c) {cs : List Char}
    {k : Kind} (h : Spells kw cs k) : cs.count c = [k].countP (Kind.ofSign? c = some ·) := by
  cases h with
  | @sign d _ hd =>
      by_cases hcd : Kind.ofSign? c = some k
      · -- a kind is the kind of one sign only
        have hspelling := (Kind.spelling_of_ofSign? hcd).symm.trans (Kind.spelling_of_ofSign? hd)
        obtain rfl : c = d := List.singleton_inj.mp hspelling
        simp [hcd]
      · have hne : d ≠ c := by
          rintro rfl
          exact hcd hd
        simp [hcd, hne]
  | word hcs =>
      rw [Lone.count_eq_zero hc.letter hcs, countP_ofSign? c]
      exact List.mem_cons_of_mem _ (List.mem_cons_of_mem _ (hkw.classify_mem _))
  | number hcs => rw [Lone.count_eq_zero hc.digit hcs, countP_ofSign? c (by decide)]

theorem count_drain {c : Char} (hc : Lone c) (s : Scanner) (hkw : s.keywords.Usable)
    (he : s.drain.1.error? = none) :
    s.rest.count c = s.drain.1.kinds.countP (Kind.ofSign? c = some ·) := by
  fun_induction drain s with
  | case1 s e s' h => cases he
  | case2 s t s' h ht =>
      obtain ⟨hrest, -⟩ := rest_of_endOfText hkw.ne_endOfText h ht
      have hgap : ∀ d ∈ s.rest, isGap d := List.dropWhile_eq_nil_iff.mp hrest
      have hkinds : Tokens.kinds ⟨[t], none⟩ = [.endOfText] := by rw [← ht]; rfl
      rw [Lone.count_eq_zero hc.gap hgap, hkinds, countP_ofSign? c (by decide)]
  | case3 s t s' h ht ts last hd ih =>
      obtain ⟨gap, cs, hrest, hgap, hspells⟩ := exists_spells_of_next h ht
      have hkeywords : s'.keywords = s.keywords := by rw [← keywords_next s, h]
      rw [hd] at ih
      have hkinds : Tokens.kinds { ts with list := t :: ts.list } = [t.kind] ++ ts.kinds := rfl
      rw [hrest, hkinds, List.count_append, List.count_append, List.countP_append,
        Lone.count_eq_zero hc.gap hgap, hspells.count hkw hc, ih (hkeywords ▸ hkw) he,
        Nat.zero_add]

end Scanner

/-- The bytes of a sign in a text that is read to its end are tokens of its kind. -/
theorem Tokens.count_sign {bs : List UInt8} {kw : Keywords} (hkw : kw.Usable)
    (he : (ofBytes bs kw).error? = none) {b : UInt8} (hb : b.toNat < 0x80)
    (hlone : Scanner.Lone (Char.ofNat b.toNat)) {k : Kind}
    (hk : Kind.ofSign? (Char.ofNat b.toNat) = some k) :
    bs.count b = (ofBytes bs kw).kinds.count k := by
  rw [← Text.Utf8.count_decode hb]
  refine (Scanner.count_drain hlone (.ofBytes bs kw) hkw he).trans (List.countP_congr fun j _ => ?_)
  rw [hk, decide_eq_true_iff, Option.some.injEq, beq_iff_eq, eq_comm]

namespace Scanner

/-! ## Rows -/

theorem row_next {s s' : Scanner} {t : Token} (h : s.next = (.ok t, s')) :
    t.pos.row = s.pos.row ∧ s.pos.row ≤ s'.pos.row := by
  rw [next_eq_front] at h
  rw [show s.pos.row = s.skipGap.pos.row from rfl]
  generalize s.skipGap = s at h ⊢
  unfold front at h
  split at h
  · cases h
    exact ⟨rfl, Int.le_refl _⟩
  · split at h
    · cases h
      refine ⟨rfl, ?_⟩
      simp only [Position.nextLine]
      omega
    · split at h
      · cases h
        exact ⟨rfl, Int.le_refl _⟩
      · split at h
        · cases h
          exact ⟨rfl, Int.le_refl _⟩
        · split at h
          · cases h
            exact ⟨rfl, Int.le_refl _⟩
          · cases h

/-- Tokens come row by row. -/
theorem rows_drain (s : Scanner) :
    (∀ t ∈ s.drain.1.list, s.pos.row ≤ t.pos.row) ∧
      s.drain.1.list.Pairwise fun t u => t.pos.row ≤ u.pos.row := by
  fun_induction drain s with
  | case1 s e s' h => exact ⟨fun t ht => absurd ht List.not_mem_nil, .nil⟩
  | case2 s t s' h ht =>
      refine ⟨fun u hu => ?_, List.pairwise_singleton _ _⟩
      rw [List.mem_singleton.mp hu]
      exact Int.le_of_eq (row_next h).1.symm
  | case3 s t s' h ht ts last hd ih =>
      rw [hd] at ih
      obtain ⟨hrow, hle⟩ := row_next h
      refine ⟨fun u hu => ?_, List.pairwise_cons.mpr ⟨fun u hu => ?_, ih.2⟩⟩
      · rcases List.mem_cons.mp hu with rfl | hu
        · omega
        · have hu := ih.1 u hu
          omega
      · have hu := ih.1 u hu
        omega

theorem row_of_drain {s : Scanner} {t : Token} {l : List Token} (h : s.drain.1.list = t :: l) :
    t.pos.row = s.pos.row := by
  rcases hnext : s.next with ⟨e | u, s'⟩
  · rw [drain_of_error hnext] at h
    cases h
  · by_cases hu : u.kind = .endOfText
    · rw [drain_of_endOfText hnext hu] at h
      cases h
      exact (row_next hnext).1
    · rw [drain_of_token hnext hu] at h
      cases h
      exact (row_next hnext).1

/-! ## Blank texts -/

theorem isGap_of_drain {s : Scanner} (hkw : ∀ word, s.keywords.get? word ≠ some .endOfText)
    {t : Token} (h : s.drain.1.list = [t]) (ht : t.kind = .endOfText) : ∀ c ∈ s.rest, isGap c := by
  rcases hnext : s.next with ⟨e | u, s'⟩
  · rw [drain_of_error hnext] at h
    cases h
  · by_cases hu : u.kind = .endOfText
    · exact List.dropWhile_eq_nil_iff.mp (rest_of_endOfText hkw hnext hu).1
    · rw [drain_of_token hnext hu] at h
      obtain rfl : u = t := (List.cons.inj h).1
      exact absurd ht hu

theorem mem_of_mem_skipGap {s : Scanner} {c : Char} (h : c ∈ s.skipGap.rest) : c ∈ s.rest :=
  (List.dropWhile_suffix isGap).subset h

theorem next_of_blank {s : Scanner} (hs : ∀ c ∈ s.rest, Text.isBlank c) :
    (s.skipGap.rest = [] ∧ s.next = (.ok ⟨.endOfText, "", s.skipGap.pos⟩, s.skipGap)) ∨
      ∃ pos s', s.skipGap.rest = '\n' :: s'.rest ∧ s.next = (.ok ⟨.newline, "\n", pos⟩, s') := by
  rw [next_eq_front, front]
  cases hrest : s.skipGap.rest with
  | nil => exact .inl ⟨rfl, rfl⟩
  | cons c cs =>
      have hgap := isGap_of_skipGap hrest
      have hblank := hs c (mem_of_mem_skipGap (hrest ▸ List.mem_cons_self))
      obtain rfl : c = '\n' := by
        by_contra hne
        simp [isGap, hne, hblank] at hgap
      exact .inr ⟨_, { s.skipGap with rest := cs, pos := s.skipGap.pos.nextLine }, rfl, rfl⟩

theorem drain_of_blank (s : Scanner) (hs : ∀ c ∈ s.rest, Text.isBlank c) :
    ∃ l t, s.drain.1 = ⟨l ++ [t], none⟩ ∧ t.kind = .endOfText ∧ l.length = s.rest.count '\n' ∧
      ∀ u ∈ l, u.kind = .newline := by
  have hcount (s : Scanner) : s.rest.count '\n' = s.skipGap.rest.count '\n' :=
    (count_dropWhile rfl s.rest).symm
  fun_induction drain s with
  | case1 s e s' h =>
      rcases next_of_blank hs with ⟨-, h'⟩ | ⟨_, _, -, h'⟩
      · cases h.symm.trans h'
      · cases h.symm.trans h'
  | case2 s t s' h ht =>
      rcases next_of_blank hs with ⟨hrest, -⟩ | ⟨_, _, -, h'⟩
      · refine ⟨[], t, rfl, ht, ?_, fun u hu => absurd hu List.not_mem_nil⟩
        rw [hcount, hrest]
        rfl
      · cases h.symm.trans h'
        cases ht
  | case3 s t s' h ht ts last hd ih =>
      rcases next_of_blank hs with ⟨-, h'⟩ | ⟨pos, s₁, hrest, h'⟩
      · cases h.symm.trans h'
        exact absurd rfl ht
      · cases h.symm.trans h'
        have hmem : ∀ c ∈ s'.rest, Text.isBlank c := fun c hc =>
          hs c (mem_of_mem_skipGap (hrest ▸ List.mem_cons_of_mem _ hc))
        obtain ⟨l, u, hl, hu, hlength, hnewlines⟩ := ih hmem
        rw [hd] at hl
        obtain rfl : ts = ⟨l ++ [u], none⟩ := hl
        refine ⟨_ :: l, u, rfl, hu, ?_, ?_⟩
        · rw [hcount, hrest, List.count_cons_self, List.length_cons, hlength]
        · intro v hv
          rcases List.mem_cons.mp hv with rfl | hv
          · rfl
          · exact hnewlines v hv

end Scanner

end IntScript
