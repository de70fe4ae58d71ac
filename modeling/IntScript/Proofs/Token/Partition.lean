import IntScript.Proofs.Token.Spelling

/-!
# A text and its tokens

Nothing of a text is lost when it is scanned.  Its tokens stand in it one behind the other, with
nothing between them but gaps, and each of them takes as many characters as it can:

| token | characters |
| :-- | :-- |
| a word | a run of letters that cannot be made longer at either end |
| a number | a run of digits, likewise |
| a line end, a mark | one character |
| the end of the text | none, and none behind it |

Main statement: the tokens of a text and the gaps before them are the text, up to the first character
that belongs in no text (`Tokens.partition_ofBytes`).

What one token takes is said once (`Scanner.Takes`), without the gap in front of it.  That a run
cannot be made longer to the left is not seen by the scanner, which only looks ahead.  It holds
because no run goes on where the token before has ended (`Scanner.Broken`), and this is what is
carried along the text.
-/

namespace IntScript

/-! ## Classes of characters -/

namespace Text

theorem Decimal.covers_of_isDigit {c : Char} (h : Decimal.isDigit c = true) :
    CodeRange.covers [⟨0x30, 0x39⟩] c.toNat = true := by
  simp only [Decimal.isDigit, Bool.and_eq_true, decide_eq_true_eq] at h
  obtain ⟨hlow, hhigh⟩ := h
  have hlow : 0x30 ≤ c.toNat := hlow
  have hhigh : c.toNat ≤ 0x39 := hhigh
  simp [CodeRange.covers, hlow, hhigh]

theorem isLetter_of_isDigit {c : Char} (h : Decimal.isDigit c = true) : isLetter c = false := by
  have hdisjoint : CodeRange.Disjoint [⟨0x30, 0x39⟩] Letter.ranges := by decide +kernel
  exact hdisjoint.covers_eq_false (Decimal.covers_of_isDigit h)

theorem isLetter_of_isBlank {c : Char} (h : isBlank c = true) : isLetter c = false := by
  have hdisjoint : CodeRange.Disjoint Blank.ranges Letter.ranges := by decide +kernel
  exact hdisjoint.covers_eq_false h

theorem isDigit_of_isBlank {c : Char} (h : isBlank c = true) : Decimal.isDigit c = false := by
  cases hc : Decimal.isDigit c with
  | false => rfl
  | true =>
      have hdisjoint : CodeRange.Disjoint [⟨0x30, 0x39⟩] Blank.ranges := by decide
      cases h.symm.trans (hdisjoint.covers_eq_false (Decimal.covers_of_isDigit hc))

end Text

namespace Scanner

/-- A character that some text can be read across: a blank, a letter, a digit or a mark. -/
def isUsable (c : Char) : Bool :=
  c == '\n' || Text.isBlank c || Text.isLetter c || Text.Decimal.isDigit c ||
    (Kind.ofMark? c).isSome

theorem isUsable_of_isGap {c : Char} (h : isGap c = true) : isUsable c = true := by
  simp only [isGap, Bool.and_eq_true] at h
  simp [isUsable, h.2]

theorem isUsable_of_ofSign? {c : Char} {k : Kind} (h : Kind.ofSign? c = some k) :
    isUsable c = true := by
  unfold Kind.ofSign? at h
  split at h
  · next hc => simp [isUsable, hc]
  · simp [isUsable, h]

/-- The tokens that are runs of characters of one class. -/
inductive Run where
  | word
  | number
  deriving DecidableEq, Repr

namespace Run

def has : Run → Char → Bool
  | .word => Text.isLetter
  | .number => Text.Decimal.isDigit

def kind (kw : Keywords) : Run → String → Kind
  | .word => kw.classify
  | .number => fun _ => .integer

theorem isUsable_of_has {run : Run} {c : Char} (h : run.has c = true) : isUsable c = true := by
  cases run with
  | word => simp [isUsable, show Text.isLetter c = true from h]
  | number => simp [isUsable, show Text.Decimal.isDigit c = true from h]

theorem has_newline (run : Run) : run.has '\n' = false := by
  cases run with
  | word => decide +kernel
  | number => decide

theorem has_eq_false_of_ne {run other : Run} {c : Char} (hne : other ≠ run)
    (h : run.has c = true) : other.has c = false := by
  cases run with
  | word =>
      cases other with
      | word => exact absurd rfl hne
      | number =>
          cases hc : Text.Decimal.isDigit c with
          | false => exact hc
          | true => cases (Text.isLetter_of_isDigit hc).symm.trans h
  | number =>
      cases other with
      | word => exact Text.isLetter_of_isDigit h
      | number => exact absurd rfl hne

theorem has_eq_false_of_isGap (run : Run) {c : Char} (h : isGap c = true) : run.has c = false := by
  simp only [isGap, Bool.and_eq_true] at h
  cases run with
  | word => exact Text.isLetter_of_isBlank h.2
  | number => exact Text.isDigit_of_isBlank h.2

/-- The characters are a run that cannot be made longer between what is before and behind them. -/
structure Longest (run : Run) (before cs after : List Char) : Prop where
  ne_nil : cs ≠ []
  has : ∀ c ∈ cs, run.has c = true
  before : ∀ c ∈ before.getLast?, run.has c = false
  after : ∀ c ∈ after.head?, run.has c = false

end Run

end Scanner

/-! ## One token -/

/-- The position behind a character. -/
def Position.past (p : Position) (c : Char) : Position :=
  if c = '\n' then p.nextLine else p.advance 1

namespace Scanner

/-- What is taken off a text that does not start with a gap. -/
inductive Takes (s : Scanner) : Except ScanError Token × Scanner → Prop
  | ending : s.rest = [] → Takes s (.ok ⟨.endOfText, "", s.pos⟩, s)
  | sign {c : Char} {cs : List Char} {k : Kind} : s.rest = c :: cs → Kind.ofSign? c = some k →
      (∀ run : Run, run.has c = false) →
      Takes s (.ok ⟨k, c.toString, s.pos⟩, ⟨cs, s.pos.past c, s.keywords⟩)
  | run (run : Run) {cs rest : List Char} : s.rest = cs ++ rest → run.Longest [] cs rest →
      Takes s (.ok ⟨run.kind s.keywords (String.ofList cs), String.ofList cs, s.pos⟩,
        ⟨rest, s.pos.advance cs.length, s.keywords⟩)
  | nothing {c : Char} {cs : List Char} : s.rest = c :: cs → Kind.ofSign? c = none →
      (∀ run : Run, run.has c = false) → Takes s (.error ⟨c, s.pos⟩, s)

theorem takes_cutRun {s : Scanner} {c : Char} {cs : List Char} (hrest : s.rest = c :: cs)
    (run : Run) (hc : run.has c = true) :
    Takes s (.ok (s.cutRun run.has (run.kind s.keywords)).1,
      (s.cutRun run.has (run.kind s.keywords)).2) := by
  refine .run run List.takeWhile_append_dropWhile.symm ⟨?_, ?_, ?_, ?_⟩
  · rw [hrest, List.takeWhile_cons_of_pos hc]
    exact List.cons_ne_nil _ _
  · intro d hd
    exact List.mem_takeWhile_imp hd
  · intro d hd
    cases hd
  · intro d hd
    have hhead := List.head?_dropWhile_not run.has s.rest
    rw [Option.mem_def.mp hd] at hhead
    simpa using hhead

theorem takes_front (s : Scanner) : Takes s s.front := by
  unfold front
  split
  · next hrest => exact .ending hrest
  · next c cs hrest =>
      split
      · next hc =>
          subst hc
          exact .sign hrest rfl Run.has_newline
      · next hc =>
          split
          · next hletter => exact takes_cutRun hrest .word hletter
          · next hletter =>
              split
              · next hdigit => exact takes_cutRun hrest .number hdigit
              · next hdigit =>
                  have hlone : ∀ run : Run, run.has c = false := by
                    intro run
                    cases run with
                    | word => exact eq_false_of_ne_true hletter
                    | number => exact eq_false_of_ne_true hdigit
                  split
                  · next k hk =>
                      have htakes := Takes.sign hrest ((if_neg hc).trans hk) hlone
                      rwa [Position.past, if_neg hc] at htakes
                  · next hk => exact .nothing hrest ((if_neg hc).trans hk) hlone

theorem takes_next (s : Scanner) : Takes s.skipGap s.next := takes_front s.skipGap

/-- The characters that an answer takes. -/
def taken : Except ScanError Token → List Char
  | .ok t => t.literal.toList
  | .error _ => []

@[simp] theorem taken_sign (k : Kind) (c : Char) (pos : Position) :
    taken (.ok ⟨k, c.toString, pos⟩) = [c] :=
  String.toList_singleton c

@[simp] theorem taken_run (k : Kind) (cs : List Char) (pos : Position) :
    taken (.ok ⟨k, String.ofList cs, pos⟩) = cs :=
  String.toList_ofList

theorem Takes.rest_eq {s : Scanner} {r : Except ScanError Token × Scanner} (h : Takes s r) :
    s.rest = taken r.1 ++ r.2.rest := by
  cases h with
  | ending _ => rfl
  | sign hrest _ _ =>
      rw [hrest, taken_sign]
      rfl
  | run run hrest _ => rw [hrest, taken_run]
  | nothing _ _ _ => rfl

/-! ## Pieces -/

/-- A token with the gap before it. -/
structure Piece where
  gap : List Char
  token : Token

def Piece.chars (p : Piece) : List Char := p.gap ++ p.token.literal.toList

/-- The characters of pieces one behind the other. -/
def written (pieces : List Piece) : List Char := pieces.flatMap Piece.chars

/-- The token takes as many characters as it can between what is before and behind it. -/
inductive Cut (kw : Keywords) (before : List Char) (t : Token) (after : List Char) : Prop
  | run (run : Run) : run.Longest before t.literal.toList after →
      t.kind = run.kind kw t.literal → Cut kw before t after
  | sign {c : Char} : t.literal.toList = [c] → Kind.ofSign? c = some t.kind → Cut kw before t after
  | ending : t.literal.toList = [] → t.kind = .endOfText → after = [] → Cut kw before t after

/-- All pieces are a gap and a token that takes as many characters as it can. -/
def Cuts (kw : Keywords) : List Char → List Piece → List Char → Prop
  | _, [], _ => True
  | before, p :: pieces, after =>
      (∀ c ∈ p.gap, isGap c = true) ∧ Cut kw (before ++ p.gap) p.token (written pieces ++ after) ∧
        Cuts kw (before ++ p.chars) pieces after

theorem Cut.isUsable {kw : Keywords} {before after : List Char} {t : Token}
    (h : Cut kw before t after) : ∀ c ∈ t.literal.toList, isUsable c = true := by
  intro c hc
  cases h with
  | run run hrun _ => exact Run.isUsable_of_has (hrun.has c hc)
  | sign hliteral hsign =>
      rw [hliteral, List.mem_singleton] at hc
      rw [hc]
      exact isUsable_of_ofSign? hsign
  | ending hliteral _ _ =>
      rw [hliteral] at hc
      cases hc

theorem Cuts.isUsable {kw : Keywords} {before after : List Char} {pieces : List Piece}
    (h : Cuts kw before pieces after) : ∀ c ∈ written pieces, isUsable c = true := by
  induction pieces generalizing before with
  | nil =>
      intro c hc
      cases hc
  | cons p pieces ih =>
      obtain ⟨hgap, hcut, hcuts⟩ := h
      intro c hc
      rw [written, List.flatMap_cons, Piece.chars, List.mem_append, List.mem_append] at hc
      rcases hc with (hc | hc) | hc
      · exact isUsable_of_isGap (hgap c hc)
      · exact hcut.isUsable c hc
      · exact ih hcuts c hc

/-- No run goes on from the one text into the other. -/
def Broken (before after : List Char) : Prop :=
  ∀ run : Run, ∀ c ∈ before.getLast?, ∀ d ∈ after.head?, run.has c = true → run.has d = false

theorem broken_concat {before after : List Char} {c : Char}
    (h : ∀ run : Run, run.has c = true → ∀ d ∈ after.head?, run.has d = false) :
    Broken (before ++ [c]) after := by
  intro run c' hc' d hd hhas
  rw [List.getLast?_concat] at hc'
  cases hc'
  exact h run hhas d hd

/-- A run has nothing in common with the gap before it, nor with what is before that. -/
theorem Broken.longest {before after gap cs : List Char} {run : Run}
    (h : Broken before (gap ++ (cs ++ after))) (hgap : ∀ c ∈ gap, isGap c = true)
    (hrun : run.Longest [] cs after) : run.Longest (before ++ gap) cs after := by
  refine ⟨hrun.ne_nil, hrun.has, ?_, hrun.after⟩
  intro c hc
  rcases List.eq_nil_or_concat gap with rfl | ⟨gap', d, rfl⟩
  · obtain ⟨d, cs', rfl⟩ := List.exists_cons_of_ne_nil hrun.ne_nil
    rw [List.append_nil] at hc
    cases hhas : run.has c with
    | false => rfl
    | true => cases (h run c hc d rfl hhas).symm.trans (hrun.has d List.mem_cons_self)
  · rw [List.concat_eq_append, ← List.append_assoc, List.getLast?_concat] at hc
    cases hc
    exact run.has_eq_false_of_isGap (hgap _ (by simp))

theorem Run.Longest.broken {before cs after : List Char} {run : Run}
    (h : run.Longest before cs after) (front : List Char) : Broken (front ++ cs) after := by
  obtain ⟨cs', c, rfl⟩ := (List.eq_nil_or_concat cs).resolve_left h.ne_nil
  rw [List.concat_eq_append, ← List.append_assoc]
  refine broken_concat ?_
  intro other hother
  have hc : run.has c = true := h.has c (by simp)
  obtain rfl : other = run := by
    by_contra hne
    cases (has_eq_false_of_ne hne hc).symm.trans hother
  exact h.after

/-- The next token is cut out of the text behind a gap, and no run goes on behind it. -/
theorem exists_cut_next {s s' : Scanner} {t : Token} {before : List Char}
    (hbroken : Broken before s.rest) (h : s.next = (.ok t, s')) :
    ∃ gap, s.rest = gap ++ (t.literal.toList ++ s'.rest) ∧ (∀ c ∈ gap, isGap c = true) ∧
      Cut s.keywords (before ++ gap) t s'.rest ∧
      Broken (before ++ (gap ++ t.literal.toList)) s'.rest := by
  have hgap : ∀ c ∈ s.rest.takeWhile isGap, isGap c = true := by
    intro c hc
    exact List.mem_takeWhile_imp hc
  have hsplit : s.rest = s.rest.takeWhile isGap ++ s.skipGap.rest :=
    List.takeWhile_append_dropWhile.symm
  have htakes := takes_next s
  rw [h] at htakes
  have htaken : s.skipGap.rest = t.literal.toList ++ s'.rest := htakes.rest_eq
  generalize s.rest.takeWhile isGap = gap at hgap hsplit
  rw [hsplit, htaken] at hbroken ⊢
  refine ⟨gap, rfl, hgap, ?_⟩
  cases htakes with
  | ending hrest =>
      refine ⟨.ending rfl rfl hrest, ?_⟩
      intro run c _ d hd
      rw [hrest] at hd
      cases hd
  | @sign c cs k hrest hsign hlone =>
      have hliteral : c.toString.toList = [c] := taken_sign k c s.skipGap.pos
      refine ⟨.sign hliteral hsign, ?_⟩
      rw [hliteral, ← List.append_assoc]
      refine broken_concat ?_
      intro run hhas
      cases (hlone run).symm.trans hhas
  | @run run cs rest hrest hrun =>
      have hliteral : (String.ofList cs).toList = cs := String.toList_ofList
      rw [← hliteral] at hrun
      refine ⟨.run run (hbroken.longest hgap hrun) rfl, ?_⟩
      rw [← List.append_assoc]
      exact hrun.broken _

theorem exists_gap_of_next_error {s s' : Scanner} {e : ScanError} (h : s.next = (.error e, s')) :
    ∃ gap more, s.rest = gap ++ e.char :: more ∧ (∀ c ∈ gap, isGap c = true) ∧
      isUsable e.char = false := by
  have htakes := takes_next s
  rw [h] at htakes
  refine ⟨s.rest.takeWhile isGap, ?_⟩
  cases htakes with
  | @nothing c cs hrest hsign hlone =>
      refine ⟨cs, ?_, ?_, ?_⟩
      · rw [← hrest]
        exact List.takeWhile_append_dropWhile.symm
      · intro d hd
        exact List.mem_takeWhile_imp hd
      · have hgap := isGap_of_skipGap hrest
        have hword : Text.isLetter c = false := hlone .word
        have hdigit : Text.Decimal.isDigit c = false := hlone .number
        unfold Kind.ofSign? at hsign
        split at hsign
        · cases hsign
        · next hc => simp_all [isUsable, isGap]

/-! ## All tokens -/

/-- What stands behind the last token of a text: nothing if the text is read to its end, or else the
character that stopped the scanner, behind a gap. -/
inductive Stops : Option ScanError → List Char → List Char → Prop
  | whole : Stops none [] []
  | stuck {e : ScanError} {gap : List Char} (more : List Char) : (∀ c ∈ gap, isGap c = true) →
      isUsable e.char = false → Stops (some e) gap (e.char :: more)

theorem Stops.isGap {e? : Option ScanError} {gap rest : List Char} (h : Stops e? gap rest) :
    ∀ c ∈ gap, isGap c = true := by
  cases h with
  | whole =>
      intro c hc
      cases hc
  | stuck more hgap _ => exact hgap

theorem Stops.head? {e? : Option ScanError} {gap rest : List Char} (h : Stops e? gap rest) :
    rest.head? = e?.map ScanError.char ∧ ∀ c ∈ rest.head?, Scanner.isUsable c = false := by
  cases h with
  | whole =>
      refine ⟨rfl, ?_⟩
      intro c hc
      cases hc
  | stuck more _ hchar =>
      refine ⟨rfl, ?_⟩
      intro c hc
      cases hc
      exact hchar

/-- The tokens of a text are cut out of it one behind the other. -/
theorem exists_cuts_drain (s : Scanner) (hkw : ∀ word, s.keywords.get? word ≠ some .endOfText)
    {before : List Char} (hbroken : Broken before s.rest) :
    ∃ pieces gap rest, pieces.map Piece.token = s.drain.1.list ∧
      s.rest = written pieces ++ (gap ++ rest) ∧ Cuts s.keywords before pieces (gap ++ rest) ∧
      Stops s.drain.1.error? gap rest := by
  fun_induction drain s generalizing before with
  | case1 s e s' h =>
      obtain ⟨gap, more, hrest, hgap, hchar⟩ := exists_gap_of_next_error h
      exact ⟨[], gap, e.char :: more, rfl, hrest, trivial, .stuck more hgap hchar⟩
  | case2 s t s' h ht =>
      obtain ⟨gap, hrest, hgap, hcut, -⟩ := exists_cut_next hbroken h
      have hend : s'.rest = [] := by
        have hskip := (rest_of_endOfText hkw h ht).1
        rw [next_eq_front, front, hskip] at h
        cases h
        exact hskip
      rw [hend] at hrest hcut
      refine ⟨[⟨gap, t⟩], [], [], rfl, ?_, ⟨hgap, hcut, trivial⟩, .whole⟩
      rw [hrest]
      simp [written, Piece.chars]
  | case3 s t s' h ht ts last hd ih =>
      have hkeywords : s'.keywords = s.keywords := by rw [← keywords_next s, h]
      obtain ⟨gap, hrest, hgap, hcut, hbroken'⟩ := exists_cut_next hbroken h
      obtain ⟨pieces, gap', rest, htokens, hrest', hcuts, hstops⟩ := ih (hkeywords ▸ hkw) hbroken'
      rw [hd] at htokens hstops
      rw [hkeywords] at hcuts
      rw [hrest'] at hrest hcut
      refine ⟨⟨gap, t⟩ :: pieces, gap', rest, ?_, ?_, ⟨hgap, hcut, hcuts⟩, hstops⟩
      · exact congrArg (t :: ·) htokens
      · rw [hrest]
        simp [written, Piece.chars]

theorem split_of_forall {p : Char → Bool} {l rest : List Char} (hl : ∀ c ∈ l, p c = true)
    (hrest : ∀ c ∈ rest.head?, p c = false) :
    (l ++ rest).takeWhile p = l ∧ (l ++ rest).dropWhile p = rest ∧
      (l ++ rest).find? (fun c => !p c) = rest.head? := by
  have hnone : l.find? (fun c => !p c) = none := by
    rw [List.find?_eq_none]
    intro c hc
    simp [hl c hc]
  rw [List.takeWhile_append_of_pos hl, List.dropWhile_append_of_pos hl, List.find?_append, hnone]
  cases rest with
  | nil => simp
  | cons c rest =>
      have hc := hrest c rfl
      simp [hc]

/-- Characters of a class can be told from what is behind them, if that starts with another one. -/
theorem append_inj_of_forall {p : Char → Bool} {l l' rest rest' : List Char}
    (hl : ∀ c ∈ l, p c = true) (hl' : ∀ c ∈ l', p c = true)
    (hrest : ∀ c ∈ rest.head?, p c = false) (hrest' : ∀ c ∈ rest'.head?, p c = false)
    (h : l ++ rest = l' ++ rest') : l = l' ∧ rest = rest' := by
  obtain ⟨htake, hdrop, -⟩ := split_of_forall hl hrest
  obtain ⟨htake', hdrop', -⟩ := split_of_forall hl' hrest'
  rw [h] at htake hdrop
  exact ⟨htake.symm.trans htake', hdrop.symm.trans hdrop'⟩

/-- A run that cannot be made longer is what is taken next. -/
theorem Run.Longest.next_eq {run : Run} {cs rest : List Char} (h : run.Longest [] cs rest)
    (pos : Position) (kw : Keywords) :
    next ⟨cs ++ rest, pos, kw⟩ =
      (.ok ⟨run.kind kw (String.ofList cs), String.ofList cs, pos⟩,
        ⟨rest, pos.advance cs.length, kw⟩) := by
  obtain ⟨c, tail, hcs⟩ := List.exists_cons_of_ne_nil h.ne_nil
  have hc : run.has c = true := h.has c (hcs ▸ List.mem_cons_self)
  have hline : c ≠ '\n' := by
    rintro rfl
    cases hc.symm.trans run.has_newline
  have hgap : isGap c = false := by
    cases hgap : isGap c with
    | false => rfl
    | true => cases hc.symm.trans (run.has_eq_false_of_isGap hgap)
  have hskip : skipGap ⟨cs ++ rest, pos, kw⟩ = ⟨cs ++ rest, pos, kw⟩ := by
    simp [skipGap, hcs, hgap, Position.advance]
  have hcut : cutRun ⟨cs ++ rest, pos, kw⟩ run.has (run.kind kw) =
      (⟨run.kind kw (String.ofList cs), String.ofList cs, pos⟩,
        ⟨rest, pos.advance cs.length, kw⟩) := by
    obtain ⟨htake, hdrop, -⟩ := split_of_forall h.has h.after
    rw [cutRun, htake, hdrop]
  rw [next_eq_front, hskip, front, hcs, List.cons_append]
  dsimp only
  rw [if_neg hline, ← List.cons_append, ← hcs]
  cases run with
  | word =>
      rw [if_pos (show Text.isLetter c = true from hc)]
      exact congrArg (fun p : Token × Scanner => (Except.ok p.1, p.2)) hcut
  | number =>
      have hletter : Text.isLetter c = false := Text.isLetter_of_isDigit hc
      rw [hletter, if_neg Bool.false_ne_true, if_pos (show Text.Decimal.isDigit c = true from hc)]
      exact congrArg (fun p : Token × Scanner => (Except.ok p.1, p.2)) hcut

end Scanner

open Scanner in
/-- The tokens of a text, with the gaps before them, are the text up to the first character that
belongs in no text; that is all of the text, or else scanning it fails at that character. -/
theorem Tokens.partition_ofBytes {kw : Keywords} (hkw : ∀ word, kw.get? word ≠ some .endOfText)
    (bs : List UInt8) :
    let text := Text.Utf8.decode bs
    let ts := ofBytes bs kw
    ts.error?.map ScanError.char = text.find? (fun c => !isUsable c) ∧
      ∃ pieces gap, pieces.map Piece.token = ts.list ∧
        written pieces ++ gap = text.takeWhile isUsable ∧ (∀ c ∈ gap, isGap c = true) ∧
        Cuts kw [] pieces (gap ++ text.dropWhile isUsable) ∧
        (Text.Utf8.isValid bs = true → Text.Utf8.encode (written pieces ++ gap) <+: bs) ∧
        (ts.error? = none →
          written pieces = text ∧
          (Text.Utf8.isValid bs = true → Text.Utf8.encode (written pieces) = bs) ∧
          ∃ l t, ts.list = l ++ [t] ∧ t.kind = .endOfText ∧ ∀ u ∈ l, u.kind ≠ .endOfText) := by
  intro text ts
  have hstart : Broken [] text := by
    intro run c hc
    cases hc
  obtain ⟨pieces, gap, rest, htokens, htext, hcuts, hstops⟩ :=
    exists_cuts_drain (.ofBytes bs kw) hkw hstart
  obtain ⟨hhead, hfirst⟩ := hstops.head?
  have husable : ∀ c ∈ written pieces ++ gap, isUsable c = true := by
    intro c hc
    rcases List.mem_append.mp hc with hc | hc
    · exact hcuts.isUsable c hc
    · exact isUsable_of_isGap (hstops.isGap c hc)
  have htext : text = (written pieces ++ gap) ++ rest := by
    rw [List.append_assoc]
    exact htext
  obtain ⟨htake, hdrop, hfind⟩ := split_of_forall husable hfirst
  rw [← htext] at htake hdrop hfind
  have hencode : Text.Utf8.isValid bs = true → Text.Utf8.encode text = bs :=
    Text.Utf8.encode_decode
  refine ⟨hhead.symm.trans hfind.symm, pieces, gap, htokens, htake.symm, hstops.isGap, ?_, ?_, ?_⟩
  · rw [hdrop]
    exact hcuts
  · intro hvalid
    refine ⟨Text.Utf8.encode rest, ?_⟩
    calc Text.Utf8.encode (written pieces ++ gap) ++ Text.Utf8.encode rest
        = Text.Utf8.encode ((written pieces ++ gap) ++ rest) := List.flatMap_append.symm
      _ = bs := by rw [← htext, hencode hvalid]
  · intro hnone
    have hwhole : written pieces = text := by
      rw [show (Scanner.ofBytes bs kw).drain.1.error? = none from hnone] at hstops
      cases hstops
      rw [htext, List.append_nil, List.append_nil]
    refine ⟨hwhole, ?_, (finished_ofBytes bs kw).exists_last hnone⟩
    rw [hwhole]
    exact hencode

open Scanner in
theorem Tokens.partition_ofBytes_line :
    let bs := "été1 =\t10 \n".toUTF8.toList
    let ts := ofBytes bs .standard
    ts.error? = none ∧ Text.Utf8.isValid bs = true ∧
      ∃ pieces, pieces.map Piece.token = ts.list ∧ Text.Utf8.encode (written pieces) = bs ∧
        Cuts .standard [] pieces [] := by
  intro bs ts
  have hnone : ts.error? = none := by decide +kernel
  have hvalid : Text.Utf8.isValid bs = true := by decide +kernel
  obtain ⟨-, pieces, gap, htokens, hwritten, -, hcuts, -, hwhole⟩ :=
    partition_ofBytes Keywords.usable_standard.ne_endOfText bs
  obtain ⟨htext, hencode, -⟩ := hwhole hnone
  refine ⟨hnone, hvalid, pieces, htokens, hencode hvalid, ?_⟩
  have husable : (Text.Utf8.decode bs).takeWhile isUsable = Text.Utf8.decode bs := by
    decide +kernel
  have hdrop : (Text.Utf8.decode bs).dropWhile isUsable = [] := by decide +kernel
  rw [husable, htext] at hwritten
  have hgap : gap = [] := List.append_right_eq_self.mp hwritten
  rw [hdrop, hgap] at hcuts
  exact hcuts

end IntScript
