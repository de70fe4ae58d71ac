import IntScript.Bindings.Lemmas
import IntScript.Proofs.Token.Partition
import IntScript.Settings.Validate

/-!
# Words that can be reserved

Settings are checked without a scanner.  A word passes if it is a run of letters
(`Settings.isWord`), and then it is up to the scanner to find the word in a text.

Main statement: the check is exact (`Settings.words_scan`).  What does not pass is never looked up,
so a table may as well not have it; what passes is read as what it is reserved for.  In settings
that are valid no word is lost on the way to the scanner.

The scanner looks up what it cuts out, and it cuts out runs of letters.  So tables that agree on
runs of letters read every text alike (`Tokens.ofBytes_congr`).
-/

namespace IntScript

/-! ## Letters in bytes -/

namespace Text

theorem isLetter_replacement : isLetter Utf8.replacement = false := by decide +kernel

theorem Utf8.isValid_of_isLetter {bs : List UInt8} (h : ∀ c ∈ decode bs, isLetter c = true) :
    isValid bs = true := by
  fun_induction decode bs with
  | case1 => exact isValid_nil
  | case2 b bs c rest hnext ih =>
      rw [isValid_of_next? hnext]
      exact ih fun d hd => h d (List.mem_cons_of_mem c hd)
  | case3 b bs hnext ih =>
      cases isLetter_replacement.symm.trans (h replacement List.mem_cons_self)

end Text

namespace Settings

theorem isWord_iff {word : String} :
    isWord word = true ↔ word.toList ≠ [] ∧ ∀ c ∈ word.toList, Text.isLetter c = true := by
  simp [isWord]

/-- A word given by its bytes passes if the bytes are those of a word that passes. -/
theorem isWord_text_iff (key : List UInt8) :
    isWord (Text.Utf8.text key) = true ↔
      ∃ word, isWord word = true ∧ Text.Utf8.bytes word = key := by
  constructor
  · intro h
    refine ⟨_, h, ?_⟩
    obtain ⟨-, hletters⟩ := isWord_iff.mp h
    rw [Text.Utf8.text, String.toList_ofList] at hletters
    rw [Text.Utf8.bytes, Text.Utf8.text, String.toList_ofList]
    exact Text.Utf8.encode_decode (Text.Utf8.isValid_of_isLetter hletters)
  · rintro ⟨word, h, rfl⟩
    rw [Text.Utf8.text, Text.Utf8.bytes, Text.Utf8.decode_encode, String.ofList_toList]
    exact h

end Settings

/-! ## Tables that agree on words -/

namespace Scanner

/-- The same text with another table of reserved words. -/
def reserving (kw : Keywords) (s : Scanner) : Scanner := { s with keywords := kw }

theorem front_reserving {s : Scanner} {kw : Keywords}
    (h : ∀ word, Settings.isWord word = true → kw.classify word = s.keywords.classify word) :
    (s.reserving kw).front = (s.front.1, s.front.2.reserving kw) := by
  unfold front
  rw [show (s.reserving kw).rest = s.rest from rfl]
  cases hrest : s.rest with
  | nil => rfl
  | cons c cs =>
      dsimp only
      split
      · rfl
      · split
        · next hc =>
            -- the only place where the table is asked
            have hword :
                Settings.isWord (String.ofList (s.rest.takeWhile Text.isLetter)) = true := by
              rw [Settings.isWord_iff, String.toList_ofList, hrest, List.takeWhile_cons_of_pos hc]
              refine ⟨List.cons_ne_nil _ _, ?_⟩
              intro d hd
              rw [← List.takeWhile_cons_of_pos hc] at hd
              exact List.mem_takeWhile_imp hd
            have hkind := h _ hword
            simp only [cutRun, reserving, hkind]
        · split
          · rfl
          · split
            · rfl
            · rfl

theorem drain_reserving {s : Scanner} {kw : Keywords}
    (h : ∀ word, Settings.isWord word = true → kw.classify word = s.keywords.classify word) :
    (s.reserving kw).drain.1 = s.drain.1 := by
  have hnext {s : Scanner} (hs : ∀ word, Settings.isWord word = true →
      kw.classify word = s.keywords.classify word) :
      (s.reserving kw).next = (s.next.1, s.next.2.reserving kw) :=
    front_reserving (s := s.skipGap) hs
  fun_induction drain s with
  | case1 s e s' hs =>
      have hstep := hnext h
      rw [hs] at hstep
      exact drain_of_error hstep
  | case2 s t s' hs ht =>
      have hstep := hnext h
      rw [hs] at hstep
      exact drain_of_endOfText hstep ht
  | case3 s t s' hs ht ts last hd ih =>
      have hstep := hnext h
      rw [hs] at hstep
      have hkeywords : s'.keywords = s.keywords := by rw [← keywords_next s, hs]
      rw [drain_of_token hstep ht, ih (hkeywords ▸ h), hd]
      rfl

end Scanner

/-- Tables that agree on runs of letters read every text alike. -/
theorem Tokens.ofBytes_congr {kw kw' : Keywords}
    (h : ∀ word, Settings.isWord word = true → kw.classify word = kw'.classify word)
    (bs : List UInt8) : Tokens.ofBytes bs kw = Tokens.ofBytes bs kw' :=
  Scanner.drain_reserving (s := .ofBytes bs kw') h

/-! ## Words that stand alone -/

/-- The tokens of a text that is one word. -/
def Tokens.alone (k : Kind) (word : String) : Tokens :=
  ⟨[⟨k, word, .start⟩, ⟨.endOfText, "", Position.start.advance word.length⟩], none⟩

namespace Scanner

theorem next_word {word : String} (h : Settings.isWord word = true) (pos : Position)
    (kw : Keywords) :
    next ⟨word.toList, pos, kw⟩ =
      (.ok ⟨kw.classify word, word, pos⟩, ⟨[], pos.advance word.length, kw⟩) := by
  obtain ⟨hne, hletters⟩ := Settings.isWord_iff.mp h
  have hlongest : Run.word.Longest [] word.toList [] := by
    refine ⟨hne, hletters, ?_, ?_⟩
    · intro c hc
      cases hc
    · intro c hc
      cases hc
  have hnext := hlongest.next_eq pos kw
  rwa [List.append_nil, String.ofList_toList, String.length_toList] at hnext

end Scanner

theorem Tokens.ofBytes_word {word : String} (h : Settings.isWord word = true) {kw : Keywords}
    {k : Kind} (hk : kw.get? word = some k) (hend : k ≠ .endOfText) :
    Tokens.ofBytes (Text.Utf8.bytes word) kw = .alone k word := by
  have hkind : kw.classify word = k := by rw [Keywords.classify, hk, Option.getD_some]
  have hstart : Scanner.ofBytes (Text.Utf8.bytes word) kw = ⟨word.toList, .start, kw⟩ := by
    rw [Scanner.ofBytes, Text.Utf8.bytes, Text.Utf8.decode_encode]
    rfl
  have hnext := Scanner.next_word h .start kw
  rw [hkind] at hnext
  rw [Tokens.ofBytes, hstart, Scanner.drain_of_token hnext hend,
    Scanner.drain_of_endOfText (t := ⟨.endOfText, "", _⟩) rfl rfl]
  simp only [alone, Position.advance]
  rfl

/-! ## Words that are read as reserved -/

namespace Scanner

theorem Takes.isWord {s s' : Scanner} {t : Token} (h : Takes s (.ok t, s'))
    (hk : t.kind ∈ [.funcWord, .printWord, .returnWord, .whileWord]) :
    Settings.isWord t.literal = true ∧ s.keywords.get? t.literal = some t.kind := by
  cases h with
  | ending _ => simp at hk
  | sign _ hsign _ =>
      refine absurd ?_ (Kind.not_mem_of_ofSign? hsign)
      exact List.mem_cons_of_mem _ (List.mem_cons_of_mem _ (List.mem_cons_of_mem _ hk))
  | @run run cs rest _ hrun =>
      cases run with
      | number => simp [Run.kind] at hk
      | word =>
          refine ⟨?_, ?_⟩
          · rw [Settings.isWord_iff, String.toList_ofList]
            exact ⟨hrun.ne_nil, hrun.has⟩
          · dsimp only [Run.kind, Keywords.classify] at hk ⊢
            cases hget : s.keywords.get? (String.ofList cs) with
            | none => simp [hget] at hk
            | some k => rfl

theorem isWord_of_mem_drain {s : Scanner} {t : Token} (h : t ∈ s.drain.1.list)
    (hk : t.kind ∈ [.funcWord, .printWord, .returnWord, .whileWord]) :
    Settings.isWord t.literal = true ∧ s.keywords.get? t.literal = some t.kind := by
  have hnext {s s' : Scanner} (hs : s.next = (.ok t, s')) :
      Settings.isWord t.literal = true ∧ s.keywords.get? t.literal = some t.kind := by
    have htakes := takes_next s
    rw [hs] at htakes
    exact htakes.isWord hk
  fun_induction drain s with
  | case1 s e s' hs => cases h
  | case2 s u s' hs hu =>
      cases List.mem_singleton.mp h
      exact hnext hs
  | case3 s u s' hs hu ts last hd ih =>
      have hkeywords : s'.keywords = s.keywords := by rw [← keywords_next s, hs]
      rw [hd, hkeywords] at ih
      rcases List.mem_cons.mp h with rfl | h
      · exact hnext hs
      · exact ih h

end Scanner

/-! ## Settings -/

namespace Settings

theorem reserved_of_faults {s : Settings} (h : s.faults = []) :
    s.reserved.names = s.keywords.names ∧
      ∀ word use, s.keywords.get? word = some use →
        isWord word = true ∧
          ∃ k, Keywords.uses.get? use = some k ∧ s.reserved.get? word = some k := by
  have hwords : ∀ word use, s.keywords.get? word = some use →
      isWord word = true ∧ (Keywords.uses.get? use).isSome = true := by
    intro word use hword
    have hfaults : wordFaults (word, use) = [] := by
      have hall : s.keywords.entries.flatMap wordFaults = [] := by
        simp only [faults, List.append_eq_nil_iff] at h
        exact h.1.1.1.1
      exact List.flatMap_eq_nil_iff.mp hall _ (s.keywords.get?_eq_some_iff.mp hword)
    simp only [wordFaults, List.append_eq_nil_iff, ite_eq_left_iff, imp_false,
      Bool.not_eq_true, List.cons_ne_nil, Bool.not_eq_false] at hfaults
    exact hfaults
  have hget (word : String) :
      s.reserved.get? word = (s.keywords.get? word).bind Keywords.uses.get? :=
    s.keywords.get?_filterMap Keywords.uses.get? word
  refine ⟨Bindings.names_eq_of_isSome ?_, ?_⟩
  · intro word
    rw [hget]
    cases hword : s.keywords.get? word with
    | none => rfl
    | some use => exact (hwords word use hword).2
  · intro word use hword
    obtain ⟨hletters, huse⟩ := hwords word use hword
    obtain ⟨k, hk⟩ := Option.isSome_iff_exists.mp huse
    refine ⟨hletters, k, hk, ?_⟩
    rw [hget, hword, Option.bind_some, hk]

/-- The words that settings may reserve are those that a text can have: a word that does not pass
the check has no effect on any text, one that passes is read as what it is reserved for, and
settings without faults reserve all their words.

The words of a table are made of characters.  For keys that are any bytes, UTF-8 or not, the third
part stands: such a key, read with the replacement character for every byte that belongs to no
encoding, passes just if it is the encoding of a word that passes. -/
theorem words_scan (kw : Keywords) :
    (∀ bs, Tokens.ofBytes bs (kw.restrict isWord) = Tokens.ofBytes bs kw) ∧
    (∀ word k, isWord word = true → kw.get? word = some k → k ≠ .endOfText →
      Tokens.ofBytes (Text.Utf8.bytes word) kw = .alone k word) ∧
    (∀ key, isWord (Text.Utf8.text key) = true ↔
      ∃ word, isWord word = true ∧ Text.Utf8.bytes word = key) ∧
    (∀ word, ∀ k ∈ [Kind.funcWord, .printWord, .returnWord, .whileWord], isWord word = true ↔
      ∃ (other : Keywords) (bs : List UInt8), ∃ t ∈ (Tokens.ofBytes bs other).list,
        t.literal = word ∧ t.kind = k) ∧
    ∀ s : Settings, s.faults = [] →
      s.reserved.names = s.keywords.names ∧
        ∀ word use, s.keywords.get? word = some use →
          ∃ k, Keywords.uses.get? use = some k ∧ s.reserved.get? word = some k ∧
            Tokens.ofBytes (Text.Utf8.bytes word) s.reserved = .alone k word := by
  refine ⟨?_, ?_, isWord_text_iff, ?_, ?_⟩
  · intro bs
    refine Tokens.ofBytes_congr ?_ bs
    intro word hword
    rw [Keywords.classify, Keywords.classify, Bindings.get?_restrict, if_pos hword]
  · intro word k hword hk hend
    exact Tokens.ofBytes_word hword hk hend
  · intro word k hk
    constructor
    · intro hword
      have hget : ((∅ : Keywords).set word k).get? word = some k := by
        rw [Bindings.get?_set, if_pos rfl]
      have hend : k ≠ .endOfText := by
        rintro rfl
        simp at hk
      have halone := Tokens.ofBytes_word hword hget hend
      exact ⟨_, _, ⟨k, word, .start⟩, by rw [halone]; exact List.mem_cons_self, rfl, rfl⟩
    · rintro ⟨other, bs, t, ht, rfl, rfl⟩
      exact (Scanner.isWord_of_mem_drain ht hk).1
  · intro s hs
    obtain ⟨hnames, hwords⟩ := reserved_of_faults hs
    refine ⟨hnames, ?_⟩
    intro word use hword
    obtain ⟨hletters, k, huse, hk⟩ := hwords word use hword
    have hend : k ≠ .endOfText := by
      rintro rfl
      exact Keywords.usable_standard.ne_endOfText use huse
    exact ⟨k, huse, hk, Tokens.ofBytes_word hletters hk hend⟩

/-- A word with a digit in it may even be reserved for the end of a text: no text ends there. -/
theorem words_scan_montre :
    let kw : Keywords := ⟨[("1a", .endOfText), ("montré", .printWord)], by decide⟩
    let s : Settings := { Settings.default with keywords := ⟨[("montré", "print")], by decide⟩ }
    let bs := "montré 1a".toUTF8.toList
    isWord "1a" = false ∧ Tokens.ofBytes bs (kw.restrict isWord) = Tokens.ofBytes bs kw ∧
      isWord "montré" = true ∧ kw.get? "montré" = some .printWord ∧
      Tokens.ofBytes (Text.Utf8.bytes "montré") kw = .alone .printWord "montré" ∧
      s.faults = [] ∧ s.reserved.names = ["montré"] ∧
      ∃ k, s.reserved.get? "montré" = some k ∧
        Tokens.ofBytes (Text.Utf8.bytes "montré") s.reserved = .alone k "montré" := by
  intro kw s bs
  obtain ⟨hrestrict, halone, -, -, hvalid⟩ := words_scan kw
  have hword : isWord "montré" = true := by decide +kernel
  have hget : kw.get? "montré" = some .printWord := by decide
  have hfaults : s.faults = [] := by decide +kernel
  obtain ⟨hnames, hwords⟩ := hvalid s hfaults
  obtain ⟨k, -, hk, hscan⟩ := hwords "montré" "print" (by decide)
  exact ⟨by decide +kernel, hrestrict bs, hword, hget, halone _ _ hword hget (by decide), hfaults,
    hnames, k, hk, hscan⟩

end Settings

end IntScript
