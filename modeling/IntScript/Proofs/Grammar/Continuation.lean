import IntScript.Proofs.Grammar.Lines
import IntScript.Proofs.Token.Spelling

/-!
# Texts that can go on

An error is incomplete if it is met at the end of the text.  Main statement: these are just the
errors that more text can repair, if it starts with a space or a line end, and all other errors stay
what they are whatever follows (`isIncomplete_iff_exists_continuation`).

Other errors stay since the parser looks at no token behind the one that it refuses, and the scanner
at no character behind the one that stops it (`parse_followed`).  An incomplete error has the
beginning of a program in front of it.  The kinds that are missing can be written
(`Kind.spelled`), and kinds are all that matters for being a program.
-/

namespace IntScript

namespace Grammar

/-- A refused token stands behind the beginning of a program, and what follows it does not count. -/
theorem exists_refused {ts : Tokens} (hts : ts.Closed) {m : Misfit}
    (h : ts.parse = .error (.misfit m)) :
    ∃ l, l ++ [m.found] <+: ts.list ∧ Viable (l.map (·.kind)) ∧ Refuses Reader.program l m := by
  cases reads_program.outcome hts with
  | found d ts' hd he hok =>
      rw [Tokens.parse, hok] at h
      cases h
  | cut e d he hpre herr =>
      rw [Tokens.parse, herr] at h
      cases h
  | refused m' l d hm hpre hall =>
      rw [Tokens.parse, hall ts hts hm] at h
      cases h
      exact ⟨l, hm, viable_of_isPrefix hpre, hall⟩

theorem Viable.exists_rest {ks : List Kind} (h : Viable ks) (hks : .endOfText ∉ ks) :
    ∃ js, (∀ j ∈ js, j ∈ Kind.known ∧ j ≠ .endOfText) ∧ Derives (ks ++ js ++ [.endOfText]) := by
  obtain ⟨p, rest, hrest⟩ := h
  have hkinds := p.kinds_eq
  rcases List.eq_nil_or_concat rest with rfl | ⟨js, j, rfl⟩
  · rw [List.append_nil] at hrest
    exact absurd (hrest ▸ hkinds ▸ List.mem_append_right _ (List.mem_singleton_self _)) hks
  · rw [List.concat_eq_append, ← List.append_assoc, hkinds] at hrest
    obtain ⟨hitems, hend⟩ := List.append_inj' hrest rfl
    refine ⟨js, fun k hk => ?_, p, ?_⟩
    · obtain ⟨t, ht, rfl⟩ := List.mem_map.mp (hitems ▸ List.mem_append_right _ hk)
      refine ⟨p.known_tokens t (List.mem_append_left _ ht), ?_⟩
      have hendless := Item.definite_sequence.endless (p.items, ()) t
      rw [show Item.sequence.tokens (p.items, ()) = p.items.flatMap Item.tokens from
        List.append_inj_left' p.tokens_eq.symm rfl] at hendless
      exact hendless ht
    · rw [hkinds, hitems]

end Grammar

open Grammar

/-- An error that is not incomplete stays what it is, whatever follows. -/
theorem parse_followed {kw : Keywords} (hkw : ∀ word, kw.get? word ≠ some .endOfText)
    {bs : List UInt8} {e : ParseError} (h : parse bs kw = .error e) (he : e.isIncomplete = false)
    {b : UInt8} (hb : b.toNat < 0x80) (more : List UInt8)
    (hmore : Scanner.Apart (Text.Utf8.decode (b :: more))) :
    parse (bs ++ b :: more) kw = .error e := by
  rw [parse_eq_parse] at h ⊢
  rcases Tokens.ofBytes_followed hkw bs hb more hmore with ⟨-, hsame⟩ | ⟨l, t, hl, -, hdrain⟩
  · rw [hsame, h]
  · have hfinished := Tokens.finished_ofBytes bs kw
    rw [hl] at h hfinished
    cases e with
    | scan e =>
        -- the scanner was not stopped
        cases verdict hfinished with
        | program p hp he' hparse =>
            rw [hparse] at h
            cases h
        | cut e' he' hviable hparse => cases he'
        | misfit m i hm hi hparse =>
            rw [hparse] at h
            cases h
    | misfit m =>
        obtain ⟨k, hk, -, hrefuses⟩ := exists_refused hfinished.closed h
        obtain ⟨l', t', hl', ht', -⟩ := hfinished.exists_last rfl
        have hfound : m.found.kind ≠ .endOfText := by simpa [ParseError.isIncomplete,
          Misfit.isIncomplete] using he
        have hprefix : k ++ [m.found] <+: l := by
          rcases List.prefix_concat_iff.mp hk with heq | hprefix
          · obtain ⟨-, heq⟩ := List.append_inj' heq rfl
            obtain ⟨-, heq'⟩ := List.append_inj' hl' rfl
            rw [List.singleton_inj.mp heq, List.singleton_inj.mp heq'] at hfound
            exact absurd ht' hfound
          · exact hprefix
        have hclosed := (Tokens.finished_ofBytes (bs ++ b :: more) kw).closed
        have hfront : k ++ [m.found] <+: (Tokens.ofBytes (bs ++ b :: more) kw).list := by
          rw [hdrain]
          exact hprefix.trans (List.prefix_append _ _)
        rw [Tokens.parse, hrefuses _ hclosed hfront]
        rfl

theorem viable_of_isIncomplete {kw : Keywords} {bs : List UInt8} {e : ParseError}
    (h : parse bs kw = .error e) (he : e.isIncomplete = true) :
    ∃ l t, Tokens.ofBytes bs kw = ⟨l ++ [t], none⟩ ∧ t.kind = .endOfText ∧
      .endOfText ∉ l.map (·.kind) ∧ Viable (l.map (·.kind)) := by
  rw [parse_eq_parse] at h
  cases e with
  | scan e => cases he
  | misfit m =>
      have hfound : m.found.kind = .endOfText := of_decide_eq_true he
      have hfinished := Tokens.finished_ofBytes bs kw
      obtain ⟨l, ⟨rest, hl⟩, hviable, -⟩ := exists_refused hfinished.closed h
      rw [List.append_assoc, List.singleton_append] at hl
      obtain ⟨rfl, herror⟩ := hfinished.of_endOfText hl.symm hfound
      refine ⟨l, m.found, ?_, hfound, ?_, hviable⟩
      · rw [hl, ← herror]
      · obtain ⟨l', t', hl', -, hno⟩ := hfinished.exists_last herror
        obtain ⟨rfl, -⟩ := List.append_inj' (hl.trans hl') rfl
        rintro hmem
        obtain ⟨t, ht, hkind⟩ := List.mem_map.mp hmem
        exact hno t ht hkind

theorem exists_parse_of_isIncomplete {bs : List UInt8} {e : ParseError}
    (h : parse bs .standard = .error e) (he : e.isIncomplete = true) :
    ∃ more n, parse (bs ++ ' '.toUInt8 :: more) .standard = .ok n := by
  obtain ⟨l, t, hl, -, hno, hviable⟩ := viable_of_isIncomplete h he
  obtain ⟨js, hjs, hderives⟩ := hviable.exists_rest hno
  obtain ⟨cs, hcs⟩ := Kind.exists_spelled js
  have hdecode : Text.Utf8.decode (' '.toUInt8 :: Text.Utf8.encode cs) = Kind.spelled js := by
    rw [hcs]
    exact Text.Utf8.decode_encode (' ' :: cs)
  have hapart : Scanner.Apart (Text.Utf8.decode (' '.toUInt8 :: Text.Utf8.encode cs)) := by
    rw [hdecode, hcs]
    exact Scanner.apart_space cs
  refine ⟨Text.Utf8.encode cs, ?_⟩
  rcases Tokens.ofBytes_followed Keywords.usable_standard.ne_endOfText bs (by decide) _ hapart with
    ⟨hne, -⟩ | ⟨l', t', hl', -, hdrain⟩
  · rw [hl] at hne
    exact absurd rfl hne
  · obtain ⟨rfl, -⟩ := List.append_inj' (congrArg Tokens.list (hl.symm.trans hl')) rfl
    obtain ⟨hkinds, herror⟩ := Scanner.drain_spelled js hjs t'.pos
    rw [hdecode] at hdrain
    rw [parse_eq_parse]
    refine exists_parse_of_derives ?_ ?_
    · rw [hdrain]
      exact herror
    · have hall : (Tokens.ofBytes (bs ++ ' '.toUInt8 :: Text.Utf8.encode cs) .standard).kinds =
          l.map (·.kind) ++ js ++ [.endOfText] := by
        rw [hdrain, Tokens.kinds, Tokens.list_prepend, List.map_append, List.append_assoc, ← hkinds]
        rfl
      rw [hall]
      exact hderives

/-- An error is incomplete just if more text can repair it, and if not it is final. -/
theorem isIncomplete_iff_exists_continuation {bs : List UInt8} {e : ParseError}
    (h : parse bs .standard = .error e) :
    (e.isIncomplete = true ↔ ∃ b more n, (b = ' '.toUInt8 ∨ b = '\n'.toUInt8) ∧
        parse (bs ++ b :: more) .standard = .ok n) ∧
      (e.isIncomplete = false → ∀ b more, b = ' '.toUInt8 ∨ b = '\n'.toUInt8 →
        parse (bs ++ b :: more) .standard = .error e) := by
  have hfinal : e.isIncomplete = false → ∀ b more, b = ' '.toUInt8 ∨ b = '\n'.toUInt8 →
      parse (bs ++ b :: more) .standard = .error e := by
    intro he b more hb
    have hkw := Keywords.usable_standard.ne_endOfText
    rcases hb with rfl | rfl
    · refine parse_followed hkw h he (by decide) more ?_
      rw [Text.Utf8.decode_ascii (by decide)]
      exact Scanner.apart_space _
    · refine parse_followed hkw h he (by decide) more ?_
      rw [Text.Utf8.decode_ascii (by decide)]
      exact Scanner.apart_newline _
  refine ⟨⟨fun he => ?_, ?_⟩, hfinal⟩
  · obtain ⟨more, n, hn⟩ := exists_parse_of_isIncomplete h he
    exact ⟨_, more, n, .inl rfl, hn⟩
  · rintro ⟨b, more, n, hb, hn⟩
    by_contra he
    have herror := hfinal (Bool.eq_false_iff.mpr he) b more hb
    cases hn.symm.trans herror

theorem isIncomplete_iff_exists_continuation_sum :
    parse "print 1 +".toUTF8.toList .standard =
        .error (.misfit ⟨.operand, ⟨.endOfText, "", ⟨1, 10⟩⟩⟩) ∧
      parse "print 1 + )".toUTF8.toList .standard =
        .error (.misfit ⟨.operand, ⟨.closeParen, ")", ⟨1, 11⟩⟩⟩) ∧
      (∃ b more n, (b = ' '.toUInt8 ∨ b = '\n'.toUInt8) ∧
        parse ("print 1 +".toUTF8.toList ++ b :: more) .standard = .ok n) ∧
      ∀ b more, b = ' '.toUInt8 ∨ b = '\n'.toUInt8 →
        parse ("print 1 + )".toUTF8.toList ++ b :: more) .standard =
          .error (.misfit ⟨.operand, ⟨.closeParen, ")", ⟨1, 11⟩⟩⟩) := by
  have hopen : parse "print 1 +".toUTF8.toList .standard =
      .error (.misfit ⟨.operand, ⟨.endOfText, "", ⟨1, 10⟩⟩⟩) := by with_unfolding_all rfl
  have hfinal : parse "print 1 + )".toUTF8.toList .standard =
      .error (.misfit ⟨.operand, ⟨.closeParen, ")", ⟨1, 11⟩⟩⟩) := by with_unfolding_all rfl
  exact ⟨hopen, hfinal, (isIncomplete_iff_exists_continuation hopen).1.mp rfl,
    (isIncomplete_iff_exists_continuation hfinal).2 rfl⟩

end IntScript
