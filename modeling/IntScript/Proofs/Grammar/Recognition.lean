import IntScript.Proofs.Grammar.Program
import IntScript.Proofs.Parse.Sources
import IntScript.Proofs.Tree.WellFormed

/-!
# The parser recognizes the grammar

What the parser makes of a text, in terms of derivations and nothing else.  A finished list of
tokens meets one of three ends (`Verdict`):

* it is what a program derives, and the result is the tree of that program;
* it stops at a character that starts no token, after kinds that a program can start with;
* it has a first token that no program has there, and the error names that token.

The verdict is read off the contract of `Reader.program`, with one thing added.  The contract says
that a refused token is refused whatever stands behind it.  So no program can go on with it: the
tokens of such a program could be put behind the refused token, and since only kinds matter the
parser would have to accept them.
-/

namespace IntScript.Grammar

/-! ## Derivations of programs -/

namespace Program

theorem tokens_eq (p : Program) :
    p.tokens = Item.sequence.tokens (p.items, ()) ++ [p.ending.1] := by
  simp only [Program.tokens, Item.sequence, Phrase.rounds, Phrase.before, Item.tokens_phrase,
    List.append_nil]

theorem parse_tokens (p : Program) (l : List Token) (e? : Option ScanError) :
    Tokens.parse ⟨p.tokens ++ l, e?⟩ = .ok p.tree := by
  have hclosed : (⟨p.ending.1 :: l, e?⟩ : Tokens).Closed :=
    fun _ => ⟨p.ending.1, List.mem_cons_self .., p.ending.2⟩
  have hends : Item.sequence.Ends (p.items, ()) ⟨p.ending.1 :: l, e?⟩ :=
    Item.ends_sequence p.items ⟨_, _, rfl, p.ending.2⟩
  have hread := reads_program.complete (p.items, ()) hclosed hends
  rw [Tokens.parse, tokens_eq, List.append_assoc]
  exact congrArg (Except.map (·.1)) hread

theorem eq_of_tokens_eq {p q : Program} (h : p.tokens = q.tokens) : p = q := by
  have hp : Item.sequence.Ends (p.items, ()) ⟨[p.ending.1], none⟩ :=
    Item.ends_sequence p.items ⟨_, _, rfl, p.ending.2⟩
  have hq : Item.sequence.Ends (q.items, ()) ⟨[q.ending.1], none⟩ :=
    Item.ends_sequence q.items ⟨_, _, rfl, q.ending.2⟩
  rw [tokens_eq, tokens_eq] at h
  obtain ⟨hitems, hend⟩ := Item.definite_sequence.unique _ _ hp hq
    (congrArg (fun l => (⟨l, none⟩ : Tokens)) h)
  obtain ⟨is, e⟩ := p
  obtain ⟨js, d⟩ := q
  simp only [Prod.mk.injEq, and_true, Tokens.mk.injEq, List.cons.injEq] at hitems hend
  rw [hitems, Subtype.ext hend]

end Program

/-! ## Viable kinds -/

theorem Viable.take {ks : List Kind} (h : Viable ks) (i : Nat) : Viable (ks.take i) := by
  obtain ⟨p, hp⟩ := h
  exact ⟨p, (List.take_prefix i ks).trans hp⟩

theorem Viable.not_misfitAt {ks : List Kind} (h : Viable ks) (i : Nat) : ¬ MisfitAt ks i :=
  fun hi => hi.2.2 (h.take (i + 1))

theorem MisfitAt.unique {ks : List Kind} {i j : Nat} (hi : MisfitAt ks i) (hj : MisfitAt ks j) :
    i = j := by
  have hle : ∀ {i j}, MisfitAt ks i → MisfitAt ks j → i ≤ j := by
    intro i j hi hj
    by_contra hlt
    have hviable := hi.2.1.take (j + 1)
    rw [List.take_take, Nat.min_eq_left (by omega)] at hviable
    exact hj.2.2 hviable
  exact Nat.le_antisymm (hle hi hj) (hle hj hi)

/-- No program goes on with a token that is refused whatever stands behind it. -/
theorem not_viable_of_refuses {l : List Token} {m : Misfit} (h : Refuses Reader.program l m) :
    ¬ Viable ((l ++ [m.found]).map (·.kind)) := by
  rintro ⟨p, rest, hrest⟩
  -- the program's own tokens, as far as they stand behind the refused one
  have hsplit := List.map_eq_append_iff.mp hrest.symm
  obtain ⟨front, back, htokens, hfront, -⟩ := hsplit
  have hsame : Tokens.SameKinds ⟨p.tokens, none⟩ ⟨l ++ [m.found] ++ back, none⟩ := by
    refine ⟨?_, rfl⟩
    rw [Tokens.kinds, Tokens.kinds, htokens, List.map_append, List.map_append, hfront]
  have hclosed : (⟨l ++ [m.found] ++ back, none⟩ : Tokens).Closed := by
    intro _
    have hend : Kind.endOfText ∈ Tokens.kinds ⟨p.tokens, none⟩ := by
      rw [Tokens.kinds, Program.tokens, List.map_append, List.mem_append]
      exact .inr (List.mem_singleton.mpr p.ending.2.symm)
    rw [hsame.1] at hend
    obtain ⟨t, ht, hk⟩ := List.mem_map.mp hend
    exact ⟨t, ht, hk⟩
  have hparse := p.parse_tokens [] none
  rw [List.append_nil] at hparse
  obtain ⟨n, hn⟩ := Tokens.exists_parse_of_sameKinds hsame hparse
  rw [Tokens.parse, h _ hclosed (List.prefix_append _ _)] at hn
  cases hn

/-! ## Verdicts -/

/-- What the parser makes of a finished list of tokens. -/
inductive Verdict (ts : Tokens) : Prop
  | program (p : Program) : p.tokens = ts.list → ts.error? = none → ts.parse = .ok p.tree →
      Verdict ts
  | cut (e : ScanError) : ts.error? = some e → Viable ts.kinds → ts.parse = .error (.scan e) →
      Verdict ts
  | misfit (m : Misfit) (i : Nat) : ts.list[i]? = some m.found → MisfitAt ts.kinds i →
      ts.parse = .error (.misfit m) → Verdict ts

theorem viable_of_isPrefix {l : List Token} {d : List Item × Unit}
    (h : l <+: Item.sequence.tokens d) :
    Viable (l.map (·.kind)) := by
  refine ⟨⟨d.1, default⟩, ?_⟩
  rw [Program.kinds, Program.tokens_eq]
  exact (h.trans (List.prefix_append _ _)).map _

theorem verdict {ts : Tokens} (hts : ts.Finished) : Verdict ts := by
  cases reads_program.outcome hts.closed with
  | found d ts' hd he hok =>
      obtain ⟨t, l, hl, ht⟩ := Phrase.EndsAll.last he
      have hlist : ts.list = Item.sequence.tokens d ++ t :: l := by rw [hd, Tokens.list_prepend, hl]
      obtain ⟨rfl, herror⟩ := hts.of_endOfText hlist ht
      refine .program ⟨d.1, ⟨t, ht⟩⟩ ?_ herror ?_
      · rw [Program.tokens_eq, hlist]
      · rw [Tokens.parse, hok]
        rfl
  | cut e d he hpre herr =>
      refine .cut e he (viable_of_isPrefix hpre) ?_
      rw [Tokens.parse, herr]
      rfl
  | refused m l d hm hpre hall =>
      have hparse := hall ts hts.closed hm
      obtain ⟨k, hk⟩ := hm
      have htake : ∀ i, ts.kinds.take i = ((l ++ [m.found] ++ k).take i).map (·.kind) := fun i => by
        rw [Tokens.kinds, ← List.map_take, hk]
      refine .misfit m l.length ?_ ⟨?_, ?_, ?_⟩ ?_
      · simp [← hk]
      · simp [Tokens.kinds, ← hk]
      · rw [htake, List.append_assoc, List.take_left]
        exact viable_of_isPrefix hpre
      · rw [htake, List.take_left' (by simp)]
        exact not_viable_of_refuses hall
      · rw [Tokens.parse, hparse]
        rfl

theorem verdict_ofBytes (bs : List UInt8) (kw : Keywords) : Verdict (Tokens.ofBytes bs kw) :=
  verdict (Tokens.finished_ofBytes bs kw)

theorem exists_parse_of_derives {ts : Tokens} (he : ts.error? = none) (h : Derives ts.kinds) :
    ∃ n, ts.parse = .ok n := by
  obtain ⟨p, hp⟩ := h
  have hsame : Tokens.SameKinds ⟨p.tokens, none⟩ ts := ⟨hp, he.symm⟩
  have hparse := p.parse_tokens [] none
  rw [List.append_nil] at hparse
  exact Tokens.exists_parse_of_sameKinds hsame hparse

/-- Accepted tokens are those of one derivation, whose tree is the result. -/
theorem exists_program_of_parse {ts : Tokens} (hts : ts.Finished) {n : Tree}
    (h : ts.parse = .ok n) :
    ∃ p : Program, p.tokens = ts.list ∧ ts.error? = none ∧ n = p.tree := by
  cases verdict hts with
  | program p hp he hparse =>
      rw [hparse] at h
      cases h
      exact ⟨p, hp, he, rfl⟩
  | cut e he hviable hparse =>
      rw [hparse] at h
      cases h
  | misfit m i hm hi hparse =>
      rw [hparse] at h
      cases h

/-! ## Main statements -/

/-- A text whose characters all belong to tokens is accepted just if the kinds of its tokens are
those of a program.  Then only one derivation has these tokens, the result is its tree, and in that
tree operations group to the left. -/
theorem parse_iff_derives (bs : List UInt8) (kw : Keywords)
    (h : (Tokens.ofBytes bs kw).error? = none) :
    (∃ l t, (Tokens.ofBytes bs kw).list = l ++ [t] ∧ t.kind = .endOfText ∧
        ∀ u ∈ l, u.kind ≠ .endOfText) ∧
      ((∃ n, parse bs kw = .ok n) ↔ Derives (Tokens.ofBytes bs kw).kinds) ∧
      ∀ n, parse bs kw = .ok n →
        ∃ p : Program, p.tokens = (Tokens.ofBytes bs kw).list ∧
          (∀ q : Program, q.tokens = (Tokens.ofBytes bs kw).list → q = p) ∧ n = p.tree ∧
          ∀ k ∈ n.nodes, ∀ level : Level, k.form = level.form → k.GroupsLeft level := by
  have hts := Tokens.finished_ofBytes bs kw
  rw [parse_eq_parse]
  refine ⟨hts.exists_last h, ⟨?_, exists_parse_of_derives h⟩, ?_⟩
  · rintro ⟨n, hn⟩
    obtain ⟨p, hp, -, -⟩ := exists_program_of_parse hts hn
    exact ⟨p, congrArg (List.map Token.kind) hp⟩
  · intro n hn
    obtain ⟨p, hp, -, rfl⟩ := exists_program_of_parse hts hn
    refine ⟨p, hp, fun q hq => Program.eq_of_tokens_eq (hq.trans hp.symm), rfl, ?_⟩
    intro k hk level hform
    exact p.wellFormed_tree.groupsLeft hk level hform

theorem parse_iff_derives_minus :
    (Tokens.ofBytes "print 8 - 2 - 1".toUTF8.toList .standard).error? = none ∧
      ∃ p : Program, p.tokens = (Tokens.ofBytes "print 8 - 2 - 1".toUTF8.toList .standard).list ∧
        parse "print 8 - 2 - 1".toUTF8.toList .standard = .ok p.tree := by
  have h : (Tokens.ofBytes "print 8 - 2 - 1".toUTF8.toList .standard).error? = none := by
    decide +kernel
  have hparse : parse "print 8 - 2 - 1".toUTF8.toList .standard =
      .ok (.node .root .nowhere [.node .print ⟨.printWord, "print", ⟨1, 1⟩⟩
        [.node .sum ⟨.sub, "-", ⟨1, 13⟩⟩
          [.node .sum ⟨.sub, "-", ⟨1, 9⟩⟩
            [.leaf .integer ⟨.integer, "8", ⟨1, 7⟩⟩, .leaf .integer ⟨.integer, "2", ⟨1, 11⟩⟩],
          .leaf .integer ⟨.integer, "1", ⟨1, 15⟩⟩]]]) := by
    with_unfolding_all rfl
  obtain ⟨p, hp, -, htree, -⟩ := (parse_iff_derives _ _ h).2.2 _ hparse
  exact ⟨h, p, hp, htree ▸ hparse⟩

/-- A syntax error names the first token that no program has in its place. -/
theorem misfitAt_of_parse {bs : List UInt8} {kw : Keywords} {m : Misfit}
    (h : parse bs kw = .error (.misfit m)) :
    ∃ i, (Tokens.ofBytes bs kw).list[i]? = some m.found ∧
      MisfitAt (Tokens.ofBytes bs kw).kinds i := by
  rw [parse_eq_parse] at h
  cases verdict_ofBytes bs kw with
  | program p hp he hparse =>
      rw [hparse] at h
      cases h
  | cut e he hviable hparse =>
      rw [hparse] at h
      cases h
  | misfit m' i hm hi hparse =>
      rw [hparse] at h
      cases h
      exact ⟨i, hm, hi⟩

theorem misfitAt_of_unclosed_operation :
    parse "print 8 -".toUTF8.toList .standard =
        .error (.misfit ⟨.operand, ⟨.endOfText, "", ⟨1, 10⟩⟩⟩) ∧
      ∃ i, (Tokens.ofBytes "print 8 -".toUTF8.toList .standard).list[i]? =
          some ⟨.endOfText, "", ⟨1, 10⟩⟩ ∧
        MisfitAt (Tokens.ofBytes "print 8 -".toUTF8.toList .standard).kinds i := by
  have h : parse "print 8 -".toUTF8.toList .standard =
      .error (.misfit ⟨.operand, ⟨.endOfText, "", ⟨1, 10⟩⟩⟩) := by with_unfolding_all rfl
  exact ⟨h, misfitAt_of_parse h⟩

/-- Scanning on demand changes nothing.  So a character that starts no token is reported, but for a
token before it that no program has in its place. -/
theorem parse_on_demand (bs : List UInt8) (kw : Keywords) :
    parse bs kw = (Tokens.ofBytes bs kw).parse ∧
      (∀ e, (Tokens.ofBytes bs kw).error? = some e →
        ((∀ i, ¬ MisfitAt (Tokens.ofBytes bs kw).kinds i) → parse bs kw = .error (.scan e)) ∧
        ∀ i, MisfitAt (Tokens.ofBytes bs kw).kinds i →
          ∃ m, parse bs kw = .error (.misfit m) ∧
            (Tokens.ofBytes bs kw).list[i]? = some m.found) ∧
      ∀ n, parse bs kw = .ok n → (Tokens.ofBytes bs kw).error? = none := by
  rw [parse_eq_parse]
  refine ⟨rfl, fun e he => ?_, fun n hn => ?_⟩
  · cases verdict_ofBytes bs kw with
    | program p hp he' hparse => cases he.symm.trans he'
    | cut e' he' hviable hparse =>
        cases he.symm.trans he'
        exact ⟨fun _ => hparse, fun i hi => absurd hi (hviable.not_misfitAt i)⟩
    | misfit m i hm hi hparse =>
        refine ⟨fun hno => absurd hi (hno i), fun j hj => ⟨m, hparse, ?_⟩⟩
        rw [← hi.unique hj]
        exact hm
  · obtain ⟨p, -, he, -⟩ := exists_program_of_parse (Tokens.finished_ofBytes bs kw) hn
    exact he

theorem parse_on_demand_dollar :
    (Tokens.ofBytes "a = 1 $".toUTF8.toList .standard).error? = some ⟨'$', ⟨1, 7⟩⟩ ∧
      parse "a = 1 $".toUTF8.toList .standard = .error (.scan ⟨'$', ⟨1, 7⟩⟩) := by
  have he : (Tokens.ofBytes "a = 1 $".toUTF8.toList .standard).error? = some ⟨'$', ⟨1, 7⟩⟩ := by
    decide +kernel
  -- the tokens before the character start a program that assigns and does no more
  have hkinds : (Tokens.ofBytes "a = 1 $".toUTF8.toList .standard).kinds =
      [.symbol, .assign, .integer] := by decide +kernel
  have hviable : Viable [.symbol, .assign, .integer] :=
    ⟨⟨[.line (.assign ⟨⟨.symbol, "a", ⟨1, 1⟩⟩, rfl⟩ ⟨⟨.assign, "=", ⟨1, 3⟩⟩, rfl⟩
      ⟨⟨⟨.integer ⟨⟨.integer, "1", ⟨1, 5⟩⟩, rfl⟩, []⟩, []⟩, []⟩)],
      ⟨⟨.endOfText, "", ⟨1, 6⟩⟩, rfl⟩⟩, by decide +kernel⟩
  refine ⟨he, ((parse_on_demand _ _).2.1 _ he).1 fun i => ?_⟩
  rw [hkinds]
  exact hviable.not_misfitAt i

end IntScript.Grammar
