import IntScript.Proofs.Grammar.Continuation
import IntScript.Proofs.Grammar.Joined
import IntScript.Shell.Chunk

/-!
# When a chunk asks for more

A chunk asks for another line if it is the beginning of a program, or a program with a function that
is not closed.  The second is found by counting braces in the bytes of the chunk, which is right:
outside of tokens there are no braces (`needsMore_of_kinds_eq`).

The first is not always right.  A text can be the beginning of a program, but not of one that has a
line end there.  Main statement: of the chunks that ask for more, lines can help just those that are a
program already or stop between the lines of a body (`helped_iff`).  A chunk that stops
anywhere else, as `print 1 +` does, asks for lines that cannot help.
-/

namespace IntScript

namespace Grammar

/-- The function with more lines, and with a `return`. -/
def Opened.function (o : Opened) (more : List Line) (word : Leaf .returnWord) (e : Expression) :
    Function :=
  ⟨o.word, o.name, o.params, ⟨o.opening, o.lines ++ more, word, e, none⟩⟩

theorem Opened.tokens_function (o : Opened) (more : List Line) (word : Leaf .returnWord)
    (e : Expression) :
    (o.function more word e).tokens =
      o.tokens ++ (more.flatMap Line.tokens ++ word.1 :: Expression.tokens e) := by
  simp [function, Function.tokens, Body.tokens, tokens]

theorem viable_opened (is : List Item) (o : Opened) :
    Viable ((is.flatMap Item.tokens ++ o.tokens).map (·.kind)) := by
  refine viable_of_isPrefix (d := (is ++ [.function (o.function [] default default)], ())) ?_
  simp only [Item.sequence, Phrase.rounds, Item.tokens_phrase, List.flatMap_append,
    List.flatMap_singleton, Item.tokens, Opened.tokens_function, List.append_assoc]
  exact List.prefix_append_right_inj _ |>.mpr (List.prefix_append _ _)

theorem tokens_newlines (ns : List (Leaf .newline)) :
    (ns.map fun n => Item.line (.newline n)).flatMap Item.tokens = ns.map (·.1) := by
  induction ns with
  | nil => rfl
  | cons n ns ih =>
      rw [List.map_cons, List.flatMap_cons, ih]
      rfl

/-- A line end in a program: what is in front of it is a program, or is a function without its
`return` behind a program, or is a program whose last function is not closed. -/
theorem Program.front_cases {p : Program} {front back : List Token} {n : Token}
    (hn : n.kind = .newline) (h : p.tokens = front ++ n :: back) :
    (∃ is : List Item, front = is.flatMap Item.tokens) ∨
      ∃ (is : List Item) (o : Opened), front = is.flatMap Item.tokens ++ o.tokens := by
  rcases Program.cut hn h with ⟨is, js, -, rfl, -⟩ | ⟨is, f, js, k, k', -, hf, rfl, -⟩
  · exact .inl ⟨is, rfl⟩
  · rcases Function.cut hn hf with ⟨ls, rfl⟩ | ⟨ns, rfl, -⟩
    · exact .inr ⟨is, f.opened ls, rfl⟩
    · refine .inl ⟨is ++ .function f.unclosed :: ns.map fun n => .line (.newline n), ?_⟩
      rw [List.flatMap_append, List.flatMap_cons, tokens_newlines]
      rfl

end Grammar

namespace Chunk

open Grammar

/-! ## Blanks and commands -/

theorem trim_subset (cs : List Char) : Text.trim cs ⊆ cs := by
  intro c hc
  have hc := (List.dropWhile_suffix _).subset (List.mem_reverse.mp hc)
  exact (List.dropWhile_suffix _).subset (List.mem_reverse.mp hc)

theorem isBlank_iff {bs : List UInt8} :
    isBlank bs = true ↔ ∀ c ∈ Text.Utf8.decode bs, Text.isBlank c := by
  unfold isBlank Text.trim
  generalize Text.Utf8.decode bs = cs
  rw [List.isEmpty_iff, List.reverse_eq_nil_iff, List.dropWhile_eq_nil_iff]
  constructor
  · intro h
    have hnil : cs.dropWhile Text.isBlank = [] := by
      by_contra hne
      obtain ⟨c, l, hl⟩ := List.exists_cons_of_ne_nil hne
      have hhead := List.head?_dropWhile_not Text.isBlank cs
      rw [hl] at hhead h
      have hc : Text.isBlank c = true := h c (by simp)
      simp [hc] at hhead
    exact List.dropWhile_eq_nil_iff.mp hnil
  · intro h c hc
    exact h c ((List.dropWhile_suffix _).subset (List.mem_reverse.mp hc))

section

variable {bs : List UInt8} {kw : Keywords} (hkw : kw.Usable)
  (he : (Tokens.ofBytes bs kw).error? = none)

include hkw he

theorem count_openBrace :
    bs.count '\x7b'.toUInt8 = (Tokens.ofBytes bs kw).kinds.count .openBrace :=
  Tokens.count_sign hkw he (by decide) (by decide +kernel) rfl

theorem count_closeBrace :
    bs.count '\x7d'.toUInt8 = (Tokens.ofBytes bs kw).kinds.count .closeBrace :=
  Tokens.count_sign hkw he (by decide) (by decide +kernel) rfl

/-- A text that is read to its end is no command, since a colon is no token. -/
theorem isCommand_eq_false : isCommand bs = false := by
  have hcount := Scanner.count_drain (c := ':') (by decide +kernel) (.ofBytes bs kw) hkw he
  rw [List.countP_eq_zero.mpr (by simp [Kind.ofSign?, Kind.ofMark?]), List.count_eq_zero] at hcount
  unfold isCommand
  rw [decide_eq_false_iff_not]
  intro hhead
  exact hcount (trim_subset _ (List.mem_of_head? hhead))

/-! ## Asking for more -/

theorem needsMore_of_kinds_eq {p : Program} (hp : p.kinds = (Tokens.ofBytes bs kw).kinds) :
    needsMore bs kw = true ↔ ∃ f ∈ functions p.items, ¬ f.IsClosed := by
  obtain ⟨n, hn⟩ := exists_parse_of_derives he ⟨p, hp⟩
  have hend (k : Kind) (hk : k ≠ .endOfText) : (Tokens.ofBytes bs kw).kinds.count k =
      ((p.items.flatMap Item.tokens).map (·.kind)).count k := by
    rw [← hp, p.kinds_eq, List.count_append, List.count_singleton]
    simp [hk.symm]
  unfold needsMore
  rw [isCommand_eq_false hkw he, parse_eq_parse, hn]
  rw [if_neg Bool.false_ne_true, count_openBrace hkw he, count_closeBrace hkw he,
    hend _ (by decide), hend _ (by decide), decide_eq_true_iff]
  exact count_closeBrace_lt_iff p.items

theorem needsMore_of_opened (is : List Item) (o : Opened)
    (hopen : (Tokens.ofBytes bs kw).kinds =
      (is.flatMap Item.tokens ++ o.tokens).map (·.kind) ++ [.endOfText]) :
    needsMore bs kw = true := by
  have hincomplete : ∃ e, parse bs kw = .error e ∧ e.isIncomplete = true := by
    rw [parse_eq_parse]
    cases verdict_ofBytes bs kw with
    | program p hp he' hparse =>
        refine absurd ?_ (not_derives_opened is o)
        rw [← hopen]
        exact ⟨p, congrArg (List.map Token.kind) hp⟩
    | cut e he' hviable hparse => cases he.symm.trans he'
    | misfit m i hm hi hparse =>
        refine ⟨_, hparse, ?_⟩
        -- all kinds but the last are the beginning of a program, so the last is the misfit
        have hlast : i = ((is.flatMap Item.tokens ++ o.tokens).map (·.kind)).length := by
          obtain ⟨hlt, -, hmisfit⟩ := hi
          rw [hopen] at hlt hmisfit
          by_contra hne
          rw [List.length_append, List.length_singleton] at hlt
          rw [List.take_append_of_le_length (by omega)] at hmisfit
          exact hmisfit ((viable_opened is o).take (i + 1))
        have hkind : (Tokens.ofBytes bs kw).kinds[i]? = some m.found.kind := by
          rw [Tokens.kinds, List.getElem?_map, hm]
          rfl
        rw [hopen, hlast, List.getElem?_concat_length] at hkind
        exact decide_eq_true (Option.some.inj hkind).symm
  obtain ⟨e, hparse, hincomplete⟩ := hincomplete
  unfold needsMore
  rw [isCommand_eq_false hkw he, hparse]
  exact hincomplete

end

/-! ## Lines that help -/

/-- The chunk with lines added to it. -/
def extend (bs : List UInt8) (lines : List (List UInt8)) : List UInt8 :=
  lines.foldl (fun chunk line => chunk ++ '\n'.toUInt8 :: line) bs

theorem extend_nil (bs : List UInt8) : extend bs [] = bs := rfl

theorem extend_cons (bs line : List UInt8) (lines : List (List UInt8)) :
    extend bs (line :: lines) = bs ++ 10 :: extend line lines := by
  show extend (bs ++ 10 :: line) lines = _
  unfold extend
  induction lines generalizing line with
  | nil => rfl
  | cons line' lines ih =>
      rw [List.foldl_cons, List.foldl_cons, ← ih, List.append_assoc, List.cons_append]

/-- There are lines, none of them blank, that make a program of the chunk. -/
def Helped (bs : List UInt8) (kw : Keywords) : Prop :=
  ∃ lines, lines ≠ [] ∧ (∀ line ∈ lines, isBlank line = false ∧ '\n'.toUInt8 ∉ line) ∧
    ∃ n, parse (extend bs lines) kw = .ok n

/-- A chunk that is no program and can go on behind a line end stops in a body. -/
theorem opened_of_parse {kw : Keywords} (hkw : ∀ word, kw.get? word ≠ some .endOfText)
    {above below : List UInt8} {e : ParseError} {n : Tree} (habove : parse above kw = .error e)
    (hn : parse (above ++ 10 :: below) kw = .ok n) :
    ∃ (is : List Item) (o : Opened) (t : Token),
      (Tokens.ofBytes above kw).list = is.flatMap Item.tokens ++ o.tokens ++ [t] := by
  rw [parse_eq_parse] at habove hn
  obtain ⟨p, hp, herror, -⟩ := exists_program_of_parse (Tokens.finished_ofBytes _ kw) hn
  obtain ⟨he, -⟩ := Tokens.error?_of_joined hkw herror
  obtain ⟨l, t, hl, hjoined⟩ := Tokens.ofBytes_joined hkw above below he
  obtain ⟨l', t', hl', ht, -⟩ := (Tokens.finished_ofBytes above kw).exists_last he
  obtain ⟨rfl, hend⟩ := List.append_inj' (hl.symm.trans hl') rfl
  obtain rfl : t = t' := List.singleton_inj.mp hend
  rw [hjoined, Tokens.list_prepend, List.append_assoc, List.singleton_append] at hp
  rcases Program.front_cases rfl hp with ⟨is, rfl⟩ | ⟨is, o, rfl⟩
  · have hderives : Derives (Tokens.ofBytes above kw).kinds :=
      ⟨⟨is, t, ht⟩, congrArg (List.map Token.kind) hl.symm⟩
    obtain ⟨n', hn'⟩ := exists_parse_of_derives he hderives
    cases habove.symm.trans hn'
  · exact ⟨is, o, t, hl⟩

theorem exists_parse_of_opened {bs : List UInt8} {is : List Item} {o : Opened} {t : Token}
    (he : (Tokens.ofBytes bs .standard).error? = none)
    (h : (Tokens.ofBytes bs .standard).list = is.flatMap Item.tokens ++ o.tokens ++ [t]) :
    ∃ n, parse (bs ++ 10 :: "return a".toUTF8.toList) .standard = .ok n := by
  obtain ⟨l, t', hl, hjoined⟩ := Tokens.ofBytes_joined Keywords.usable_standard.ne_endOfText bs
    "return a".toUTF8.toList he
  obtain ⟨rfl, -⟩ := List.append_inj' (hl.symm.trans h) rfl
  have hline : Tokens.ofBytes "return a".toUTF8.toList .standard =
      ⟨[⟨.returnWord, "return", ⟨1, 1⟩⟩, ⟨.symbol, "a", ⟨1, 8⟩⟩, ⟨.endOfText, "", ⟨1, 9⟩⟩], none⟩ := by
    decide +kernel
  rw [parse_eq_parse, hjoined, hline]
  refine exists_parse_of_derives rfl ?_
  let f := o.function [.newline default] default ⟨⟨⟨.name default, []⟩, []⟩, []⟩
  refine ⟨⟨is ++ [.function f], default⟩, ?_⟩
  simp only [Program.kinds, Program.tokens, f, List.flatMap_append, List.flatMap_singleton,
    Item.tokens, Opened.tokens_function, Tokens.kinds, Tokens.list_prepend, List.map_append,
    List.append_assoc]
  rfl

/-- Of the chunks that ask for more, lines can help those that are programs and those that stop
between the lines of a body, and no others. -/
theorem helped_iff {bs : List UInt8} (h : needsMore bs .standard = true) :
    Helped bs .standard ↔
      (∃ n, parse bs .standard = .ok n) ∨ ∃ (is : List Item) (o : Opened) (t : Token),
        (Tokens.ofBytes bs .standard).list = is.flatMap Item.tokens ++ o.tokens ++ [t] := by
  have hkw := Keywords.usable_standard.ne_endOfText
  constructor
  · rintro ⟨lines, hne, -, n, hn⟩
    obtain ⟨line, lines, rfl⟩ := List.exists_cons_of_ne_nil hne
    rw [extend_cons] at hn
    cases hparse : parse bs .standard with
    | ok root => exact .inl ⟨root, rfl⟩
    | error e => exact .inr (opened_of_parse hkw hparse hn)
  · rintro (⟨root, hroot⟩ | ⟨is, o, t, hopen⟩)
    · have hline : parse "print 0".toUTF8.toList .standard =
          .ok (.node .root .nowhere [.node .print ⟨.printWord, "print", ⟨1, 1⟩⟩
            [.leaf .integer ⟨.integer, "0", ⟨1, 7⟩⟩]]) := by with_unfolding_all rfl
      exact ⟨["print 0".toUTF8.toList], by simp, by decide +kernel, _, parse_joined hkw hroot hline⟩
    · have he : (Tokens.ofBytes bs .standard).error? = none := by
        unfold needsMore at h
        split at h
        · cases h
        · cases hparse : parse bs .standard with
          | ok root =>
              rw [parse_eq_parse] at hparse
              obtain ⟨p, -, he, -⟩ := exists_program_of_parse (Tokens.finished_ofBytes bs _) hparse
              exact he
          | error e =>
              rw [hparse] at h
              obtain ⟨l, u, hl, -⟩ := viable_of_isIncomplete hparse h
              rw [hl]
      exact ⟨["return a".toUTF8.toList], by simp, by decide +kernel, exists_parse_of_opened he hopen⟩

theorem helped_iff_sum :
    needsMore "print 1 +".toUTF8.toList .standard = true ∧
      ¬ Helped "print 1 +".toUTF8.toList .standard ∧
      needsMore "func f(a) \x7b".toUTF8.toList .standard = true ∧
      Helped "func f(a) \x7b".toUTF8.toList .standard := by
  have hsum : needsMore "print 1 +".toUTF8.toList .standard = true := by decide +kernel
  have hfunction : needsMore "func f(a) \x7b".toUTF8.toList .standard = true := by decide +kernel
  refine ⟨hsum, fun hhelped => ?_, hfunction, (helped_iff hfunction).mpr (.inr ?_)⟩
  · rcases (helped_iff hsum).mp hhelped with ⟨n, hn⟩ | ⟨is, o, t, hopen⟩
    · have herror : parse "print 1 +".toUTF8.toList .standard =
          .error (.misfit ⟨.operand, ⟨.endOfText, "", ⟨1, 10⟩⟩⟩) := by with_unfolding_all rfl
      cases hn.symm.trans herror
    · have hno : ∀ t ∈ (Tokens.ofBytes "print 1 +".toUTF8.toList .standard).list,
          t.kind ≠ .funcWord := by decide +kernel
      refine hno o.word.1 ?_ o.word.2
      rw [hopen]
      exact List.mem_append_left _ (List.mem_append_right _ List.mem_cons_self)
  · refine ⟨[], ⟨⟨⟨.funcWord, "func", ⟨1, 1⟩⟩, rfl⟩, ⟨⟨.symbol, "f", ⟨1, 6⟩⟩, rfl⟩,
      ⟨⟨⟨.openParen, "(", ⟨1, 7⟩⟩, rfl⟩, ⟨⟨.symbol, "a", ⟨1, 8⟩⟩, rfl⟩, [],
        ⟨⟨.closeParen, ")", ⟨1, 9⟩⟩, rfl⟩⟩, ⟨⟨.openBrace, "\x7b", ⟨1, 11⟩⟩, rfl⟩, []⟩,
      ⟨.endOfText, "", ⟨1, 12⟩⟩, ?_⟩
    decide +kernel

end Chunk

end IntScript
