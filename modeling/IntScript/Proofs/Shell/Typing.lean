import IntScript.Proofs.Shell.Chunk

/-!
# Programs that can be typed

A program can be typed line by line if all its functions are closed and have no blank line in them
(`Chunk.Typable`).  Lines that are typed make chunks, and the chunks are cut in the right places: at
a line end of such a text, what is in front of it is a text of this sort itself, and so is what is
behind it, or else what is in front of it asks for more and the next line is not blank
(`Chunk.Typable.cut`).

That a function has no blank line in it is said of kinds here, so that it does not matter where the
text stands.  In rows and lines it says what one expects (`Chunk.typable_of_rows`).
-/

namespace IntScript

namespace Grammar

theorem Function.kind_ne_endOfText (f : Function) : ∀ t ∈ f.tokens, t.kind ≠ .endOfText := by
  intro t ht hkind
  have hmem := f.tokens_subset t ht
  rw [hkind] at hmem
  exact absurd hmem (by decide)

theorem Function.tokens_of_closing {f : Function} {c : Closing} (h : f.body.closing? = some c) :
    ∃ l, f.tokens = l ++ [c.brace.1] := by
  refine ⟨f.unclosed.tokens ++ c.newlines.map (·.1), ?_⟩
  simp [tokens, unclosed, Body.tokens, h, Closing.tokens]

end Grammar

namespace Chunk

open Grammar

/-- The text is a program all of whose functions are closed, with no two line ends in a row inside
of a function. -/
def Typable (kw : Keywords) (bs : List UInt8) : Prop :=
  (Tokens.ofBytes bs kw).error? = none ∧
    ∃ p : Program, p.kinds = (Tokens.ofBytes bs kw).kinds ∧
      ∀ f ∈ functions p.items,
        f.IsClosed ∧ ¬ [.newline, .newline] <:+: f.tokens.map (·.kind)

variable {kw : Keywords}

theorem Typable.exists_parse {bs : List UInt8} (h : Typable kw bs) : ∃ n, parse bs kw = .ok n := by
  obtain ⟨he, p, hp, -⟩ := h
  rw [parse_eq_parse]
  exact exists_parse_of_derives he ⟨p, hp⟩

theorem Typable.needsMore_eq_false {bs : List UInt8} (hkw : kw.Usable) (h : Typable kw bs) :
    needsMore bs kw = false := by
  obtain ⟨he, p, hp, hfunctions⟩ := h
  rw [← Bool.not_eq_true, needsMore_of_kinds_eq hkw he hp]
  rintro ⟨f, hf, hopen⟩
  exact hopen (hfunctions f hf).1

/-! ## Cuts -/

theorem exists_kinds_joined (hkw : kw.Usable) {above below : List UInt8}
    (he : (Tokens.ofBytes (above ++ 10 :: below) kw).error? = none) :
    ∃ ks, (Tokens.ofBytes above kw).kinds = ks ++ [.endOfText] ∧
      (Tokens.ofBytes (above ++ 10 :: below) kw).kinds =
        ks ++ .newline :: (Tokens.ofBytes below kw).kinds := by
  obtain ⟨habove, -⟩ := Tokens.error?_of_joined hkw.ne_endOfText he
  obtain ⟨l, t, hl, hjoined⟩ := Tokens.ofBytes_joined hkw.ne_endOfText above below habove
  obtain ⟨l', t', hl', ht, -⟩ := (Tokens.finished_ofBytes above kw).exists_last habove
  obtain ⟨rfl, -⟩ := List.append_inj' (hl'.symm.trans hl) rfl
  refine ⟨l'.map (·.kind), ?_, ?_⟩
  · rw [Tokens.kinds, hl', List.map_append, List.map_singleton, ht]
  · rw [hjoined, Tokens.kinds, Tokens.list_prepend, List.map_append, List.map_append,
      List.append_assoc, Tokens.lower, List.map_map]
    rfl

theorem Typable.cut (hkw : kw.Usable) {above below : List UInt8}
    (h : Typable kw (above ++ 10 :: below)) :
    Typable kw above ∧ Typable kw below ∨
      needsMore above kw = true ∧ ∃ k ks, (Tokens.ofBytes below kw).kinds = k :: ks ∧
        k ≠ .newline ∧ k ≠ .endOfText := by
  obtain ⟨he, p, hp, hfunctions⟩ := h
  obtain ⟨habove, hbelow⟩ := Tokens.error?_of_joined hkw.ne_endOfText he
  obtain ⟨ks, hks, hjoined⟩ := exists_kinds_joined hkw he
  rw [hjoined] at hp
  obtain ⟨front, rest, htokens, hfront, hrest⟩ := List.map_eq_append_iff.mp hp
  obtain ⟨n, back, rfl, hn, hback⟩ := List.map_eq_cons_iff.mp hrest
  rcases Program.cut hn htokens with
    ⟨is, js, hitems, rfl, rfl⟩ | ⟨is, f, js, k, k', hitems, hf, rfl, rfl⟩
  · -- the line end is an item, so there are two programs
    refine .inl ⟨⟨habove, ⟨is, default⟩, ?_, fun f hf => hfunctions f ?_⟩,
      ⟨hbelow, ⟨js, p.ending⟩, hback, fun f hf => hfunctions f ?_⟩⟩
    · rw [hks, ← hfront, Program.kinds_eq]
    · rw [mem_functions] at hf ⊢
      rw [hitems]
      exact List.mem_append_left _ hf
    · rw [mem_functions] at hf ⊢
      rw [hitems]
      exact List.mem_append_right _ (List.mem_cons_of_mem _ hf)
  · -- the line end is in a function, which goes on behind it
    obtain ⟨hclosed, hnewlines⟩ := hfunctions f (mem_functions.mpr (by simp [hitems]))
    refine .inr ⟨?_, ?_⟩
    · rcases Function.cut hn hf with ⟨ls, rfl⟩ | ⟨ns, rfl, -⟩
      · refine needsMore_of_opened hkw habove is (f.opened ls) ?_
        rw [hks, hfront]
      · refine (needsMore_of_kinds_eq hkw habove
          (p := ⟨is ++ .function f.unclosed :: ns.map fun n => .line (.newline n), default⟩) ?_).mpr
          ⟨f.unclosed, mem_functions.mpr (by simp), by simp [Function.IsClosed, Function.unclosed]⟩
        rw [hks, ← hfront, Program.kinds_eq, List.flatMap_append, List.flatMap_cons,
          tokens_newlines]
        rfl
    · obtain ⟨c, hc⟩ := Option.ne_none_iff_exists'.mp hclosed
      obtain ⟨l, hl⟩ := Function.tokens_of_closing hc
      cases k' with
      | nil =>
          obtain ⟨-, hbrace⟩ := List.append_inj' (hf.symm.trans hl) rfl
          rw [List.singleton_inj.mp hbrace, c.brace.2] at hn
          cases hn
      | cons u k' =>
          refine ⟨u.kind, _, hback.symm, fun hu => ?_, ?_⟩
          · refine hnewlines ⟨k.map (·.kind), k'.map (·.kind), ?_⟩
            rw [hf, List.map_append, List.map_cons, List.map_cons, hn, hu]
            simp
          · exact f.kind_ne_endOfText u (by simp [hf])

/-! ## Blank lines -/

theorem kinds_of_isBlank (kw : Keywords) {line : List UInt8} (hblank : isBlank line = true)
    (hline : 10 ∉ line) : (Tokens.ofBytes line kw).kinds = [.endOfText] := by
  obtain ⟨l, t, hdrain, ht, hlength, -⟩ := Scanner.drain_of_blank (.ofBytes line kw)
    (isBlank_iff.mp hblank)
  have hcount : (Text.Utf8.decode line).count '\n' = 0 := by
    rw [show '\n' = Char.ofNat (UInt8.toNat 10) from rfl, Text.Utf8.count_decode (by decide),
      List.count_eq_zero]
    exact hline
  obtain rfl : l = [] := List.eq_nil_of_length_eq_zero (hlength.trans hcount)
  rw [Tokens.ofBytes, hdrain, ← ht]
  rfl

theorem head_of_isBlank (hkw : kw.Usable) {line : List UInt8} (hblank : isBlank line = true)
    (hline : 10 ∉ line) {lines : List (List UInt8)}
    (he : (Tokens.ofBytes (extend line lines) kw).error? = none) {k : Kind} {ks : List Kind}
    (h : (Tokens.ofBytes (extend line lines) kw).kinds = k :: ks) :
    k = .newline ∨ k = .endOfText := by
  have hkinds := kinds_of_isBlank kw hblank hline
  cases lines with
  | nil =>
      rw [extend_nil, hkinds] at h
      cases h
      exact .inr rfl
  | cons line' lines =>
      rw [extend_cons] at he h
      obtain ⟨js, hjs, hjoined⟩ := exists_kinds_joined hkw he
      obtain rfl : js = [] := by
        rw [hkinds] at hjs
        exact (List.append_inj_left' (hjs.symm.trans (List.nil_append _).symm) rfl)
      rw [h] at hjoined
      cases hjoined
      exact .inl rfl

/-! ## Rows -/

section

variable (hkw : kw.Usable)

include hkw

theorem kind_ne_newline {line : List UInt8} (hline : 10 ∉ line)
    (he : (Tokens.ofBytes line kw).error? = none) :
    ∀ t ∈ (Tokens.ofBytes line kw).list, t.kind ≠ .newline := by
  intro t ht hkind
  have hcount : (Tokens.ofBytes line kw).kinds.count .newline = 0 := by
    rw [← Tokens.count_sign hkw he (b := 10) (by decide) (by decide +kernel) rfl]
    exact List.count_eq_zero.mpr hline
  refine List.count_eq_zero.mp hcount ?_
  rw [← hkind]
  exact List.mem_map_of_mem ht

theorem exists_tokens_extend {line line' : List UInt8} {lines : List (List UInt8)}
    (hline : 10 ∉ line) (he : (Tokens.ofBytes (extend line (line' :: lines)) kw).error? = none) :
    ∃ l t n, (Tokens.ofBytes line kw).list = l ++ [t] ∧ (∀ u ∈ l, u.kind ≠ .newline) ∧
      (Tokens.ofBytes (extend line' lines) kw).error? = none ∧
      (Tokens.ofBytes (extend line (line' :: lines)) kw).list =
        l ++ n :: (Tokens.ofBytes (extend line' lines) kw).list.map (Token.lower 1) := by
  rw [extend_cons] at he ⊢
  obtain ⟨hline', hlines⟩ := Tokens.error?_of_joined hkw.ne_endOfText he
  obtain ⟨l, t, hl, hjoined⟩ := Tokens.ofBytes_joined hkw.ne_endOfText line _ hline'
  refine ⟨l, t, ⟨.newline, "\n", t.pos⟩, hl, fun u hu => ?_, hlines, ?_⟩
  · refine kind_ne_newline hkw hline hline' u ?_
    rw [hl]
    exact List.mem_append_left _ hu
  · rw [hjoined, Tokens.list_prepend, List.append_assoc, List.count_eq_zero.mpr hline]
    rfl

theorem isBlank_of_head {line : List UInt8} (hline : 10 ∉ line) {lines : List (List UInt8)}
    (he : (Tokens.ofBytes (extend line lines) kw).error? = none) {n : Token} {l : List Token}
    (h : (Tokens.ofBytes (extend line lines) kw).list = n :: l) (hn : n.kind = .newline) :
    isBlank line = true := by
  cases lines with
  | nil =>
      rw [extend_nil] at he h
      exact absurd hn (kind_ne_newline hkw hline he n (by simp [h]))
  | cons line' lines =>
      obtain ⟨k, t, m, hk, hnewlines, -, hlist⟩ := exists_tokens_extend hkw hline he
      cases k with
      | nil =>
          obtain ⟨he, -⟩ := Tokens.error?_of_joined hkw.ne_endOfText (extend_cons _ _ _ ▸ he)
          obtain ⟨l', t', hl', ht', -⟩ := (Tokens.finished_ofBytes line kw).exists_last he
          obtain ⟨-, ht⟩ := List.append_inj' (hk.symm.trans hl') rfl
          rw [← List.singleton_inj.mp ht] at ht'
          rw [isBlank_iff]
          intro c hc
          have hgap := Scanner.isGap_of_drain (s := .ofBytes line kw) hkw.ne_endOfText hk ht' c hc
          exact (Bool.and_eq_true_iff.mp hgap).2
      | cons u k =>
          rw [h] at hlist
          cases hlist
          exact absurd hn (hnewlines n List.mem_cons_self)

/-- Where two line ends follow each other there is a blank line. -/
theorem exists_blank_line {line : List UInt8} {lines : List (List UInt8)}
    (hlines : ∀ l ∈ line :: lines, 10 ∉ l)
    (he : (Tokens.ofBytes (extend line lines) kw).error? = none) {front back : List Token}
    {n m : Token} (h : (Tokens.ofBytes (extend line lines) kw).list = front ++ n :: m :: back)
    (hn : n.kind = .newline) (hm : m.kind = .newline) :
    ∃ (i : Nat) (blank : List UInt8), (line :: lines)[i]? = some blank ∧ m.pos.row = i + 1 ∧
      isBlank blank = true := by
  induction lines generalizing line front n m back with
  | nil =>
      rw [extend_nil] at he h
      have hline := hlines line List.mem_cons_self
      exact absurd hn (kind_ne_newline hkw hline he n (by simp [h]))
  | cons line' lines ih =>
      have hline' := hlines line' (List.mem_cons_of_mem _ List.mem_cons_self)
      obtain ⟨l, t, u, -, hnewlines, hbelow, hlist⟩ :=
        exists_tokens_extend hkw (hlines line List.mem_cons_self) he
      rcases cut_append (hlist.symm.trans h) with ⟨k, rfl, -⟩ | ⟨k, -, hk⟩
      · exact absurd hn (hnewlines n (List.mem_append_right _ List.mem_cons_self))
      · cases k with
        | nil =>
            -- the second line end is the first token below the line
            obtain ⟨-, hmap⟩ := List.cons.inj hk
            obtain ⟨m', rest, hm', rfl, -⟩ := List.map_eq_cons_iff.mp hmap
            refine ⟨1, line', rfl, ?_, isBlank_of_head hkw hline' hbelow hm' hm⟩
            have hrow : m'.pos.row = 1 := Scanner.row_of_drain hm'
            show m'.pos.row + 1 = 1 + 1
            omega
        | cons v k =>
            obtain ⟨-, hmap⟩ := List.cons.inj hk
            obtain ⟨front', rest, hrest, -, hmap'⟩ := List.map_eq_append_iff.mp hmap
            obtain ⟨n', rest', rfl, rfl, hmap''⟩ := List.map_eq_cons_iff.mp hmap'
            obtain ⟨m', back', rfl, rfl, -⟩ := List.map_eq_cons_iff.mp hmap''
            obtain ⟨i, blank, hi, hrow, hblank⟩ :=
              ih (fun l hl => hlines l (List.mem_cons_of_mem _ hl)) hbelow hrest hn hm
            refine ⟨i + 1, blank, hi, ?_, hblank⟩
            show m'.pos.row + 1 = _
            omega

theorem typable_of_rows {line : List UInt8} {lines : List (List UInt8)}
    (hlines : ∀ l ∈ line :: lines, 10 ∉ l) {p : Program}
    (hp : p.tokens = (Tokens.ofBytes (extend line lines) kw).list)
    (hfunctions : ∀ f, .function f ∈ p.items → ∃ c, f.body.closing? = some c ∧
      ∀ (i : Nat) (l : List UInt8), (line :: lines)[i]? = some l →
        f.word.1.pos.row ≤ (i : Int) + 1 → (i : Int) + 1 ≤ c.brace.1.pos.row → isBlank l = false) :
    Typable kw (extend line lines) := by
  obtain ⟨-, he⟩ := (Tokens.finished_ofBytes (extend line lines) kw).of_endOfText
    (hp.symm.trans rfl) p.ending.2
  refine ⟨he, p, congrArg (List.map Token.kind) hp, fun f hf => ?_⟩
  rw [mem_functions] at hf
  obtain ⟨c, hc, hblanks⟩ := hfunctions f hf
  refine ⟨by simp [Function.IsClosed, hc], ?_⟩
  rintro ⟨ks, js, hkinds⟩
  obtain ⟨front, rest, hfront, -, hrest⟩ :=
    List.map_eq_append_iff.mp (hkinds.symm.trans (List.append_assoc _ _ _))
  obtain ⟨n, rest, rfl, hn, hrest⟩ := List.map_eq_cons_iff.mp hrest
  obtain ⟨m, back, rfl, hm, -⟩ := List.map_eq_cons_iff.mp hrest
  obtain ⟨is, js, hitems⟩ := List.append_of_mem hf
  have htokens : (Tokens.ofBytes (extend line lines) kw).list =
      is.flatMap Item.tokens ++ (f.tokens ++ (js.flatMap Item.tokens ++ [p.ending.1])) := by
    rw [← hp, Program.tokens, hitems]
    simp [Item.tokens]
  have hends : (Tokens.ofBytes (extend line lines) kw).list =
      (is.flatMap Item.tokens ++ front) ++
        n :: m :: (back ++ (js.flatMap Item.tokens ++ [p.ending.1])) := by
    rw [htokens, hfront]
    simp
  obtain ⟨i, blank, hi, hrow, hblank⟩ := exists_blank_line hkw hlines he hends hn hm
  -- the row of the second line end is one of the function's
  have hrows : f.tokens.Pairwise fun t u => t.pos.row ≤ u.pos.row := by
    have hall := (Scanner.rows_drain (.ofBytes (extend line lines) kw)).2
    rw [show (Scanner.ofBytes (extend line lines) kw).drain.1.list = _ from htokens] at hall
    exact (List.pairwise_append.mp (List.pairwise_append.mp hall).2.1).1
  have hmem : m ∈ f.tokens := by simp [hfront]
  have hstart : f.word.1.pos.row ≤ m.pos.row := by
    have hrows : (f.word.1 :: (f.name.1 :: f.params.tokens ++ f.body.tokens)).Pairwise
      fun t u => t.pos.row ≤ u.pos.row := hrows
    refine (List.pairwise_cons.mp hrows).1 m ?_
    rcases List.mem_cons.mp (show m ∈ f.word.1 :: _ from hmem) with rfl | hmem
    · exact absurd (f.word.2.symm.trans hm) (by decide)
    · exact hmem
  have hend : m.pos.row ≤ c.brace.1.pos.row := by
    obtain ⟨l, hl⟩ := Function.tokens_of_closing hc
    rw [hl] at hrows hmem
    refine (List.pairwise_append.mp hrows).2.2 m ?_ _ List.mem_cons_self
    rcases List.mem_append.mp hmem with hmem | hmem
    · exact hmem
    · rw [List.mem_singleton.mp hmem] at hm
      exact absurd (c.brace.2.symm.trans hm) (by decide)
  have hfalse := hblanks i blank hi (by omega) (by omega)
  rw [hblank] at hfalse
  cases hfalse

end

end Chunk

end IntScript
