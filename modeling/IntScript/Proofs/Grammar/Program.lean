import IntScript.Proofs.Grammar.Expression

/-!
# Reading programs

The phrases of lines, bodies, functions and programs, and the readers that read them.  Apart from
the end of a body these are put together as the phrases of expressions are.

    line             'print' sum | Symbol '=' sum | Newline
    body             '{' line* before 'return'  'return' sum (closing | before no closing)
    function         'func' Symbol list body
    program          (line | function)* before EOF

The end of a body is the one place where a reader looks further than one token.  Behind the
returned expression it goes past any number of line ends to see whether a brace comes, and if there
is none it takes nothing.  So an unclosed body ends only where the first token that is no line end
is no brace (`Tokens.Past`), and `Local` fails for it.  It still satisfies `LocalBefore` for the
reader of the items behind it, which takes the line ends one by one and so refuses nothing among
them.
-/

namespace IntScript

namespace Tokens

/-- What stands behind the line ends at the front. -/
def skipNewlines (ts : Tokens) : Tokens := { ts with list := ts.list.dropWhile (·.kind = .newline) }

theorem skipNewlines_of_ne {t : Token} (ht : t.kind ≠ .newline) (l : List Token)
    (e? : Option ScanError) : skipNewlines ⟨t :: l, e?⟩ = ⟨t :: l, e?⟩ := by
  rw [skipNewlines, List.dropWhile_cons_of_neg (by simpa using ht)]

theorem skipNewlines_prepend {ns : List Token} (hns : ∀ n ∈ ns, n.kind = .newline) (ts : Tokens) :
    (ts.prepend ns).skipNewlines = ts.skipNewlines := by
  rw [skipNewlines, list_prepend, List.dropWhile_append_of_pos (by simpa using hns)]
  rfl

theorem kind_ne_of_skipNewlines {ts : Tokens} {t : Token} {l : List Token}
    (h : ts.skipNewlines.list = t :: l) : t.kind ≠ .newline := by
  have hhead := List.head?_dropWhile_not (fun t : Token => t.kind = .newline) ts.list
  rw [show ts.list.dropWhile (fun t : Token => t.kind = .newline) = t :: l from h] at hhead
  simpa using hhead

theorem exists_newlines (ts : Tokens) :
    ∃ ns : List Token, (∀ n ∈ ns, n.kind = .newline) ∧ ts = ts.skipNewlines.prepend ns := by
  refine ⟨ts.list.takeWhile (·.kind = .newline), ?_, ?_⟩
  · intro n hn
    simpa using List.all_eq_true.mp List.all_takeWhile n hn
  · rw [prepend, skipNewlines, List.takeWhile_append_dropWhile]

/-- The first token that is no line end is there, and of a kind in `P`. -/
def Past (P : Kind → Prop) (ts : Tokens) : Prop := ts.skipNewlines.Next P

theorem Past.prepend {P : Kind → Prop} {ts : Tokens} (h : ts.Past P) {ns : List Token}
    (hns : ∀ n ∈ ns, n.kind = .newline) : (ts.prepend ns).Past P := by
  rwa [Past, skipNewlines_prepend hns]

theorem Next.past {P : Kind → Prop} {ts : Tokens} (h : ts.Next P) (hP : ∀ k, P k → k ≠ .newline) :
    ts.Past P := by
  obtain ⟨l, e?⟩ := ts
  obtain ⟨t, l, rfl, ht⟩ := h
  rw [Past, skipNewlines_of_ne (hP _ ht)]
  exact ⟨t, l, rfl, ht⟩

theorem Past.next {P : Kind → Prop} {ts : Tokens} (h : ts.Past P) :
    ts.Next fun k => k = .newline ∨ P k := by
  obtain ⟨ns, hns, hts⟩ := ts.exists_newlines
  obtain ⟨t, l, hl, ht⟩ := h
  rw [hts]
  cases ns with
  | nil => exact ⟨t, l, hl, .inr ht⟩
  | cons n ns => exact ⟨n, _, rfl, .inl (hns n (List.mem_cons_self ..))⟩

/-- Tokens at the front that are not all line ends settle what stands behind the line ends. -/
theorem Past.of_isPrefix {P : Kind → Prop} {ts ts' : Tokens} (h : ts.Past P) {l : List Token}
    (hl : l <+: ts.list) (hl' : l <+: ts'.list) (hne : ¬ ∀ t ∈ l, t.kind = .newline) :
    ts'.Past P := by
  obtain ⟨ns, hns, hl₀⟩ := exists_newlines ⟨l, none⟩
  have hcons : ∃ u r, (skipNewlines ⟨l, none⟩).list = u :: r := by
    refine List.exists_cons_of_ne_nil fun hnil => hne ?_
    rw [Tokens.prepend, hnil, List.append_nil] at hl₀
    rwa [show l = ns from congrArg list hl₀]
  obtain ⟨u, r, hur⟩ := hcons
  have hu := kind_ne_of_skipNewlines hur
  have hskip : ∀ us : Tokens, l <+: us.list → us.skipNewlines.list.head? = some u := by
    rintro us ⟨k, hk⟩
    have hus : us = (⟨u :: (r ++ k), us.error?⟩ : Tokens).prepend ns := by
      rw [Tokens.prepend, ← List.cons_append, ← hur, ← List.append_assoc]
      rw [Tokens.prepend, Tokens.mk.injEq] at hl₀
      rw [← hl₀.1, hk]
    rw [hus, skipNewlines_prepend hns, skipNewlines_of_ne hu]
    rfl
  obtain ⟨t, k, hk, ht⟩ := h
  obtain ⟨k', hk'⟩ := List.head?_eq_some_iff.mp (hskip ts' hl')
  have hsame := hskip ts hl
  rw [hk, List.head?_cons, Option.some.injEq] at hsame
  exact ⟨u, k', hk', hsame ▸ ht⟩

end Tokens

namespace Grammar

open Phrase

/-! ## Lines -/

namespace Line

def parts : Line ≃
    Leaf .printWord × Expression ⊕ Leaf .symbol × Leaf .assign × Expression ⊕ Leaf .newline where
  toFun
    | .print word e => .inl (word, e)
    | .assign target mark e => .inr (.inl (target, mark, e))
    | .newline t => .inr (.inr t)
  invFun
    | .inl (word, e) => .print word e
    | .inr (.inl (target, mark, e)) => .assign target mark e
    | .inr (.inr t) => .newline t
  left_inv l := by cases l <;> rfl
  right_inv
    | .inl _ => rfl
    | .inr (.inl _) => rfl
    | .inr (.inr _) => rfl

def phrase : Phrase Line :=
  (((one .printWord).seq Expression.phrase).alt
    (((one .symbol).seq ((one .assign).seq Expression.phrase)).alt (one .newline))).via parts

theorem tokens_phrase : phrase.tokens = Line.tokens := by
  funext l
  cases l with
  | print word e => exact congrArg (word.1 :: · e) Expression.tokens_phrase
  | assign target mark e => exact congrArg (target.1 :: mark.1 :: · e) Expression.tokens_phrase
  | newline t => rfl

/-- The kinds that a line starts with. -/
abbrev Starts (k : Kind) : Prop := k = .printWord ∨ k = .symbol ∨ k = .newline

theorem definite_print : ((one .printWord).seq Expression.phrase).Definite (· = .printWord) :=
  (definite_one (by decide)).seq Expression.definite_phrase

theorem definite_assign :
    ((one .symbol).seq ((one .assign).seq Expression.phrase)).Definite (· = .symbol) :=
  (definite_one (by decide)).seq ((definite_one (by decide)).seq Expression.definite_phrase)

theorem definite_phrase : phrase.Definite Starts := by
  have hrest := definite_assign.alt (definite_one (k := .newline) (by decide)) (by
    rintro _ rfl
    decide)
  refine (definite_print.alt hrest ?_).via parts
  rintro _ rfl
  decide

theorem local_phrase : phrase.Local :=
  (((local_one _).seq Expression.local_phrase).alt
    (((local_one _).seq ((local_one _).seq Expression.local_phrase)).alt (local_one _))).via parts

/-- Lines end before lines: what holds before statements, is kept by line ends and does not carry an
expression on, is kept by lines. -/
theorem fits_phrase {Q : Tokens → Prop}
    (hnext : ∀ ts, Q ts → ts.Next fun k => ¬ Expression.Continues k)
    (hstatement : ∀ ts, ts.Next (fun k => k = .printWord ∨ k = .symbol) → Q ts)
    (hnewline : ∀ (n : Leaf .newline) ts, Q ts → Q (ts.prepend [n.1])) : phrase.Fits Q Q := by
  have hprint : ((one .printWord).seq Expression.phrase).Fits Q Q :=
    ((fits_one _ _).seq Expression.fits_phrase).imp hnext fun ts h =>
      hstatement ts (h.imp fun _ => .inl)
  have hassign : ((one .symbol).seq ((one .assign).seq Expression.phrase)).Fits Q Q :=
    ((fits_one _ _).seq ((fits_one _ _).seq Expression.fits_phrase)).imp hnext fun ts h =>
      hstatement ts (h.imp fun _ => .inr)
  have hend : (one .newline).Fits Q Q := fun n ts h => ⟨trivial, hnewline n ts h⟩
  exact (hprint.alt (hassign.alt hend)).via parts

end Line

theorem branch_line {r : Reader Tokens (Option (Option Tree))}
    (hprint : ∀ t l e?, Token.kind t = .printWord →
      r ⟨t :: l, e?⟩ = (do let n ← Reader.printStatement; return some (some n)) ⟨t :: l, e?⟩)
    (hassign : ∀ t l e?, Token.kind t = .symbol →
      r ⟨t :: l, e?⟩ = (do let n ← Reader.assignment; return some (some n)) ⟨t :: l, e?⟩)
    (hnewline : ∀ t l e?, Token.kind t = .newline → r ⟨t :: l, e?⟩ = .ok (some none, ⟨l, e?⟩)) :
    Branch r Line.Starts Line.phrase (fun d => some d.tree?) := by
  have hp : Reads (do
        let word ← Reader.expect .printWord .statement
        let e ← Reader.expression
        return some (some (.node .print word [e])))
      ((one .printWord).seq Expression.phrase)
      (fun d => some (Line.tree? (Line.parts.symm (.inl d)))) :=
    (reads_expect _ _).bind (definite_one (by decide)) (local_one _) fun word =>
      reads_expression.map _
  have ha : Reads (do
        let target ← Reader.expect .symbol .statement
        let mark ← Reader.expect .assign .assignMark
        let e ← Reader.expression
        return some (some (.node .assign mark [.leaf .name target, e])))
      ((one .symbol).seq ((one .assign).seq Expression.phrase))
      (fun d => some (Line.tree? (Line.parts.symm (.inr (.inl d))))) :=
    (reads_expect _ _).bind (definite_one (by decide)) (local_one _) fun target =>
      (reads_expect _ _).bind (definite_one (by decide)) (local_one _) fun mark =>
        reads_expression.map _
  have hn := (reads_expect .newline .statement).map fun _ => (some none : Option (Option Tree))
  refine Branch.via Line.parts ((Branch.of_reads hp Line.definite_print ?_).alt
    ((Branch.of_reads ha Line.definite_assign ?_).alt
      (Branch.of_reads hn (definite_one (by decide)) ?_)))
  · intro t l e? ht
    simp only [hprint t l e? ht, Reader.printStatement, bind_assoc, pure_bind, Reader.next_bind,
      Reader.expect_bind _ ht]
  · intro t l e? ht
    simp only [hassign t l e? ht, Reader.assignment, bind_assoc, pure_bind, Reader.next_bind,
      Reader.expect_bind _ ht]
  · intro t l e? ht
    rw [hnewline t l e? ht, Reader.expect_bind _ ht]
    rfl

/-! ## The end of a body -/

namespace Closing

def parts : Closing ≃ List (Leaf .newline) × Leaf .closeBrace where
  toFun c := (c.newlines, c.brace)
  invFun p := ⟨p.1, p.2⟩
  left_inv _ := rfl
  right_inv _ := rfl

def phrase : Phrase Closing := ((one .newline).rounds (one .closeBrace)).via parts

/-- The brace may be missing. -/
def optional : Phrase (Option Closing) where
  tokens c := c.elim [] phrase.tokens
  Ends
    | none, ts => ts.Past (· ≠ .closeBrace)
    | some _, _ => True

theorem tokens_phrase : phrase.tokens = Closing.tokens := by
  funext c
  exact congrArg (· ++ [c.brace.1]) List.map_eq_flatMap.symm

theorem skipNewlines_tokens (c : Closing) (ts : Tokens) :
    (ts.prepend (phrase.tokens c)).skipNewlines = ts.prepend [c.brace.1] := by
  have hne : c.brace.1.kind ≠ .newline := by
    rw [c.brace.2]
    decide
  rw [tokens_phrase, Closing.tokens, Tokens.prepend_append, Tokens.skipNewlines_prepend]
  · exact Tokens.skipNewlines_of_ne hne ts.list ts.error?
  · intro n hn
    obtain ⟨m, -, rfl⟩ := List.mem_map.mp hn
    exact m.2

theorem past_tokens (c : Closing) (ts : Tokens) :
    (ts.prepend (phrase.tokens c)).Past (· = .closeBrace) := by
  rw [Tokens.Past, skipNewlines_tokens]
  exact ⟨_, _, rfl, c.brace.2⟩

theorem definite_phrase : phrase.Definite fun k => k = .newline ∨ k = .closeBrace :=
  ((definite_one (by decide)).rounds (definite_one (by decide)) (by
    rintro _ rfl
    decide)).via parts

theorem ends_phrase (c : Closing) (ts : Tokens) : phrase.Ends c ts := by
  have hnewline : (one .newline).Fits (fun _ => True) fun _ => True :=
    fun _ _ _ => ⟨trivial, trivial⟩
  have hbrace : (one .closeBrace).Fits (fun _ => True) fun _ => True :=
    fun _ _ _ => ⟨trivial, trivial⟩
  exact ((hnewline.rounds hbrace).via parts c trivial).1

/-- A closed body and an unclosed one differ in the first token that is no line end. -/
theorem not_past_of_prepend {c : Closing} {ts ts' : Tokens} (h : ts'.Past (· ≠ .closeBrace)) :
    ts.prepend (phrase.tokens c) ≠ ts' := by
  rintro rfl
  obtain ⟨k, hk, hk'⟩ := Tokens.Next.unique (past_tokens c ts) h
  exact hk' hk

theorem definite_optional : optional.Definite fun _ => True where
  starts := by
    rintro (_ | c) ts hd
    · have hts : ts.Past (· ≠ .closeBrace) := hd
      exact hts.next.imp fun _ _ => trivial
    · exact (Tokens.Past.next (past_tokens c ts)).imp fun _ _ => trivial
  endless := by
    rintro (_ | c) t ht
    · cases ht
    · exact definite_phrase.endless c t ht
  unique := by
    rintro (_ | c) (_ | c') ts ts' hd hd' h
    · exact ⟨rfl, h⟩
    · exact absurd h.symm (not_past_of_prepend hd)
    · exact absurd h (not_past_of_prepend hd')
    · obtain ⟨rfl, rfl⟩ := definite_phrase.unique c c' (ends_phrase c ts) (ends_phrase c' ts') h
      exact ⟨rfl, rfl⟩

theorem fits_optional {P : Kind → Prop} (hP : ∀ k, P k → k ≠ .closeBrace) :
    optional.Fits (Tokens.Past P) (Tokens.Next fun k => k = .newline ∨ k = .closeBrace ∨ P k) := by
  rintro (_ | c) ts hts
  · refine ⟨Tokens.Next.imp hts hP, (Tokens.Past.next hts).imp fun k hk => ?_⟩
    exact hk.imp_right .inr
  · refine ⟨trivial, (Tokens.Past.next (past_tokens c ts)).imp fun k hk => ?_⟩
    exact hk.imp_right .inl

end Closing

theorem closeBodyFrom_newlines (e? : Option ScanError) (l : List Token) :
    ∀ (ns ms : List Token), (∀ n ∈ ns, n.kind = .newline) →
      Reader.closeBodyFrom ms.length (⟨ms ++ (ns ++ l), e?⟩ : Tokens) =
        Reader.closeBodyFrom (ms ++ ns).length ⟨ms ++ (ns ++ l), e?⟩
  | [], ms, _ => by rw [List.append_nil]
  | n :: ns, ms, hns => by
      have hpeek : TokenSource.peek (⟨ms ++ (n :: ns ++ l), e?⟩ : Tokens) ms.length =
          (.ok n, ⟨ms ++ (n :: ns ++ l), e?⟩) := by
        simp [TokenSource.peek, Tokens.answer]
      rw [Reader.closeBodyFrom_eq, hpeek]
      have ih := closeBodyFrom_newlines e? l ns (ms ++ [n])
        fun m hm => hns m (List.mem_cons_of_mem n hm)
      simp only [hns n (List.mem_cons_self ..), if_true]
      simpa using ih

theorem closeBody_prepend {ns : List Token} (hns : ∀ n ∈ ns, n.kind = .newline) (ts : Tokens) :
    Reader.closeBody (ts.prepend ns) = Reader.closeBodyFrom ns.length (ts.prepend ns) :=
  closeBodyFrom_newlines ts.error? ts.list ns [] hns

theorem closeBody_of_cons {ts : Tokens} {t : Token} {l : List Token}
    (h : ts.skipNewlines.list = t :: l) :
    Reader.closeBody ts =
      if t.kind = .closeBrace then .ok ((), ⟨l, ts.error?⟩) else .ok ((), ts) := by
  obtain ⟨ns, hns, hts⟩ := ts.exists_newlines
  have hpeek : TokenSource.peek ts ns.length = (.ok t, ts) := by
    rw [hts]
    simp [TokenSource.peek, Tokens.answer, h]
  have hdrop : TokenSource.drop ts (ns.length + 1) = ⟨l, ts.error?⟩ := by
    rw [hts]
    simp [TokenSource.drop, h, List.drop_append]
  rw [hts, closeBody_prepend hns, ← hts, Reader.closeBodyFrom_eq, hpeek]
  simp only [Tokens.kind_ne_of_skipNewlines h, if_false, hdrop]

theorem closeBody_of_nil {ts : Tokens} {e : ScanError} (h : ts.skipNewlines.list = [])
    (he : ts.error? = some e) : Reader.closeBody ts = .error (.scan e) := by
  obtain ⟨ns, hns, hts⟩ := ts.exists_newlines
  have hpeek : TokenSource.peek ts ns.length = (.error e, ts) := by
    have hlen : ts.list.length = ns.length := by rw [hts, Tokens.list_prepend, h, List.append_nil]
    simp [TokenSource.peek, Tokens.answer, ← hlen, he]
  rw [hts, closeBody_prepend hns, ← hts, Reader.closeBodyFrom_eq, hpeek]

theorem exists_closing {ns : List Token} (hns : ∀ n ∈ ns, n.kind = .newline)
    (brace : Leaf .closeBrace) :
    ∃ c : Closing, Closing.phrase.tokens c = ns ++ [brace.1] := by
  refine ⟨⟨ns.attachWith _ hns, brace⟩, ?_⟩
  rw [Closing.tokens_phrase, Closing.tokens, List.attachWith_map_subtype_val]

theorem reads_closeBody : Reads Reader.closeBody Closing.optional (fun _ => ()) where
  complete := by
    rintro (_ | c) ts - hd
    · obtain ⟨t, l, hl, ht⟩ := hd
      exact (closeBody_of_cons hl).trans (if_neg ht)
    · have hskip : (ts.prepend (Closing.phrase.tokens c)).skipNewlines.list =
          c.brace.1 :: ts.list := by
        rw [Closing.skipNewlines_tokens]
        rfl
      exact (closeBody_of_cons hskip).trans (if_pos c.brace.2)
  outcome {ts} hts := by
    obtain ⟨ns, hns, heq⟩ := ts.exists_newlines
    cases h : ts.skipNewlines.list with
    | cons t l =>
        by_cases ht : t.kind = .closeBrace
        · obtain ⟨c, hc⟩ := exists_closing hns ⟨t, ht⟩
          refine .found (some c) ⟨l, ts.error?⟩ ?_ trivial ((closeBody_of_cons h).trans (if_pos ht))
          show ts = Tokens.prepend (Closing.phrase.tokens c) ⟨l, ts.error?⟩
          rw [hc, Tokens.prepend_append, Tokens.prepend, Tokens.prepend, List.singleton_append, ← h]
          exact heq
        · exact .found none ts rfl ⟨t, l, h, ht⟩ ((closeBody_of_cons h).trans (if_neg ht))
    | nil =>
        have hlist : ts.list = ns := by rw [heq, Tokens.list_prepend, h, List.append_nil]
        obtain ⟨c, hc⟩ := exists_closing hns default
        cases he : ts.error? with
        | some e =>
            refine .cut e (some c) he ?_ (closeBody_of_nil h he)
            rw [hlist]
            exact ⟨_, hc.symm⟩
        | none =>
            obtain ⟨t, ht, hk⟩ := hts he
            rw [hns t (hlist ▸ ht)] at hk
            cases hk

/-- Whether a body is closed shows before a reader of items refuses a token, since that reader goes
past line ends. -/
theorem Closing.localBefore_optional {r : Reader Tokens (List (Option Tree))}
    (hr : ∀ ns e, (∀ n ∈ ns, Token.kind n = .newline) → r ⟨ns, some e⟩ = .error (.scan e)) :
    Closing.optional.LocalBefore r := by
  rintro (_ | c) m l ts ts' hl hl' hrefuses hd
  · have hpast : ts.Past (· ≠ .closeBrace) := hd
    refine hpast.of_isPrefix hl hl' fun hns => ?_
    have hmisfit := hrefuses ⟨l ++ [m.found], some ⟨default, default⟩⟩ (fun h => by cases h)
      (List.prefix_refl _)
    rw [hr _ _ hns] at hmisfit
    cases hmisfit
  · trivial

/-! ## Bodies -/

namespace Body

def parts : Body ≃
    Leaf .openBrace × (List Line × Unit) × Leaf .returnWord × Expression × Option Closing where
  toFun b := (b.opening, (b.lines, ()), b.word, b.result, b.closing?)
  invFun p := ⟨p.1, p.2.1.1, p.2.2.1, p.2.2.2.1, p.2.2.2.2⟩
  left_inv _ := rfl
  right_inv _ := rfl

/-- The lines before the returned expression. -/
def block : Phrase (List Line × Unit) := Line.phrase.rounds (before (· = .returnWord))

def phrase : Phrase Body :=
  ((one .openBrace).seq (block.seq ((one .returnWord).seq
    (Expression.phrase.seq Closing.optional)))).via parts

theorem tokens_phrase : phrase.tokens = Body.tokens := by
  funext b
  simp only [phrase, block, Phrase.via, Phrase.seq, Phrase.rounds, before, one, leaf, parts,
    Closing.optional, Equiv.coe_fn_mk, Body.tokens, Line.tokens_phrase, Expression.tokens_phrase,
    Closing.tokens_phrase]
  simp

theorem definite_block : block.Definite fun k => Line.Starts k ∨ k = .returnWord :=
  Line.definite_phrase.rounds (definite_before _) (by
    rintro _ h rfl
    revert h
    decide)

theorem local_block : block.Local := Line.local_phrase.rounds (local_before _)

theorem definite_phrase : phrase.Definite (· = .openBrace) :=
  ((definite_one (by decide)).seq (definite_block.seq ((definite_one (by decide)).seq
    (Expression.definite_phrase.seq Closing.definite_optional)))).via parts

theorem localBefore_phrase {r : Reader Tokens (List (Option Tree))}
    (h : Closing.optional.LocalBefore r) : phrase.LocalBefore r :=
  (LocalBefore.seq (local_one _) (LocalBefore.seq local_block (LocalBefore.seq (local_one _)
    (LocalBefore.seq Expression.local_phrase h)))).via parts

theorem fits_phrase {P : Kind → Prop} (hP : ∀ k, P k → k ≠ .closeBrace ∧ ¬ Expression.Continues k) :
    phrase.Fits (Tokens.Past P) (Tokens.Next (· = .openBrace)) := by
  have hline : Line.phrase.Fits (Tokens.Next fun k => Line.Starts k ∨ k = .returnWord)
      (Tokens.Next fun k => Line.Starts k ∨ k = .returnWord) := by
    refine Line.fits_phrase (fun _ h => h.imp ?_) (fun _ h => h.imp ?_) fun n ts _ => ?_
    · rintro k ((rfl | rfl | rfl) | rfl) <;> decide
    · rintro k (rfl | rfl) <;> decide
    · exact ⟨n.1, ts.list, rfl, .inl (.inr (.inr n.2))⟩
  have hblock : block.Fits (Tokens.Next (· = .returnWord)) fun _ => True :=
    (hline.rounds ((fits_before _).imp (fun _ h => h) fun _ h => h.imp fun _ => .inr)).imp
      (fun _ h => h) fun _ _ => trivial
  have hclosing := (Closing.fits_optional fun k hk => (hP k hk).1).imp (fun _ h => h)
    fun ts h => Tokens.Next.imp h (Q := fun k => ¬ Expression.Continues k) (by
      rintro k (rfl | rfl | hk)
      · decide
      · decide
      · exact (hP k hk).2)
  exact ((fits_one _ _).seq
    (hblock.seq ((fits_one _ _).seq (Expression.fits_phrase.seq hclosing)))).via parts

end Body

theorem reads_bodyItem :
    Reads Reader.bodyItem (Line.phrase.alt (before (· = .returnWord)))
      (Sum.elim (fun d => some d.tree?) fun _ => none) := by
  refine ((branch_line ?_ ?_ ?_).alt (Branch.of_before ?_)).reads .bodyStatement ?_ fun e => rfl
  · intro t l e? ht
    simp only [Reader.bodyItem, Reader.peek_bind, ht, if_true]
  · intro t l e? ht
    simp only [Reader.bodyItem, Reader.peek_bind, ht, reduceCtorEq, if_false, if_true]
  · intro t l e? ht
    simp only [Reader.bodyItem, Reader.peek_bind, ht, reduceCtorEq, if_false, if_true]
    rfl
  · intro t l e? ht
    simp only [Reader.bodyItem, Reader.peek_bind, ht, reduceCtorEq, if_false, if_true]
    rfl
  · intro t l e? ht
    simp only [Line.Starts, not_or] at ht
    simp only [Reader.bodyItem, Reader.peek_bind, ht, if_false]
    rfl

theorem reads_block :
    Reads (Reader.many Reader.bodyItem Reader.advances_bodyItem) Body.block
      (fun d => d.1.map Line.tree?) :=
  reads_bodyItem.many Line.definite_phrase (Line.local_phrase.localBefore _)

/-- Behind the lines of a body there is nothing to take but the word before the returned
expression. -/
theorem block_bind_next {α : Type} (f : List (Option Tree) → Token → Reader Tokens α)
    {ts : Tokens} (hts : ts.Closed) :
    (do
      let items ← Reader.many Reader.bodyItem Reader.advances_bodyItem
      let word ← Reader.next
      f items word) ts =
    (do
      let items ← Reader.many Reader.bodyItem Reader.advances_bodyItem
      let word ← Reader.expect .returnWord .bodyStatement
      f items word) ts := by
  refine reads_block.bind_eq Body.definite_block ?_ hts
  rintro ⟨ls, _⟩ ⟨l, e?⟩ - hd
  obtain ⟨t, l, rfl, ht⟩ := EndsAll.last hd
  rw [Reader.next_bind, Reader.expect_bind _ ht]

theorem reads_body : Reads Reader.body Body.phrase Body.tree := by
  have h : Reads (do
        let mark ← Reader.expect .openBrace .openBrace
        let items ← Reader.many Reader.bodyItem Reader.advances_bodyItem
        let word ← Reader.expect .returnWord .bodyStatement
        let e ← Reader.expression
        Reader.closeBody
        return .node .body mark (items.filterMap id ++ [.node .result word [e]]))
      Body.phrase Body.tree := by
    refine Reads.via Body.parts ?_
    refine (reads_expect _ _).bind (definite_one (by decide)) (local_one _) fun mark => ?_
    refine reads_block.bind Body.definite_block Body.local_block fun lines => ?_
    refine (reads_expect _ _).bind (definite_one (by decide)) (local_one _) fun word => ?_
    refine reads_expression.bind Expression.definite_phrase Expression.local_phrase fun e => ?_
    rw [List.filterMap_map]
    exact reads_closeBody.map fun _ => _
  refine h.congr fun ts hts => ?_
  exact (reads_expect _ _).bind_eq (definite_one (by decide))
    (fun mark ts' hts' _ => block_bind_next _ hts') hts

/-! ## Functions -/

namespace Function

def parts : Function ≃ Leaf .funcWord × Leaf .symbol × SymbolList × Body where
  toFun f := (f.word, f.name, f.params, f.body)
  invFun p := ⟨p.1, p.2.1, p.2.2.1, p.2.2.2⟩
  left_inv _ := rfl
  right_inv _ := rfl

def phrase : Phrase Function :=
  ((one .funcWord).seq ((one .symbol).seq (SymbolList.phrase.seq Body.phrase))).via parts

theorem tokens_phrase : phrase.tokens = Function.tokens := by
  funext f
  simp only [phrase, Phrase.via, Phrase.seq, one, leaf, parts, Equiv.coe_fn_mk, Function.tokens,
    SymbolList.tokens_phrase, Body.tokens_phrase]
  simp

theorem definite_phrase : phrase.Definite (· = .funcWord) :=
  ((definite_one (by decide)).seq ((definite_one (by decide)).seq
    (SymbolList.definite_phrase.seq Body.definite_phrase))).via parts

theorem localBefore_phrase {r : Reader Tokens (List (Option Tree))}
    (h : Closing.optional.LocalBefore r) : phrase.LocalBefore r :=
  (LocalBefore.seq (local_one _) (LocalBefore.seq (local_one _)
    (LocalBefore.seq SymbolList.local_phrase (Body.localBefore_phrase h)))).via parts

theorem fits_phrase {P : Kind → Prop} (hP : ∀ k, P k → k ≠ .closeBrace ∧ ¬ Expression.Continues k) :
    phrase.Fits (Tokens.Past P) (Tokens.Next (· = .funcWord)) :=
  ((fits_one _ _).seq
    ((fits_one _ _).seq ((SymbolList.fits_phrase _).seq (Body.fits_phrase hP)))).via parts

end Function

/-! ## Programs -/

namespace Item

def parts : Item ≃ Line ⊕ Function where
  toFun
    | .line l => .inl l
    | .function f => .inr f
  invFun
    | .inl l => .line l
    | .inr f => .function f
  left_inv i := by cases i <;> rfl
  right_inv i := by cases i <;> rfl

def phrase : Phrase Item := (Line.phrase.alt Function.phrase).via parts

theorem tokens_phrase : phrase.tokens = Item.tokens := by
  funext i
  cases i with
  | line l => exact congrFun Line.tokens_phrase l
  | function f => exact congrFun Function.tokens_phrase f

abbrev Starts (k : Kind) : Prop := Line.Starts k ∨ k = .funcWord

theorem definite_phrase : phrase.Definite Starts :=
  (Line.definite_phrase.alt Function.definite_phrase (by
    rintro _ h rfl
    revert h
    decide)).via parts

theorem localBefore_phrase {r : Reader Tokens (List (Option Tree))}
    (h : Closing.optional.LocalBefore r) : phrase.LocalBefore r :=
  ((Line.local_phrase.localBefore r).alt (Function.localBefore_phrase h)).via parts

end Item

theorem reads_programItem :
    Reads Reader.programItem (Item.phrase.alt (before (· = .endOfText)))
      (Sum.elim (fun d => some d.tree?) fun _ => none) := by
  have hfunction : Reads (do
        let _ ← Reader.expect .funcWord .statement
        let name ← Reader.expect .symbol .functionName
        let params ← Reader.symbolList .params .param .parameter
        let b ← Reader.body
        return some (some (.node .function name [params, b])))
      Function.phrase (fun f => some (some f.tree)) := by
    refine Reads.via Function.parts ?_
    refine (reads_expect _ _).bind (definite_one (by decide)) (local_one _) fun word => ?_
    refine (reads_expect _ _).bind (definite_one (by decide)) (local_one _) fun name => ?_
    refine (reads_symbolList _ _ _).bind SymbolList.definite_phrase SymbolList.local_phrase
      fun params => ?_
    exact reads_body.map _
  refine ((Branch.via Item.parts ((branch_line ?_ ?_ ?_).alt
    (Branch.of_reads hfunction Function.definite_phrase ?_))).alt (Branch.of_before ?_)).reads
      .statement ?_ fun e => rfl
  · intro t l e? ht
    simp only [Reader.programItem, Reader.peek_bind, ht, if_true]
  · intro t l e? ht
    simp only [Reader.programItem, Reader.peek_bind, ht, reduceCtorEq, if_false, if_true]
  · intro t l e? ht
    simp only [Reader.programItem, Reader.peek_bind, ht, reduceCtorEq, if_false, if_true]
    rfl
  · intro t l e? ht
    simp only [Reader.programItem, Reader.function, Reader.peek_bind, ht, reduceCtorEq, if_false,
      if_true, bind_assoc, pure_bind, Reader.drop_bind, Reader.expect_bind _ ht]
  · intro t l e? ht
    simp only [Reader.programItem, Reader.peek_bind, ht, reduceCtorEq, if_false, if_true]
    rfl
  · intro t l e? ht
    simp only [Line.Starts, not_or] at ht
    simp only [Reader.programItem, Reader.peek_bind, ht, if_false]
    rfl

theorem many_programItem_newlines (e : ScanError) :
    ∀ ns : List Token, (∀ n ∈ ns, n.kind = .newline) →
      Reader.many Reader.programItem Reader.advances_programItem (⟨ns, some e⟩ : Tokens) =
        .error (.scan e)
  | [], _ => Reader.many_of_error _ rfl
  | n :: ns, hns => by
      have hn := hns n (List.mem_cons_self ..)
      have hitem : Reader.programItem (⟨n :: ns, some e⟩ : Tokens) =
          .ok (some none, ⟨ns, some e⟩) := by
        simp only [Reader.programItem, Reader.peek_bind, hn, reduceCtorEq, if_false, if_true]
        rfl
      rw [Reader.many_of_some _ hitem, Reader.bind_of_error]
      exact many_programItem_newlines e ns fun m hm => hns m (List.mem_cons_of_mem n hm)

/-- What a program is before its end of text. -/
def Item.sequence : Phrase (List Item × Unit) := Item.phrase.rounds (before (· = .endOfText))

theorem Item.definite_sequence : Item.sequence.Definite fun k => Item.Starts k ∨ k = .endOfText :=
  Item.definite_phrase.rounds (definite_before _) (by
    rintro _ h rfl
    revert h
    decide)

theorem reads_program :
    Reads Reader.program Item.sequence
      (fun d => .node .root .nowhere (d.1.filterMap Item.tree?)) := by
  have hitems : Reads (Reader.many Reader.programItem Reader.advances_programItem) Item.sequence
      (fun d => d.1.map Item.tree?) :=
    reads_programItem.many Item.definite_phrase (Item.localBefore_phrase
      (Closing.localBefore_optional fun ns e => many_programItem_newlines e ns))
  have h := hitems.map fun is => Tree.node .root .nowhere (is.filterMap id)
  simp only [List.filterMap_map] at h
  exact h

/-- Behind line ends there is a statement, a function or the end of the text. -/
abbrev Settled : Tokens → Prop :=
  Tokens.Past fun k => k = .printWord ∨ k = .symbol ∨ k = .funcWord ∨ k = .endOfText

theorem Item.fits_phrase : Item.phrase.Fits Settled Settled := by
  have hline : Line.phrase.Fits Settled Settled := by
    refine Line.fits_phrase (fun _ h => h.next.imp ?_) (fun ts h => ?_) fun n ts h => h.prepend ?_
    · rintro k (rfl | rfl | rfl | rfl | rfl) <;> decide
    · refine (h.imp ?_).past ?_
      · rintro k (rfl | rfl) <;> decide
      · rintro k (rfl | rfl | rfl | rfl) <;> decide
    · intro m hm
      rw [List.mem_singleton.mp hm]
      exact n.2
  have hfunction : Function.phrase.Fits Settled Settled := by
    refine (Function.fits_phrase ?_).imp (fun _ h => h) fun ts h => (h.imp ?_).past ?_
    · rintro k (rfl | rfl | rfl | rfl) <;> decide
    · rintro k rfl
      decide
    · rintro k (rfl | rfl | rfl | rfl) <;> decide
  exact (hline.alt hfunction).via Item.parts

theorem Item.ends_sequence (is : List Item) {ts : Tokens} (hts : ts.Next (· = .endOfText)) :
    Item.sequence.Ends (is, ()) ts := by
  have hend : (before (· = .endOfText)).Fits (Tokens.Next (· = .endOfText)) Settled :=
    (fits_before _).imp (fun _ h => h) fun ts h => (h.imp fun _ h => .inr (.inr (.inr h))).past (by
      rintro k (rfl | rfl | rfl | rfl) <;> decide)
  exact (Item.fits_phrase.rounds hend (is, ()) hts).1

end Grammar

end IntScript
