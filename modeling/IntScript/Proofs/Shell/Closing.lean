import IntScript.Proofs.Shell.Dialogue

/-!
# When a dialogue stops asking for lines

To close a function is left to whoever writes it.  The parser takes the brace if it is there, and a
program is a program without it.  A dialogue does not know what the parser took; it counts the
braces of the text.

Main statement: both find the same (`Chunk.needsMore_eq_false_iff`).  A text that is a program has
at most as many closing as opening braces, and asks for no more lines just if each of its functions
has a brace that the parser took as the end of that function.
-/

namespace IntScript

namespace Grammar

/-! ## Functions in their places -/

/-- What a function has behind its returned expression. -/
def Function.ending (f : Function) : List Token := f.body.closing?.elim [] Closing.tokens

theorem Function.tokens_eq (f : Function) : f.tokens = f.unclosed.tokens ++ f.ending := by
  simp [tokens, Body.tokens, unclosed, ending]

theorem Function.count_ending (f : Function) :
    (f.ending.map (·.kind)).count .closeBrace = if f.IsClosed then 1 else 0 := by
  cases hc : f.body.closing? with
  | none =>
      rw [ending, hc, if_neg (by simp [IsClosed, hc])]
      rfl
  | some c =>
      rw [ending, hc, if_pos (by simp [IsClosed, hc])]
      exact c.count_tokens (by decide)

/-- The program declares the function, and `rest` is what it has behind it. -/
def Program.Declares (p : Program) (f : Function) (rest : Tokens) : Prop :=
  ∃ is js, p.items = is ++ .function f :: js ∧
    rest = ⟨js.flatMap Item.tokens ++ [p.ending.1], none⟩

section

variable {p : Program} {f : Function} {rest : Tokens} (h : p.Declares f rest)

include h

theorem Program.Declares.closed : rest.Closed := by
  obtain ⟨is, js, -, rfl⟩ := h
  intro _
  exact ⟨p.ending.1, List.mem_append_right _ (List.mem_singleton_self _), p.ending.2⟩

theorem Program.Declares.ends : Function.phrase.Ends f rest := by
  obtain ⟨is, js, hitems, rfl⟩ := h
  have hends : Item.sequence.Ends (p.items, ()) ⟨[p.ending.1], none⟩ :=
    Item.ends_sequence p.items ⟨_, _, rfl, p.ending.2⟩
  rw [hitems] at hends
  have hitem := Phrase.EndsAll.of_append hends
  rw [Item.tokens_phrase, Phrase.before, List.append_nil] at hitem
  exact hitem

theorem Program.Declares.programItem_eq :
    Reader.programItem (rest.prepend (f.unclosed.tokens ++ f.ending)) =
      .ok (some (some f.tree), rest) := by
  have hread := reads_programItem.complete (.inl (.function f)) h.closed h.ends
  rw [← f.tokens_eq, ← Function.tokens_phrase]
  exact hread

theorem Program.Declares.closeBody_eq :
    Reader.closeBody (rest.prepend f.ending) = .ok ((), rest) := by
  obtain ⟨-, -, -, -, -, -, -, hclosing⟩ := h.ends
  have hread := reads_closeBody.complete f.body.closing? h.closed hclosing
  rw [Function.ending, ← Closing.tokens_phrase]
  exact hread

end

/-- The text is read as the program `p`. -/
structure ReadAs (bs : List UInt8) (kw : Keywords) (root : Tree) (p : Program) : Prop where
  tokens_eq : p.tokens = (Tokens.ofBytes bs kw).list
  error?_eq : (Tokens.ofBytes bs kw).error? = none
  tree_eq : p.tree = root
  /-- Each function is read in its place. -/
  function {f : Function} {rest : Tokens} : p.Declares f rest →
    Reader.programItem (rest.prepend (f.unclosed.tokens ++ f.ending)) =
      .ok (some (some f.tree), rest)
  /-- When its returned expression has been read, a brace is taken if the function is closed and
  none if it is not. -/
  closing {f : Function} {rest : Tokens} : p.Declares f rest →
    Reader.closeBody (rest.prepend f.ending) = .ok ((), rest) ∧
      (f.ending.map (·.kind)).count .closeBrace = if f.IsClosed then 1 else 0

theorem existsUnique_readAs {bs : List UInt8} {kw : Keywords} {root : Tree}
    (h : parse bs kw = .ok root) : ∃! p, ReadAs bs kw root p := by
  rw [parse_eq_parse] at h
  obtain ⟨p, hp, he, htree⟩ := exists_program_of_parse (Tokens.finished_ofBytes bs kw) h
  refine ⟨p, ⟨hp, he, htree.symm, ?_, ?_⟩, ?_⟩
  · intro f rest hf
    exact hf.programItem_eq
  · intro f rest hf
    exact ⟨hf.closeBody_eq, f.count_ending⟩
  · intro q hq
    exact Program.eq_of_tokens_eq (hq.tokens_eq.trans hp.symm)

/-- The text has the braces that the program has, for there are none outside of tokens. -/
theorem ReadAs.count_decode {bs : List UInt8} {kw : Keywords} {root : Tree} {p : Program}
    (h : ReadAs bs kw root p) (hkw : kw.Usable) :
    (Text.Utf8.decode bs).count '\x7b' =
        ((p.items.flatMap Item.tokens).map (·.kind)).count .openBrace ∧
      (Text.Utf8.decode bs).count '\x7d' =
        ((p.items.flatMap Item.tokens).map (·.kind)).count .closeBrace := by
  have hkinds : (Tokens.ofBytes bs kw).kinds =
      (p.items.flatMap Item.tokens).map (·.kind) ++ [.endOfText] := by
    rw [← p.kinds_eq, Program.kinds, h.tokens_eq, Tokens.kinds]
  constructor
  · refine (Text.Utf8.count_decode (a := '\x7b'.toUInt8) (by decide) bs).trans ?_
    rw [Chunk.count_openBrace hkw h.error?_eq, hkinds, List.count_append]
    rfl
  · refine (Text.Utf8.count_decode (a := '\x7d'.toUInt8) (by decide) bs).trans ?_
    rw [Chunk.count_closeBrace hkw h.error?_eq, hkinds, List.count_append]
    rfl

end Grammar

namespace Chunk

open Grammar

/-- A text that is a program closes no more braces than it opens.  It asks for no more lines just if
the parser took a closing brace for each of its functions. -/
theorem needsMore_eq_false_iff (settings : Settings) {bs : List UInt8} {root : Tree}
    (h : parse bs settings.reserved = .ok root) :
    (Text.Utf8.decode bs).count '\x7d' ≤ (Text.Utf8.decode bs).count '\x7b' ∧
      ∃ p, ReadAs bs settings.reserved root p ∧ (∀ q, ReadAs bs settings.reserved root q → q = p) ∧
        (needsMore bs settings.reserved = false ↔ ∀ f ∈ functions p.items, f.IsClosed) := by
  obtain ⟨p, hread, hunique⟩ := existsUnique_readAs h
  have hkw := settings.usable_reserved
  obtain ⟨hopen, hclose⟩ := hread.count_decode hkw
  refine ⟨?_, p, hread, hunique, ?_⟩
  · rw [hopen, hclose]
    exact count_closeBrace_le p.items
  · have hkinds : p.kinds = (Tokens.ofBytes bs settings.reserved).kinds :=
      congrArg (List.map Token.kind) hread.tokens_eq
    rw [← Bool.not_eq_true, needsMore_of_kinds_eq hkw hread.error?_eq hkinds]
    push Not
    rfl

/-- Of two functions the second is not closed until one more line is there. -/
theorem needsMore_eq_false_iff_second :
    let kw := Settings.default.reserved
    let text := "func f(a) \x7b return a\n\n\x7d\nfunc g(a) \x7b return f(a)".toUTF8.toList
    let more := text ++ "\n\x7d".toUTF8.toList
    let agrees (bs : List UInt8) : Prop := ∃ root, parse bs kw = .ok root ∧
      (Text.Utf8.decode bs).count '\x7d' ≤ (Text.Utf8.decode bs).count '\x7b' ∧
        ∃ p, ReadAs bs kw root p ∧ (∀ q, ReadAs bs kw root q → q = p) ∧
          (needsMore bs kw = false ↔ ∀ f ∈ functions p.items, f.IsClosed)
    (needsMore text kw = true ∧ agrees text) ∧ needsMore more kw = false ∧ agrees more := by
  intro kw text more agrees
  have hagrees {bs : List UInt8} (hok : (parse bs kw).isOk = true) : agrees bs := by
    cases hparse : parse bs kw with
    | ok root => exact ⟨root, hparse, needsMore_eq_false_iff Settings.default hparse⟩
    | error e =>
        rw [hparse] at hok
        cases hok
  refine ⟨⟨by decide +kernel, hagrees ?_⟩, by decide +kernel, hagrees ?_⟩
  · decide +kernel
  · decide +kernel

end Chunk

end IntScript
