import IntScript.Proofs.Parse.Looks
import IntScript.Proofs.Token.Partition

/-!
# Loops that end

A loop is given by what one turn does: from a state it leads to another state, or to a result.
`Turns turn s n x` says that the loop takes `n` turns from `s` and that `x` comes out.  These are
the loops of scanning and reading, and why they end:

| loop | one turn | every turn but the last |
| :-- | :-- | :-- |
| scanning a text | `Scanner.drainTurn` | takes characters |
| a look ahead | `Window.peekTurn` | puts a token into the queue |
| statements, lines of a body, symbols of a list, operations | `Reader.manyTurn` | removes tokens |
| looking for the brace of a body | `Reader.braceTurn` | goes past a line end |

A scanner never runs dry: at the end of the text it gives one end of text after the other.  So it is
not enough that a round removes tokens, they have to be tokens that can be used up.  They are,
because what a round removes is a derivation of the grammar, and in a derivation there is no end of
text (`Reader.removes_of_reads`).
-/

namespace IntScript

/-- From a state a loop comes to a result after a number of turns. -/
inductive Turns {σ ρ : Type} (turn : σ → σ ⊕ ρ) : σ → Nat → ρ → Prop
  | last {s : σ} {x : ρ} : turn s = .inr x → Turns turn s 1 x
  | again {s s' : σ} {n : Nat} {x : ρ} :
      turn s = .inl s' → Turns turn s' n x → Turns turn s (n + 1) x

/-! ## Scanning -/

namespace Scanner

/-- What one answer of a scanner does: it fails, it is at the end, or it takes characters. -/
inductive Moves (s : Scanner) : Prop
  | failed (e : ScanError) : s.next.1 = .error e → Moves s
  | ended : s.skipGap.rest = [] →
      s.next = (.ok ⟨.endOfText, "", s.skipGap.pos⟩, s.skipGap) → Moves s
  | advanced (cs : List Char) : cs ≠ [] → s.rest = cs ++ s.next.2.rest → Moves s

theorem moves (s : Scanner) : s.Moves := by
  have hgap : s.rest = s.rest.takeWhile isGap ++ s.skipGap.rest :=
    List.takeWhile_append_dropWhile.symm
  have htakes := s.takes_next
  have hrest := htakes.rest_eq
  generalize hnext : s.next = r at htakes hrest
  -- what is taken besides the gap in front decides
  have hadvanced (h : taken r.1 ≠ []) : s.Moves := by
    refine .advanced (s.rest.takeWhile isGap ++ taken r.1) (by simp [h]) ?_
    rw [hnext, List.append_assoc, ← hrest]
    exact hgap
  cases htakes with
  | ending hend => exact .ended hend hnext
  | sign => exact hadvanced (by rw [taken_sign]; exact List.cons_ne_nil _ _)
  | run run _ hlongest => exact hadvanced (by rw [taken_run]; exact hlongest.ne_nil)
  | nothing => exact .failed _ (by rw [hnext])

/-- One turn of scanning everything. -/
def drainTurn : List Token × Scanner → (List Token × Scanner) ⊕ (Tokens × Scanner)
  | (ts, s) =>
    match s.next with
    | (.error e, s') => .inr (⟨ts, some e⟩, s')
    | (.ok t, s') =>
      if t.kind = .endOfText then .inr (⟨ts ++ [t], none⟩, s') else .inl (ts ++ [t], s')

theorem exists_turns_drain (s : Scanner) (ts : List Token) :
    ∃ n ≤ s.rest.length + 1,
      Turns drainTurn (ts, s) n (s.drain.1.prepend ts, s.drain.2) := by
  fun_induction drain s generalizing ts with
  | case1 s e s' h =>
      refine ⟨1, by omega, .last ?_⟩
      simp only [drainTurn, h, Tokens.prepend, List.append_nil]
  | case2 s t s' h ht =>
      refine ⟨1, by omega, .last ?_⟩
      simp only [drainTurn, h, if_pos ht, Tokens.prepend]
  | case3 s t s' h ht us last hd ih =>
      obtain ⟨n, hn, hturns⟩ := ih (ts ++ [t])
      have hlt := length_lt_of_next h ht
      have hturn : drainTurn (ts, s) = .inl (ts ++ [t], s') := by
        simp only [drainTurn, h, if_neg ht]
      refine ⟨n + 1, by omega, .again hturn ?_⟩
      rw [hd] at hturns
      simpa only [Tokens.prepend, List.append_assoc, List.singleton_append] using hturns

theorem length_drain_le (s : Scanner) : s.drain.1.list.length ≤ s.rest.length + 1 := by
  fun_induction drain s with
  | case1 => exact Nat.zero_le _
  | case2 => exact Nat.le_add_left ..
  | case3 s t s' h ht us last hd ih =>
      have hlt := length_lt_of_next h ht
      rw [hd] at ih
      exact Nat.succ_le_succ (Nat.le_trans ih hlt)

end Scanner

/-! ## Looking -/

namespace Window

/-- One turn of a look `i` places ahead. -/
def peekTurn (i : Nat) (w : Window) : Window ⊕ (Except ScanError Token × Window) :=
  match w.queue[i]?, w.closing?, w.error? with
  | some t, _, _ => .inr (.ok t, w)
  | none, some t, _ => .inr (.ok t, w)
  | none, none, some e => .inr (.error e, w)
  | none, none, none =>
    match w.scanner.next with
    | (.error e, s) => .inr (.error e, { w with scanner := s, error? := some e })
    | (.ok t, s) => .inl { w with scanner := s, queue := w.queue ++ [t] }

/-- Every turn but the last puts a token into the queue. -/
theorem exists_turns_peek (w : Window) (i : Nat) :
    ∃ n ≤ i + 1 - w.queue.length + 1, Turns (peekTurn i) w n (w.peek i) := by
  fun_induction peek w i with
  | case1 w t hq => exact ⟨1, by omega, .last (by simp only [peekTurn, hq])⟩
  | case2 w hq t hc => exact ⟨1, by omega, .last (by simp only [peekTurn, hq, hc])⟩
  | case3 w hq e he hc => exact ⟨1, by omega, .last (by simp only [peekTurn, hq, hc, he])⟩
  | case4 w hq he hc e s hs =>
      exact ⟨1, by omega, .last (by simp only [peekTurn, hq, hc, he, hs])⟩
  | case5 w hq he hc t s hs ih =>
      obtain ⟨n, hn, hturns⟩ := ih
      have hlen := List.getElem?_eq_none_iff.mp hq
      rw [List.length_append, List.length_singleton] at hn
      exact ⟨n + 1, by omega, .again (by simp only [peekTurn, hq, hc, he, hs]) hturns⟩

theorem closed_ahead (w : Window) : w.ahead.Closed := by
  cases hc : w.closing? with
  | some t =>
      obtain ⟨hlast, ht⟩ := closing?_eq_some hc
      rw [ahead_of_closing hc]
      exact fun _ => ⟨t, List.mem_of_getLast? hlast, ht⟩
  | none =>
      cases he : w.error? with
      | some e =>
          rw [ahead_of_error hc he]
          rintro ⟨⟩
      | none =>
          rw [ahead_of_scanner hc he]
          exact w.scanner.finished_drain.closed.prepend _

end Window

namespace Reader

/-! ## Rounds -/

/-- One turn of a repetition, with what has been found so far. -/
def manyTurn {σ α : Type} (r : Reader σ (Option α)) :
    List α × σ → (List α × σ) ⊕ Except ParseError (List α × σ)
  | (as, s) =>
    match r s with
    | .error e => .inr (.error e)
    | .ok (none, s') => .inr (.ok (as, s'))
    | .ok (some a, s') => .inl (as ++ [a], s')

/-- What a round does to the tokens ahead: it removes some from the front, at least one if it finds
something, and never an end of text. -/
def Removes {α : Type} (r : Reader Window (Option α)) : Prop :=
  ∀ {w w' : Window} {a : Option α}, w.Tidy → r w = .ok (a, w') →
    w'.Tidy ∧ ∃ l, (a.isSome → l ≠ []) ∧ (∀ t ∈ l, t.kind ≠ .endOfText) ∧
      w.ahead = w'.ahead.prepend l

section

variable {α : Type} {r : Reader Window (Option α)}

theorem Removes.exists_turns (h : Removes r) (hr : Advances r) {w : Window} (hw : w.Tidy)
    (as : List α) :
    ∃ n ≤ w.ahead.list.length + 1,
      Turns (manyTurn r) (as, w) n ((many r hr w).map fun x => (as ++ x.1, x.2)) := by
  -- not on the size of the window, which counts characters: on the tokens ahead
  induction hlength : w.ahead.list.length using Nat.strongRecOn generalizing w as with
  | ind length ih =>
      rcases hround : r w with e | ⟨_ | a, w'⟩
      · refine ⟨1, by omega, .last ?_⟩
        rw [many_of_error hr hround]
        simp only [manyTurn, hround, Except.map]
      · refine ⟨1, by omega, .last ?_⟩
        rw [many_of_none hr hround]
        simp only [manyTurn, hround, Except.map, List.append_nil]
      · obtain ⟨htidy, l, hl, -, hahead⟩ := h hw hround
        have hlt : w'.ahead.list.length < length := by
          have hpos := List.length_pos_iff.mpr (hl rfl)
          rw [← hlength, hahead, Tokens.list_prepend, List.length_append]
          omega
        obtain ⟨n, hn, hturns⟩ := ih _ hlt htidy (as ++ [a]) rfl
        have hturn : manyTurn r (as, w) = .inl (as ++ [a], w') := by simp only [manyTurn, hround]
        refine ⟨n + 1, by omega, .again hturn ?_⟩
        rw [many_of_some hr hround]
        rcases hrest : many r hr w' with e | ⟨bs, w''⟩
        · rw [bind_of_error hrest]
          rwa [hrest] at hturns
        · rw [bind_of_ok hrest]
          simp only [hrest, Except.map, List.append_assoc, List.singleton_append] at hturns
          exact hturns

end

/-- A repetition that ends: its rounds remove tokens, so beside the last round there are at most as
many as there are tokens ahead. -/
structure Ends {α : Type} (r : Reader Window (Option α)) (hr : Advances r) : Prop where
  removes : Removes r
  turns {w : Window} : w.Tidy →
    ∃ n ≤ w.ahead.list.length + 1, Turns (manyTurn r) ([], w) n (many r hr w)

section

open Grammar Phrase

variable {δ ε α β : Type} {r : Reader Window (Option α)} {r' : Reader Tokens (Option β)}

theorem Removes.ends (h : Removes r) (hr : Advances r) : Ends r hr where
  removes := h
  turns {w} hw := by
    obtain ⟨n, hn, hturns⟩ := h.exists_turns hr hw []
    refine ⟨n, hn, ?_⟩
    cases hmany : many r hr w <;> rw [hmany] at hturns <;> exact hturns

/-- A round that reads through a window as it does from a finished list, and reads a derivation
there, removes the tokens of the derivation. -/
theorem removes_of_reads {A : α → β → Prop} {N : Window → Prop} {p : Phrase δ} {q : Phrase ε}
    {v : δ ⊕ ε → Option β} {P Q : Kind → Prop} (hr' : Advances r')
    (halike : ∀ {w ts}, Window.Shows w ts →
      Alike Eq Eq (fun x y => Both (Option.Rel A) Window.Shows x y ∧ (x.1 = none → N x.2))
        (r w) (r' ts))
    (hreads : Reads r' (p.alt q) v) (hp : p.Definite P) (hq : q.Definite Q) : Removes r := by
  intro w w' a hw hround
  -- the same round from the finished list of what is ahead
  rcases (halike ⟨hw, rfl⟩).exists_of with ⟨x, y, hx, hy, hboth, -⟩ | ⟨d, e, hd, -, -⟩
  · cases hx.symm.trans hround
    obtain ⟨b, ts'⟩ := y
    obtain ⟨hrel, htidy, hahead⟩ := hboth
    have hlt (ha : a.isSome) : ts'.list.length < w.ahead.list.length := by
      refine (hr' _ _ _ hy).2 ?_
      cases hrel with
      | none => cases ha
      | some _ => rfl
    cases hreads.outcome w.closed_ahead with
    | found d ts₁ hd _ hok =>
        cases hok.symm.trans hy
        have hendless : ∀ t ∈ (p.alt q).tokens d, t.kind ≠ .endOfText := by
          cases d with
          | inl d => exact hp.endless d
          | inr e => exact hq.endless e
        refine ⟨htidy, (p.alt q).tokens d, ?_, hendless, hd.trans (congrArg _ hahead.symm)⟩
        intro ha hnil
        have hlt := hlt ha
        rw [hd, hnil] at hlt
        exact Nat.lt_irrefl _ hlt
    | cut e d _ _ herr => cases herr.symm.trans hy
    | refused m l d hm _ hall => cases (hall _ w.closed_ahead hm).symm.trans hy
  · cases hd.symm.trans hround

theorem ends_programItem : Ends programItem advances_programItem :=
  Removes.ends (removes_of_reads advances_programItem Window.simulation_shows.programItem
    reads_programItem Item.definite_phrase (definite_before _)) _

theorem ends_bodyItem : Ends bodyItem advances_bodyItem :=
  Removes.ends (removes_of_reads advances_bodyItem Window.simulation_shows.bodyItem
    reads_bodyItem Line.definite_phrase (definite_before _)) _

theorem ends_listItem (x : Expected) : Ends (listItem x) (advances_listItem x) :=
  Removes.ends (removes_of_reads (advances_listItem x) (Window.simulation_shows.listItem x)
    (reads_listItem x) SymbolList.definite_other (definite_one (by decide))) _

/-- The operand reads a phrase, and it reads through a window as it does from a finished list. -/
structure IsOperand (operand : Reader Window Tree) (operand' : Reader Tokens Tree) (p : Phrase δ)
    (tree : δ → Tree) (P : Kind → Prop) : Prop where
  progresses : Progresses operand'
  alike {w : Window} {ts : Tokens} : w.Shows ts →
    Alike Eq Eq (Both (Tree.Alike Eq) Window.Shows) (operand w) (operand' ts)
  reads : Reads operand' p tree
  definite : p.Definite P
  isLocal : p.Local

theorem isOperand_atom :
    IsOperand atom atom Atom.phrase Atom.tree fun k => k = .integer ∨ k = .symbol :=
  ⟨progresses_atom, Window.simulation_shows.atom, reads_atom, Atom.definite_phrase,
    Atom.local_phrase⟩

namespace IsOperand

variable {operand : Reader Window Tree} {operand' : Reader Tokens Tree} {p : Phrase δ}
  {tree : δ → Tree} {P : Kind → Prop}

theorem chain [Nonempty δ] (h : IsOperand operand operand' p tree P) (ho : Progresses operand)
    (level : Level) :
    IsOperand (chain level operand ho) (chain level operand' h.progresses)
      (Chain.phrase level p) (Chain.tree tree) P :=
  ⟨progresses_chain _ _, Window.simulation_shows.chain level h.alike,
    reads_chain level h.progresses h.reads h.definite h.isLocal, Chain.definite_phrase h.definite,
    Chain.local_phrase h.isLocal⟩

theorem ends [Nonempty δ] (h : IsOperand operand operand' p tree P) (ho : Progresses operand)
    (level : Level) : Ends (operation level operand) (advances_operation level ho) :=
  Removes.ends (removes_of_reads (advances_operation level h.progresses)
    (Window.simulation_shows.operation level h.alike) (reads_operation level h.reads h.definite)
    (Chain.definite_step h.definite) (definite_before _)) _

end IsOperand

end

/-- What stands between the marks of a level. -/
def operand {σ : Type} [TokenSource σ] : Level → Reader σ Tree
  | .sum => product
  | .product => power
  | .power => atom

theorem progresses_operand {σ : Type} [TokenSource σ] (level : Level) :
    Progresses (operand level : Reader σ Tree) := by
  have hatom : Progresses (atom : Reader σ Tree) := progresses_atom
  have hpower := progresses_chain .power hatom
  cases level with
  | sum => exact progresses_chain .product hpower
  | product => exact hpower
  | power => exact hatom

theorem ends_operation (level : Level) :
    Ends (operation level (operand level))
      (advances_operation level (progresses_operand level)) := by
  have hpower := isOperand_atom.chain progresses_atom .power
  cases level with
  | sum => exact (hpower.chain (progresses_chain _ _) .product).ends (progresses_chain _ _) .sum
  | product => exact hpower.ends (progresses_chain _ _) .product
  | power => exact isOperand_atom.ends progresses_atom .power

/-! ## The brace of a body -/

/-- One turn of looking for the brace that closes a body. -/
def braceTurn : Nat × Window → (Nat × Window) ⊕ Except ParseError (Unit × Window)
  | (k, w) =>
    match w.peek k with
    | (.error e, _) => .inr (.error (.scan e))
    | (.ok t, w') =>
      if t.kind = .newline then .inl (k + 1, w')
      else .inr (.ok ((), if t.kind = .closeBrace then w'.drop (k + 1) else w'))

theorem turns_closeBodyFrom {w : Window} {i k : Nat} (hw : w.Tidy) (hk : w.ahead.newlines = i + k) :
    Turns braceTurn (i, w) (k + 1) (closeBodyFrom i w) := by
  have hsource (v : Window) (j : Nat) : TokenSource.peek v j = v.peek j := rfl
  induction k generalizing w i with
  | zero =>
      refine .last ?_
      rw [closeBodyFrom_eq, hsource]
      rcases hpeek : w.peek i with ⟨e | t, w₁⟩
      · simp only [braceTurn, hpeek]
      · have ht : t.kind ≠ .newline :=
          Window.kind_of_peek_newlines hw (by rw [hk, Nat.add_zero, hpeek])
        simp only [braceTurn, hpeek, if_neg ht]
        split <;> rfl
  | succ k ih =>
      obtain ⟨-, hahead, htidy⟩ := Window.peek_spec hw i
      obtain ⟨t, hpeek, hkind⟩ := Window.peek_of_lt_newlines (i := i) hw (by omega)
      have hturn : braceTurn (i, w) = .inl (i + 1, (w.peek i).2) := by
        rw [braceTurn, hpeek]
        simp only [if_pos hkind]
      refine .again hturn ?_
      rw [closeBodyFrom_eq, hsource, hpeek]
      simp only [if_pos hkind]
      exact ih htidy (by rw [hahead, hk]; omega)

end Reader

/-- The first token ahead that is no line end is `k` places ahead, if no error stands there. -/
structure Window.FirstOther (w : Window) (k : Nat) : Prop where
  le : k ≤ w.ahead.list.length
  newline {i : Nat} : i < k → ∃ t, (w.peek i).1 = .ok t ∧ t.kind = .newline
  other {t : Token} : (w.peek k).1 = .ok t → t.kind ≠ .newline

theorem Window.firstOther_newlines {w : Window} (hw : w.Tidy) : w.FirstOther w.ahead.newlines where
  le := w.ahead.newlines_le
  newline hi := by
    obtain ⟨t, hpeek, hkind⟩ := peek_of_lt_newlines hw hi
    exact ⟨t, congrArg Prod.fst hpeek, hkind⟩
  other h := kind_of_peek_newlines hw (Prod.ext h rfl)

/-! ## Scanning and reading -/

namespace Reader

/-- Whatever the bytes and the reserved words are, scanning them ends, all loops of reading end, and
a program is read in at most five looks for each token and one more. -/
theorem scanning_and_reading_end (bs : List UInt8) (kw : Keywords) :
    (∀ s : Scanner, s.Moves) ∧
      (∃ n ≤ (Text.Utf8.decode bs).length + 1,
        Turns Scanner.drainTurn ([], .ofBytes bs kw) n (Scanner.ofBytes bs kw).drain) ∧
      (∀ (w : Window) (i : Nat),
        ∃ n ≤ i + 1 - w.queue.length + 1, Turns (Window.peekTurn i) w n (w.peek i)) ∧
      Ends programItem advances_programItem ∧
      Ends bodyItem advances_bodyItem ∧
      (∀ x, Ends (listItem x) (advances_listItem x)) ∧
      (∀ level, Ends (operation level (operand level))
        (advances_operation level (progresses_operand level))) ∧
      (∀ w : Window, w.Tidy → w.FirstOther w.ahead.newlines ∧
        Turns braceTurn (0, w) (w.ahead.newlines + 1) (closeBody w)) ∧
      (Tokens.ofBytes bs kw).list.length ≤ (Text.Utf8.decode bs).length + 1 ∧
      ∃ c ≤ 5 * (Tokens.ofBytes bs kw).list.length + 1,
        Looks program program (Window.ofBytes bs kw) c := by
  refine ⟨Scanner.moves, (Scanner.ofBytes bs kw).exists_turns_drain [], Window.exists_turns_peek,
    ends_programItem, ends_bodyItem, ends_listItem, ends_operation, ?_,
    (Scanner.ofBytes bs kw).length_drain_le, exists_looks_program (Window.tidy_ofBytes bs kw)⟩
  intro w hw
  exact ⟨Window.firstOther_newlines hw, turns_closeBodyFrom hw (Nat.zero_add _).symm⟩

end Reader

/-- Looking for a brace goes past the word for a line end and stops at the word for the end of the
text, with a brace behind it. -/
theorem scanning_and_reading_end_unwritten :
    let words : Keywords := ⟨[("nl", .newline), ("stop", .endOfText)], by decide⟩
    let bs := "nl \n stop \x7d".toUTF8.toList
    (Window.ofBytes bs words).Tidy ∧
      (Tokens.ofBytes bs words).kinds = [.newline, .newline, .endOfText] ∧
      Turns Reader.braceTurn (0, Window.ofBytes bs words) 3
        (Reader.closeBody (Window.ofBytes bs words)) ∧
      ∃ c ≤ 16, Reader.Looks Reader.program Reader.program (Window.ofBytes bs words) c := by
  intro words bs
  obtain ⟨-, -, -, -, -, -, -, hbrace, -, c, hc, hlooks⟩ :=
    Reader.scanning_and_reading_end bs words
  have htidy := Window.tidy_ofBytes bs words
  have hturns := (hbrace _ htidy).2
  have hnewlines : (Tokens.ofBytes bs words).newlines = 2 := by decide +kernel
  have hlength : (Tokens.ofBytes bs words).list.length = 3 := by decide +kernel
  rw [Window.ahead_ofBytes, hnewlines] at hturns
  rw [hlength] at hc
  exact ⟨htidy, by decide +kernel, hturns, c, hc, hlooks⟩

end IntScript
