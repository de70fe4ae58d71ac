import IntScript.CommandLine.Run
import IntScript.Proofs.Machine.Lines
import IntScript.Proofs.Machine.Output
import IntScript.Proofs.Text.Decimal
import IntScript.Proofs.Text.Quoted
import IntScript.Proofs.Token.Partition
import IntScript.Proofs.Tree.WellFormed

/-!
# Trees read from outlines

An outline is text: a line for each node, further in for the nodes below it.  Main statement: the
text tells all of the tree but for the kinds of the tokens and the tokens of roots
(`Tree.lines_outline_eq_iff`).  Nothing holds the tree or its tokens to what programs have, but for
one thing: the literal of a token is made of characters.  Bytes that encode no character are outside
of this theory, and no token of a scanned text has any.

The text is read in three steps:

* it falls into lines, for no line has a line end in it, whatever the characters of the token are
  (`CommandLine.lines_inj`);
* a line tells how far in it is, and the form and the token of the node (`Tree.row_inj`).  The
  spaces end at the label, the label at a space, the characters at a quote, and the row at a colon;
* a tree is its first line with the lines that are further in (`Tree.readable`).
-/

namespace IntScript

open Scanner (append_inj_of_forall)

/-! ## Labels -/

namespace Form

theorem known_or_unused (f : Form) : f ∈ known ∨ ∃ n, f = .unused n := by
  cases f with
  | unused n => exact .inr ⟨n, rfl⟩
  | _ => exact .inl (by decide)

theorem toList_label_unused (n : Fin 240) :
    (label (.unused n)).toList = "NodeType(".toList ++ ((16 + n.val).repr.toList ++ [')']) := by
  rw [label]
  simp only [toString, String.toList_append, List.append_assoc]
  rfl

theorem ne_of_mem_label {f : Form} {c : Char} (h : c ∈ f.label.toList) :
    c ≠ ' ' ∧ c ≠ '\n' := by
  rcases f.known_or_unused with hf | ⟨n, rfl⟩
  · have hall : ∀ f ∈ known, ' ' ∉ f.label.toList ∧ '\n' ∉ f.label.toList := by decide
    exact ⟨ne_of_mem_of_not_mem h (hall f hf).1, ne_of_mem_of_not_mem h (hall f hf).2⟩
  · rw [toList_label_unused, List.mem_append, List.mem_append] at h
    rcases h with h | h | h
    · exact ⟨ne_of_mem_of_not_mem h (by decide), ne_of_mem_of_not_mem h (by decide)⟩
    · have hdigit := Text.Decimal.isDigit_of_mem_repr h
      constructor
      · rintro rfl
        cases hdigit
      · rintro rfl
        cases hdigit
    · rw [List.mem_singleton.mp h]
      decide

theorem label_ne_nil (f : Form) : f.label.toList ≠ [] := by
  rcases f.known_or_unused with hf | ⟨n, rfl⟩
  · have hall : ∀ f ∈ known, f.label.toList ≠ [] := by decide
    exact hall f hf
  · rw [toList_label_unused]
    exact List.cons_ne_nil _ _

theorem label_injective : Function.Injective label := by
  have hparen : ∀ f ∈ known, '(' ∉ f.label.toList := by decide
  have hunused (n : Fin 240) : '(' ∈ (label (.unused n)).toList := by
    rw [toList_label_unused]
    exact List.mem_append_left _ (by decide)
  intro f g h
  rcases f.known_or_unused with hf | ⟨m, rfl⟩ <;> rcases g.known_or_unused with hg | ⟨n, rfl⟩
  · have hall : ∀ f ∈ known, ∀ g ∈ known, f.label = g.label → f = g := by decide
    exact hall f hf g hg h
  · exact absurd (h ▸ hunused n) (hparen f hf)
  · exact absurd (h ▸ hunused m) (hparen g hg)
  · have hchars := congrArg String.toList h
    rw [toList_label_unused, toList_label_unused] at hchars
    have hrepr : (16 + m.val).repr.toList = (16 + n.val).repr.toList :=
      List.append_cancel_right (List.append_cancel_left hchars)
    have hnat := congrArg Text.Decimal.nat? hrepr
    rw [Text.Decimal.nat?_repr, Text.Decimal.nat?_repr, Option.some.injEq] at hnat
    rw [Fin.ext (by omega : m.val = n.val)]

end Form

/-! ## Positions -/

theorem Position.toList_short (p : Position) :
    p.short.toList =
      (Text.Decimal.ofInt p.row).toList ++ ':' :: (Text.Decimal.ofInt p.col).toList := by
  rw [short]
  simp only [toString, String.toList_append, List.append_assoc]
  rfl

theorem Position.short_injective : Function.Injective Position.short := by
  intro p q h
  have hnumber {n : Int} : ∀ c ∈ (Text.Decimal.ofInt n).toList, (c != ':') = true := by
    intro c hc
    rw [bne_iff_ne]
    rintro rfl
    exact Text.Decimal.not_mem_ofInt (by decide) rfl n hc
  have hcolon {l : List Char} : ∀ c ∈ (':' :: l).head?, (c != ':') = false := by
    intro c hc
    cases hc
    rfl
  have hchars := congrArg String.toList h
  rw [toList_short, toList_short] at hchars
  obtain ⟨hrow, hcol⟩ := append_inj_of_forall hnumber hnumber hcolon hcolon hchars
  have hrow : p.row = q.row := Text.Decimal.ofInt_injective (String.toList_inj.mp hrow)
  have hcol : p.col = q.col :=
    Text.Decimal.ofInt_injective (String.toList_inj.mp (List.cons.inj hcol).2)
  obtain ⟨row, col⟩ := p
  obtain rfl : row = q.row := hrow
  obtain rfl : col = q.col := hcol
  rfl

namespace Tree

/-! ## Lines -/

/-- The line of a node so many levels in. -/
def row (depth : Nat) (f : Form) (t : Token) : String :=
  "".pushn ' ' (2 * depth) ++ headline f t

theorem outlineAt_node (depth : Nat) (f : Form) (t : Token) (cs : List Tree) :
    outlineAt depth (node f t cs) = row depth f t :: outlinesAt (depth + 1) cs := rfl

/-- What a line shows behind the label. -/
def details (f : Form) (t : Token) : List Char :=
  if f = .root then []
  else ' ' :: ((Text.Quoted.string t.literal).toList ++ (' ' :: '@' :: t.pos.short.toList))

theorem toList_headline (f : Form) (t : Token) :
    (headline f t).toList = f.label.toList ++ details f t := by
  rw [headline, details]
  split
  · rw [List.append_nil]
  · simp [toString]

theorem toList_pushn (c : Char) (n : Nat) : ("".pushn c n).toList = List.replicate n c := by
  rw [String.pushn_eq_repeat_push]
  induction n with
  | zero => rfl
  | succ n ih => rw [Nat.repeat, String.toList_push, ih, List.replicate_succ']

theorem toList_row (depth : Nat) (f : Form) (t : Token) :
    (row depth f t).toList = List.replicate (2 * depth) ' ' ++ (f.label.toList ++ details f t) := by
  rw [row, String.toList_append, toList_pushn, toList_headline]

theorem details_inj {f : Form} {t u : Token} (hf : f ≠ .root) (h : details f t = details f u) :
    t.literal = u.literal ∧ t.pos = u.pos := by
  rw [details, details, if_neg hf, if_neg hf] at h
  obtain ⟨hliteral, hpos⟩ := Text.Quoted.string_append_inj (List.cons.inj h).2
  obtain ⟨-, hpos⟩ := List.cons.inj hpos
  obtain ⟨-, hpos⟩ := List.cons.inj hpos
  exact ⟨hliteral, Position.short_injective (String.toList_inj.mp hpos)⟩

theorem label_details_inj {f g : Form} {t u : Token}
    (h : f.label.toList ++ details f t = g.label.toList ++ details g u) :
    f = g ∧ (f ≠ .root → t.literal = u.literal ∧ t.pos = u.pos) := by
  have hlabel {f : Form} : ∀ c ∈ f.label.toList, (c != ' ') = true := by
    intro c hc
    exact bne_iff_ne.mpr (Form.ne_of_mem_label hc).1
  have hdetails {f : Form} {t : Token} : ∀ c ∈ (details f t).head?, (c != ' ') = false := by
    intro c hc
    unfold details at hc
    split at hc
    · cases hc
    · cases hc
      rfl
  obtain ⟨hlabels, hrest⟩ := append_inj_of_forall hlabel hlabel hdetails hdetails h
  obtain rfl := Form.label_injective (String.toList_inj.mp hlabels)
  refine ⟨rfl, ?_⟩
  intro hf
  exact details_inj hf hrest

/-- A line tells how far in it is, and what node it is for. -/
theorem row_inj {depth depth' : Nat} {f g : Form} {t u : Token}
    (h : row depth f t = row depth' g u) :
    depth = depth' ∧ f = g ∧ (f ≠ .root → t.literal = u.literal ∧ t.pos = u.pos) := by
  have hspaces {n : Nat} : ∀ c ∈ List.replicate n ' ', (c == ' ') = true := by
    intro c hc
    rw [List.eq_of_mem_replicate hc]
    rfl
  have hlabel {f : Form} {t : Token} :
      ∀ c ∈ (f.label.toList ++ details f t).head?, (c == ' ') = false := by
    intro c hc
    rw [List.head?_append_of_ne_nil _ f.label_ne_nil] at hc
    exact beq_eq_false_iff_ne.mpr (Form.ne_of_mem_label (List.mem_of_mem_head? hc)).1
  have hchars := congrArg String.toList h
  rw [toList_row, toList_row] at hchars
  obtain ⟨hindent, hline⟩ := append_inj_of_forall hspaces hspaces hlabel hlabel hchars
  have hlength := congrArg List.length hindent
  rw [List.length_replicate, List.length_replicate] at hlength
  exact ⟨by omega, label_details_inj hline⟩

theorem newline_not_mem_details (f : Form) (t : Token) : '\n' ∉ details f t := by
  have hnumber (n : Int) : '\n' ∉ (Text.Decimal.ofInt n).toList :=
    Text.Decimal.not_mem_ofInt (by decide) rfl n
  have hquoted := Text.Quoted.newline_not_mem_string t.literal
  unfold details
  split
  · exact List.not_mem_nil
  · simp [Position.toList_short, hnumber, hquoted]

theorem newline_not_mem_row (depth : Nat) (f : Form) (t : Token) :
    '\n' ∉ (row depth f t).toList := by
  rw [toList_row, List.mem_append, List.mem_append]
  rintro (h | h | h)
  · cases List.eq_of_mem_replicate h
  · exact (Form.ne_of_mem_label h).2 rfl
  · exact newline_not_mem_details f t h

/-! ## Levels -/

/-- The trees look the same in outlines. -/
inductive ShownAlike : Tree → Tree → Prop
  | node {f : Form} {t u : Token} {cs ds : List Tree} :
      (f ≠ .root → t.literal = u.literal ∧ t.pos = u.pos) → List.Forall₂ ShownAlike cs ds →
        ShownAlike (node f t cs) (node f u ds)

/-- The first of the lines, if there is one, is at most so far in. -/
def Recedes (depth : Nat) (lines : List String) : Prop :=
  ∀ line ∈ lines.head?, ∃ k ≤ depth, ∃ f t, line = row k f t

theorem Recedes.outlinesAt {depth : Nat} {rest : List String} (h : Recedes depth rest)
    (cs : List Tree) : Recedes (depth + 1) (outlinesAt (depth + 1) cs ++ rest) := by
  intro line hline
  cases cs with
  | nil =>
      obtain ⟨k, hk, hrow⟩ := h line hline
      exact ⟨k, Nat.le_succ_of_le hk, hrow⟩
  | cons c cs =>
      obtain ⟨f, t, ds⟩ := c
      cases hline
      exact ⟨depth + 1, Nat.le_refl _, f, t, rfl⟩

/-- Lines that recede do not start with trees further in. -/
theorem Recedes.ne_outlinesAt {depth : Nat} {rest : List String} (h : Recedes depth rest) (c : Tree)
    (cs : List Tree) (rest' : List String) :
    rest ≠ Tree.outlinesAt (depth + 1) (c :: cs) ++ rest' := by
  rintro rfl
  obtain ⟨f, t, ds⟩ := c
  obtain ⟨k, hk, g, u, hrow⟩ := h _ rfl
  have hdepth := (row_inj hrow).1
  omega

/-- Where lines start with the tree and then recede, no other tree could be meant. -/
def Readable (n : Tree) : Prop :=
  ∀ (depth : Nat) (n' : Tree) (rest rest' : List String), Recedes depth rest →
    Recedes depth rest' → outlineAt depth n ++ rest = outlineAt depth n' ++ rest' →
      ShownAlike n n' ∧ rest = rest'

theorem readable_all {cs : List Tree} (hcs : ∀ c ∈ cs, c.Readable) {depth : Nat} {cs' : List Tree}
    {rest rest' : List String} (hrest : Recedes depth rest) (hrest' : Recedes depth rest')
    (h : outlinesAt (depth + 1) cs ++ rest = outlinesAt (depth + 1) cs' ++ rest') :
    List.Forall₂ ShownAlike cs cs' ∧ rest = rest' := by
  induction cs generalizing cs' with
  | nil =>
      cases cs' with
      | nil => exact ⟨.nil, h⟩
      | cons c' cs' => exact absurd h (hrest.ne_outlinesAt c' cs' rest')
  | cons c cs ih =>
      cases cs' with
      | nil => exact absurd h.symm (hrest'.ne_outlinesAt c cs rest)
      | cons c' cs' =>
          rw [outlinesAt, outlinesAt, List.append_assoc, List.append_assoc] at h
          obtain ⟨hc, h⟩ := hcs c List.mem_cons_self (depth + 1) c' _ _ (hrest.outlinesAt cs)
            (hrest'.outlinesAt cs') h
          obtain ⟨hcs, hrests⟩ := ih (fun d hd => hcs d (List.mem_cons_of_mem c hd)) h
          exact ⟨.cons hc hcs, hrests⟩

theorem readable (n : Tree) : n.Readable := by
  refine induction (fun f t cs ih => ?_) n
  intro depth n' rest rest' hrest hrest' h
  obtain ⟨g, u, ds⟩ := n'
  rw [outlineAt_node, outlineAt_node, List.cons_append, List.cons_append] at h
  obtain ⟨hrow, hbelow⟩ := List.cons.inj h
  obtain ⟨-, rfl, hline⟩ := row_inj hrow
  obtain ⟨hcs, hrests⟩ := readable_all ih hrest hrest' hbelow
  exact ⟨.node hline hcs, hrests⟩

theorem row_congr {f : Form} {t u : Token}
    (h : f ≠ .root → t.literal = u.literal ∧ t.pos = u.pos) (depth : Nat) :
    row depth f t = row depth f u := by
  unfold row headline
  split
  · rfl
  · next hf => rw [(h hf).1, (h hf).2]

mutual

theorem ShownAlike.outlineAt_eq : ∀ {n n' : Tree}, ShownAlike n n' → ∀ depth,
    outlineAt depth n = outlineAt depth n'
  | .node _ _ _, .node _ _ _, .node hline hcs, depth => by
      rw [outlineAt_node, outlineAt_node, row_congr hline, ShownAlike.outlinesAt_eq hcs]

theorem ShownAlike.outlinesAt_eq : ∀ {cs ds : List Tree}, List.Forall₂ ShownAlike cs ds →
    ∀ depth, Tree.outlinesAt depth cs = Tree.outlinesAt depth ds
  | [], [], .nil, _ => rfl
  | _ :: _, _ :: _, .cons h hs, depth => by
      rw [outlinesAt, outlinesAt, ShownAlike.outlineAt_eq h, ShownAlike.outlinesAt_eq hs]

end

theorem mem_outlinesAt {line : String} {depth : Nat} {cs : List Tree} :
    line ∈ outlinesAt depth cs ↔ ∃ c ∈ cs, line ∈ outlineAt depth c := by
  induction cs with
  | nil => simp [outlinesAt]
  | cons c cs ih => simp [outlinesAt, ih]

theorem exists_row_of_mem {line : String} :
    ∀ (n : Tree) (depth : Nat), line ∈ outlineAt depth n → ∃ k f t, line = row k f t := by
  refine induction fun f t cs ih depth h => ?_
  rcases List.mem_cons.mp h with rfl | h
  · exact ⟨depth, f, t, rfl⟩
  · obtain ⟨c, hc, hline⟩ := mem_outlinesAt.mp h
    exact ih c hc _ hline

end Tree

/-! ## Text -/

theorem Sink.exists_writeAll {s : Sink} (h : s.room? = none) (l : List String) :
    ∃ s', s.writeAll l = (.ok (), s') := by
  induction l generalizing s with
  | nil => exact ⟨s, rfl⟩
  | cons line l ih =>
      obtain ⟨s', hs'⟩ := ih (s := { s with lines := s.lines.push line }) h
      refine ⟨s', ?_⟩
      rw [writeAll, write_of_unlimited h]
      exact hs'

namespace CommandLine

theorem lines_eq_join (l : List String) : lines l = String.join (l.map (· ++ "\n")) := by
  obtain ⟨s', hs'⟩ := Sink.exists_writeAll (s := .ofRoom? none) rfl l
  rw [lines, hs', Sink.text_of_append (Sink.lines_of_writeAll hs')]
  exact String.empty_append

theorem toList_lines (l : List String) :
    (lines l).toList = l.flatMap fun line => line.toList ++ ['\n'] := by
  rw [lines_eq_join, String.toList_join, List.flatMap_map]
  simp only [String.toList_append]
  rfl

theorem lines_inj {l l' : List String} (hl : ∀ line ∈ l, '\n' ∉ line.toList)
    (hl' : ∀ line ∈ l', '\n' ∉ line.toList) (h : lines l = lines l') : l = l' := by
  have hchars := congrArg String.toList h
  rw [toList_lines, toList_lines] at hchars
  clear h
  have hline {line : String} (hline : '\n' ∉ line.toList) :
      ∀ c ∈ line.toList, (c != '\n') = true := by
    intro c hc
    rw [bne_iff_ne]
    rintro rfl
    exact hline hc
  have hend {rest : List Char} : ∀ c ∈ ('\n' :: rest).head?, (c != '\n') = false := by
    intro c hc
    cases hc
    rfl
  induction l generalizing l' with
  | nil =>
      cases l' with
      | nil => rfl
      | cons line' l' => simp at hchars
  | cons line l ih =>
      cases l' with
      | nil => simp at hchars
      | cons line' l' =>
          simp only [List.flatMap_cons, List.append_assoc, List.singleton_append] at hchars
          obtain ⟨hfirst, hrest⟩ := append_inj_of_forall (hline (hl line List.mem_cons_self))
            (hline (hl' line' List.mem_cons_self)) hend hend hchars
          obtain rfl := String.toList_inj.mp hfirst
          rw [ih (fun x hx => hl x (List.mem_cons_of_mem _ hx))
            (fun x hx => hl' x (List.mem_cons_of_mem _ hx)) (List.cons.inj hrest).2]

end CommandLine

namespace Tree

/-- An outline shows the shape of a tree, the forms of its nodes, and the characters and the
position of every token but those of roots.  Nothing else of the tree makes a difference to it.
The literals are made of characters: bytes that encode none, which a row would have to show as
bytes, are outside of the statement. -/
theorem lines_outline_eq_iff (n n' : Tree) :
    CommandLine.lines n.outline = CommandLine.lines n'.outline ↔ ShownAlike n n' := by
  have hlines (n : Tree) : ∀ line ∈ n.outline, '\n' ∉ line.toList := by
    intro line hline
    obtain ⟨k, f, t, rfl⟩ := exists_row_of_mem n 0 hline
    exact newline_not_mem_row k f t
  have hend : Recedes 0 [] := by
    intro line hline
    cases hline
  constructor
  · intro h
    have houtline : outlineAt 0 n ++ [] = outlineAt 0 n' ++ [] := by
      rw [List.append_nil, List.append_nil]
      exact CommandLine.lines_inj (hlines n) (hlines n') h
    exact (n.readable 0 n' [] [] hend hend houtline).1
  · intro h
    rw [outline, outline, h.outlineAt_eq]

end Tree

end IntScript
