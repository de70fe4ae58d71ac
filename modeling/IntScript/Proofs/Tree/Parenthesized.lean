import IntScript.Proofs.Machine.Equations
import IntScript.Proofs.Session.Blame
import IntScript.Proofs.Token.Partition

/-!
# Parenthesized text has one reading

The parenthesized text of an expression of a program is

    text  :=  name
           |  number
           |  name '(' name (', ' name)* ')'
           |  '(' text ' ' mark ' ' text ')'

Main statement: two expressions have the same text exactly if they differ at most in the positions
of their tokens (`Tree.parenthesized_eq_iff_alike`).

`Tree.Shows` is the grammar above, with the tree that a text shows.  A text is read together with
what is behind it, and this is nothing, a space, or a closing parenthesis (`Tree.Closed`): there a
name or a number ends, and a name that goes on with an opening parenthesis is that of a call.  The
form of an operation is not written anywhere.  It is known by the mark, since no two levels share
one, and the kind of the mark is known by its character.
-/

namespace IntScript

open Scanner (Run)

/-! ## Tokens and their characters -/

/-- The tokens are the same but for their positions. -/
def Token.SameWord (t u : Token) : Prop := t.kind = u.kind ∧ t.literal = u.literal

namespace Scanner

theorem Lone.has_eq_false {c : Char} (h : Lone c) (run : Run) : run.has c = false := by
  cases run with
  | word => exact h.letter
  | number => exact h.digit

namespace Run

/-- The kind of the atoms that are runs. -/
def atomKind : Run → Kind
  | .word => .symbol
  | .number => .integer

/-- The form of the atoms that are runs. -/
def atomForm : Run → Form
  | .word => .name
  | .number => .integer

/-- The token is an atom that is written as the run. -/
structure Writes (run : Run) (t : Token) : Prop where
  kind_eq : t.kind = run.atomKind
  ne_nil : t.literal.toList ≠ []
  has : ∀ c ∈ t.literal.toList, run.has c = true

theorem Writes.exists_cons {run : Run} {t : Token} (h : run.Writes t) :
    ∃ c cs, t.literal.toList = c :: cs ∧ run.has c = true := by
  obtain ⟨c, cs, hliteral⟩ := List.exists_cons_of_ne_nil h.ne_nil
  exact ⟨c, cs, hliteral, h.has c (hliteral ▸ List.mem_cons_self)⟩

theorem Writes.append_ne_cons {run : Run} {t : Token} (h : run.Writes t) {c : Char} (hc : Lone c)
    (rest rest' : List Char) : t.literal.toList ++ rest ≠ c :: rest' := by
  obtain ⟨d, cs, hliteral, hd⟩ := h.exists_cons
  intro heq
  rw [hliteral] at heq
  obtain ⟨rfl, -⟩ := List.cons.inj heq
  cases hd.symm.trans (hc.has_eq_false run)

/-- Atoms can be told from what is behind them, if no run goes on there. -/
theorem Writes.append_inj {run run' : Run} {t u : Token} (h : run.Writes t) (h' : run'.Writes u)
    {rest rest' : List Char} (hrest : ∀ run : Run, ∀ c ∈ rest.head?, run.has c = false)
    (hrest' : ∀ run : Run, ∀ c ∈ rest'.head?, run.has c = false)
    (heq : t.literal.toList ++ rest = u.literal.toList ++ rest') :
    run = run' ∧ t.SameWord u ∧ rest = rest' := by
  -- the first character tells names and numbers apart
  obtain rfl : run = run' := by
    obtain ⟨c, cs, hliteral, hc⟩ := h.exists_cons
    obtain ⟨d, ds, hliteral', hd⟩ := h'.exists_cons
    rw [hliteral, hliteral'] at heq
    obtain ⟨rfl, -⟩ := List.cons.inj heq
    by_contra hne
    cases (has_eq_false_of_ne hne hd).symm.trans hc
  obtain ⟨hliteral, hbehind⟩ := append_inj_of_forall h.has h'.has (hrest run) (hrest' run) heq
  exact ⟨rfl, ⟨h.kind_eq.trans h'.kind_eq.symm, String.toList_inj.mp hliteral⟩, hbehind⟩

end Run

end Scanner

namespace Token

/-- The token is a line end or a mark, and is written so. -/
def IsSign (t : Token) : Prop := ∃ c, t.literal.toList = [c] ∧ Kind.ofSign? c = some t.kind

theorem IsSign.sameWord_of_kind {t u : Token} (ht : t.IsSign) (hu : u.IsSign)
    (h : t.kind = u.kind) : t.SameWord u := by
  obtain ⟨c, hliteral, hc⟩ := ht
  obtain ⟨d, hliteral', hd⟩ := hu
  refine ⟨h, String.toList_inj.mp ?_⟩
  calc t.literal.toList = t.kind.spelling := hliteral.trans (Kind.spelling_of_ofSign? hc).symm
    _ = u.literal.toList := by rw [h, Kind.spelling_of_ofSign? hd, hliteral']

/-- Signs are one character long and known by it. -/
theorem IsSign.append_inj {t u : Token} (ht : t.IsSign) (hu : u.IsSign) {rest rest' : List Char}
    (h : t.literal.toList ++ rest = u.literal.toList ++ rest') : t.SameWord u ∧ rest = rest' := by
  obtain ⟨c, hliteral, hc⟩ := ht
  obtain ⟨d, hliteral', hd⟩ := hu
  rw [hliteral, hliteral'] at h
  obtain ⟨rfl, hrest⟩ := List.cons.inj h
  refine ⟨⟨Option.some.inj (hc.symm.trans hd), String.toList_inj.mp ?_⟩, hrest⟩
  rw [hliteral, hliteral']

/-- The token is written the way tokens of its kind are. -/
structure Legible (t : Token) : Prop where
  writes (run : Run) : t.kind = run.atomKind → run.Writes t
  isSign :
    t.kind ∉ [.endOfText, .integer, .symbol, .funcWord, .printWord, .returnWord, .whileWord] →
      t.IsSign

theorem legible_of_endOfText {t : Token} (h : t.kind = .endOfText) : t.Legible := by
  refine ⟨?_, ?_⟩
  · intro run hkind
    rw [h] at hkind
    cases run <;> cases hkind
  · intro hsign
    exact absurd (h ▸ List.mem_cons_self) hsign

end Token

namespace Scanner

theorem Cut.legible {kw : Keywords} (hkw : kw.Usable) {before after : List Char} {t : Token}
    (h : Cut kw before t after) : t.Legible := by
  cases h with
  | run run hrun hkind =>
      cases run with
      | word =>
          have hmem : t.kind ∈ [.symbol, .funcWord, .printWord, .returnWord, .whileWord] := by
            rw [hkind]
            exact hkw.classify_mem t.literal
          refine ⟨?_, ?_⟩
          · rintro (_ | _) hatom
            · exact ⟨hatom, hrun.ne_nil, hrun.has⟩
            · rw [hatom] at hmem
              exact absurd hmem (by decide)
          · intro hsign
            exact absurd (List.mem_cons_of_mem _ (List.mem_cons_of_mem _ hmem)) hsign
      | number =>
          have hkind : t.kind = .integer := hkind
          refine ⟨?_, ?_⟩
          · rintro (_ | _) hatom
            · cases hatom.symm.trans hkind
            · exact ⟨hatom, hrun.ne_nil, hrun.has⟩
          · intro hsign
            rw [hkind] at hsign
            exact absurd (by decide) hsign
  | @sign c hliteral hsign =>
      refine ⟨?_, fun _ => ⟨c, hliteral, hsign⟩⟩
      intro run hkind
      refine absurd ?_ (Kind.not_mem_of_ofSign? hsign)
      rw [hkind]
      cases run <;> decide
  | ending _ hkind _ => exact Token.legible_of_endOfText hkind

theorem Cuts.legible {kw : Keywords} (hkw : kw.Usable) {before after : List Char}
    {pieces : List Piece} (h : Cuts kw before pieces after) : ∀ p ∈ pieces, p.token.Legible := by
  induction pieces generalizing before with
  | nil => exact List.forall_mem_nil _
  | cons p pieces ih =>
      obtain ⟨-, hcut, hcuts⟩ := h
      exact List.forall_mem_cons.mpr ⟨hcut.legible hkw, ih hcuts⟩

end Scanner

open Scanner in
theorem Tokens.legible_of_mem {bs : List UInt8} {kw : Keywords} (hkw : kw.Usable) {t : Token}
    (ht : t ∈ (ofBytes bs kw).list) : t.Legible := by
  have hstart : Broken [] (Scanner.ofBytes bs kw).rest := by
    intro run c hc
    cases hc
  obtain ⟨pieces, gap, rest, htokens, -, hcuts, -⟩ :=
    exists_cuts_drain (.ofBytes bs kw) hkw.ne_endOfText hstart
  rw [ofBytes, ← htokens] at ht
  obtain ⟨p, hp, rfl⟩ := List.mem_map.mp ht
  exact hcuts.legible hkw p hp

/-! ## Texts and what they show -/

theorem Level.eq_of_mem_marks {level level' : Level} :
    ∀ k ∈ level.marks, k ∈ level'.marks → level = level' := by
  cases level <;> cases level' <;> decide

theorem Level.not_mem_of_mem_marks (level : Level) : ∀ k ∈ level.marks,
    k ∉ [.endOfText, .integer, .symbol, .funcWord, .printWord, .returnWord, .whileWord] := by
  cases level <;> decide

namespace Tree

/-- The names of a list behind its first one, up to the parenthesis that closes it. -/
def otherNames : List Token → List Char
  | [] => [')']
  | t :: ts => ',' :: ' ' :: (t.literal.toList ++ otherNames ts)

/-- The expression that a text shows. -/
inductive Shows : Tree → List Char → Prop
  | atom (run : Run) {t : Token} : run.Writes t → Shows (.leaf run.atomForm t) t.literal.toList
  | call {t opening first : Token} {others : List Token} : Run.word.Writes t →
      opening.kind = .openParen → opening.IsSign → (∀ u ∈ first :: others, Run.word.Writes u) →
      Shows (.node .call t [.node .args opening ((first :: others).map (.leaf .arg))])
        (t.literal.toList ++ '(' :: (first.literal.toList ++ otherNames others))
  | operation (level : Level) {t : Token} {l r : Tree} {left right : List Char} :
      t.kind ∈ level.marks → t.IsSign → Shows l left → Shows r right →
      Shows (.node level.form t [l, r])
        ('(' :: (left ++ ' ' :: (t.literal.toList ++ ' ' :: (right ++ [')']))))

/-! ### Every expression is shown by a text -/

theorem parenthesizedAll_args (ts : List Token) :
    parenthesizedAll (ts.map (.leaf .arg)) = .ok (ts.map Token.literal) := by
  induction ts with
  | nil => rw [List.map_nil, parenthesizedAll, List.map_nil]
  | cons t ts ih =>
      rw [List.map_cons, parenthesizedAll, ih, leaf, parenthesized]
      rfl

theorem toList_intercalate_names (t : Token) (ts : List Token) :
    (", ".intercalate ((t :: ts).map Token.literal)).toList ++ [')'] =
      t.literal.toList ++ otherNames ts := by
  induction ts generalizing t with
  | nil => simp [otherNames]
  | cons u ts ih =>
      have hu := ih u
      simp only [String.toList_intercalate, List.map_cons] at hu ⊢
      rw [List.intercalate_cons_cons, otherNames, ← hu]
      simp

theorem Shows.parenthesized_eq {n : Tree} {text : List Char} (h : Shows n text) :
    n.parenthesized = .ok (String.ofList text) := by
  induction h with
  | atom run _ =>
      rw [String.ofList_toList]
      cases run <;> rw [Run.atomForm, leaf, parenthesized]
  | @call t opening first others _ _ _ _ =>
      rw [parenthesized, parenthesizedAll_args]
      refine congrArg Except.ok (String.toList_inj.mp ?_)
      rw [String.toList_ofList, ← toList_intercalate_names]
      simp [toString]
  | @operation level t l r left right _ _ _ _ hleft hright =>
      have hoperation : (node level.form t [l, r]).parenthesized = Tree.operation t [l, r] := by
        cases level <;> rw [Level.form, parenthesized]
      rw [hoperation, Tree.operation, hleft, hright]
      refine congrArg Except.ok (String.toList_inj.mp ?_)
      simp [toString]

/-- An expression of proper nodes with legible tokens is shown by some text. -/
theorem exists_shows : ∀ n : Tree, (n.All fun k => k.Proper ∧ k.token.Legible) → n.IsExpression →
    ∃ text, Shows n text := by
  refine induction fun f t cs ih hall hexpression => ?_
  obtain ⟨⟨hproper, hlegible⟩, hcs⟩ := all_node.mp hall
  rcases f.expression_cases with rfl | rfl | rfl | ⟨level, rfl⟩ | hf
  · obtain ⟨hkind, rfl⟩ := hproper
    exact ⟨_, .atom .number (hlegible.writes .number hkind)⟩
  · obtain ⟨hkind, rfl⟩ := hproper
    exact ⟨_, .atom .word (hlegible.writes .word hkind)⟩
  · obtain ⟨hkind, ⟨g, opening, args⟩, rfl, rfl⟩ := hproper
    obtain ⟨⟨⟨hopening, hne, hforms⟩, hlegible'⟩, hargs⟩ := all_node.mp (hcs _ List.mem_cons_self)
    have hsign : opening.IsSign := by
      refine hlegible'.isSign ?_
      rw [hopening]
      decide
    have hnames : ∀ a ∈ args, a = .leaf .arg a.token ∧ Run.word.Writes a.token := by
      rintro ⟨form, u, children⟩ ha
      obtain rfl : form = .arg := hforms _ ha
      obtain ⟨⟨hword, rfl⟩, hu⟩ := (hargs _ ha).self
      exact ⟨rfl, hu.writes .word hword⟩
    obtain ⟨first, others, rfl⟩ := List.exists_cons_of_ne_nil hne
    have hmap : first :: others = (first.token :: others.map token).map (.leaf .arg) := by
      rw [← List.map_cons, List.map_map]
      refine (List.map_id (first :: others)).symm.trans (List.map_congr_left ?_)
      intro a ha
      exact (hnames a ha).1
    rw [hmap]
    refine ⟨_, .call (hlegible.writes .word hkind) hopening hsign ?_⟩
    rw [← List.map_cons]
    exact List.forall_mem_map.mpr fun a ha => (hnames a ha).2
  · obtain ⟨hmark, l, r, rfl, hl, hr⟩ := (proper_operation level).mp hproper
    obtain ⟨left, hleft⟩ := ih l (by simp) (hcs l (by simp)) (isExpression_of_left hl)
    obtain ⟨right, hright⟩ := ih r (by simp) (hcs r (by simp)) (isExpression_of_right hr)
    have hsign : t.IsSign := hlegible.isSign (level.not_mem_of_mem_marks _ hmark)
    exact ⟨_, .operation level hmark hsign hleft hright⟩
  · exact absurd hexpression hf

/-! ### A text shows one expression -/

/-- What may stand behind the text of an expression. -/
def Closed (rest : List Char) : Prop := ∀ c ∈ rest.head?, c = ' ' ∨ c = ')'

theorem closed_nil : Closed [] := nofun

theorem closed_space (rest : List Char) : Closed (' ' :: rest) := by
  rintro c ⟨⟩
  exact .inl rfl

theorem closed_parenthesis (rest : List Char) : Closed (')' :: rest) := by
  rintro c ⟨⟩
  exact .inr rfl

theorem Closed.has_eq_false {rest : List Char} (h : Closed rest) (run : Run) :
    ∀ c ∈ rest.head?, run.has c = false := by
  intro c hc
  rcases h c hc with rfl | rfl
  · exact run.has_eq_false_of_isGap (by decide +kernel)
  · exact Scanner.Lone.has_eq_false (by decide +kernel) run

theorem Closed.ne_cons {rest : List Char} (h : Closed rest) (more : List Char) :
    rest ≠ '(' :: more := by
  rintro rfl
  rcases h '(' rfl with h | h <;> cases h

theorem lone_opening : Scanner.Lone '(' := by decide +kernel

theorem has_eq_false_opening (rest : List Char) (run : Run) :
    ∀ c ∈ ('(' :: rest).head?, run.has c = false := by
  rintro c ⟨⟩
  exact lone_opening.has_eq_false run

theorem has_eq_false_otherNames (ts : List Token) (rest : List Char) (run : Run) :
    ∀ c ∈ (otherNames ts ++ rest).head?, run.has c = false := by
  cases ts with
  | nil => exact (closed_parenthesis rest).has_eq_false run
  | cons t ts =>
      rintro c ⟨⟩
      exact Scanner.Lone.has_eq_false (by decide +kernel) run

theorem otherNames_append_inj {ts us : List Token} (hts : ∀ t ∈ ts, Run.word.Writes t)
    (hus : ∀ u ∈ us, Run.word.Writes u) {rest rest' : List Char}
    (h : otherNames ts ++ rest = otherNames us ++ rest') :
    List.Forall₂ Token.SameWord ts us ∧ rest = rest' := by
  induction ts generalizing us with
  | nil =>
      cases us with
      | nil => exact ⟨.nil, (List.cons.inj h).2⟩
      | cons u us => cases (List.cons.inj h).1
  | cons t ts ih =>
      cases us with
      | nil => cases (List.cons.inj h).1
      | cons u us =>
          obtain ⟨ht, hts⟩ := List.forall_mem_cons.mp hts
          obtain ⟨hu, hus⟩ := List.forall_mem_cons.mp hus
          simp only [otherNames, List.cons_append, List.append_assoc, List.cons.injEq,
            true_and] at h
          obtain ⟨-, hsame, hbehind⟩ := ht.append_inj hu (has_eq_false_otherNames ts rest)
            (has_eq_false_otherNames us rest') h
          obtain ⟨hall, hrest⟩ := ih hts hus hbehind
          exact ⟨.cons hsame hall, hrest⟩

theorem alike_args {ts us : List Token} (h : List.Forall₂ Token.SameWord ts us) :
    List.Forall₂ (Alike Token.SameWord) (ts.map (.leaf .arg)) (us.map (.leaf .arg)) := by
  rw [List.forall₂_map_left_iff, List.forall₂_map_right_iff]
  exact h.imp fun _ _ => Alike.leaf

/-- Expressions whose texts are the same up to where the expressions end are the same up to
positions, and so is what is behind them. -/
theorem Shows.append_inj {n n' : Tree} {text text' rest rest' : List Char} (h : Shows n text)
    (h' : Shows n' text') (hrest : Closed rest) (hrest' : Closed rest')
    (heq : text ++ rest = text' ++ rest') : Alike Token.SameWord n n' ∧ rest = rest' := by
  induction h generalizing n' text' rest rest' with
  | @atom run t ht =>
      cases h' with
      | @atom run' u hu =>
          obtain ⟨rfl, hsame, hbehind⟩ :=
            ht.append_inj hu hrest.has_eq_false hrest'.has_eq_false heq
          exact ⟨.leaf hsame, hbehind⟩
      | @call u opening first others hu _ _ _ =>
          rw [List.append_assoc, List.cons_append] at heq
          obtain ⟨-, -, hbehind⟩ :=
            ht.append_inj hu hrest.has_eq_false (has_eq_false_opening _) heq
          exact absurd hbehind (hrest.ne_cons _)
      | operation _ _ _ _ _ => exact absurd heq (ht.append_ne_cons lone_opening _ _)
  | @call t opening first others ht hkind hsign hnames =>
      simp only [List.append_assoc, List.cons_append] at heq
      cases h' with
      | @atom run' u hu =>
          obtain ⟨-, -, hbehind⟩ :=
            ht.append_inj hu (has_eq_false_opening _) hrest'.has_eq_false heq
          exact absurd hbehind.symm (hrest'.ne_cons _)
      | @call u opening' first' others' hu hkind' hsign' hnames' =>
          simp only [List.append_assoc, List.cons_append] at heq
          obtain ⟨-, hsame, hlist⟩ :=
            ht.append_inj hu (has_eq_false_opening _) (has_eq_false_opening _) heq
          obtain ⟨hfirst, hothers⟩ := List.forall_mem_cons.mp hnames
          obtain ⟨hfirst', hothers'⟩ := List.forall_mem_cons.mp hnames'
          obtain ⟨-, hhead, htail⟩ := hfirst.append_inj hfirst' (has_eq_false_otherNames _ _)
            (has_eq_false_otherNames _ _) (List.cons.inj hlist).2
          obtain ⟨hall, hbehind⟩ := otherNames_append_inj hothers hothers' htail
          have hopening := hsign.sameWord_of_kind hsign' (hkind.trans hkind'.symm)
          exact ⟨.node hsame (.cons (.node hopening (alike_args (.cons hhead hall))) .nil), hbehind⟩
      | operation _ _ _ _ _ => exact absurd heq (ht.append_ne_cons lone_opening _ _)
  | @operation level t l r left right hmark hsign _ _ ihl ihr =>
      cases h' with
      | atom run' hu => exact absurd heq.symm (hu.append_ne_cons lone_opening _ _)
      | call hu _ _ _ =>
          rw [List.append_assoc] at heq
          exact absurd heq.symm (hu.append_ne_cons lone_opening _ _)
      | @operation level' u l' r' left' right' hmark' hsign' hl' hr' =>
          simp only [List.cons_append, List.append_assoc, List.cons.injEq, true_and] at heq
          obtain ⟨hl, hmiddle⟩ := ihl hl' (closed_space _) (closed_space _) heq
          obtain ⟨hsame, hright⟩ := hsign.append_inj hsign' (List.cons.inj hmiddle).2
          obtain ⟨hr, hend⟩ :=
            ihr hr' (closed_parenthesis _) (closed_parenthesis _) (List.cons.inj hright).2
          obtain rfl : level = level' := Level.eq_of_mem_marks t.kind hmark (hsame.1 ▸ hmark')
          exact ⟨.node hsame (.cons hl (.cons hr .nil)), (List.cons.inj hend).2⟩

/-! ## Positions do not show -/

theorem operation_congr {t u : Token} (h : t.literal = u.literal) {cs ds : List Tree}
    (hcs : List.Forall₂ (fun c d => c.parenthesized = d.parenthesized) cs ds) :
    operation t cs = operation u ds := by
  match hcs with
  | .nil => simp only [operation]
  | .cons hl .nil => simp only [operation, hl]
  | .cons hl (.cons hr _) => simp only [operation, hl, hr, h]

theorem parenthesizedAll_congr {cs ds : List Tree}
    (h : List.Forall₂ (fun c d => c.parenthesized = d.parenthesized) cs ds) :
    parenthesizedAll cs = parenthesizedAll ds := by
  induction h with
  | nil => rfl
  | cons hc _ ih => rw [parenthesizedAll, parenthesizedAll, hc, ih]

theorem Alike.parenthesized_eq {n n' : Tree} (h : Alike Token.SameWord n n') :
    n.parenthesized = n'.parenthesized := by
  -- the text of a call is made from the children of its child
  have hboth : ∀ n n' : Tree, Alike Token.SameWord n n' →
      n.parenthesized = n'.parenthesized ∧
        parenthesizedAll n.children = parenthesizedAll n'.children := by
    refine induction fun f t cs ih n' h => ?_
    cases h with
    | @node _ _ u _ ds hsame hcs =>
        obtain ⟨-, hliteral⟩ := hsame
        have hall : List.Forall₂ (fun c d => c.parenthesized = d.parenthesized ∧
            parenthesizedAll c.children = parenthesizedAll d.children) cs ds :=
          ((List.forall₂_and_left _ _).mpr ⟨ih, hcs⟩).imp fun _ d h => h.1 d h.2
        have htexts := hall.imp fun _ _ h => h.1
        refine ⟨?_, parenthesizedAll_congr htexts⟩
        cases f with
        | sum | product | power =>
            rw [parenthesized, parenthesized]
            exact operation_congr hliteral htexts
        | call =>
            cases hall with
            | nil => rw [parenthesized, parenthesized, hliteral]
            | @cons c d _ _ hargs _ =>
                obtain ⟨g, v, args⟩ := c
                obtain ⟨g', v', args'⟩ := d
                have hargs : parenthesizedAll args = parenthesizedAll args' := hargs.2
                rw [parenthesized, parenthesized, hliteral, hargs]
        | integer | name | param | arg => rw [parenthesized, parenthesized, hliteral]
        | _ => rw [parenthesized, parenthesized] <;> simp
  exact (hboth n n' h).1

/-! ## Expressions of parsed texts -/

theorem exists_shows_of_parse {bs : List UInt8} {kw : Keywords} (hkw : kw.Usable) {root n : Tree}
    (h : parse bs kw = .ok root) (hn : n ∈ root.nodes) (hexpression : n.IsExpression) :
    ∃ text, Shows n text := by
  obtain ⟨-, hall⟩ := anchored_of_parse h
  refine exists_shows n ?_ hexpression
  intro k hk
  obtain ⟨hproper, htoken⟩ := hall.of_mem hn k hk
  exact ⟨hproper, htoken.elim (Tokens.legible_of_mem hkw) Token.legible_of_endOfText⟩

/-- An expression of a parsed text has a parenthesized text, and this shows all of the expression
but the positions of its tokens. -/
theorem parenthesized_eq_iff_alike {bs bs' : List UInt8} {root root' n n' : Tree}
    (h : parse bs .standard = .ok root) (h' : parse bs' .standard = .ok root')
    (hn : n ∈ root.nodes) (hn' : n' ∈ root'.nodes)
    (hexpression : n.IsExpression) (hexpression' : n'.IsExpression) :
    (∃ text, n.parenthesized = .ok text) ∧
      (n.parenthesized = n'.parenthesized ↔ Alike Token.SameWord n n') := by
  obtain ⟨text, hshows⟩ := exists_shows_of_parse Keywords.usable_standard h hn hexpression
  obtain ⟨text', hshows'⟩ := exists_shows_of_parse Keywords.usable_standard h' hn' hexpression'
  refine ⟨⟨_, hshows.parenthesized_eq⟩, ?_, Alike.parenthesized_eq⟩
  intro heq
  rw [hshows.parenthesized_eq, hshows'.parenthesized_eq] at heq
  obtain rfl : text = text' := String.ofList_injective (Except.ok.inj heq)
  exact (hshows.append_inj hshows' closed_nil closed_nil rfl).1

/-- Spaces do not show. -/
theorem parenthesized_eq_iff_alike_spaced :
    let bs := "print a-f(b)".toUTF8.toList
    let bs' := "print a - f( b )".toUTF8.toList
    ∃ root root' n n', parse bs .standard = .ok root ∧ parse bs' .standard = .ok root' ∧
      n ∈ root.nodes ∧ n' ∈ root'.nodes ∧ n.IsExpression ∧ n'.IsExpression ∧
      n.token.pos ≠ n'.token.pos ∧ n.parenthesized = .ok "(a - f(b))" ∧
      n'.parenthesized = .ok "(a - f(b))" ∧ Alike Token.SameWord n n' := by
  intro bs bs'
  -- both texts have the same tokens up to positions, so they are read alike
  have hread (print a minus f opening b closing ending : Position) :
      Tokens.parse ⟨[⟨.printWord, "print", print⟩, ⟨.symbol, "a", a⟩, ⟨.sub, "-", minus⟩,
        ⟨.symbol, "f", f⟩, ⟨.openParen, "(", opening⟩, ⟨.symbol, "b", b⟩,
        ⟨.closeParen, ")", closing⟩, ⟨.endOfText, "", ending⟩], none⟩ =
      .ok (.node .root .nowhere [.node .print ⟨.printWord, "print", print⟩
        [.node .sum ⟨.sub, "-", minus⟩ [.leaf .name ⟨.symbol, "a", a⟩,
          .node .call ⟨.symbol, "f", f⟩
            [.node .args ⟨.openParen, "(", opening⟩ [.leaf .arg ⟨.symbol, "b", b⟩]]]]]) := by
    with_unfolding_all rfl
  have htext (a minus f opening b : Position) :
      (node .sum ⟨.sub, "-", minus⟩ [.leaf .name ⟨.symbol, "a", a⟩,
        .node .call ⟨.symbol, "f", f⟩
          [.node .args ⟨.openParen, "(", opening⟩ [.leaf .arg ⟨.symbol, "b", b⟩]]]).parenthesized =
        .ok "(a - f(b))" := by
    simp only [leaf, parenthesized, operation, parenthesizedAll]
    rfl
  have hn {t u : Token} (n : Tree) : n ∈ (node .root t [.node .print u [n]]).nodes := by
    refine mem_nodes.mpr (.inr ⟨_, List.mem_singleton_self _, ?_⟩)
    refine mem_nodes.mpr (.inr ⟨_, List.mem_singleton_self _, ?_⟩)
    cases n
    exact mem_nodes.mpr (.inl rfl)
  have hexpression {t : Token} {cs : List Tree} : (node .sum t cs).IsExpression :=
    List.mem_cons_self
  have hscan : Tokens.ofBytes bs .standard = ⟨[⟨.printWord, "print", ⟨1, 1⟩⟩,
      ⟨.symbol, "a", ⟨1, 7⟩⟩, ⟨.sub, "-", ⟨1, 8⟩⟩, ⟨.symbol, "f", ⟨1, 9⟩⟩,
      ⟨.openParen, "(", ⟨1, 10⟩⟩, ⟨.symbol, "b", ⟨1, 11⟩⟩, ⟨.closeParen, ")", ⟨1, 12⟩⟩,
      ⟨.endOfText, "", ⟨1, 13⟩⟩], none⟩ := by decide +kernel
  have hscan' : Tokens.ofBytes bs' .standard = ⟨[⟨.printWord, "print", ⟨1, 1⟩⟩,
      ⟨.symbol, "a", ⟨1, 7⟩⟩, ⟨.sub, "-", ⟨1, 9⟩⟩, ⟨.symbol, "f", ⟨1, 11⟩⟩,
      ⟨.openParen, "(", ⟨1, 12⟩⟩, ⟨.symbol, "b", ⟨1, 14⟩⟩, ⟨.closeParen, ")", ⟨1, 16⟩⟩,
      ⟨.endOfText, "", ⟨1, 17⟩⟩], none⟩ := by decide +kernel
  have hparse := (parse_eq_parse bs .standard).trans (hscan ▸ hread ..)
  have hparse' := (parse_eq_parse bs' .standard).trans (hscan' ▸ hread ..)
  have hiff := (parenthesized_eq_iff_alike hparse hparse' (hn _) (hn _) hexpression hexpression).2
  refine ⟨_, _, _, _, hparse, hparse', hn _, hn _, hexpression, hexpression, ?_, htext .., htext ..,
    hiff.mp ((htext ..).trans (htext ..).symm)⟩
  decide

end Tree

end IntScript
