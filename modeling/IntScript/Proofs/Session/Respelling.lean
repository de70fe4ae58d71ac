import IntScript.Proofs.Machine.Output
import IntScript.Proofs.Session.Parts

/-!
# The same program in other words

What a program reads of a token is its kind, and of a name or a number also how it is written
(`Token.reading`).  How a reserved word or a mark is written, how much room is left between tokens,
and where in the text a token stands, makes no difference to what the program does.

Main statement: texts whose tokens read the same run the same (`Session.run_respelled`), each with
reserved words of its own.  They write the same lines, and if they fail, they fail for the same
reason, at tokens with the same number.

The two trees are compared node by node.  Their tokens have the same number in the two lists
(`Tokens.Corresponds`); an end of text need not, but it is the token of no node below the root.
-/

namespace IntScript

/-- What a program reads of a token. -/
def Token.reading (t : Token) : Kind × Option String :=
  (t.kind, if t.kind = .symbol ∨ t.kind = .integer then some t.literal else none)

theorem Token.kind_eq_of_reading {t u : Token} (h : t.reading = u.reading) : t.kind = u.kind :=
  congrArg Prod.fst h

theorem Token.literal_eq_of_reading {t u : Token} (h : t.reading = u.reading)
    (ht : t.kind = .symbol ∨ t.kind = .integer) : t.literal = u.literal := by
  have hliteral := congrArg Prod.snd h
  have hu := ht
  rw [kind_eq_of_reading h] at hu
  simp only [reading] at hliteral
  rw [if_pos ht, if_pos hu] at hliteral
  exact Option.some.inj hliteral

namespace Tokens

/-- The tokens read the same, and they have the same number in the two lists. -/
def Corresponds (ts us : Tokens) (t u : Token) : Prop :=
  t.reading = u.reading ∧
    (t.kind ≠ .endOfText → ∃ i : Nat, ts.list[i]? = some t ∧ us.list[i]? = some u)

theorem Corresponds.kind_eq {ts us : Tokens} {t u : Token} (h : Corresponds ts us t u) :
    t.kind = u.kind :=
  Token.kind_eq_of_reading h.1

theorem corresponds_nowhere (ts us : Tokens) : Corresponds ts us .nowhere .nowhere := by
  refine ⟨rfl, ?_⟩
  intro hkind
  exact absurd rfl hkind

theorem match_of_reading {ts us : Tokens}
    (h : ts.list.map Token.reading = us.list.map Token.reading) (he : ts.error? = none)
    (he' : us.error? = none) : Match (Corresponds ts us) ts us := by
  refine ⟨List.forall₂_iff_get.mpr ⟨?_, ?_⟩, by rw [he, he']⟩
  · simpa using congrArg List.length h
  · intro i hi hi'
    have hreading := congrArg (fun l => l[i]?) h
    simp only [List.getElem?_map, List.getElem?_eq_getElem hi, List.getElem?_eq_getElem hi',
      Option.map_some, Option.some.injEq] at hreading
    refine ⟨hreading, ?_⟩
    intro _
    exact ⟨i, List.getElem?_eq_getElem hi, List.getElem?_eq_getElem hi'⟩

/-- Lists that read the same are both programs, with trees that correspond, or neither is, and then
the same number of tokens fit and the same would have fitted next. -/
theorem parse_respelled {ts us : Tokens} (hts : ts.Finished) (hus : us.Finished)
    (h : ts.list.map Token.reading = us.list.map Token.reading) (he : ts.error? = none)
    (he' : us.error? = none) :
    (∃ n n', ts.parse = .ok n ∧ us.parse = .ok n' ∧ Tree.Alike (Corresponds ts us) n n') ∨
      ∃ (i : Nat) (m m' : Misfit), ts.parse = .error (.misfit m) ∧ us.parse = .error (.misfit m') ∧
        m.expected = m'.expected ∧ m.found.kind = m'.found.kind ∧ ts.list[i]? = some m.found ∧
        us.list[i]? = some m'.found := by
  have hmatch := match_of_reading h he he'
  have hkind : ∀ t u, Corresponds ts us t u → t.kind = u.kind := by
    intro t u htu
    exact htu.kind_eq
  have hkinds : ts.kinds = us.kinds := by
    have hfst := congrArg (List.map Prod.fst) h
    rwa [List.map_map, List.map_map] at hfst
  cases Grammar.verdict hts with
  | program p hp _ hparse =>
      obtain ⟨n', hn', halike⟩ :=
        exists_parse_of_match hkind (corresponds_nowhere ts us) hmatch hparse
      exact .inl ⟨p.tree, n', hparse, hn', halike⟩
  | cut e hcut hviable hparse => cases he.symm.trans hcut
  | misfit m i hm hi hparse =>
      obtain ⟨m', hm', hexpected, hfound⟩ :=
        exists_misfit_of_match hkind (corresponds_nowhere ts us) hmatch hparse
      -- the first misfit shows in the kinds, so it has the same number in both lists
      have hi' : us.list[i]? = some m'.found := by
        cases Grammar.verdict hus with
        | program q hq _ hparse' => cases hm'.symm.trans hparse'
        | cut e hcut hviable hparse' => cases he'.symm.trans hcut
        | misfit m₁ j hm₁ hj hparse' =>
            cases hm'.symm.trans hparse'
            rw [hkinds] at hi
            rw [hi.unique hj]
            exact hm₁
      exact .inr ⟨i, m, m', hparse, hm', hexpected, hfound.kind_eq, hm, hi'⟩

end Tokens

/-! ## Trees that correspond -/

namespace Tree

/-- Nodes of programs, below the root, whose tokens correspond. -/
def Respelled (ts us : Tokens) (n n' : Tree) : Prop :=
  (n.WellFormed ∧ n.form ≠ .root) ∧ Alike (Tokens.Corresponds ts us) n n'

variable {ts us : Tokens} {n n' : Tree}

theorem Respelled.corresponds (h : Respelled ts us n n') :
    Tokens.Corresponds ts us n.token n'.token := by
  obtain ⟨-, halike⟩ := h
  cases halike with
  | node ht _ => exact ht

theorem respelled_children (hwf : n.WellFormed) (h : Alike (Tokens.Corresponds ts us) n n') :
    List.Forall₂ (Respelled ts us) n.children n'.children := by
  cases h with
  | node _ hcs =>
      obtain ⟨hproper, hchildren⟩ := wellFormed_node.mp hwf
      refine (List.forall₂_and_left _ _).mpr ⟨?_, hcs⟩
      intro c hc
      exact ⟨hchildren c hc, hproper.form_ne_root_of_child hc⟩

theorem Respelled.literal_eq (h : Respelled ts us n n')
    (hform : n.form ∈ [Form.integer, .name, .call, .function, .param, .arg]) :
    n.literal = n'.literal := by
  have hproper : n.Proper := h.1.1.self
  refine Token.literal_eq_of_reading h.corresponds.1 ?_
  simp only [List.mem_cons, List.not_mem_nil, or_false] at hform
  rcases hform with hf | hf | hf | hf | hf | hf <;> rw [Proper, hf] at hproper
  · exact .inr hproper.1
  all_goals exact .inl hproper.1

theorem Respelled.literals_eq (h : Respelled ts us n n')
    (hform : n.form = .params ∨ n.form = .args) :
    n.children.map literal = n'.children.map literal := by
  have hproper : n.Proper := h.1.1.self
  have hitems : ∀ c ∈ n.children, c.form ∈ [Form.integer, .name, .call, .function, .param, .arg] := by
    intro c hc
    rcases hform with hf | hf <;> rw [Proper, hf] at hproper
    · simp [hproper.2.2 c hc]
    · simp [hproper.2.2 c hc]
  have hchildren := (List.forall₂_and_left _ _).mpr ⟨hitems, respelled_children h.1.1 h.2⟩
  have hliterals : List.Forall₂ Eq (n.children.map literal) (n'.children.map literal) := by
    rw [List.forall₂_map_left_iff, List.forall₂_map_right_iff]
    refine hchildren.imp ?_
    intro c c' hc
    exact hc.2.literal_eq hc.1
  rwa [List.forall₂_eq_eq_eq] at hliterals

theorem Respelled.sameItems (h : Respelled ts us n n') (hform : n.form = .call ∨ n.form = .function) :
    n.SameItems n' := by
  intro l l' hl hl'
  have hlist : l.form = .params ∨ l.form = .args := by
    have hproper : n.Proper := h.1.1.self
    obtain ⟨f, t, cs⟩ := n
    rcases hform with hf | hf
    · obtain rfl : f = .call := hf
      obtain ⟨-, args, rfl, hargs⟩ := hproper
      cases hl
      exact .inr hargs
    · obtain rfl : f = .function := hf
      obtain ⟨-, params, block, rfl, hparams, -⟩ := hproper
      cases hl
      exact .inl hparams
  have hchild := rel_getElem? (respelled_children h.1.1 h.2) 0
  rw [show n.children[0]? = some l from hl, show n'.children[0]? = some l' from hl'] at hchild
  cases hchild with
  | some hll' => exact hll'.literals_eq hlist

theorem readAlike_respelled (ts us : Tokens) : ReadAlike (Respelled ts us) where
  form_eq h := by
    obtain ⟨-, halike⟩ := h
    cases halike with
    | node _ _ => rfl
  kind_eq h := h.corresponds.kind_eq
  children h := respelled_children h.1.1 h.2
  literal_eq := by
    intro n n' h hform
    exact h.literal_eq (List.mem_append_left [Form.param, .arg] hform)
  items h hform := h.sameItems hform

theorem Respelled.exists_index (h : Respelled ts us n n') :
    ∃ i : Nat, ts.list[i]? = some n.token ∧ us.list[i]? = some n'.token := by
  refine h.corresponds.2 ?_
  exact h.1.1.self.kind_ne_endOfText h.1.2

end Tree

/-! ## Runs -/

namespace Action

theorem joint_respelled {ts us : Tokens} {root root' : Tree}
    (hform : root.form = .root) (hwf : root.WellFormed)
    (h : Tree.Alike (Tokens.Corresponds ts us) root root') (sink : Sink) (limits : Limits) :
    Joint (Machine.Alike (Tree.Respelled ts us)) (FailAlike (Tree.Respelled ts us))
      ((Machine.ofSink sink).execute limits root) ((Machine.ofSink sink).execute limits root') := by
  have hT := tandem_alike (Tree.readAlike_respelled ts us)
  have hcall := hT.call (.inl ⟨Eq.refl limits.callsAllowed, Eq.refl (limits.maxDepth - 0)⟩)
  have hchildren := Tree.respelled_children hwf h
  have hstart : (Machine.ofSink sink).Alike (Tree.Respelled ts us) (Machine.ofSink sink) :=
    ⟨rfl, .nil, rfl, rfl, rfl⟩
  cases h with
  | @node f t u cs ds _ _ =>
      obtain rfl : f = .root := hform
      exact (hT.statements hcall hchildren).joint hstart

end Action

namespace Session

/-- Texts whose tokens read the same run the same. -/
theorem run_respelled {bs bs' : List UInt8} {kw kw' : Keywords} (limits : Limits) (sink : Sink)
    (he : (Tokens.ofBytes bs kw).error? = none) (he' : (Tokens.ofBytes bs' kw').error? = none)
    (h : (Tokens.ofBytes bs kw).list.map Token.reading =
      (Tokens.ofBytes bs' kw').list.map Token.reading) :
    let ts := Tokens.ofBytes bs kw
    let ts' := Tokens.ofBytes bs' kw'
    let r := (start kw limits sink).run bs
    let r' := (start kw' limits sink).run bs'
    r.2.machine.sink = r'.2.machine.sink ∧
      (r.1 = .ok () ∧ r'.1 = .ok () ∨
        (∃ (i : Nat) (m m' : Misfit), r.1 = .error (.parse (.misfit m)) ∧
          r'.1 = .error (.parse (.misfit m')) ∧ m.expected = m'.expected ∧
          m.found.kind = m'.found.kind ∧
          ts.list[i]? = some m.found ∧ ts'.list[i]? = some m'.found) ∨
        (∃ (i : Nat) (t t' : Token) (fault : Fault), r.1 = .error (.run (.eval ⟨fault, t.pos⟩)) ∧
          r'.1 = .error (.run (.eval ⟨fault, t'.pos⟩)) ∧
          ts.list[i]? = some t ∧ ts'.list[i]? = some t') ∨
        (sink.room? ≠ none ∧
          ∃ e, r.1 = .error (.run (.write e)) ∧ r'.1 = .error (.run (.write e)))) := by
  intro ts ts' r r'
  rcases Tokens.parse_respelled (Tokens.finished_ofBytes bs kw) (Tokens.finished_ofBytes bs' kw') h
    he he' with ⟨n, n', hn, hn', halike⟩ | ⟨i, m, m', hm, hm', hmisfit⟩
  · rw [← parse_eq_parse] at hn hn'
    obtain ⟨hform, hwf⟩ := wellFormed_of_parse hn
    have hjoint := Action.joint_respelled hform hwf halike sink limits
    have hn : parse bs (start kw limits sink).keywords = .ok n := hn
    have hn' : parse bs' (start kw' limits sink).keywords = .ok n' := hn'
    obtain ⟨hmachines, hend⟩ := run_alike hn hn' hjoint
    refine ⟨hmachines.sink, ?_⟩
    rcases hend with hok | ⟨e, e', hr, hr', hee'⟩
    · exact .inl hok
    · cases hee' with
      | write e =>
          refine .inr (.inr (.inr ⟨?_, e, hr, hr'⟩))
          intro hroom
          obtain ⟨d, hd⟩ := Machine.exists_eval_of_execute hroom (execute_of_run_error hn hr)
          cases hd
      | missing =>
          -- an expression is missing in no program
          obtain ⟨k, -, hk⟩ := exists_blames_of_run (Machine.knows_ofSink _ sink) hr
          exact absurd rfl (hk.ne_malformed .missingExpression)
      | @eval k k' fault hk =>
          obtain ⟨i, hi, hi'⟩ := hk.exists_index
          exact .inr (.inr (.inl ⟨i, k.token, k'.token, fault, hr, hr', hi, hi'⟩))
  · rw [← parse_eq_parse] at hm hm'
    have hr : r = (.error (.parse (.misfit m)), start kw limits sink) := run_of_parse_error hm
    have hr' : r' = (.error (.parse (.misfit m')), start kw' limits sink) := run_of_parse_error hm'
    rw [hr, hr']
    exact ⟨rfl, .inr (.inl ⟨i, m, m', rfl, rfl, hmisfit⟩)⟩

theorem run_respelled_montre :
    let words : Keywords := ⟨[("montre", .printWord)], by decide⟩
    let bs := "print 3 print 1 / 0".toUTF8.toList
    let bs' := "montre 3  montre 1/0".toUTF8.toList
    let r := (start .standard ⟨9, true⟩ (.ofRoom? none)).run bs
    let r' := (start words ⟨9, true⟩ (.ofRoom? none)).run bs'
    (Tokens.ofBytes bs .standard).error? = none ∧ (Tokens.ofBytes bs' words).error? = none ∧
      (Tokens.ofBytes bs .standard).list.map Token.reading =
        (Tokens.ofBytes bs' words).list.map Token.reading ∧
      r.1 = .error (.run (.eval ⟨.divisionByZero, ⟨1, 17⟩⟩)) ∧
      r'.1 = .error (.run (.eval ⟨.divisionByZero, ⟨1, 19⟩⟩)) ∧
      r.2.machine.sink.lines = #["3"] ∧ r.2.machine.sink = r'.2.machine.sink := by
  intro words bs bs' r r'
  have he : (Tokens.ofBytes bs .standard).error? = none := by decide +kernel
  have he' : (Tokens.ofBytes bs' words).error? = none := by decide +kernel
  have hreading : (Tokens.ofBytes bs .standard).list.map Token.reading =
      (Tokens.ofBytes bs' words).list.map Token.reading := by decide +kernel
  obtain ⟨hsink, -⟩ := run_respelled ⟨9, true⟩ (.ofRoom? none) he he' hreading
  exact ⟨he, he', hreading, by decide +kernel, by decide +kernel, by decide +kernel, hsink⟩

end Session

end IntScript
