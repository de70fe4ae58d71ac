import IntScript.Proofs.Grammar.Joined
import IntScript.Proofs.Machine.Alike
import IntScript.Proofs.Session.History

/-!
# A text run in parts

A session may be given a program in one piece or in two.

Main statement: it makes no difference (`Session.run_in_parts`).  The text in one piece is parsed as
the parts are, with the second further down, and if the first part runs to its end, the session
comes to the same output, variables and functions.  If the second part fails, the text in one piece
fails for the same reason.  Where a failure shows in the second part, it shows as many rows further
down in the whole; where it shows in a function from before, it shows in the same place.

So there are two sorts of nodes that correspond (`Tree.Moved`): those of functions that are known
before the second part runs, which correspond to themselves, and those of the second part.
-/

namespace IntScript

namespace Tree

theorem mem_nodes_self (n : Tree) : n ∈ n.nodes := by
  cases n
  exact mem_nodes.mpr (.inl rfl)

theorem mem_nodes_of_mem_children {n c : Tree} (h : c ∈ n.children) : c ∈ n.nodes := by
  cases n
  exact mem_nodes.mpr (.inr ⟨c, h, c.mem_nodes_self⟩)

/-! ## Reading further down -/

theorem literal_lower (k : Nat) (n : Tree) : (n.lower k).literal = n.literal := by
  rw [literal, token_lower]
  rfl

theorem child?_lower (k : Nat) (n : Tree) (i : Int) :
    (n.lower k).child? i = (n.child? i).map (lower k) := by
  unfold child?
  split
  · rfl
  · rw [children_lower, List.getElem?_map]

theorem sameItems_lower (k : Nat) (n : Tree) : n.SameItems (n.lower k) := by
  intro l l' hl hl'
  rw [child?_lower, hl] at hl'
  cases hl'
  rw [children_lower, List.map_map]
  exact List.map_congr_left fun c _ => (literal_lower k c).symm

/-- A node of a function that is known stays what it is, and a node of the text `b` is so many rows
further down. -/
def Moved (k : Nat) (known : Bindings Tree) (b n n' : Tree) : Prop :=
  (∃ p ∈ known.entries, n ∈ p.2.nodes ∧ n' = n) ∨ (n ∈ b.nodes ∧ n' = n.lower k)

theorem readAlike_moved (k : Nat) (known : Bindings Tree) (b : Tree) :
    ReadAlike (Moved k known b) where
  form_eq h := by
    rcases h with ⟨_, _, _, rfl⟩ | ⟨_, rfl⟩
    · rfl
    · rw [form_lower]
  kind_eq h := by
    rcases h with ⟨_, _, _, rfl⟩ | ⟨_, rfl⟩
    · rfl
    · rw [token_lower, Token.kind_lower]
  literal_eq h _ := by
    rcases h with ⟨_, _, _, rfl⟩ | ⟨_, rfl⟩
    · rfl
    · rw [literal_lower]
  items h _ := by
    rcases h with ⟨_, _, _, rfl⟩ | ⟨_, rfl⟩
    · exact sameItems_refl _
    · exact sameItems_lower k _
  children {n n'} h := by
    rcases h with ⟨p, hp, hn, rfl⟩ | ⟨hn, rfl⟩
    · refine List.forall₂_same.mpr fun c hc => .inl ⟨p, hp, ?_, rfl⟩
      exact nodes_trans (mem_nodes_of_mem_children hc) _ hn
    · rw [children_lower]
      refine List.forall₂_map_right_iff.mpr (List.forall₂_same.mpr fun c hc => .inr ⟨?_, rfl⟩)
      exact nodes_trans (mem_nodes_of_mem_children hc) _ hn

end Tree

namespace Machine

theorem alike_moved (k : Nat) (m : Machine) (b : Tree) :
    m.Alike (Tree.Moved k m.functions b) m := by
  refine ⟨rfl, List.forall₂_same.mpr fun p hp => ⟨rfl, ?_⟩, rfl, rfl, rfl⟩
  exact ⟨.inl ⟨p, hp, p.2.mem_nodes_self, rfl⟩, p.2.sameItems_refl⟩

end Machine

namespace Action

theorem statements_append (invoke : Tree → Action Int64) (l l' : List Tree) :
    statements invoke (l ++ l') = (do statements invoke l; statements invoke l') := by
  induction l with
  | nil => exact (pure_bind () fun _ => statements invoke l').symm
  | cons s l ih =>
      show (do statement invoke s; statements invoke (l ++ l')) =
        (do (do statement invoke s; statements invoke l); statements invoke l')
      rw [ih, bind_assoc]

/-- If the first statements run to their ends, the others run on from there as they would in a
program of their own. -/
theorem joint_joined {m m₁ : Machine} {limits : Limits} {t : Token} {l : List Tree}
    (h : m.execute limits (.node .root t l) = (.ok (), m₁)) (k : Nat) (u v : Token)
    (l' : List Tree) :
    Joint (Machine.Alike (Tree.Moved k m₁.functions (.node .root u l')))
      (FailAlike (Tree.Moved k m₁.functions (.node .root u l')))
      (m₁.execute limits (.node .root u l'))
      (m.execute limits (.node .root v (l ++ l'.map (Tree.lower k)))) := by
  have hT := tandem_alike (Tree.readAlike_moved k m₁.functions (.node .root u l'))
  have hl : (statements (callWithin limits m.frames.length) l).run m = (.ok (), m₁) := h
  have hheight : m₁.frames.length = m.frames.length := by
    have hconfined := confined_statements limits m.frames.length l m
    rw [hl] at hconfined
    exact hconfined.height
  show Joint _ _ ((statements (callWithin limits m₁.frames.length) l').run m₁)
    ((statements (callWithin limits m.frames.length) (l ++ l'.map (Tree.lower k))).run m)
  rw [statements_append, run_bind_of_ok hl, hheight]
  have hcall := hT.call (.inl ⟨Eq.refl limits.callsAllowed,
    Eq.refl (limits.maxDepth - m.frames.length)⟩)
  refine (hT.statements hcall ?_).joint (m₁.alike_moved k _)
  refine List.forall₂_map_right_iff.mpr (List.forall₂_same.mpr fun c hc => .inr ⟨?_, rfl⟩)
  exact Tree.mem_nodes_of_mem_children hc

end Action

namespace Session

theorem keywords_run (s : Session) (bs : List UInt8) : (s.run bs).2.keywords = s.keywords := by
  unfold run
  split
  · rfl
  · rfl

theorem limits_run (s : Session) (bs : List UInt8) : (s.run bs).2.limits = s.limits := by
  unfold run
  split
  · rfl
  · rfl

theorem execute_of_run_ok {s : Session} {bs : List UInt8} {root : Tree}
    (h : parse bs s.keywords = .ok root) (hok : (s.run bs).1 = .ok ()) :
    s.machine.execute s.limits root = (.ok (), (s.run bs).2.machine) := by
  rw [run_of_parse h] at hok ⊢
  rcases hr : s.machine.execute s.limits root with ⟨e | _, m⟩
  · rw [hr] at hok
    cases hok
  · rfl

theorem run_alike {s s' : Session} {bs bs' : List UInt8} {root root' : Tree}
    {T : Tree → Tree → Prop} (h : parse bs s.keywords = .ok root)
    (h' : parse bs' s'.keywords = .ok root')
    (hjoint : Action.Joint (Machine.Alike T) (Action.FailAlike T)
      (s.machine.execute s.limits root) (s'.machine.execute s'.limits root')) :
    (s.run bs).2.machine.Alike T (s'.run bs').2.machine ∧
      ((s.run bs).1 = .ok () ∧ (s'.run bs').1 = .ok () ∨
        ∃ e e', (s.run bs).1 = .error (.run e) ∧ (s'.run bs').1 = .error (.run e') ∧
          e.Alike T e') := by
  obtain ⟨halike, hend⟩ := hjoint.alike_cases
  rw [run_of_parse h, run_of_parse h']
  refine ⟨halike, ?_⟩
  rcases hend with ⟨a, ha, ha'⟩ | ⟨e, e', he, he', hee'⟩
  · exact .inl ⟨congrArg (Except.mapError _) ha, congrArg (Except.mapError _) ha'⟩
  · exact .inr ⟨e, e', congrArg (Except.mapError _) he, congrArg (Except.mapError _) he', hee'⟩

/-- A text in one piece runs as it does in two parts, if the first part runs to its end. -/
theorem run_in_parts (s : Session) (hkw : ∀ word, s.keywords.get? word ≠ some .endOfText)
    {above below : List UInt8} {a b : Tree} (ha : parse above s.keywords = .ok a)
    (hb : parse below s.keywords = .ok b) :
    let k := 1 + above.count 10
    let s₁ := (s.run above).2
    let parts := s₁.run below
    let whole := s.run (above ++ 10 :: below)
    parse (above ++ 10 :: below) s.keywords =
        .ok (.node .root .nowhere (a.children ++ b.children.map (Tree.lower k))) ∧
      ((s.run above).1 = .ok () →
        parts.2.machine.sink = whole.2.machine.sink ∧ parts.2.globals = whole.2.globals ∧
        parts.2.functionNames = whole.2.functionNames ∧
        Bindings.Rel (Tree.Moved k s₁.machine.functions b) parts.2.machine.functions
          whole.2.machine.functions ∧
        (parts.1 = .ok () ∧ whole.1 = .ok () ∨
          ∃ e e', parts.1 = .error (.run e) ∧ whole.1 = .error (.run e') ∧
            e.Alike (Tree.Moved k s₁.machine.functions b) e')) := by
  intro k s₁ parts whole
  have hjoined := parse_joined hkw ha hb
  refine ⟨hjoined, fun hok => ?_⟩
  have hb₁ : parse below s₁.keywords = .ok b := by
    rw [keywords_run]
    exact hb
  have hexecute := execute_of_run_ok ha hok
  obtain ⟨f, t, l⟩ := a
  obtain rfl : f = .root := (wellFormed_of_parse ha).1
  obtain ⟨f, u, l'⟩ := b
  obtain rfl : f = .root := (wellFormed_of_parse hb).1
  have hjoint := Action.joint_joined hexecute k u .nowhere l'
  obtain ⟨halike, hend⟩ := run_alike hb₁ hjoined (by rw [limits_run]; exact hjoint)
  have hnames : parts.2.functionNames = whole.2.functionNames := halike.functions.names_eq
  have hfunctions : Bindings.Rel (Tree.Moved k s₁.machine.functions (.node .root u l'))
      parts.2.machine.functions whole.2.machine.functions :=
    List.Forall₂.imp (fun _ _ h => ⟨h.1, h.2.1⟩) halike.functions
  exact ⟨halike.sink, congrArg Bindings.entries halike.globals, hnames, hfunctions, hend⟩

theorem run_in_parts_failing :
    let s := start .standard ⟨9, true⟩ (.ofRoom? none)
    let above := "x = 1\n".toUTF8.toList
    let below := "print x y = x / 0".toUTF8.toList
    let parts := (s.run above).2.run below
    let whole := s.run (above ++ 10 :: below)
    (∀ word, s.keywords.get? word ≠ some .endOfText) ∧ (s.run above).1 = .ok () ∧
      parts.1 = .error (.run (.eval ⟨.divisionByZero, ⟨1, 15⟩⟩)) ∧
      whole.1 = .error (.run (.eval ⟨.divisionByZero, ⟨3, 15⟩⟩)) ∧
      parts.2.machine.sink = whole.2.machine.sink ∧ parts.2.globals = whole.2.globals ∧
      ∃ a b, parse above s.keywords = .ok a ∧ parse below s.keywords = .ok b ∧
        parse (above ++ 10 :: below) s.keywords =
          .ok (.node .root .nowhere (a.children ++ b.children.map (Tree.lower 2))) := by
  intro s above below parts whole
  have hkw : ∀ word, s.keywords.get? word ≠ some .endOfText := by
    intro word hword
    simp only [s, start, Keywords.standard, Keywords.uses, Bindings.get?,
      Bindings.lookup_cons_eq_ite, List.lookup_nil] at hword
    repeat' split at hword
    all_goals cases hword
  have hok : (s.run above).1 = .ok () := by decide +kernel
  have hparts : parts.1 = .error (.run (.eval ⟨.divisionByZero, ⟨1, 15⟩⟩)) := by decide +kernel
  have hwhole : whole.1 = .error (.run (.eval ⟨.divisionByZero, ⟨3, 15⟩⟩)) := by decide +kernel
  have hparses : ∀ bs, (parse bs s.keywords).isOk → ∃ root, parse bs s.keywords = .ok root := by
    intro bs h
    cases hroot : parse bs s.keywords with
    | error e =>
        rw [hroot] at h
        cases h
    | ok root => exact ⟨root, rfl⟩
  obtain ⟨a, ha⟩ := hparses above (by decide +kernel)
  obtain ⟨b, hb⟩ := hparses below (by decide +kernel)
  obtain ⟨hjoined, hsame⟩ := run_in_parts s hkw ha hb
  obtain ⟨hsink, hglobals, -⟩ := hsame hok
  rw [show 1 + above.count 10 = 2 by decide +kernel] at hjoined
  exact ⟨hkw, hok, hparts, hwhole, hsink, hglobals, a, b, ha, hb, hjoined⟩

end Session

end IntScript
