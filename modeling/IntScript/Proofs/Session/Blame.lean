import IntScript.Proofs.Grammar.Anchors
import IntScript.Proofs.Grammar.Joined
import IntScript.Proofs.Session.History
import IntScript.Proofs.Token.Stream

/-!
# The token to blame

A run that fails names a position.  What stands there in the text depends on the reason:

| reason | token | its text is quoted |
| :-- | :-- | :-- |
| a name without a value | a name | yes |
| a function that is not there, or a call where none is allowed | the name of the function | yes |
| a call with the wrong number of arguments, or too deep inside others | the name of the function | |
| a number out of range | the number | yes |
| division by zero | `/` or `%` | |
| a negative exponent | `^` | |

Main statement: there is always such a token, and it is the only one at the position
(`Session.run_blames_token`).  The failing node may be in the body of a function, several calls away
from the statement that was run, but it is a node of the text, and nodes are anchored at tokens.
-/

namespace IntScript

/-! ## Nodes of a text -/

theorem Form.mem_arrange_self {f : Form} (hf : f ≠ .root) (t : Token) (parts : List (List Token)) :
    t ∈ f.arrange t parts := by
  cases f with
  | root => exact absurd rfl hf
  | assign | sum | product | power => exact List.mem_append_right _ List.mem_cons_self
  | _ => exact List.mem_cons_self

theorem Form.mem_arrange_of_mem (f : Form) (t : Token) {parts : List (List Token)} {u : Token}
    {part : List Token} (hpart : part ∈ parts) (hu : u ∈ part) : u ∈ f.arrange t parts := by
  have hflat : u ∈ parts.flatten := List.mem_flatten.mpr ⟨part, hpart, hu⟩
  have hsplit : u ∈ (parts.take 1).flatten ∨ u ∈ (parts.drop 1).flatten := by
    rwa [← List.mem_append, ← List.flatten_append, List.take_append_drop]
  cases f with
  | root => exact hflat
  | assign | sum | product | power =>
      refine List.mem_append.mpr (hsplit.imp_right ?_)
      exact List.mem_cons_of_mem t
  | _ => exact List.mem_cons_of_mem t hflat

namespace Tree

theorem token_mem_anchors {k : Tree} (hroot : k.form ≠ .root) :
    ∀ n : Tree, k ∈ n.nodes → k.token ∈ n.anchors := by
  refine induction fun f t cs ih hk => ?_
  rw [anchors_node]
  rcases mem_nodes.mp hk with rfl | ⟨c, hc, hk⟩
  · exact Form.mem_arrange_self hroot t _
  · exact f.mem_arrange_of_mem t (List.mem_map_of_mem hc) (ih c hc hk)

theorem WellFormed.eq_of_form_root {k : Tree} (hroot : k.form = .root) :
    ∀ n : Tree, n.WellFormed → k ∈ n.nodes → k = n := by
  refine induction fun f t cs ih hwf hk => ?_
  obtain ⟨hproper, hcs⟩ := wellFormed_node.mp hwf
  rcases mem_nodes.mp hk with hk | ⟨c, hc, hk⟩
  · exact hk
  · obtain rfl := ih c hc (hcs c hc) hk
    exact absurd hroot (hproper.form_ne_root_of_child hc)

end Tree

/-- A text that is parsed is scanned to its end.  Its nodes are proper, and each has a token of the
text, except for the root. -/
theorem anchored_of_parse {bs : List UInt8} {kw : Keywords} {root : Tree}
    (h : parse bs kw = .ok root) :
    (Tokens.ofBytes bs kw).error? = none ∧
      root.All fun n => n.Proper ∧
        (n.token ∈ (Tokens.ofBytes bs kw).list ∨ n.token.kind = .endOfText) := by
  rw [parse_eq_parse] at h
  obtain ⟨p, hp, hscan, rfl⟩ := Grammar.exists_program_of_parse (Tokens.finished_ofBytes bs kw) h
  refine ⟨hscan, ?_⟩
  intro n hn
  refine ⟨p.wellFormed_tree n hn, ?_⟩
  by_cases hroot : n.form = .root
  · right
    rw [Tree.WellFormed.eq_of_form_root hroot p.tree p.wellFormed_tree hn]
    rfl
  · left
    have hanchor : n.token ∈ p.tree.anchors := Tree.token_mem_anchors hroot p.tree hn
    rw [p.anchors_tree, hp] at hanchor
    exact List.mem_of_mem_filter hanchor

/-! ## Reasons and tokens -/

namespace Fault

/-- The kinds of the token that a fault shows at. -/
def blamed : Fault → List Kind
  | .variableNotFound _ | .functionNotFound _ | .callsUnsupported _ | .arityMismatch ..
  | .callDepthExceeded .. => [.symbol]
  | .invalidInteger _ => [.integer]
  | .divisionByZero => [.div, .mod]
  | .negativeExponent _ => [.pow]
  | .malformed _ => []

/-- The detail of the fault is the text of that token. -/
def isQuote : Fault → Bool
  | .variableNotFound _ | .functionNotFound _ | .callsUnsupported _ | .invalidInteger _ => true
  | _ => false

theorem endOfText_not_mem_blamed (fault : Fault) : Kind.endOfText ∉ fault.blamed := by
  cases fault with
  | divisionByZero => decide
  | malformed => exact List.not_mem_nil
  | _ => exact fun h => Kind.noConfusion (List.mem_singleton.mp h)

end Fault

theorem Blames.kind_mem {n : Tree} {e : EvalError} (h : Blames n e) (hn : n.Proper) :
    n.token.pos = e.pos ∧ n.token.kind ∈ e.fault.blamed ∧
      (e.fault.isQuote = true → e.fault.detail = n.token.literal) := by
  unfold Tree.Proper at hn
  cases h with
  | integer hform =>
      rw [hform] at hn
      exact ⟨rfl, List.mem_singleton.mpr hn.1, fun _ => rfl⟩
  | name hform =>
      have hkind : n.token.kind = .symbol := by
        rcases hform with hform | hform
        · rw [hform] at hn
          exact hn.1
        · rw [hform] at hn
          exact hn.1
      exact ⟨rfl, List.mem_singleton.mpr hkind, fun _ => rfl⟩
  | zero hkind => exact ⟨rfl, List.mem_pair.mpr hkind, fun h => by cases h⟩
  | exponent v hkind => exact ⟨rfl, List.mem_singleton.mpr hkind, fun h => by cases h⟩
  | missing hform | unsupported hform =>
      rw [hform] at hn
      exact ⟨rfl, List.mem_singleton.mpr hn.1, fun _ => rfl⟩
  | arity _ _ hform | depth _ hform =>
      rw [hform] at hn
      exact ⟨rfl, List.mem_singleton.mpr hn.1, fun h => by cases h⟩

/-! ## Main statement -/

namespace Session

/-- A text that fails on the way fails at one of its tokens, and the token fits the reason. -/
theorem run_blames_token (kw : Keywords) (limits : Limits) (sink : Sink) (bs : List UInt8)
    {e : EvalError} (h : ((start kw limits sink).run bs).1 = .error (.run (.eval e))) :
    let ts := Tokens.ofBytes bs kw
    ts.error? = none ∧
      ∃ t ∈ ts.list, t.pos = e.pos ∧ (∀ u ∈ ts.list, u.pos = e.pos → u = t) ∧
        t.kind ∈ e.fault.blamed ∧ (e.fault.isQuote = true → e.fault.detail = t.literal) := by
  intro ts
  cases hparse : parse bs kw with
  | error d =>
      rw [run_of_parse_error hparse] at h
      cases h
  | ok root =>
      have herror := execute_of_run_error hparse h
      have hform := (wellFormed_of_parse hparse).1
      obtain ⟨hscan, hall⟩ := anchored_of_parse hparse
      have hkeeps := Action.keeps_execute (fun _ hn => hn.1) limits hform hall
      obtain ⟨-, hblames⟩ := hkeeps (.ofSink sink) (Machine.knows_ofSink _ sink)
      obtain ⟨n, ⟨hproper, htoken⟩, hn⟩ := hblames e herror
      obtain ⟨hpos, hkind, hquote⟩ := hn.kind_mem hproper
      have hmem : n.token ∈ ts.list := by
        refine htoken.resolve_right ?_
        intro hend
        exact e.fault.endOfText_not_mem_blamed (hend ▸ hkind)
      refine ⟨hscan, n.token, hmem, hpos, ?_, hkind, hquote⟩
      intro u hu hupos
      exact Tokens.eq_of_pos_eq hu hmem (hupos.trans hpos.symm)

/-- The division is two calls away from the statement that fails, and on a line before it. -/
theorem run_blames_token_in_call :
    let bs := "func f(a) \x7b\n return a % 0 \x7d func g(a) \x7b return f(a) \x7d\nx = 3 print g(x)"
      |>.toUTF8.toList
    ((start .standard ⟨9, true⟩ (.ofRoom? none)).run bs).1 =
        .error (.run (.eval ⟨.divisionByZero, ⟨2, 11⟩⟩)) ∧
      ∃ t ∈ (Tokens.ofBytes bs .standard).list, t.pos = ⟨2, 11⟩ ∧ t.kind ∈ [Kind.div, .mod] := by
  intro bs
  have herror : ((start .standard ⟨9, true⟩ (.ofRoom? none)).run bs).1 =
      .error (.run (.eval ⟨.divisionByZero, ⟨2, 11⟩⟩)) := by decide +kernel
  obtain ⟨-, t, ht, hpos, -, hkind, -⟩ :=
    run_blames_token .standard ⟨9, true⟩ (.ofRoom? none) bs herror
  exact ⟨herror, t, ht, hpos, hkind⟩

end Session

end IntScript
