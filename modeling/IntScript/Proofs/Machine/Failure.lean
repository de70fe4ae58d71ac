import IntScript.Proofs.Machine.Effect
import Mathlib.Logic.Relation

/-!
# Where a program fails

A program that fails does so at one of its statements.  The statements before it have run to their
ends, and those behind it have not been looked at (`Machine.exists_failing`).

The failing statement itself has done nothing of its own: a `print` fails before it has written its
line, and an assignment before it has assigned.  All it may have done is to run the bodies of
functions, one after the other, for the calls in its expression (`Action.moves_of_statement_error`,
`Action.moves_callWithin`).
-/

namespace IntScript

namespace Action

/-- A call below `n` runs the function it names, from a depth of so many frames. -/
def Enters (limits : Limits) (depth : Nat) (n : Tree) (m m' : Machine) : Prop :=
  ∃ c ∈ n.nodes, c.form = .call ∧ ∃ d params block args,
    m.functions.get? c.literal = some d ∧ d.child? 0 = some params ∧ d.child? 1 = some block ∧
      c.child? 0 = some args ∧
      m' = ((perform limits.callsAllowed (limits.maxDepth - (depth + 1)) c params block args).run
        m).2

theorem moves_callWithin (limits : Limits) (depth : Nat) {n c : Tree} (hc : c ∈ n.nodes)
    (hform : c.form = .call) :
    Moves (Relation.ReflTransGen (Enters limits depth n)) (callWithin limits depth c) := by
  unfold callWithin
  cases hroom : limits.maxDepth - depth with
  | zero =>
      rw [call_zero]
      exact moves_resolve _ fun m _ _ _ _ _ _ _ _ => moves_fail _ _ m
  | succ room =>
      rw [call_succ]
      refine moves_resolve _ fun m d params block args hd hparams hblock hargs => .single ?_
      have hroom : limits.maxDepth - (depth + 1) = room := by omega
      exact ⟨c, hc, hform, d, params, block, args, hd, hparams, hblock, hargs, by rw [hroom]⟩

variable {E : Machine → Machine → Prop} [IsPreorder Machine E] {invoke : Tree → Action Int64}

omit [IsPreorder Machine E] in
theorem run_print_error {v : Int64} {m m' : Machine} {e : RunError}
    (h : (print v).run m = (.error e, m')) : m' = m := by
  unfold print at h
  rw [run_get_bind] at h
  cases hw : m.sink.write (Text.Decimal.ofInt64 v) with
  | ok sink =>
      rw [hw] at h
      cases h
  | error d =>
      rw [hw] at h
      cases h
      rfl

/-- A statement that fails has done what its calls do, and nothing else. -/
theorem moves_of_statement_error {n : Tree}
    (hinvoke : ∀ c ∈ n.nodes, c.form = .call → Moves E (invoke c)) {m m' : Machine} {e : RunError}
    (h : (statement invoke n).run m = (.error e, m')) : E m m' := by
  have hfail {pos : Position} {fault : Fault}
      (h : (fail pos fault : Action Unit).run m = (.error e, m')) : E m m' := by
    cases h
    exact refl (r := E) m
  have hevaluate (i : Int) {d : RunError} {k : Machine}
      (h : (evaluate? invoke (n.child? i)).run m = (.error d, k)) : E m k := by
    have hmoves := moves_evaluate? hinvoke i m
    rwa [h] at hmoves
  rcases n.form.statement_cases with hf | hf | hf | hf
  · rw [statement_print invoke hf] at h
    rcases run_bind_error_cases h with h | ⟨v, k, hv, h⟩
    · exact hevaluate 0 h
    · have hmoves := moves_evaluate? hinvoke 0 m
      rwa [hv, ← run_print_error h] at hmoves
  · by_cases ht : ∃ target, n.child? 0 = some target ∧ target.form = .name
    · obtain ⟨target, ht, hname⟩ := ht
      rw [statement_assign invoke hf ht hname] at h
      rcases run_bind_error_cases h with h | ⟨v, k, hv, h⟩
      · exact hevaluate 1 h
      · cases h
    · rw [statement_noTarget invoke hf fun target ht' hname => ht ⟨target, ht', hname⟩] at h
      exact hfail h
  · by_cases hc : n.children.length = 2
    · rw [statement_function invoke hf hc] at h
      cases h
    · rw [statement_arity invoke hf hc] at h
      exact hfail h
  · rw [statement_other invoke hf] at h
    exact hfail h

omit [IsPreorder Machine E] in
theorem exists_failing_statement {e : RunError} {m' : Machine} :
    ∀ (l : List Tree) (m : Machine), (statements invoke l).run m = (.error e, m') →
      ∃ i s before, l[i]? = some s ∧ (statements invoke (l.take i)).run m = (.ok (), before) ∧
        (statement invoke s).run before = (.error e, m')
  | [], _, h => by cases h
  | s :: l, m, h => by
      rcases run_bind_error_cases h with h | ⟨_, k, hs, h⟩
      · exact ⟨0, s, m, rfl, rfl, h⟩
      · obtain ⟨i, s', before, hi, htake, herror⟩ := exists_failing_statement l k h
        exact ⟨i + 1, s', before, hi, (run_bind_of_ok hs).trans htake, herror⟩

end Action

namespace Machine

theorem execute_root (m : Machine) (limits : Limits) (t : Token) (l : List Tree) :
    m.execute limits (.node .root t l) =
      (Action.statements (Action.callWithin limits m.frames.length) l).run m :=
  rfl

/-- A program that fails does so at one statement, and the ones before it have run. -/
theorem exists_failing {m m' : Machine} {limits : Limits} {t : Token} {l : List Tree} {e : RunError}
    (h : m.execute limits (.node .root t l) = (.error e, m')) :
    ∃ i s before, l[i]? = some s ∧
      m.execute limits (.node .root t (l.take i)) = (.ok (), before) ∧
      before.frames.length = m.frames.length ∧
      (Action.statement (Action.callWithin limits m.frames.length) s).run before =
        (.error e, m') := by
  obtain ⟨i, s, before, hi, htake, herror⟩ := Action.exists_failing_statement l m h
  have hconfined := Action.confined_statements limits m.frames.length (l.take i) m
  rw [htake] at hconfined
  exact ⟨i, s, before, hi, htake, hconfined.height, herror⟩

end Machine

end IntScript
