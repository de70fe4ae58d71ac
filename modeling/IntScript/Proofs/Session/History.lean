import IntScript.Proofs.Grammar.Recognition
import IntScript.Proofs.Machine.Blame
import IntScript.Session

/-!
# What a session has been through

A session is run and reset, over and over (`Session.after`).  A run may fail, and then what it did
so far stays done; so the functions that a text declares are there in later runs even if the text
went wrong behind them.

Main statement: in spite of that nothing in a session is malformed, ever
(`Session.never_malformed`).  The parser makes well-formed trees only, every step leaves the
functions of the session well formed, and running a well-formed tree with such functions a
malformed tree is not among the reasons to fail.
-/

namespace IntScript

theorem wellFormed_of_parse {bs : List UInt8} {kw : Keywords} {root : Tree}
    (h : parse bs kw = .ok root) : root.form = .root ∧ root.WellFormed := by
  rw [parse_eq_parse] at h
  obtain ⟨p, -, -, rfl⟩ := Grammar.exists_program_of_parse (Tokens.finished_ofBytes bs kw) h
  exact ⟨rfl, p.wellFormed_tree⟩

namespace Session

inductive Step where
  | run (bs : List UInt8)
  | reset
  deriving DecidableEq, Repr

/-- The session after one step, whether it fails or not. -/
def step (s : Session) : Step → Session
  | .run bs => (s.run bs).2
  | .reset => s.reset

def after (s : Session) (steps : List Step) : Session := steps.foldl step s

theorem run_of_parse {s : Session} {bs : List UInt8} {root : Tree}
    (h : parse bs s.keywords = .ok root) :
    s.run bs = (((s.machine.execute s.limits root).1).mapError .run,
      { s with machine := (s.machine.execute s.limits root).2 }) := by
  unfold run
  rw [h]

theorem run_of_parse_error {s : Session} {bs : List UInt8} {e : ParseError}
    (h : parse bs s.keywords = .error e) : s.run bs = (.error (.parse e), s) := by
  unfold run
  rw [h]

theorem execute_of_run_error {s : Session} {bs : List UInt8} {root : Tree} {e : RunError}
    (h : parse bs s.keywords = .ok root) (he : (s.run bs).1 = .error (.run e)) :
    (s.machine.execute s.limits root).1 = .error e := by
  rw [run_of_parse h] at he
  cases hr : (s.machine.execute s.limits root).1 with
  | ok _ =>
      rw [hr] at he
      cases he
  | error d =>
      rw [hr] at he
      cases he
      rfl

/-- A run is a run of the machine on a well-formed tree, or there is no tree. -/
theorem run_cases (s : Session) (bs : List UInt8) :
    (∃ e, s.run bs = (.error (.parse e), s)) ∨
      ∃ root : Tree, root.form = .root ∧ root.WellFormed ∧
        s.run bs = (((s.machine.execute s.limits root).1).mapError .run,
          { s with machine := (s.machine.execute s.limits root).2 }) := by
  unfold run
  split
  · exact .inl ⟨_, rfl⟩
  · rename_i root hroot
    obtain ⟨hform, hwf⟩ := wellFormed_of_parse hroot
    exact .inr ⟨root, hform, hwf, rfl⟩

theorem knows_run {s : Session} (h : s.machine.Knows Tree.Proper) (bs : List UInt8) :
    (s.run bs).2.machine.Knows Tree.Proper := by
  rcases s.run_cases bs with ⟨e, he⟩ | ⟨root, hform, hwf, hrun⟩
  · rw [he]
    exact h
  · rw [hrun]
    exact (Action.keeps_execute (fun _ hn => hn) s.limits hform hwf s.machine h).1

theorem exists_blames_of_run {s : Session} (h : s.machine.Knows Tree.Proper) {bs : List UInt8}
    {e : EvalError} (he : (s.run bs).1 = .error (.run (.eval e))) : ∃ n, n.Proper ∧ Blames n e := by
  rcases s.run_cases bs with ⟨d, hd⟩ | ⟨root, hform, hwf, hrun⟩
  · rw [hd] at he
    cases he
  · obtain ⟨-, hblames⟩ := Action.keeps_execute (fun _ hn => hn) s.limits hform hwf s.machine h
    rw [hrun] at he
    rcases hr : (s.machine.execute s.limits root).1 with d | u
    · rw [hr] at he
      cases he
      exact hblames e hr
    · rw [hr] at he
      cases he

theorem knows_step {s : Session} (h : s.machine.Knows Tree.Proper) (step : Step) :
    (s.step step).machine.Knows Tree.Proper := by
  cases step with
  | run bs => exact knows_run h bs
  | reset => exact Machine.knows_ofSink _ _

theorem knows_after {s : Session} (h : s.machine.Knows Tree.Proper) (steps : List Step) :
    (s.after steps).machine.Knows Tree.Proper := by
  induction steps generalizing s with
  | nil => exact h
  | cons step steps ih => exact ih (knows_step h step)

/-- Nothing in a session is malformed, whatever has been run in it. -/
theorem never_malformed (kw : Keywords) (limits : Limits) (sink : Sink) (steps : List Step) :
    (∀ bs root, parse bs kw = .ok root →
      root.form = .root ∧ root.WellFormed ∧ ∀ n ∈ root.nodes, ∃ text, n.parenthesized = .ok text) ∧
    (∀ name d, ((start kw limits sink).after steps).machine.functions.get? name = some d →
      d.form = .function ∧ d.WellFormed) ∧
    ∀ bs e, (((start kw limits sink).after steps).run bs).1 = .error (.run (.eval e)) →
      ∀ x, e.fault ≠ .malformed x := by
  have hknows := knows_after (s := start kw limits sink) (Machine.knows_ofSink _ sink) steps
  refine ⟨fun bs root hroot => ?_, hknows, fun bs e he => ?_⟩
  · obtain ⟨hform, hwf⟩ := wellFormed_of_parse hroot
    exact ⟨hform, hwf, fun n hn => Tree.WellFormed.exists_parenthesized (hwf.of_mem hn)⟩
  · obtain ⟨n, -, hn⟩ := exists_blames_of_run hknows he
    exact hn.ne_malformed

theorem never_malformed_after_failure :
    let s := (start .standard ⟨2, true⟩ (.ofRoom? none)).after
      [.run "func f(n) \x7b return f(n) \x7d n = 1 / 0".toUTF8.toList]
    (s.run "n = 2 print f(n)".toUTF8.toList).1 =
        .error (.run (.eval ⟨.callDepthExceeded "f" 2, ⟨1, 20⟩⟩)) ∧
      (∀ x, Fault.callDepthExceeded "f" 2 ≠ .malformed x) ∧
      ∃ d, s.machine.functions.get? "f" = some d ∧ d.form = .function ∧ d.WellFormed := by
  intro s
  obtain ⟨-, hfunctions, hfaults⟩ := never_malformed .standard ⟨2, true⟩ (.ofRoom? none)
    [.run "func f(n) \x7b return f(n) \x7d n = 1 / 0".toUTF8.toList]
  have hrun : (s.run "n = 2 print f(n)".toUTF8.toList).1 =
      .error (.run (.eval ⟨.callDepthExceeded "f" 2, ⟨1, 20⟩⟩)) := by decide +kernel
  have hf : (s.machine.functions.get? "f").isSome := by decide +kernel
  obtain ⟨d, hd⟩ := Option.isSome_iff_exists.mp hf
  exact ⟨hrun, hfaults _ _ hrun, d, hd, hfunctions "f" d hd⟩

end Session

end IntScript
