import IntScript.Proofs.Machine.Failure
import IntScript.Proofs.Session.History

/-!
# What a failed text leaves behind

A text that fails is half run, and the session goes on from there.  The main statement says what
that half is (`Session.run_fails_cleanly`).  A text that is not a program has done nothing.  One
that fails on the way has done what the statements before the failing one do, and has written what
the functions write that the failing statement entered.  No call stays open, so what comes next has
the global variables before it, as at the start.
-/

namespace IntScript

theorem Machine.Knows.flat {m : Machine} (h : m.Knows Tree.Proper) : m.Flat := by
  intro name d block hd hblock s hs
  obtain ⟨hform, hwf⟩ := h name d hd
  have hproper := hwf.self
  rw [Tree.Proper, hform] at hproper
  obtain ⟨-, params, body, hchildren, -, hbody⟩ := hproper
  obtain rfl : block = body := by
    rw [Tree.child?, hchildren] at hblock
    exact (Option.some.inj hblock).symm
  have hproper := (hwf.child (c := block) (by simp [hchildren])).self
  rw [Tree.Proper, hbody] at hproper
  obtain ⟨-, statements, result, hcs, hstatements, hresult⟩ := hproper
  rw [hcs] at hs
  rcases List.mem_append.mp hs with hs | hs
  · rcases hstatements s hs with hs | hs
    · simp [hs]
    · simp [hs]
  · rw [List.mem_singleton.mp hs, hresult]
    simp

theorem Tree.WellFormed.take {t : Token} {l : List Tree} (h : (node .root t l).WellFormed)
    (i : Nat) :
    (node .root t (l.take i)).WellFormed := by
  obtain ⟨hproper, hl⟩ := wellFormed_node.mp h
  refine wellFormed_node.mpr ⟨fun c hc => ?_, fun c hc => hl c (List.mem_of_mem_take hc)⟩
  exact hproper c (List.mem_of_mem_take hc)

namespace Session

/-! ## Frames -/

theorem frames_run {s : Session} (h : s.machine.frames = []) (bs : List UInt8) :
    (s.run bs).2.machine.frames = [] := by
  rcases s.run_cases bs with ⟨e, he⟩ | ⟨root, -, -, hrun⟩
  · rw [he]
    exact h
  · rw [hrun]
    have hheight := (Action.confined_execute s.limits root s.machine).height
    rw [h] at hheight
    exact List.eq_nil_of_length_eq_zero hheight

theorem frames_after {s : Session} (h : s.machine.frames = []) (steps : List Step) :
    (s.after steps).machine.frames = [] := by
  induction steps generalizing s with
  | nil => exact h
  | cons step steps ih =>
      refine ih ?_
      cases step with
      | run bs => exact frames_run h bs
      | reset => rfl

/-! ## The failing statement -/

/-- What a failing statement leaves, from where it began: variables and functions are as they were,
and what has been written since was written by functions that the statement entered. -/
structure Interrupted (limits : Limits) (s : Tree) (before after : Machine) : Prop where
  globals : after.globals = before.globals
  functions : after.functions = before.functions
  entered : Relation.ReflTransGen (Action.Enters limits 0 s) before after
  written : ∃ lines, after.sink.lines.toList = before.sink.lines.toList ++ lines

theorem interrupted_of_error {limits : Limits} {s : Tree} {before after : Machine} {e : RunError}
    (hknows : before.Knows Tree.Proper)
    (h : (Action.statement (Action.callWithin limits 0) s).run before = (.error e, after)) :
    Interrupted limits s before after := by
  have hquiet : before.Quiet after :=
    Action.moves_of_statement_error (fun c _ _ => Action.quiet_call _ _ c) h
  have hsettled : before.Settled after :=
    Action.moves_of_statement_error (fun c _ _ => Action.settled_call _ _ c) h
  have hentered : Relation.ReflTransGen (Action.Enters limits 0 s) before after :=
    Action.moves_of_statement_error (fun _ hc => Action.moves_callWithin limits 0 hc) h
  obtain ⟨lines, hlines⟩ := hquiet.grows
  exact ⟨hquiet.globals, hsettled hknows.flat, hentered, lines, hlines.symm⟩

/-- A program that fails on a machine with no call open, statement by statement. -/
theorem exists_interrupted {m m' : Machine} {limits : Limits} {t : Token} {l : List Tree}
    {e : RunError} (hknows : m.Knows Tree.Proper) (hframes : m.frames = [])
    (hwf : (Tree.node .root t l).WellFormed)
    (h : m.execute limits (.node .root t l) = (.error e, m')) :
    ∃ i s before, l[i]? = some s ∧
      m.execute limits (.node .root t (l.take i)) = (.ok (), before) ∧
      before.execute limits (.node .root t [s]) = (.error e, m') ∧
      Interrupted limits s before m' := by
  obtain ⟨i, s, before, hi, htake, hheight, herror⟩ := Machine.exists_failing h
  rw [hframes] at hheight herror
  have hbefore : before.Knows Tree.Proper := by
    have hkeeps := Action.keeps_execute (fun _ hn => hn) limits rfl (hwf.take i) m hknows
    have hrun : (Action.execute limits (.node .root t (l.take i))).run m = (.ok (), before) := htake
    rw [hrun] at hkeeps
    exact hkeeps.1
  refine ⟨i, s, before, hi, htake, ?_, interrupted_of_error hbefore herror⟩
  rw [Machine.execute_root, hheight]
  exact Action.run_bind_of_error herror

/-- A text that fails leaves nothing but what ran before its failing statement, and what the
functions wrote that this statement entered. -/
theorem run_fails_cleanly (kw : Keywords) (limits : Limits) (sink : Sink) (steps : List Step)
    (bs : List UInt8) :
    let s := (start kw limits sink).after steps
    let s' := (s.run bs).2
    (∀ e, parse bs s.keywords = .error e → s.run bs = (.error (.parse e), s)) ∧
    (∀ root e, parse bs s.keywords = .ok root → (s.run bs).1 = .error (.run e) →
      ∃ i stmt before, root.children[i]? = some stmt ∧
        s.machine.execute s.limits (.node .root root.token (root.children.take i)) =
          (.ok (), before) ∧
        before.execute s.limits (.node .root root.token [stmt]) = (.error e, s'.machine) ∧
        Interrupted s.limits stmt before s'.machine) ∧
    s'.machine.frames = [] ∧ (∀ name, s'.machine.get? name = s'.machine.globals.get? name) ∧
    ∀ name v,
      s'.machine.assign name v = { s'.machine with globals := s'.machine.globals.set name v } := by
  intro s s'
  have hknows : s.machine.Knows Tree.Proper := knows_after (Machine.knows_ofSink _ sink) steps
  have hframes : s.machine.frames = [] := frames_after rfl steps
  have hframes' : s'.machine.frames = [] := frames_run hframes bs
  refine ⟨fun e he => ?_, fun root e hroot he => ?_, hframes', fun name => ?_, fun name v => ?_⟩
  · unfold run
    rw [he]
  · obtain ⟨hform, hwf⟩ := wellFormed_of_parse hroot
    obtain ⟨f, t, l⟩ := root
    obtain rfl : f = .root := hform
    refine exists_interrupted hknows hframes hwf ?_
    show _ = (_, (s.run bs).2.machine)
    rw [run_of_parse hroot] at he ⊢
    rcases hr : s.machine.execute s.limits (.node .root t l) with ⟨d | u, k⟩
    · rw [hr] at he
      cases he
      exact hr
    · rw [hr] at he
      cases he
  · exact Machine.get?_of_frames_eq_nil hframes' name
  · exact Machine.assign_of_frames_eq_nil hframes' name v

theorem run_fails_cleanly_in_call :
    let s := (start .standard ⟨9, true⟩ (.ofRoom? none)).after
      [.run "func f(n) \x7b print n return n / 0 \x7d x = 1 (".toUTF8.toList,
        .run "func f(n) \x7b print n return n / 0 \x7d x = 1".toUTF8.toList]
    let bs := "print 5 x = 2 print 6 + f(x) x = 3".toUTF8.toList
    let s' := (s.run bs).2
    (s.run bs).1 = .error (.run (.eval ⟨.divisionByZero, ⟨1, 30⟩⟩)) ∧
      s'.globals = [("x", 2)] ∧ s'.machine.sink.lines = #["5", "2"] ∧ s'.machine.frames = [] ∧
      ∃ root, parse bs s.keywords = .ok root ∧ ∃ (i : Nat) (stmt : Tree) (before : Machine),
        root.children[i]? = some stmt ∧ Interrupted s.limits stmt before s'.machine := by
  intro s bs s'
  obtain ⟨hparse, hfails, hframes, -⟩ := run_fails_cleanly .standard ⟨9, true⟩ (.ofRoom? none)
    [.run "func f(n) \x7b print n return n / 0 \x7d x = 1 (".toUTF8.toList,
      .run "func f(n) \x7b print n return n / 0 \x7d x = 1".toUTF8.toList] bs
  have herror : (s.run bs).1 = .error (.run (.eval ⟨.divisionByZero, ⟨1, 30⟩⟩)) := by decide +kernel
  refine ⟨herror, by decide +kernel, by decide +kernel, hframes, ?_⟩
  cases hroot : parse bs s.keywords with
  | error e =>
      rw [hparse e hroot] at herror
      cases herror
  | ok root =>
      obtain ⟨i, stmt, before, hi, -, -, hinterrupted⟩ := hfails root _ hroot herror
      exact ⟨root, rfl, i, stmt, before, hi, hinterrupted⟩

end Session

end IntScript
