import IntScript.Proofs.Machine.Tandem

/-!
# What limits do to a run

The limits of a run say how many frames may be open at a time and whether functions may be called at
all.  A program cannot ask for them; it finds out by failing.

Main statement: a run within narrower limits is the same run, or the beginning of it
(`Machine.limits_only_cut`).  The two runs are followed side by side from the same machine.  They
are equal up to the first call that only one of them is refused; there the narrower run fails, while
the other may still do anything but take back a line.
-/

namespace IntScript

namespace Action

variable {α : Type}

/-- How the freer run may stand once the other has failed: it has failed too, in the same way, or it
was a limit that the other failed for. -/
def CutShort (e : RunError) (m : Machine) (e'? : Option RunError) (m' : Machine) : Prop :=
  (e'? = some e ∧ m = m') ∨ ((∃ d : EvalError, e = .eval d ∧ d.fault.IsLimit) ∧ m.Grows m')

theorem joint_cutShort_refl (x : Except RunError α × Machine) : Joint Eq CutShort x x := by
  rcases x with ⟨e | a, m⟩
  · exact .error (.inl ⟨rfl, rfl⟩)
  · exact .ok rfl

theorem cuts_cutShort : Tandem.Cuts Eq CutShort := by
  rintro m _ k pos fault e'? rfl hgrows hfault
  exact .inr ⟨⟨_, rfl, hfault⟩, hgrows⟩

theorem tandem_cutShort : Tandem Eq Eq CutShort where
  trees := Tree.readAlike_eq
  get?_eq h name := by rw [h]
  functions := by
    rintro m _ rfl name
    cases hd : m.functions.get? name with
    | none => exact .none
    | some d => exact .some ⟨rfl, d.sameItems_refl⟩
  height_eq h := by rw [h]
  assign h name v := by rw [h]
  declare h hn _ := by rw [h, hn]
  print := by
    rintro m _ rfl v
    exact joint_cutShort_refl _
  fault h hn fault := .inl ⟨by rw [hn], h⟩
  missing h := .inl ⟨rfl, h⟩
  enter h hn _ locals := by rw [h, hn]
  leave _ hk _ _ := by rw [hk]
  abandon := by
    rintro m m' k k' e e'? - (⟨he, rfl⟩ | ⟨he, hgrows⟩) - -
    · exact .inl ⟨he, rfl⟩
    · exact .inr ⟨he, hgrows⟩
  go_on := by
    rintro m m' k e e'? (⟨he, -⟩ | ⟨he, hgrows⟩) hk
    · cases he
    · exact .inr ⟨he, IsTrans.trans _ _ _ hgrows hk⟩

end Action

namespace Machine

/-- Within narrower limits a program runs as it does within wider ones, or it stops at a limit and
has written the beginning of what it writes there. -/
theorem limits_only_cut (m : Machine) (root : Tree) (narrow wide : Limits)
    (hdepth : narrow.maxDepth ≤ wide.maxDepth)
    (hcalls : narrow.callsAllowed = true → wide.callsAllowed = true) :
    m.execute narrow root = m.execute wide root ∨
      ∃ e, (m.execute narrow root).1 = .error (.eval e) ∧ e.fault.IsLimit ∧
        (m.execute narrow root).2.sink.lines.toList <+:
          (m.execute wide root).2.sink.lines.toList := by
  have hfree (depth : Nat) : Tandem.Freer Eq Action.CutShort narrow.callsAllowed wide.callsAllowed
      (narrow.maxDepth - depth) (wide.maxDepth - depth) :=
    .inr ⟨Action.cuts_cutShort, hcalls, Nat.sub_le_sub_right hdepth depth⟩
  have hjoint : Action.Joint Eq Action.CutShort (m.execute narrow root) (m.execute wide root) :=
    (Action.tandem_cutShort.execute rfl hfree).joint rfl
  generalize m.execute narrow root = x, m.execute wide root = y at hjoint
  cases hjoint with
  | ok hm =>
      rw [hm]
      exact .inl rfl
  | @error e k k' r hcut =>
      rcases hcut with ⟨he, rfl⟩ | ⟨⟨d, rfl, hlimit⟩, hgrows⟩
      · cases r with
        | ok _ => cases he
        | error e' =>
            cases he
            exact .inl rfl
      · exact .inr ⟨d, rfl, hlimit, hgrows⟩

theorem limits_only_cut_recursion :
    let call : Tree := .node .call ⟨.symbol, "f", ⟨2, 7⟩⟩ [.leaf .args .nowhere]
    let one : Tree := .node .print .nowhere [.leaf .integer ⟨.integer, "1", ⟨1, 10⟩⟩]
    let f : Tree := .node .function ⟨.symbol, "f", ⟨1, 6⟩⟩
      [.leaf .params .nowhere, .node .body .nowhere [one, .node .result .nowhere [call]]]
    let m := ofSink (.ofRoom? none)
    let root : Tree := .node .root .nowhere [f, .node .print .nowhere [call]]
    (m.execute ⟨2, true⟩ root).1 = .error (.eval ⟨.callDepthExceeded "f" 2, ⟨2, 7⟩⟩) ∧
      (m.execute ⟨2, true⟩ root).2.sink.lines = #["1", "1"] ∧
      (m.execute ⟨3, true⟩ root).2.sink.lines = #["1", "1", "1"] ∧
      (m.execute ⟨2, true⟩ root = m.execute ⟨3, true⟩ root ∨
        ∃ e, (m.execute ⟨2, true⟩ root).1 = .error (.eval e) ∧ e.fault.IsLimit ∧
          (m.execute ⟨2, true⟩ root).2.sink.lines.toList <+:
            (m.execute ⟨3, true⟩ root).2.sink.lines.toList) := by
  intro call one f m root
  refine ⟨by decide +kernel, by decide +kernel, by decide +kernel, ?_⟩
  exact limits_only_cut m root ⟨2, true⟩ ⟨3, true⟩ (by decide) (by decide)

end Machine

end IntScript
