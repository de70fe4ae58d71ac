import IntScript.Proofs.Machine.Alike

/-!
# What a call can see

A function has its parameters and the global variables, and nothing of whoever calls it.

Main statement: a call does the same whatever the callers have in their frames
(`Machine.call_ignores_callers`), as long as there are as many of them and the arguments of the call
have the same values.  The arguments are all that is looked up in a caller's frame.  Behind them a
new frame is the innermost one, and from there on the two machines are alike.
-/

namespace IntScript

namespace Action

variable {α : Type}

/-- The same result, and machines that differ in their frames at most. -/
structure Coincide (x x' : Except RunError α × Machine) : Prop where
  result : x.1 = x'.1
  globals : x.2.globals = x'.2.globals
  functions : x.2.functions = x'.2.functions
  sink : x.2.sink = x'.2.sink

theorem Joint.coincide {x x' : Except RunError α × Machine}
    (h : Joint (Machine.Alike Eq) (FailAlike Eq) x x') : Coincide x x' := by
  obtain ⟨hm, hend⟩ := h.alike_cases
  refine ⟨?_, hm.globals, hm.functions.eq fun _ _ hd => hd.1, hm.sink⟩
  rcases hend with ⟨a, ha, ha'⟩ | ⟨e, e', he, he', halike⟩
  · rw [ha, ha']
  · rw [he, he', halike.eq]

/-! ## Up to the frame of the call -/

theorem run_lookup_of_some {m : Machine} {t : Token} {v : Int64} (h : m.get? t.literal = some v) :
    (lookup t).run m = (.ok v, m) := by
  unfold lookup
  rw [run_get_bind, h]
  rfl

theorem run_lookup_of_none {m : Machine} {t : Token} (h : m.get? t.literal = none) :
    (lookup t).run m = (.error (.eval ⟨.variableNotFound t.literal, t.pos⟩), m) := by
  unfold lookup
  rw [run_get_bind, h]
  rfl

theorem run_arguments_congr {m m' : Machine} :
    ∀ (pairs : List (Tree × Tree)) (locals : Bindings Int64),
      (∀ p ∈ pairs, m.get? p.2.literal = m'.get? p.2.literal) →
        ∃ r, (arguments pairs locals).run m = (r, m) ∧ (arguments pairs locals).run m' = (r, m')
  | [], locals, _ => ⟨.ok locals, rfl, rfl⟩
  | (param, arg) :: pairs, locals, h => by
      have harg : m.get? arg.token.literal = m'.get? arg.token.literal :=
        h (param, arg) List.mem_cons_self
      have hpairs : ∀ p ∈ pairs, m.get? p.2.literal = m'.get? p.2.literal :=
        fun p hp => h p (List.mem_cons_of_mem _ hp)
      unfold arguments
      cases hv : m.get? arg.token.literal with
      | none =>
          refine ⟨_, run_bind_of_error (run_lookup_of_none hv), ?_⟩
          exact run_bind_of_error (run_lookup_of_none (harg ▸ hv))
      | some v =>
          obtain ⟨r, hr, hr'⟩ := run_arguments_congr pairs (locals.set param.literal v) hpairs
          refine ⟨r, (run_bind_of_ok (run_lookup_of_some hv)).trans hr, ?_⟩
          exact (run_bind_of_ok (run_lookup_of_some (harg ▸ hv))).trans hr'

section

variable {m : Machine} {outer outer' : List Frame} (hheight : outer.length = outer'.length)

include hheight

/-- From machines that differ in their frames, what is done in a new frame is the same. -/
theorem coincide_inFrame (callsAllowed : Bool) (room : Nat) (name : String) (block : Tree)
    (frame : Frame) :
    Coincide
      ((inFrame frame (body (call callsAllowed room) name block block.children)).run
        { m with frames := outer })
      ((inFrame frame (body (call callsAllowed room) name block block.children)).run
        { m with frames := outer' }) := by
  have hT := tandem_alike Tree.readAlike_eq
  have hcall := hT.call (.inl ⟨Eq.refl callsAllowed, Eq.refl room⟩)
  have hbody := hT.body hcall name (Eq.refl block) (hT.trees.children (Eq.refl block))
  have hopened : Machine.Alike Eq { m with frames := frame :: outer }
      { m with frames := frame :: outer' } :=
    ⟨rfl, .refl (fun d => ⟨rfl, d.sameItems_refl⟩) _, rfl, congrArg (· + 1) hheight, rfl⟩
  obtain ⟨hresult, hglobals, hfunctions, hsink⟩ := (hbody.joint hopened).coincide
  exact ⟨hresult, hglobals, hfunctions, hsink⟩

theorem coincide_perform (callsAllowed : Bool) (room : Nat) (n params block args : Tree)
    (hargs : ∀ arg ∈ args.children, { m with frames := outer }.get? arg.literal =
      { m with frames := outer' }.get? arg.literal) :
    Coincide ((perform callsAllowed room n params block args).run { m with frames := outer })
      ((perform callsAllowed room n params block args).run { m with frames := outer' }) := by
  obtain ⟨r, hr, hr'⟩ := run_arguments_congr (params.children.zip args.children) ∅
    fun p hp => hargs p.2 (List.of_mem_zip hp).2
  unfold perform
  cases r with
  | error e =>
      rw [run_bind_of_error hr, run_bind_of_error hr']
      exact ⟨rfl, rfl, rfl, rfl⟩
  | ok locals =>
      rw [run_bind_of_ok hr, run_bind_of_ok hr']
      exact coincide_inFrame hheight callsAllowed room _ _ _

omit hheight in
theorem coincide_fail (pos : Position) (fault : Fault) :
    Coincide ((fail pos fault : Action α).run { m with frames := outer })
      ((fail pos fault : Action α).run { m with frames := outer' }) :=
  ⟨rfl, rfl, rfl, rfl⟩

omit hheight in
theorem coincide_resolve (callsAllowed : Bool) (n : Tree)
    (enter : Machine → Tree → Tree → Tree → Action Int64)
    (henter : ∀ params block args, n.child? 0 = some args →
      Coincide ((enter { m with frames := outer } params block args).run { m with frames := outer })
        ((enter { m with frames := outer' } params block args).run { m with frames := outer' })) :
    Coincide ((resolve callsAllowed n enter).run { m with frames := outer })
      ((resolve callsAllowed n enter).run { m with frames := outer' }) := by
  cases callsAllowed with
  | false => exact coincide_fail _ _
  | true =>
      show Coincide
        ((dispatch n (enter { m with frames := outer }) (m.functions.get? n.literal)).run _)
        ((dispatch n (enter { m with frames := outer' }) (m.functions.get? n.literal)).run _)
      unfold dispatch
      cases m.functions.get? n.literal with
      | none => exact coincide_fail _ _
      | some d =>
          dsimp only
          split
          · next params block args _ _ hargs =>
              split
              · exact coincide_fail _ _
              · exact henter params block args hargs
          · exact coincide_fail _ _

theorem coincide_call (callsAllowed : Bool) (room : Nat) (n : Tree)
    (hargs : ∀ args, n.child? 0 = some args → ∀ arg ∈ args.children,
      { m with frames := outer }.get? arg.literal = { m with frames := outer' }.get? arg.literal) :
    Coincide ((call callsAllowed room n).run { m with frames := outer })
      ((call callsAllowed room n).run { m with frames := outer' }) := by
  cases room with
  | zero =>
      rw [call_zero]
      refine coincide_resolve callsAllowed n _ fun params block args _ => ?_
      dsimp only
      rw [← hheight]
      exact coincide_fail _ _
  | succ room =>
      rw [call_succ]
      refine coincide_resolve callsAllowed n _ fun params block args h => ?_
      exact coincide_perform hheight callsAllowed room n params block args (hargs args h)

end

end Action

namespace Machine

/-- A call does the same whatever its callers have in their frames, and leaves them as they are. -/
theorem call_ignores_callers (m : Machine) (limits : Limits) (n : Tree) (outer outer' : List Frame)
    (hheight : outer.length = outer'.length)
    (hargs : ∀ args, n.child? 0 = some args → ∀ arg ∈ args.children,
      { m with frames := outer }.get? arg.literal = { m with frames := outer' }.get? arg.literal) :
    let x := (Action.callWithin limits outer.length n).run { m with frames := outer }
    let x' := (Action.callWithin limits outer'.length n).run { m with frames := outer' }
    x.1 = x'.1 ∧
      (∃ lines, x.2.sink.lines.toList = m.sink.lines.toList ++ lines ∧
        x'.2.sink.lines.toList = m.sink.lines.toList ++ lines) ∧
      x.2.sink = x'.2.sink ∧ x.2.globals = x'.2.globals ∧ x.2.functions = x'.2.functions ∧
      x.2.frames = outer ∧ x'.2.frames = outer' := by
  intro x x'
  have hquiet : Quiet { m with frames := outer } x.2 := Action.quiet_call _ _ n _
  have hquiet' : Quiet { m with frames := outer' } x'.2 := Action.quiet_call _ _ n _
  have hx : Action.Coincide x x' := by
    show Action.Coincide ((Action.callWithin limits outer.length n).run _)
      ((Action.callWithin limits outer'.length n).run _)
    rw [← hheight]
    exact Action.coincide_call hheight _ _ n hargs
  obtain ⟨lines, hlines⟩ := hquiet.grows
  have hlines' : x'.2.sink.lines.toList = m.sink.lines.toList ++ lines := by
    rw [← hx.sink]
    exact hlines.symm
  exact ⟨hx.result, ⟨lines, hlines.symm, hlines'⟩, hx.sink, hx.globals, hx.functions,
    hquiet.frames, hquiet'.frames⟩

theorem call_ignores_callers_of_reader :
    let name (f : Form) (s : String) : Tree := .leaf f ⟨.symbol, s, ⟨1, 1⟩⟩
    let f : Tree := .node .function ⟨.symbol, "f", ⟨1, 1⟩⟩
      [.node .params .nowhere [name .param "a"],
        .node .body .nowhere [.node .print .nowhere [name .name "a"],
          .node .result .nowhere [name .name "y"]]]
    let n : Tree := .node .call ⟨.symbol, "f", ⟨1, 1⟩⟩ [.node .args .nowhere [name .arg "x"]]
    let m := (ofSink (.ofRoom? none)).declare "f" f
    let frame (y : Int64) : Frame := ⟨"g", .nowhere, .ofList [("x", 3), ("y", y)]⟩
    let x := (Action.callWithin ⟨2, true⟩ 1 n).run { m with frames := [frame 5] }
    let x' := (Action.callWithin ⟨2, true⟩ 1 n).run { m with frames := [frame 7] }
    x.1 = .error (.eval ⟨.variableNotFound "y", ⟨1, 1⟩⟩) ∧ x.2.sink.lines = #["3"] ∧
      x.1 = x'.1 ∧ x.2.sink = x'.2.sink ∧ x.2.globals = x'.2.globals ∧
      x.2.functions = x'.2.functions := by
  intro name f n m frame x x'
  have hargs : ∀ args, n.child? 0 = some args → ∀ arg ∈ args.children,
      { m with frames := [frame 5] }.get? arg.literal =
        { m with frames := [frame 7] }.get? arg.literal := by
    intro args hargs arg harg
    cases hargs
    obtain rfl : arg = name .arg "x" := List.mem_singleton.mp harg
    decide +kernel
  obtain ⟨hresult, -, hsink, hglobals, hfunctions, -⟩ :=
    call_ignores_callers m ⟨2, true⟩ n [frame 5] [frame 7] rfl hargs
  exact ⟨by decide +kernel, by decide +kernel, hresult, hsink, hglobals, hfunctions⟩

end Machine

end IntScript
