import IntScript.Bindings.Lemmas
import IntScript.Proofs.Machine.Effect

/-!
# What an expression leaves behind

An expression may call functions, and these assign, print and call in turn.  Main statement: all
that is left of it is output (`Machine.evaluate_only_writes`).  Whether the expression has a value
or fails, and whatever tree it is, the variables of all frames are as before, and so are the
functions, unless the body of a function declares one.

Variables and functions are the matter of `Machine.Quiet` and `Machine.Settled`.  Of the output it
is said here what these leave open, that the sink is the one before with lines written to it.
-/

namespace IntScript

namespace Machine

/-- Lines have been written, all of which were taken. -/
def Writes (m m' : Machine) : Prop := ∃ lines, m.sink.writeAll lines = (.ok (), m'.sink)

instance : IsPreorder Machine Writes where
  refl _ := ⟨[], rfl⟩
  trans := by
    rintro a b c ⟨l, hl⟩ ⟨l', hl'⟩
    exact ⟨l ++ l', (Sink.writeAll_append hl l').trans hl'⟩

theorem Writes.of_sink_eq {m m' : Machine} (h : m'.sink = m.sink) : m.Writes m' := by
  refine ⟨[], ?_⟩
  rw [h]
  rfl

end Machine

namespace Action

open Machine

theorem writable_writes : Writable Writes where
  print {m line sink} hw := by
    refine ⟨[line], ?_⟩
    rw [Sink.writeAll, hw]
    rfl
  assign m name v := .of_sink_eq (m.sink_assign name v)

theorem writes_call (callsAllowed : Bool) (room : Nat) (n : Tree) :
    Moves Writes (call callsAllowed room n) := by
  refine moves_call callsAllowed (fun invoke hinvoke m name d block frame _ _ => ?_) room n
  -- frames are nothing to the sink
  exact moves_body writable_writes hinvoke name block block.children
    (fun _ _ _ _ => .of_sink_eq rfl) { m with frames := frame :: m.frames }

end Action

namespace Machine

/-- An expression that is evaluated on any machine, with any frames, leaves lines of output behind
and nothing else, provided that no body declares a function. -/
theorem evaluate_only_writes {m : Machine} (hm : m.Flat) (limits : Limits) (n? : Option Tree) :
    ∃ (lines : List String) (sink : Sink), m.sink.writeAll lines = (.ok (), sink) ∧
      sink.lines.toList = m.sink.lines.toList ++ lines ∧
      sink.text = m.sink.text ++ String.join (lines.map (· ++ "\n")) ∧
      ((Action.evaluate? (Action.callWithin limits m.frames.length) n?).run m).2 =
        { m with sink := sink } := by
  have hquiet :=
    Action.moves_expression (Action.quiet_call limits.callsAllowed) m.frames.length n? m
  have hsettled :=
    Action.moves_expression (Action.settled_call limits.callsAllowed) m.frames.length n? m
  have hwrites :=
    Action.moves_expression (Action.writes_call limits.callsAllowed) m.frames.length n? m
  generalize ((Action.evaluate? (Action.callWithin limits m.frames.length) n?).run m).2 = m' at *
  obtain ⟨lines, hlines⟩ := hwrites
  have hbehind := Sink.lines_of_writeAll hlines
  refine ⟨lines, m'.sink, hlines, hbehind, Sink.text_of_append hbehind, ?_⟩
  rw [← hquiet.globals, ← hquiet.frames, ← hsettled hm]

/-- `f(x) + y` where `y` is missing: by the time it fails, `f` has assigned `x` and printed. -/
theorem evaluate_only_writes_failing :
    let name (f : Form) (s : String) : Tree := .leaf f ⟨.symbol, s, ⟨1, 1⟩⟩
    let f : Tree := .node .function ⟨.symbol, "f", ⟨1, 1⟩⟩
      [.node .params .nowhere [name .param "x"],
        .node .body .nowhere
          [.node .assign .nowhere [name .name "x", .leaf .integer ⟨.integer, "8", ⟨1, 1⟩⟩],
          .node .print .nowhere [name .name "x"], .node .result .nowhere [name .name "x"]]]
    let n : Tree := .node .sum ⟨.add, "+", ⟨1, 5⟩⟩
      [.node .call ⟨.symbol, "f", ⟨1, 1⟩⟩ [.node .args .nowhere [name .arg "x"]], name .name "y"]
    let frame (v : Int64) : Frame := ⟨"g", .nowhere, .ofList [("x", v)]⟩
    let m : Machine :=
      { (ofSink (.ofRoom? (some 2))).declare "f" f with frames := [frame 3, frame 5] }
    let x := (Action.evaluate? (Action.callWithin ⟨4, true⟩ m.frames.length) (some n)).run m
    m.Flat ∧ x.1 = .error (.eval ⟨.variableNotFound "y", ⟨1, 1⟩⟩) ∧ x.2.sink.lines = #["8"] ∧
      ∃ (lines : List String) (sink : Sink), m.sink.writeAll lines = (.ok (), sink) ∧
        sink.lines.toList = m.sink.lines.toList ++ lines ∧
        sink.text = m.sink.text ++ String.join (lines.map (· ++ "\n")) ∧
        x.2 = { m with sink := sink } := by
  intro name f n frame m x
  have hflat : m.Flat := by
    intro function d block hd hblock
    change ((∅ : Bindings Tree).set "f" f).get? function = some d at hd
    rw [Bindings.get?_set] at hd
    split at hd
    · cases hd
      cases hblock
      decide
    · cases hd
  exact ⟨hflat, by decide +kernel, by decide +kernel, evaluate_only_writes hflat ⟨4, true⟩ (some n)⟩

end Machine

end IntScript
