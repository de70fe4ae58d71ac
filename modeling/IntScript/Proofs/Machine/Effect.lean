import IntScript.Proofs.Machine.Equations
import IntScript.Proofs.Machine.Lines
import Mathlib.Data.List.Basic

/-!
# What running changes

Of an action it is often enough to know how the machine it comes to is related to the machine it
starts from, whether it fails or not.  `Moves E act` says that the two are always related by `E`.
If `E` is a preorder, it is enough to look at the single steps, since actions do one after the
other; there is one lemma for each action.

Three relations are followed through all actions, on any tree and any machine:

| relation | who moves by it | what it says |
| :-- | :-- | :-- |
| `Machine.Quiet` | expressions, calls | variables are as before, output has only grown |
| `Machine.Confined` | statements, bodies | so are all variables but the innermost ones |
| `Machine.Settled` | expressions, calls | functions are as before, if no body declares one |

The first two go together.  A body is confined to the frame it runs in, and that frame is gone
after the call, so a call is quiet.
-/

namespace IntScript

theorem Tree.mem_nodes_of_child? {n c k : Tree} {i : Int} (hc : n.child? i = some c)
    (hk : k ∈ c.nodes) : k ∈ n.nodes := by
  obtain ⟨f, t, cs⟩ := n
  rw [child?] at hc
  split at hc
  · cases hc
  · exact mem_nodes.mpr (.inr ⟨c, List.mem_of_getElem? hc, hk⟩)

namespace Action

variable {α β : Type} {E : Machine → Machine → Prop}

/-- Wherever the action starts, it comes to where `E` lets it. -/
def Moves (E : Machine → Machine → Prop) (act : Action α) : Prop := ∀ m, E m (act.run m).2

theorem Moves.imp {E' : Machine → Machine → Prop} {act : Action α} (h : Moves E act)
    (hE : ∀ m m', E m m' → E' m m') : Moves E' act :=
  fun m => hE m _ (h m)

/-! ## Steps -/

section

variable [IsPreorder Machine E]

theorem moves_pure (a : α) : Moves E (pure a : Action α) := fun m => refl (r := E) m

theorem moves_fail (pos : Position) (fault : Fault) : Moves E (fail pos fault : Action α) :=
  fun m => refl (r := E) m

theorem Moves.bind {act : Action α} {f : α → Action β} (h : Moves E act) (hf : ∀ a, Moves E (f a)) :
    Moves E (act >>= f) := by
  intro m
  have hact := h m
  rcases hr : act.run m with ⟨e | a, m'⟩
  · rw [run_bind_of_error hr]
    rwa [hr] at hact
  · rw [run_bind_of_ok hr]
    rw [hr] at hact
    exact IsTrans.trans _ _ _ hact (hf a m')

omit [IsPreorder Machine E] in
theorem moves_get {f : Machine → Action α} (hf : ∀ m, E m ((f m).run m).2) :
    Moves E (get >>= f) :=
  hf

theorem moves_lookup (t : Token) : Moves E (lookup t) := by
  refine moves_get fun m => ?_
  split
  · exact moves_pure _ m
  · exact moves_fail _ _ m

theorem moves_numeral (t : Token) : Moves E (numeral t) := by
  unfold numeral
  split
  · exact moves_pure _
  · exact moves_fail _ _

theorem moves_operate (t : Token) (l r : Int64) : Moves E (operate t l r) := by
  unfold operate
  split
  · exact moves_pure _
  · exact moves_fail _ _

theorem moves_arguments : ∀ (pairs : List (Tree × Tree)) (locals : Bindings Int64),
    Moves E (arguments pairs locals)
  | [], locals => moves_pure locals
  | (_, arg) :: pairs, _ => (moves_lookup arg.token).bind fun _ => moves_arguments pairs _

/-! ## Expressions -/

variable {invoke : Tree → Action Int64}

/-- What an expression does is what its calls do. -/
theorem moves_evaluate :
    ∀ n : Tree, (∀ c ∈ n.nodes, c.form = .call → Moves E (invoke c)) →
      Moves E (evaluate invoke n) := by
  refine Tree.induction fun f t cs ih hinvoke => ?_
  have hbelow : ∀ c ∈ cs, Moves E (evaluate invoke c) := by
    intro c hc
    refine ih c hc fun k hk hform => ?_
    exact hinvoke k (Tree.mem_nodes.mpr (.inr ⟨c, hc, hk⟩)) hform
  rcases f.expression_cases with rfl | rfl | rfl | ⟨level, rfl⟩ | hf
  · exact moves_numeral t
  · exact moves_lookup t
  · exact hinvoke _ (Tree.mem_nodes.mpr (.inl rfl)) rfl
  · by_cases hc : cs.length = 2
    · obtain ⟨l, r, rfl⟩ := List.length_eq_two.mp hc
      rw [evaluate_operation invoke level rfl rfl]
      refine (hbelow l (by simp)).bind fun v => ?_
      exact (hbelow r (by simp)).bind fun w => moves_operate t v w
    · rw [evaluate_arity invoke level (n := .node level.form t cs) rfl hc]
      exact moves_fail _ _
  · rw [evaluate_other invoke (n := .node f t cs) hf]
    exact moves_fail _ _

theorem moves_evaluate? {n : Tree} (hinvoke : ∀ c ∈ n.nodes, c.form = .call → Moves E (invoke c))
    (i : Int) : Moves E (evaluate? invoke (n.child? i)) := by
  cases hc : n.child? i with
  | none => exact moves_fail _ _
  | some c =>
      refine moves_evaluate c fun k hk hform => ?_
      exact hinvoke k (Tree.mem_nodes_of_child? hc hk) hform

/-! ## Statements -/

/-- Output and assignments are moves, wherever they happen. -/
structure Writable (E : Machine → Machine → Prop) : Prop where
  print {m : Machine} {line : String} {sink : Sink} :
    m.sink.write line = .ok sink → E m { m with sink := sink }
  assign (m : Machine) (name : String) (v : Int64) : E m (m.assign name v)

theorem moves_print (h : Writable E) (v : Int64) : Moves E (print v) := by
  refine moves_get fun m => ?_
  split
  · next hw => exact h.print hw
  · exact refl (r := E) m

theorem moves_statement (h : Writable E) {n : Tree}
    (hinvoke : ∀ c ∈ n.nodes, c.form = .call → Moves E (invoke c))
    (hdeclare : n.form = .function → ∀ m, E m (m.declare n.literal n)) :
    Moves E (statement invoke n) := by
  rcases n.form.statement_cases with hf | hf | hf | hf
  · rw [statement_print invoke hf]
    exact (moves_evaluate? hinvoke 0).bind fun v => moves_print h v
  · by_cases ht : ∃ target, n.child? 0 = some target ∧ target.form = .name
    · obtain ⟨target, ht, hname⟩ := ht
      rw [statement_assign invoke hf ht hname]
      exact (moves_evaluate? hinvoke 1).bind fun v m => h.assign m target.literal v
    · rw [statement_noTarget invoke hf fun target ht' hname => ht ⟨target, ht', hname⟩]
      exact moves_fail _ _
  · by_cases hc : n.children.length = 2
    · rw [statement_function invoke hf hc]
      exact hdeclare hf
    · rw [statement_arity invoke hf hc]
      exact moves_fail _ _
  · rw [statement_other invoke hf]
    exact moves_fail _ _

theorem moves_statements (h : Writable E) (hinvoke : ∀ c, Moves E (invoke c)) :
    ∀ l : List Tree, (∀ s ∈ l, s.form = .function → ∀ m, E m (m.declare s.literal s)) →
      Moves E (statements invoke l)
  | [], _ => moves_pure ()
  | s :: l, hl => by
      refine (moves_statement h (fun c _ _ => hinvoke c) (hl s List.mem_cons_self)).bind fun _ => ?_
      exact moves_statements h hinvoke l fun s' hs' => hl s' (List.mem_cons_of_mem s hs')

theorem moves_body (h : Writable E) (hinvoke : ∀ c, Moves E (invoke c)) (name : String) (b : Tree) :
    ∀ l : List Tree, (∀ s ∈ l, s.form = .function → ∀ m, E m (m.declare s.literal s)) →
      Moves E (body invoke name b l)
  | [], _ => moves_fail _ _
  | s :: l, hl => by
      by_cases hs : s.form = .result
      · rw [body_result invoke name b l hs]
        exact moves_evaluate? (fun c _ _ => hinvoke c) 0
      · rw [body_statement invoke name b l hs]
        refine (moves_statement h (fun c _ _ => hinvoke c) (hl s List.mem_cons_self)).bind
          fun _ => ?_
        exact moves_body h hinvoke name b l fun s' hs' => hl s' (List.mem_cons_of_mem s hs')

/-! ## Calls -/

/-- Up to the point where a function is entered nothing happens. -/
theorem moves_resolve {n : Tree} {enter : Machine → Tree → Tree → Tree → Action Int64}
    (callsAllowed : Bool)
    (henter : ∀ m d params block args, m.functions.get? n.literal = some d →
      d.child? 0 = some params → d.child? 1 = some block → n.child? 0 = some args →
      E m ((enter m params block args).run m).2) :
    Moves E (resolve callsAllowed n enter) := by
  unfold resolve
  split
  · exact moves_fail _ _
  · refine moves_get fun m => ?_
    unfold dispatch
    split
    · exact moves_fail _ _ m
    · next d hd =>
        split
        · next params block args hparams hblock hargs =>
            split
            · exact moves_fail _ _ m
            · exact henter m d params block args hd hparams hblock hargs
        · exact moves_fail _ _ m

/-- What calls do is what they do in frames of their own. -/
theorem moves_call (callsAllowed : Bool)
    (hbody : ∀ invoke : Tree → Action Int64, (∀ c, Moves E (invoke c)) →
      ∀ m name d block frame, m.functions.get? name = some d → d.child? 1 = some block →
        E m ((inFrame frame (body invoke name block block.children)).run m).2) :
    ∀ (room : Nat) (n : Tree), Moves E (call callsAllowed room n) := by
  intro room
  induction room with
  | zero =>
      intro n
      rw [call_zero]
      exact moves_resolve callsAllowed fun m _ _ _ _ _ _ _ _ => moves_fail _ _ m
  | succ room ih =>
      intro n
      rw [call_succ]
      refine moves_resolve callsAllowed fun m d params block args hd _ hblock _ => ?_
      unfold perform
      have harguments := moves_arguments (E := Eq) (params.children.zip args.children) ∅ m
      rcases hr : (arguments (params.children.zip args.children) ∅).run m with ⟨e | locals, m'⟩
      · obtain rfl : m = m' := by rwa [hr] at harguments
        rw [run_bind_of_error hr]
        exact refl (r := E) m
      · obtain rfl : m = m' := by rwa [hr] at harguments
        rw [run_bind_of_ok hr]
        exact hbody _ ih m _ d block _ hd hblock

theorem moves_expression {limits : Limits}
    (h : ∀ room n, Moves E (call limits.callsAllowed room n)) (depth : Nat) (n? : Option Tree) :
    Moves E (evaluate? (callWithin limits depth) n?) := by
  cases n? with
  | none => exact moves_fail _ _
  | some n => exact moves_evaluate n fun c _ _ => h _ c

end

end Action

/-! ## Variables and output -/

namespace Machine

/-- Output has only grown. -/
def Grows (m m' : Machine) : Prop := m.sink.lines.toList <+: m'.sink.lines.toList

instance : IsPreorder Machine Grows where
  refl _ := List.prefix_refl _
  trans _ _ _ h h' := List.IsPrefix.trans h h'

/-- All variables are as before. -/
structure Quiet (m m' : Machine) : Prop where
  globals : m'.globals = m.globals
  frames : m'.frames = m.frames
  grows : m.Grows m'

instance : IsPreorder Machine Quiet where
  refl m := ⟨rfl, rfl, refl (r := Grows) m⟩
  trans _ _ _ h h' := ⟨h'.globals.trans h.globals, h'.frames.trans h.frames,
    IsTrans.trans _ _ _ h.grows h'.grows⟩

/-- All variables but the innermost ones are as before. -/
structure Confined (m m' : Machine) : Prop where
  globals : m.frames ≠ [] → m'.globals = m.globals
  outer : m'.frames.tail = m.frames.tail
  height : m'.frames.length = m.frames.length
  grows : m.Grows m'

theorem Confined.ne_nil {m m' : Machine} (h : m.Confined m') (hm : m.frames ≠ []) :
    m'.frames ≠ [] := by
  intro hnil
  have hlength := h.height
  rw [hnil] at hlength
  exact hm (List.eq_nil_of_length_eq_zero hlength.symm)

instance : IsPreorder Machine Confined where
  refl m := ⟨fun _ => rfl, rfl, rfl, refl (r := Grows) m⟩
  trans _ _ _ h h' := ⟨fun hm => (h'.globals (h.ne_nil hm)).trans (h.globals hm),
    h'.outer.trans h.outer, h'.height.trans h.height, IsTrans.trans _ _ _ h.grows h'.grows⟩

theorem Quiet.confined {m m' : Machine} (h : m.Quiet m') : m.Confined m' :=
  ⟨fun _ => h.globals, by rw [h.frames], by rw [h.frames], h.grows⟩

theorem get?_of_frames_eq_nil {m : Machine} (h : m.frames = []) (name : String) :
    m.get? name = m.globals.get? name := by
  unfold get?
  rw [h]

theorem assign_of_frames_eq_nil {m : Machine} (h : m.frames = []) (name : String) (v : Int64) :
    m.assign name v = { m with globals := m.globals.set name v } := by
  obtain ⟨globals, functions, frames, sink⟩ := m
  obtain rfl : frames = [] := h
  rfl

theorem functions_assign (m : Machine) (name : String) (v : Int64) :
    (m.assign name v).functions = m.functions := by
  unfold assign
  split
  · rfl
  · rfl

theorem sink_assign (m : Machine) (name : String) (v : Int64) :
    (m.assign name v).sink = m.sink := by
  unfold assign
  split
  · rfl
  · rfl

theorem confined_assign (m : Machine) (name : String) (v : Int64) :
    m.Confined (m.assign name v) := by
  unfold assign
  split
  · next hm => exact ⟨fun h => absurd hm h, rfl, rfl, refl (r := Grows) m⟩
  · next hm => exact ⟨fun _ => rfl, by rw [hm]; rfl, by rw [hm]; rfl, refl (r := Grows) m⟩

/-- What is confined to a frame does not outlive it. -/
theorem Confined.quiet {m m' : Machine} {frame : Frame}
    (h : Confined { m with frames := frame :: m.frames } m') :
    m.Quiet { m' with frames := m'.frames.tail } :=
  ⟨h.globals (List.cons_ne_nil _ _), h.outer, h.grows⟩

end Machine

namespace Action

open Machine

variable {α : Type} {invoke : Tree → Action Int64}

theorem writable_confined : Writable Confined where
  print hw := ⟨fun _ => rfl, rfl, rfl, [_], (Sink.lines_of_write hw).symm⟩
  assign := confined_assign

theorem quiet_inFrame {act : Action α} (h : Moves Confined act) (frame : Frame) :
    Moves Quiet (inFrame frame act) :=
  fun m => (h { m with frames := frame :: m.frames }).quiet

theorem confined_body (hinvoke : ∀ c, Moves Quiet (invoke c)) (name : String) (b : Tree)
    (l : List Tree) : Moves Confined (body invoke name b l) := by
  have hconfined (c : Tree) : Moves Confined (invoke c) := (hinvoke c).imp fun _ _ => Quiet.confined
  refine moves_body writable_confined hconfined name b l fun s _ _ m => ?_
  exact ⟨fun _ => rfl, rfl, rfl, refl (r := Grows) m⟩

theorem quiet_call (callsAllowed : Bool) (room : Nat) (n : Tree) :
    Moves Quiet (call callsAllowed room n) := by
  refine moves_call callsAllowed (fun invoke hinvoke m name d block frame _ _ => ?_) room n
  exact quiet_inFrame (confined_body hinvoke name block block.children) frame m

theorem grows_call (callsAllowed : Bool) (room : Nat) (n : Tree) :
    Moves Grows (call callsAllowed room n) :=
  (quiet_call callsAllowed room n).imp fun _ _ => Quiet.grows

theorem quiet_perform (callsAllowed : Bool) (room : Nat) (n params block args : Tree) :
    Moves Quiet (perform callsAllowed room n params block args) := by
  refine (moves_arguments _ _).bind fun locals => ?_
  exact quiet_inFrame (confined_body (quiet_call callsAllowed room) _ _ _) _

theorem confined_statement (limits : Limits) (depth : Nat) (n : Tree) :
    Moves Confined (statement (callWithin limits depth) n) := by
  refine moves_statement writable_confined (fun c _ _ => ?_) fun _ m => ?_
  · exact (quiet_call _ _ c).imp fun _ _ => Quiet.confined
  · exact ⟨fun _ => rfl, rfl, rfl, refl (r := Grows) m⟩

theorem confined_statements (limits : Limits) (depth : Nat) (l : List Tree) :
    Moves Confined (statements (callWithin limits depth) l) := by
  refine moves_statements writable_confined (fun c => ?_) l fun s _ _ m => ?_
  · exact (quiet_call _ _ c).imp fun _ _ => Quiet.confined
  · exact ⟨fun _ => rfl, rfl, rfl, refl (r := Grows) m⟩

theorem confined_execute (limits : Limits) (root : Tree) :
    Moves Confined (execute limits root) := by
  refine moves_get fun m => ?_
  split
  · exact confined_statements limits _ _ m
  · exact moves_fail _ _ m

end Action

/-! ## Functions -/

namespace Machine

/-- No body of a function declares a function. -/
def Flat (m : Machine) : Prop :=
  ∀ name d block, m.functions.get? name = some d → d.child? 1 = some block →
    ∀ s ∈ block.children, s.form ≠ .function

/-- All functions are as before, if no body declares one. -/
def Settled (m m' : Machine) : Prop := m.Flat → m'.functions = m.functions

theorem Flat.of_functions_eq {m m' : Machine} (h : m.Flat) (heq : m'.functions = m.functions) :
    m'.Flat := by
  intro name d block hd
  rw [heq] at hd
  exact h name d block hd

instance : IsPreorder Machine Settled where
  refl _ _ := rfl
  trans _ _ _ h h' hm := (h' (hm.of_functions_eq (h hm))).trans (h hm)

end Machine

namespace Action

open Machine

theorem writable_settled : Writable Settled where
  print _ _ := rfl
  assign m name v _ := m.functions_assign name v

theorem settled_call (callsAllowed : Bool) (room : Nat) (n : Tree) :
    Moves Settled (call callsAllowed room n) := by
  refine moves_call callsAllowed (fun invoke hinvoke m name d block frame hd hblock hm => ?_) room n
  -- the body is one of a flat machine, so none of its statements is a declaration
  refine moves_body writable_settled hinvoke name block block.children (fun s hs hform => ?_)
    { m with frames := frame :: m.frames } hm
  exact absurd hform (hm name d block hd hblock s hs)

end Action

end IntScript
