import IntScript.Bindings.Lemmas
import IntScript.Proofs.Machine.Calls
import IntScript.Proofs.Session.Failure
import Mathlib.Data.List.Chain
import Mathlib.Data.List.Perm.Subperm

/-!
# Recursion

Nothing in a body is conditional, so a function that comes back to itself never stops doing so.  That
is the reason why a flat limit on the depth of calls is enough.

Here this is made exact.  The functions of a session are a graph: there is an edge from one function
to another if a call of the other stands in the body of the one (`CallGraph.Edge`).  Main statement:
a call from which the graph runs into a cycle never returns a value, a call that returns a value has
only declared functions ahead of it and no cycle, and where there is no cycle, room for as many calls
as there are functions is room enough (`Session.only_recursion_is_unbounded`).

Both halves follow edges.  A call that returns with so much room makes all calls of its body return
with less (`CallGraph.Returns.step`), so a cycle would go down forever.  A call that lacks room has
in its body a call that lacks it with less (`CallGraph.Lacks.step`), so there is a path through the
graph that is longer than the room, and on a path without cycles no function is met twice.
-/

namespace IntScript

namespace CallGraph

open Relation (ReflTransGen TransGen)

/-- The functions that are called in the body of a function. -/
def callees (fs : Bindings Tree) (name : String) : List String :=
  match (fs.get? name).bind (·.child? 1) with
  | none => []
  | some block => block.calls.map Tree.literal

/-- In the body of the one there is a call of the other. -/
def Edge (fs : Bindings Tree) (g h : String) : Prop := h ∈ callees fs g

instance (fs : Bindings Tree) (g h : String) : Decidable (Edge fs g h) :=
  inferInstanceAs (Decidable (h ∈ callees fs g))

/-- From the one the other is met by following calls. -/
def Reaches (fs : Bindings Tree) : String → String → Prop := ReflTransGen (Edge fs)

/-- The function calls itself, perhaps by way of others. -/
def Recursive (fs : Bindings Tree) (g : String) : Prop := TransGen (Edge fs) g g

/-- The functions are those of well-formed trees. -/
def Declared (fs : Bindings Tree) : Prop :=
  ∀ name d, fs.get? name = some d → d.form = .function ∧ d.WellFormed

theorem edge_of_mem_calls {fs : Bindings Tree} {g : String} {d block c : Tree}
    (hd : fs.get? g = some d) (hblock : d.child? 1 = some block) (hc : c ∈ block.calls) :
    Edge fs g c.literal := by
  unfold Edge callees
  rw [hd, Option.bind_some, hblock]
  exact List.mem_map_of_mem hc

theorem Edge.exists_call {fs : Bindings Tree} {g h : String} (hedge : Edge fs g h) {d block : Tree}
    (hd : fs.get? g = some d) (hblock : d.child? 1 = some block) :
    ∃ c ∈ block.calls, c.literal = h := by
  unfold Edge callees at hedge
  rw [hd, Option.bind_some, hblock] at hedge
  exact List.mem_map.mp hedge

section

variable {fs : Bindings Tree} (hfs : Declared fs)

include hfs

theorem Declared.body {name : String} {d block : Tree} (hd : fs.get? name = some d)
    (hblock : d.child? 1 = some block) : block.form = .body ∧ block.WellFormed := by
  obtain ⟨hform, hwf⟩ := hfs name d hd
  have hproper := hwf.self
  rw [Tree.Proper, hform] at hproper
  obtain ⟨-, params, body, hchildren, -, hbody⟩ := hproper
  obtain rfl : block = body := by
    rw [Tree.child?, hchildren] at hblock
    exact (Option.some.inj hblock).symm
  exact ⟨hbody, hwf.child (by simp [hchildren])⟩

theorem Declared.callsSettled (room : Nat) : Action.CallsSettled fs (Action.call true room) := by
  intro c m hm
  have hknows : m.Knows Tree.Proper := by
    intro name d hd
    exact hfs name d (hm ▸ hd)
  exact (Action.settled_call true room c m hknows.flat).trans hm

/-- How a call ends: it fails for another reason than room, or it is the call of a function and owes
to the calls in its body, for which there is less room. -/
theorem call_cases (room : Nat) (n : Tree) {m : Machine} (hm : m.functions = fs) :
    (∃ e : EvalError, ¬ e.fault.IsDepth ∧
        ((Action.call true room n).run m).1 = .error (.eval e)) ∨
      ∃ d block, fs.get? n.literal = some d ∧ d.child? 1 = some block ∧
        ((room = 0 ∧ ∃ e : EvalError, ((Action.call true room n).run m).1 = .error (.eval e)) ∨
          ∃ room' act, room = room' + 1 ∧
            Action.Owes fs (Action.call true room') block.calls act ∧
            (Action.call true room n).run m = act.run m) := by
  cases room with
  | zero =>
      rw [Action.call_zero]
      rcases Action.run_resolve_cases n _ m with ⟨e, he, hrun⟩ | ⟨d, _, block, _, hd, hblock, hrun⟩
      · exact .inl ⟨e, he, by rw [hrun]⟩
      · exact .inr ⟨d, block, hm ▸ hd, hblock, .inl ⟨rfl, _, by rw [hrun]; rfl⟩⟩
  | succ room =>
      rw [Action.call_succ]
      rcases Action.run_resolve_cases n _ m with
        ⟨e, he, hrun⟩ | ⟨d, params, block, args, hd, hblock, hrun⟩
      · exact .inl ⟨e, he, by rw [hrun]⟩
      · rw [hm] at hd
        obtain ⟨hform, hwf⟩ := hfs.body hd hblock
        have howes := Action.owes_perform room n params args (hfs.callsSettled room) hform hwf
        exact .inr ⟨d, block, hd, hblock, .inr ⟨room, _, rfl, howes, hrun⟩⟩

end

/-! ## Calls that return -/

/-- With so much room some call of the function returns a value. -/
def Returns (fs : Bindings Tree) (room : Nat) (name : String) : Prop :=
  ∃ n v, Tree.literal n = name ∧ Action.Ends fs (Action.call true room) n (.ok v)

theorem Returns.step {fs : Bindings Tree} (hfs : Declared fs) {room : Nat} {g : String}
    (h : Returns fs room g) :
    (∃ d, fs.get? g = some d) ∧ ∀ k, Edge fs g k → ∃ room' < room, Returns fs room' k := by
  obtain ⟨n, v, rfl, m, hm, hv⟩ := h
  rcases call_cases hfs room n hm with ⟨e, -, he⟩ | ⟨d, block, hd, hblock, hcall⟩
  · cases hv.symm.trans he
  · refine ⟨⟨d, hd⟩, fun k hk => ?_⟩
    rcases hcall with ⟨-, e, he⟩ | ⟨room', act, hroom, howes, hrun⟩
    · cases hv.symm.trans he
    · obtain ⟨c, hc, hliteral⟩ := hk.exists_call hd hblock
      rw [hrun] at hv
      obtain ⟨w, hends⟩ := howes.done hm hv c hc
      exact ⟨room', by omega, c, w, hliteral, hends⟩

theorem Returns.of_reaches {fs : Bindings Tree} (hfs : Declared fs) {room : Nat} {g k : String}
    (h : Returns fs room g) (hreach : Reaches fs g k) : ∃ room' ≤ room, Returns fs room' k := by
  induction hreach with
  | refl => exact ⟨room, Nat.le_refl room, h⟩
  | tail _ hedge ih =>
      obtain ⟨room', hle, hreturns⟩ := ih
      obtain ⟨room'', hlt, hreturns'⟩ := (hreturns.step hfs).2 _ hedge
      exact ⟨room'', by omega, hreturns'⟩

/-- A recursive function would have to return with less and less room. -/
theorem Returns.not_recursive {fs : Bindings Tree} (hfs : Declared fs) {room : Nat} {g : String}
    (h : Returns fs room g) : ¬ Recursive fs g := by
  intro hcycle
  induction room using Nat.strongRecOn with
  | ind room ih =>
      obtain ⟨k, hedge, hback⟩ := TransGen.head'_iff.mp hcycle
      obtain ⟨room', hlt, hreturns⟩ := (h.step hfs).2 k hedge
      obtain ⟨room'', hle, hagain⟩ := hreturns.of_reaches hfs hback
      exact ih room'' (by omega) hagain

/-! ## Calls that lack room -/

/-- With so much room some call of the function fails for lack of it. -/
def Lacks (fs : Bindings Tree) (room : Nat) (name : String) : Prop :=
  ∃ n e, Tree.literal n = name ∧ e.fault.IsDepth ∧
    Action.Ends fs (Action.call true room) n (.error (.eval e))

theorem Lacks.step {fs : Bindings Tree} (hfs : Declared fs) {room : Nat} {g : String}
    (h : Lacks fs room g) :
    g ∈ fs.names ∧ (room = 0 ∨ ∃ room' k, room = room' + 1 ∧ Edge fs g k ∧ Lacks fs room' k) := by
  obtain ⟨n, e, rfl, hdepth, m, hm, he⟩ := h
  rcases call_cases hfs room n hm with ⟨e', hnot, he'⟩ | ⟨d, block, hd, hblock, hcall⟩
  · cases he.symm.trans he'
    exact absurd hdepth hnot
  · refine ⟨(Bindings.mem_names_iff _).mpr (Option.isSome_iff_exists.mpr ⟨_, hd⟩), ?_⟩
    rcases hcall with ⟨hroom, -⟩ | ⟨room', act, hroom, howes, hrun⟩
    · exact .inl hroom
    · rw [hrun] at he
      obtain ⟨c, hc, hends⟩ := howes.stopped hm he hdepth
      exact .inr ⟨room', c.literal, hroom, edge_of_mem_calls hd hblock hc, c, e, rfl, hdepth, hends⟩

theorem Lacks.exists_path {fs : Bindings Tree} (hfs : Declared fs) {room : Nat} {g : String}
    (h : Lacks fs room g) :
    ∃ path : List String, path.length = room ∧ (g :: path).IsChain (Edge fs) ∧
      ∀ k ∈ g :: path, k ∈ fs.names := by
  induction room generalizing g with
  | zero =>
      refine ⟨[], rfl, .singleton g, fun k hk => ?_⟩
      rw [List.mem_singleton.mp hk]
      exact (h.step hfs).1
  | succ room ih =>
      obtain ⟨hg, hroom | ⟨room', k, hroom, hedge, hlacks⟩⟩ := h.step hfs
      · cases hroom
      · obtain rfl : room = room' := Nat.succ.inj hroom
        obtain ⟨path, hlength, hchain, hnames⟩ := ih hlacks
        refine ⟨k :: path, congrArg (· + 1) hlength, .cons_cons hedge hchain, fun k' hk' => ?_⟩
        rcases List.mem_cons.mp hk' with rfl | hk'
        · exact hg
        · exact hnames k' hk'

theorem nodup_of_isChain {fs : Bindings Tree} {g : String} {path : List String}
    (hacyclic : ∀ k, Reaches fs g k → ¬ Recursive fs k) (h : (g :: path).IsChain (Edge fs)) :
    (g :: path).Nodup := by
  induction path generalizing g with
  | nil => exact List.pairwise_singleton _ g
  | cons k path ih =>
      obtain ⟨hedge, hchain⟩ := List.isChain_cons_cons.mp h
      refine List.nodup_cons.mpr ⟨fun hmem => ?_, ?_⟩
      · have hback : Reaches fs k g :=
          hchain.induction (Reaches fs k) _ (fun _ _ hstep hto => hto.tail hstep) (fun _ => .refl) g
            hmem
        exact hacyclic g .refl (TransGen.head' hedge hback)
      · exact ih (fun l hl => hacyclic l (.head hedge hl)) hchain

/-- Where there is no recursion, lack of room means fewer places than functions. -/
theorem Lacks.lt_length {fs : Bindings Tree} (hfs : Declared fs) {room : Nat} {g : String}
    (h : Lacks fs room g) (hacyclic : ∀ k, Reaches fs g k → ¬ Recursive fs k) :
    room < fs.names.length := by
  obtain ⟨path, hlength, hchain, hnames⟩ := h.exists_path hfs
  have hsub := List.subperm_of_subset (nodup_of_isChain hacyclic hchain) hnames
  have hle := hsub.length_le
  rw [List.length_cons, hlength] at hle
  exact hle

end CallGraph

namespace Session

open CallGraph

/-- A call from the top level, with functions that a session has come to: what recurs does not
return, what returns does not recur, and without recursion there is room for every call. -/
theorem only_recursion_is_unbounded (kw : Keywords) (limits₀ : Limits) (sink : Sink)
    (steps : List Step) (m : Machine)
    (hm : m.functions = ((start kw limits₀ sink).after steps).machine.functions)
    (hframes : m.frames = []) (limits : Limits) (hcalls : limits.callsAllowed = true) (n : Tree)
    (hn : n.form = .call) :
    ((∃ g, Reaches m.functions n.literal g ∧ Recursive m.functions g) →
      ∀ v, (m.evaluate limits n).1 ≠ .ok v) ∧
    (∀ v, (m.evaluate limits n).1 = .ok v → ∀ g, Reaches m.functions n.literal g →
      (∃ d, m.functions.get? g = some d) ∧ ¬ Recursive m.functions g) ∧
    ((∀ g, Reaches m.functions n.literal g → ¬ Recursive m.functions g) →
      m.functions.names.length ≤ limits.maxDepth →
      ∀ e name depth, (m.evaluate limits n).1 = .error (.eval e) →
        e.fault ≠ .callDepthExceeded name depth) := by
  have hfs : Declared m.functions := by
    intro name d hd
    rw [hm] at hd
    exact knows_after (Machine.knows_ofSink _ sink) steps name d hd
  have hrun : m.evaluate limits n = (Action.call true limits.maxDepth n).run m := by
    unfold Machine.evaluate
    rw [Action.evaluate_call _ hn, Action.callWithin, hcalls, hframes]
    rfl
  have hreturns : ∀ v, (m.evaluate limits n).1 = .ok v → ∀ g, Reaches m.functions n.literal g →
      (∃ d, m.functions.get? g = some d) ∧ ¬ Recursive m.functions g := by
    intro v hv g hg
    have h : Returns m.functions limits.maxDepth n.literal := ⟨n, v, rfl, m, rfl, hrun ▸ hv⟩
    obtain ⟨room, -, hroom⟩ := h.of_reaches hfs hg
    exact ⟨(hroom.step hfs).1, hroom.not_recursive hfs⟩
  refine ⟨?_, hreturns, ?_⟩
  · rintro ⟨g, hg, hrecursive⟩ v hv
    exact (hreturns v hv g hg).2 hrecursive
  · intro hacyclic hlength e name depth he hfault
    have hdepth : e.fault.IsDepth := by
      rw [hfault]
      trivial
    have h : Lacks m.functions limits.maxDepth n.literal :=
      ⟨n, e, rfl, hdepth, m, rfl, hrun ▸ he⟩
    have hlt := h.lt_length hfs hacyclic
    omega

theorem only_recursion_is_unbounded_mutual :
    let m := ((start .standard ⟨9, true⟩ (.ofRoom? none)).after
      [.run ("func f(n) \x7b return g(n) \x7d "
      ++ "func g(n) \x7b return f(n) \x7d func h(n) \x7b return n \x7d "
      ++ "func k(n) \x7b return h(n) / h(n) \x7d n = 1").toUTF8.toList]).machine
    let m₀ := { m with globals := m.globals.set "n" 0 }
    let call (name : String) : Tree := .node .call ⟨.symbol, name, ⟨1, 1⟩⟩
      [.node .args .nowhere [.node .name ⟨.symbol, "n", ⟨1, 3⟩⟩ []]]
    Recursive m.functions "f" ∧ (∀ v, (m.evaluate ⟨1000, true⟩ (call "f")).1 ≠ .ok v) ∧
      (m.evaluate ⟨4, true⟩ (call "k")).1 = .ok 1 ∧
      (∀ g, Reaches m.functions "k" g → ¬ Recursive m.functions g) ∧
      (m₀.evaluate ⟨4, true⟩ (call "k")).1 = .error (.eval ⟨.divisionByZero, ⟨1, 100⟩⟩) ∧
      ∀ e name depth, (m₀.evaluate ⟨4, true⟩ (call "k")).1 = .error (.eval e) →
        e.fault ≠ .callDepthExceeded name depth := by
  intro m m₀ call
  have hframes : m.frames = [] := frames_after rfl _
  have hcycle : Recursive m.functions "f" :=
    .head (show Edge m.functions "f" "g" by decide +kernel)
      (.single (show Edge m.functions "g" "f" by decide +kernel))
  have hreturns : (m.evaluate ⟨4, true⟩ (call "k")).1 = .ok 1 := by decide +kernel
  obtain ⟨hnever, -, -⟩ := only_recursion_is_unbounded .standard ⟨9, true⟩ (.ofRoom? none) _ m rfl
    hframes ⟨1000, true⟩ rfl (call "f") rfl
  obtain ⟨-, hahead, -⟩ := only_recursion_is_unbounded .standard ⟨9, true⟩ (.ofRoom? none) _ m rfl
    hframes ⟨4, true⟩ rfl (call "k") rfl
  have hacyclic : ∀ g, Reaches m.functions "k" g → ¬ Recursive m.functions g :=
    fun g hg => (hahead 1 hreturns g hg).2
  obtain ⟨-, -, hroom⟩ := only_recursion_is_unbounded .standard ⟨9, true⟩ (.ofRoom? none) _ m₀ rfl
    hframes ⟨4, true⟩ rfl (call "k") rfl
  exact ⟨hcycle, hnever ⟨"f", .refl, hcycle⟩, hreturns, hacyclic, by decide +kernel,
    hroom hacyclic (by decide +kernel)⟩

end Session

end IntScript
