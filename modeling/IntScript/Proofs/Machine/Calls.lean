import IntScript.Proofs.Machine.Blame
import IntScript.Proofs.Machine.Effect

/-!
# What a run owes to its calls

A body has no branches.  Whatever calls stand in it are made, one after the other, until one of them
fails.  So of any well-formed piece of a program two things can be said about the calls in it:

* if it runs to its end, every one of them has returned a value;
* if it fails because there is no room for a call, one of them has failed so.

`Owes fs invoke cs act` says both of an action and a list of calls.  The functions `fs` of the machine
are the same all the time, since no body declares a function.  There is one lemma for each action,
and the calls of an action are the calls below the node that it runs (`Tree.calls`).
-/

namespace IntScript

/-- There is no room for a call. -/
def Fault.IsDepth : Fault → Prop
  | .callDepthExceeded _ _ => True
  | _ => False

theorem Arithmetic.not_isDepth_of_operate {k : Kind} {l r : Int64} {fault : Fault}
    (h : operate k l r = .error fault) : ¬ fault.IsDepth := by
  unfold operate at h
  repeat' split at h
  all_goals cases h
  all_goals exact id

/-! ## The calls in a tree -/

namespace Tree

/-- The calls in a tree, from left to right. -/
def calls (n : Tree) : List Tree := n.nodes.filter (·.form = .call)

theorem nodesAll_eq_flatMap : ∀ cs : List Tree, nodesAll cs = cs.flatMap nodes
  | [] => rfl
  | c :: cs => by rw [nodesAll, nodesAll_eq_flatMap cs, List.flatMap_cons]

theorem calls_node (f : Form) (t : Token) (cs : List Tree) :
    (node f t cs).calls = (if f = .call then [node f t cs] else []) ++ cs.flatMap calls := by
  have hbelow : (nodesAll cs).filter (fun n => n.form = .call) = cs.flatMap calls := by
    rw [nodesAll_eq_flatMap, List.filter_flatMap]
    rfl
  rw [calls, nodes, List.filter_cons, hbelow]
  by_cases hf : f = .call
  · simp [hf]
  · simp [hf]

theorem calls_of_children_eq_nil {n : Tree} (h : n.children = []) (hform : n.form ≠ .call) :
    n.calls = [] := by
  obtain ⟨f, t, cs⟩ := n
  obtain rfl : cs = [] := h
  rw [form_node] at hform
  rw [calls_node, if_neg hform]
  rfl

theorem calls_of_form_ne {n : Tree} (h : n.form ≠ .call) : n.calls = n.children.flatMap calls := by
  obtain ⟨f, t, cs⟩ := n
  rw [form_node] at h
  rw [calls_node, if_neg h, List.nil_append]
  rfl

/-- Arguments are names, so a call is the only call in it. -/
theorem WellFormed.calls_of_call {n : Tree} (h : n.WellFormed) (hform : n.form = .call) :
    n.calls = [n] := by
  obtain ⟨f, t, cs⟩ := n
  obtain rfl : f = .call := hform
  obtain ⟨⟨-, args, rfl, hargs⟩, hwf⟩ := wellFormed_node.mp h
  obtain ⟨f, u, as⟩ := args
  obtain rfl : f = .args := hargs
  obtain ⟨hproper, has⟩ := wellFormed_node.mp (hwf _ List.mem_cons_self)
  have hnone : as.flatMap calls = [] := by
    refine List.flatMap_eq_nil_iff.mpr fun a ha => ?_
    have haform : a.form = .arg := hproper.2.2 a ha
    have hleaf := (has a ha).self
    rw [Proper, haform] at hleaf
    exact calls_of_children_eq_nil hleaf.2 (by simp [haform])
  rw [calls_node, if_pos rfl, List.flatMap_singleton, calls_node, hnone]
  rfl

end Tree

namespace Action

variable {α β : Type} {fs : Bindings Tree} {invoke : Tree → Action Int64} {cs cs' : List Tree}

/-- On some machine with these functions the call ends so. -/
def Ends (fs : Bindings Tree) (invoke : Tree → Action Int64) (c : Tree)
    (r : Except RunError Int64) : Prop :=
  ∃ m : Machine, m.functions = fs ∧ ((invoke c).run m).1 = r

/-- What the action owes to the calls: it runs to its end only if all of them do, and it lacks room
only if one of them does. -/
structure Owes (fs : Bindings Tree) (invoke : Tree → Action Int64) (cs : List Tree)
    (act : Action α) : Prop where
  settled {m : Machine} : m.functions = fs → (act.run m).2.functions = fs
  done {m : Machine} {a : α} : m.functions = fs → (act.run m).1 = .ok a →
    ∀ c ∈ cs, ∃ v, Ends fs invoke c (.ok v)
  stopped {m : Machine} {e : EvalError} : m.functions = fs → (act.run m).1 = .error (.eval e) →
    e.fault.IsDepth → ∃ c ∈ cs, Ends fs invoke c (.error (.eval e))

/-! ## Steps -/

theorem owes_nil {act : Action α} (hsettled : ∀ m, (act.run m).2.functions = m.functions)
    (hroom : ∀ m e, (act.run m).1 = .error (.eval e) → ¬ e.fault.IsDepth) :
    Owes fs invoke [] act where
  settled {m} hm := (hsettled m).trans hm
  done _ _ c hc := by cases hc
  stopped {m e} _ he hdepth := absurd hdepth (hroom m e he)

theorem owes_pure (a : α) : Owes fs invoke [] (pure a : Action α) :=
  owes_nil (fun _ => rfl) fun _ _ h => by cases h

theorem owes_fail {pos : Position} {fault : Fault} (h : ¬ fault.IsDepth) (cs : List Tree) :
    Owes fs invoke cs (fail pos fault : Action α) where
  settled hm := hm
  done _ ha := by cases ha
  stopped _ he hdepth := by
    cases he
    exact absurd hdepth h

theorem Owes.bind {act : Action α} {f : α → Action β} (h : Owes fs invoke cs act)
    (hf : ∀ a, Owes fs invoke cs' (f a)) : Owes fs invoke (cs ++ cs') (act >>= f) where
  settled {m} hm := by
    have hact := h.settled hm
    rcases hr : act.run m with ⟨e | a, k⟩
    · rw [run_bind_of_error hr]
      rwa [hr] at hact
    · rw [run_bind_of_ok hr]
      rw [hr] at hact
      exact (hf a).settled hact
  done {m b} hm hb := by
    have hact := h.settled hm
    rcases hr : act.run m with ⟨e | a, k⟩
    · rw [run_bind_of_error hr] at hb
      cases hb
    · rw [run_bind_of_ok hr] at hb
      rw [hr] at hact
      intro c hc
      rcases List.mem_append.mp hc with hc | hc
      · exact h.done hm (by rw [hr]) c hc
      · exact (hf a).done hact hb c hc
  stopped {m e} hm he hdepth := by
    have hact := h.settled hm
    rcases hr : act.run m with ⟨d | a, k⟩
    · rw [run_bind_of_error hr] at he
      obtain rfl : d = .eval e := Except.error.inj he
      obtain ⟨c, hc, hends⟩ := h.stopped hm (by rw [hr]) hdepth
      exact ⟨c, List.mem_append_left cs' hc, hends⟩
    · rw [run_bind_of_ok hr] at he
      rw [hr] at hact
      obtain ⟨c, hc, hends⟩ := (hf a).stopped hact he hdepth
      exact ⟨c, List.mem_append_right cs hc, hends⟩

theorem owes_lookup (t : Token) : Owes fs invoke [] (lookup t) := by
  refine owes_nil (fun m => ?_) fun m e he => ?_
  · exact congrArg Machine.functions (moves_lookup (E := Eq) t m).symm
  · unfold lookup at he
    rw [run_get_bind] at he
    split at he
    · cases he
    · cases he
      exact id

theorem owes_numeral (t : Token) : Owes fs invoke [] (numeral t) := by
  unfold numeral
  split
  · exact owes_pure _
  · exact owes_fail id []

theorem owes_operate (t : Token) (l r : Int64) : Owes fs invoke [] (operate t l r) := by
  unfold operate
  split
  · exact owes_pure _
  · next fault h => exact owes_fail (Arithmetic.not_isDepth_of_operate h) []

theorem owes_print (v : Int64) : Owes fs invoke [] (print v) := by
  refine owes_nil (fun m => ?_) fun m e he => ?_
  · unfold print
    rw [run_get_bind]
    split
    · rfl
    · rfl
  · unfold print at he
    rw [run_get_bind] at he
    split at he
    · cases he
    · cases he

theorem owes_assign (name : String) (v : Int64) :
    Owes fs invoke [] (modify fun m => m.assign name v : Action Unit) := by
  refine owes_nil (fun m => ?_) fun m e he => by cases he
  show (m.assign name v).functions = m.functions
  unfold Machine.assign
  split
  · rfl
  · rfl

theorem owes_arguments : ∀ (pairs : List (Tree × Tree)) (locals : Bindings Int64),
    Owes fs invoke [] (arguments pairs locals)
  | [], locals => owes_pure locals
  | (_, arg) :: pairs, _ => (owes_lookup arg.token).bind fun _ => owes_arguments pairs _

/-! ## Expressions and statements -/

/-- Calls leave the functions as they are. -/
def CallsSettled (fs : Bindings Tree) (invoke : Tree → Action Int64) : Prop :=
  ∀ c m, m.functions = fs → ((invoke c).run m).2.functions = fs

theorem owes_invoke (h : CallsSettled fs invoke) (c : Tree) : Owes fs invoke [c] (invoke c) where
  settled {m} hm := h c m hm
  done {m v} hm hv d hd := by
    rw [List.mem_singleton.mp hd]
    exact ⟨v, m, hm, hv⟩
  stopped {m e} hm he _ := ⟨c, List.mem_singleton_self c, m, hm, he⟩

theorem owes_evaluate (h : CallsSettled fs invoke) :
    ∀ n : Tree, n.WellFormed → Owes fs invoke n.calls (evaluate invoke n) := by
  refine Tree.induction fun f t cs ih hwf => ?_
  obtain ⟨hproper, hcs⟩ := Tree.wellFormed_node.mp hwf
  rcases f.expression_cases with rfl | rfl | rfl | ⟨level, rfl⟩ | hf
  · rw [Tree.calls_of_children_eq_nil hproper.2 (by simp)]
    exact owes_numeral t
  · rw [Tree.calls_of_children_eq_nil hproper.2 (by simp)]
    exact owes_lookup t
  · rw [hwf.calls_of_call rfl]
    exact owes_invoke h _
  · obtain ⟨-, l, r, hchildren, -, -⟩ := (Tree.proper_operation level).mp hproper
    obtain rfl : cs = [l, r] := hchildren
    have hcalls : (Tree.node level.form t [l, r]).calls = l.calls ++ (r.calls ++ []) := by
      have hne : (Tree.node level.form t [l, r]).form ≠ .call := by
        cases level <;> simp [Level.form]
      rw [Tree.calls_of_form_ne hne]
      rfl
    rw [hcalls, evaluate_operation invoke level rfl rfl]
    refine (ih l (by simp) (hcs l (by simp))).bind fun v => ?_
    exact (ih r (by simp) (hcs r (by simp))).bind fun w => owes_operate t v w
  · rw [evaluate_other invoke (n := .node f t cs) hf]
    exact owes_fail id _

theorem owes_statement (h : CallsSettled fs invoke) {n : Tree} (hwf : n.WellFormed)
    (hform : n.form = .print ∨ n.form = .assign) :
    Owes fs invoke n.calls (statement invoke n) := by
  obtain ⟨f, t, cs⟩ := n
  obtain ⟨hproper, hcs⟩ := Tree.wellFormed_node.mp hwf
  rcases hform with rfl | rfl
  · obtain ⟨-, e, rfl, -⟩ := hproper
    have hcalls : (Tree.node .print t [e]).calls = e.calls ++ [] := by
      rw [Tree.calls_of_form_ne (by simp)]
      rfl
    rw [hcalls]
    exact (owes_evaluate h e (hcs e (by simp))).bind owes_print
  · obtain ⟨-, target, e, rfl, htarget, -⟩ := hproper
    have hleaf := (hcs target (by simp)).self
    rw [Tree.Proper, htarget] at hleaf
    have hcalls : (Tree.node .assign t [target, e]).calls = e.calls ++ [] := by
      rw [Tree.calls_of_form_ne (by simp)]
      show target.calls ++ (e.calls ++ []) = _
      rw [Tree.calls_of_children_eq_nil hleaf.2 (by simp [htarget]), List.nil_append]
    rw [hcalls, statement_assign invoke rfl rfl htarget]
    exact (owes_evaluate h e (hcs e (by simp))).bind fun v => owes_assign target.literal v

/-- The body of a function owes to all calls in it.  Its last node, where the value comes from, is
reached only behind all the others. -/
theorem owes_body (h : CallsSettled fs invoke) (name : String) (b : Tree) {result : Tree}
    (hresult : result.form = .result) (hwf : result.WellFormed) :
    ∀ l : List Tree, (∀ s ∈ l, (s.form = .print ∨ s.form = .assign) ∧ s.WellFormed) →
      Owes fs invoke ((l ++ [result]).flatMap Tree.calls) (body invoke name b (l ++ [result])) := by
  intro l
  induction l with
  | nil =>
      intro _
      obtain ⟨f, t, cs⟩ := result
      obtain rfl : f = .result := hresult
      obtain ⟨⟨-, e, rfl, -⟩, hcs⟩ := Tree.wellFormed_node.mp hwf
      have hcalls : (([] ++ [Tree.node .result t [e]]).flatMap Tree.calls) = e.calls := by
        rw [List.nil_append, List.flatMap_singleton, Tree.calls_of_form_ne (by simp)]
        exact List.flatMap_singleton ..
      rw [hcalls]
      exact owes_evaluate h e (hcs e (by simp))
  | cons s l ih =>
      intro hl
      obtain ⟨hs, hswf⟩ := hl s List.mem_cons_self
      have hne : s.form ≠ .result := by
        rcases hs with hs | hs
        · simp [hs]
        · simp [hs]
      rw [List.cons_append, List.flatMap_cons, body_statement invoke name b _ hne]
      exact (owes_statement h hswf hs).bind fun _ =>
        ih fun s' hs' => hl s' (List.mem_cons_of_mem s hs')

/-! ## Calls -/

/-- A call that is allowed fails before it enters a function, and not for room, or it enters one. -/
theorem run_resolve_cases (n : Tree) (enter : Machine → Tree → Tree → Tree → Action Int64)
    (m : Machine) :
    (∃ e : EvalError, ¬ e.fault.IsDepth ∧ (resolve true n enter).run m = (.error (.eval e), m)) ∨
      ∃ d params block args, m.functions.get? n.literal = some d ∧ d.child? 1 = some block ∧
        (resolve true n enter).run m = (enter m params block args).run m := by
  have hrun : (resolve true n enter).run m =
      (dispatch n (enter m) (m.functions.get? n.literal)).run m := rfl
  rw [hrun]
  unfold dispatch
  split
  · exact .inl ⟨_, id, rfl⟩
  · next d hd =>
      split
      · next params block args _ hblock _ =>
          split
          · exact .inl ⟨_, id, rfl⟩
          · exact .inr ⟨d, params, block, args, hd, hblock, rfl⟩
      · exact .inl ⟨_, id, rfl⟩

theorem owes_perform (room : Nat) (n params args : Tree) {block : Tree}
    (h : CallsSettled fs (call true room)) (hform : block.form = .body) (hwf : block.WellFormed) :
    Owes fs (call true room) block.calls (perform true room n params block args) := by
  obtain ⟨f, t, cs⟩ := block
  obtain rfl : f = .body := hform
  obtain ⟨⟨-, l, result, rfl, hl, hresult⟩, hcs⟩ := Tree.wellFormed_node.mp hwf
  have hbody := owes_body h n.literal (.node .body t (l ++ [result])) hresult
    (hcs result (by simp)) l fun s hs => ⟨hl s hs, hcs s (by simp [hs])⟩
  have hcalls : (Tree.node .body t (l ++ [result])).calls =
      [] ++ (l ++ [result]).flatMap Tree.calls := by
    rw [Tree.calls_of_form_ne (by simp)]
    rfl
  rw [hcalls]
  refine (owes_arguments _ _).bind fun locals => ?_
  -- the frame changes nothing about the functions
  exact ⟨fun {m} hm => hbody.settled (m := { m with frames := _ :: m.frames }) hm,
    fun {m a} hm ha => hbody.done (m := { m with frames := _ :: m.frames }) hm ha,
    fun {m e} hm he => hbody.stopped (m := { m with frames := _ :: m.frames }) hm he⟩

end Action

end IntScript
