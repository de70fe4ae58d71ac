import IntScript.Proofs.Machine.Equations

/-!
# What a run can fail of

Running a tree, it is the nodes of the tree and of the declared functions that are looked at.  If
they are all proper, a run fails for one of few reasons, and each of them can be blamed on one of
these nodes (`Blames`):

| reason | node |
| :-- | :-- |
| a number out of range | an `integer` |
| a name without a value | a `name` or an `arg` |
| division by zero | an operation with one of the marks `/` and `%` |
| a negative exponent | an operation with the mark `^` |
| a function that is not there, or cannot be called here and with these arguments | a `call` |

No reason in the table is a malformed tree.  Besides these a run fails only when its output is not
taken.

The nodes that a run may meet are a parameter `N`.  `Knows N m` says that the functions of a
machine are made of such nodes, and `Keeps N act` says that an action leaves it so and fails as the
table says.  There is one lemma for each action; the one for a call is by induction on the room
there is.
-/

namespace IntScript

/-- The error can be blamed on the node. -/
inductive Blames : Tree → EvalError → Prop
  | integer {n : Tree} : n.form = .integer → Blames n ⟨.invalidInteger n.literal, n.pos⟩
  | name {n : Tree} : n.form = .name ∨ n.form = .arg → Blames n ⟨.variableNotFound n.literal, n.pos⟩
  | zero {n : Tree} : n.token.kind = .div ∨ n.token.kind = .mod → Blames n ⟨.divisionByZero, n.pos⟩
  | exponent {n : Tree} (v : Int64) : n.token.kind = .pow → Blames n ⟨.negativeExponent v, n.pos⟩
  | missing {n : Tree} : n.form = .call → Blames n ⟨.functionNotFound n.literal, n.pos⟩
  | unsupported {n : Tree} : n.form = .call → Blames n ⟨.callsUnsupported n.literal, n.pos⟩
  | arity {n : Tree} (params args : Nat) : n.form = .call →
      Blames n ⟨.arityMismatch n.literal params args, n.pos⟩
  | depth {n : Tree} (depth : Nat) : n.form = .call →
      Blames n ⟨.callDepthExceeded n.literal depth, n.pos⟩

theorem Blames.ne_malformed {n : Tree} {e : EvalError} (h : Blames n e) (x : Malformation) :
    e.fault ≠ .malformed x := by
  cases h <;> exact Fault.noConfusion

/-- The declared functions are made of nodes in `N`. -/
def Machine.Knows (N : Tree → Prop) (m : Machine) : Prop :=
  ∀ name d, m.functions.get? name = some d → d.form = .function ∧ d.All N

theorem Machine.knows_ofSink (N : Tree → Prop) (sink : Sink) : (Machine.ofSink sink).Knows N :=
  fun _ _ h => by cases h

theorem Machine.Knows.declare {N : Tree → Prop} {m : Machine} {n : Tree} (h : m.Knows N)
    (hform : n.form = .function) (hn : n.All N) (name : String) : (m.declare name n).Knows N := by
  intro other d hd
  rw [Machine.declare, Bindings.get?_set] at hd
  split at hd
  · cases hd
    exact ⟨hform, hn⟩
  · exact h other d hd

theorem Machine.Knows.assign {N : Tree → Prop} {m : Machine} (h : m.Knows N) (name : String)
    (v : Int64) : (m.assign name v).Knows N := by
  unfold Machine.assign
  split <;> exact h

namespace Action

variable {α β : Type} {N : Tree → Prop}

/-- From a machine that knows nodes in `N` only, the action comes to such a machine again, and it
fails only if output is not taken or for a reason to be blamed on a node in `N`. -/
def Keeps (N : Tree → Prop) (act : Action α) : Prop :=
  ∀ m, m.Knows N → (act.run m).2.Knows N ∧
    ∀ e, (act.run m).1 = .error (.eval e) → ∃ n, N n ∧ Blames n e

/-! ## Steps -/

theorem keeps_pure (a : α) : Keeps N (pure a : Action α) :=
  fun _ hm => ⟨hm, fun _ h => by cases h⟩

theorem Keeps.bind {act : Action α} {f : α → Action β} (h : Keeps N act) (hf : ∀ a, Keeps N (f a)) :
    Keeps N (act >>= f) := by
  intro m hm
  have hact := h m hm
  rw [run_bind]
  rcases hr : act.run m with ⟨_ | a, m'⟩
  · rw [hr] at hact
    exact ⟨hact.1, fun e he => hact.2 e (by cases he; rfl)⟩
  · rw [hr] at hact
    exact hf a m' hact.1

theorem keeps_fail {n : Tree} {fault : Fault} {pos : Position} (hn : N n)
    (h : Blames n ⟨fault, pos⟩) : Keeps N (fail pos fault : Action α) := by
  intro m hm
  refine ⟨hm, fun e he => ?_⟩
  cases he
  exact ⟨n, hn, h⟩

theorem keeps_get {f : Machine → Action α} (hf : ∀ m, m.Knows N → Keeps N (f m)) :
    Keeps N (get >>= f) :=
  fun m hm => hf m hm m hm

theorem keeps_modify {f : Machine → Machine} (hf : ∀ m, m.Knows N → (f m).Knows N) :
    Keeps N (modify f : Action Unit) :=
  fun m hm => ⟨hf m hm, fun _ h => by cases h⟩

theorem keeps_inFrame {act : Action α} (h : Keeps N act) (frame : Frame) :
    Keeps N (inFrame frame act) :=
  fun m hm => h { m with frames := frame :: m.frames } hm

theorem keeps_lookup {n : Tree} (hn : N n) (hform : n.form = .name ∨ n.form = .arg) :
    Keeps N (lookup n.token) := by
  refine keeps_get fun m _ => ?_
  split
  · exact keeps_pure _
  · exact keeps_fail hn (.name hform)

theorem keeps_print (v : Int64) : Keeps N (print v) := by
  refine keeps_get fun m hm => ?_
  split
  · exact fun _ _ => ⟨hm, fun _ h => by cases h⟩
  · exact fun m' hm' => ⟨hm', fun _ h => by cases h⟩

/-! ## Expressions -/

/-- The marks of a level stand for operations, and these fail in two ways only. -/
theorem blames_operate {n : Tree} {level : Level} (hmark : n.token.kind ∈ level.marks) {l r : Int64}
    {fault : Fault} (h : Arithmetic.operate n.token.kind l r = .error fault) :
    Blames n ⟨fault, n.pos⟩ := by
  unfold Arithmetic.operate at h
  split at h
  case h_1 | h_2 | h_4 => cases h
  case h_3 hk =>
    split at h <;> cases h
    exact .zero (.inr hk)
  case h_5 hk =>
    split at h <;> cases h
    exact .zero (.inl hk)
  case h_6 hk =>
    split at h <;> cases h
    exact .exponent r hk
  -- the marks are all among the kinds above
  case h_7 => cases level <;> simp_all [Level.marks]

variable {invoke : Tree → Action Int64}

/-- The way to call functions keeps what actions are to keep. -/
def KeepsCalls (N : Tree → Prop) (invoke : Tree → Action Int64) : Prop :=
  ∀ c : Tree, c.form = .call → c.All N → Keeps N (invoke c)

theorem keeps_evaluate (hN : ∀ n, N n → n.Proper) (hinvoke : KeepsCalls N invoke) :
    ∀ n : Tree, n.IsExpression → n.All N → Keeps N (evaluate invoke n) := by
  refine Tree.induction fun f t cs ih hexpr hall => ?_
  obtain ⟨hn, hcs⟩ := Tree.all_node.mp hall
  -- the operations of all levels are evaluated alike
  have hoperation : ∀ level : Level, f = level.form → Keeps N (evaluate invoke (.node f t cs)) := by
    rintro level rfl
    obtain ⟨hmark, l, r, rfl, hl, hr⟩ := (Tree.proper_operation level).mp (hN _ hn)
    have hleft := ih l (by simp) (Tree.isExpression_of_left hl) (hcs l (by simp))
    have hright := ih r (by simp) (Tree.isExpression_of_right hr) (hcs r (by simp))
    cases level
    all_goals
      refine hleft.bind fun v => hright.bind fun w => ?_
      split
      · exact keeps_pure _
      · exact keeps_fail hn (blames_operate hmark ‹_›)
  simp only [Tree.IsExpression, Tree.form_node, Level.leftForms, Level.rightForms, Level.form,
    List.mem_cons, List.not_mem_nil, or_false] at hexpr
  rcases hexpr with rfl | rfl | rfl | rfl | rfl | rfl
  · exact hoperation .sum rfl
  · exact hoperation .product rfl
  · exact hoperation .power rfl
  · exact keeps_lookup hn (.inl rfl)
  · rw [evaluate]
    split
    · exact keeps_pure _
    · exact keeps_fail hn (.integer rfl)
  · exact hinvoke _ rfl hall

/-! ## Statements -/

theorem keeps_statement (hN : ∀ n, N n → n.Proper) (hinvoke : KeepsCalls N invoke) {n : Tree}
    (hform : n.form = .print ∨ n.form = .assign ∨ n.form = .function) (hall : n.All N) :
    Keeps N (statement invoke n) := by
  obtain ⟨f, t, cs⟩ := n
  obtain ⟨hn, hcs⟩ := Tree.all_node.mp hall
  have hproper := hN _ hn
  rcases hform with rfl | rfl | rfl
  · obtain ⟨-, e, rfl, he⟩ := hproper
    exact (keeps_evaluate hN hinvoke e he (hcs e (by simp))).bind keeps_print
  · obtain ⟨-, ⟨_, target, _⟩, e, rfl, rfl, he⟩ := hproper
    exact (keeps_evaluate hN hinvoke e he (hcs e (by simp))).bind fun v =>
      keeps_modify fun m hm => hm.assign target.literal v
  · obtain ⟨-, params, block, rfl, -, -⟩ := hproper
    exact keeps_modify fun m hm => hm.declare rfl hall t.literal

theorem keeps_statements (hN : ∀ n, N n → n.Proper) (hinvoke : KeepsCalls N invoke) :
    ∀ l : List Tree,
      (∀ s ∈ l, (s.form = .print ∨ s.form = .assign ∨ s.form = .function) ∧ s.All N) →
      Keeps N (statements invoke l)
  | [], _ => keeps_pure ()
  | s :: l, h => by
      obtain ⟨hform, hall⟩ := h s List.mem_cons_self
      refine (keeps_statement hN hinvoke hform hall).bind fun _ => ?_
      exact keeps_statements hN hinvoke l fun s' hs' => h s' (List.mem_cons_of_mem _ hs')

/-- The statements of a body and what it returns.  The statements have no result among them, so the
last node is reached, and it gives a value. -/
theorem keeps_body (hN : ∀ n, N n → n.Proper) (hinvoke : KeepsCalls N invoke) (name : String)
    (n : Tree) {result : Tree} (hform : result.form = .result) (hall : result.All N) :
    ∀ l : List Tree, (∀ s ∈ l, (s.form = .print ∨ s.form = .assign) ∧ s.All N) →
      Keeps N (body invoke name n (l ++ [result]))
  | [], _ => by
      obtain ⟨f, t, cs⟩ := result
      obtain rfl : f = .result := hform
      obtain ⟨hn, hcs⟩ := Tree.all_node.mp hall
      obtain ⟨-, e, rfl, he⟩ := hN _ hn
      exact keeps_evaluate hN hinvoke e he (hcs e (by simp))
  | s :: l, h => by
      obtain ⟨hs, hsall⟩ := h s List.mem_cons_self
      rw [List.cons_append, body, if_neg (by rcases hs with hs | hs <;> simp [hs])]
      refine (keeps_statement hN hinvoke (hs.imp_right .inl) hsall).bind fun _ => ?_
      exact keeps_body hN hinvoke name n hform hall l
        fun s' hs' => h s' (List.mem_cons_of_mem _ hs')

/-! ## Calls -/

theorem keeps_arguments :
    ∀ (pairs : List (Tree × Tree)) (locals : Bindings Int64),
      (∀ p ∈ pairs, p.2.form = .arg ∧ N p.2) → Keeps N (arguments pairs locals)
  | [], locals, _ => keeps_pure locals
  | (param, arg) :: pairs, locals, h => by
      obtain ⟨hform, harg⟩ := h _ List.mem_cons_self
      refine (keeps_lookup harg (.inr hform)).bind fun v => ?_
      exact keeps_arguments pairs _ fun p hp => h p (List.mem_cons_of_mem _ hp)

/-- A proper call of a proper function is not malformed, and what is entered is proper. -/
theorem keeps_resolve (hN : ∀ n, N n → n.Proper) (callsAllowed : Bool) {n : Tree}
    (hform : n.form = .call) (hall : n.All N)
    {enter : Machine → Tree → Tree → Tree → Action Int64}
    (henter : ∀ m params block args, block.form = .body → block.All N → args.form = .args →
      args.All N → Keeps N (enter m params block args)) :
    Keeps N (resolve callsAllowed n enter) := by
  obtain ⟨f, t, cs⟩ := n
  obtain rfl : f = .call := hform
  obtain ⟨hn, hcs⟩ := Tree.all_node.mp hall
  obtain ⟨-, args, rfl, hargs⟩ := hN _ hn
  unfold resolve
  split
  · exact keeps_fail hn (.unsupported rfl)
  · refine keeps_get fun m hm => ?_
    unfold dispatch
    split
    · exact keeps_fail hn (.missing rfl)
    · rename_i d hd
      -- the function is a proper one, so it has parameters and a body to enter
      obtain ⟨hdform, hdall⟩ := hm _ d hd
      obtain ⟨_, u, _⟩ := d
      obtain rfl : _ = Form.function := hdform
      obtain ⟨hdn, hds⟩ := Tree.all_node.mp hdall
      obtain ⟨-, params, block, rfl, -, hblock⟩ := hN _ hdn
      show Keeps N (if _ then _ else enter m params block args)
      split
      · exact keeps_fail hn (.arity _ _ rfl)
      · exact henter m params block args hblock (hds block (by simp)) hargs (hcs args (by simp))

theorem keeps_call (hN : ∀ n, N n → n.Proper) (callsAllowed : Bool) (room : Nat) :
    KeepsCalls N (call callsAllowed room) := by
  induction room with
  | zero =>
      intro n hform hall
      rw [call_zero]
      refine keeps_resolve hN callsAllowed hform hall fun m _ _ _ _ _ _ _ => ?_
      exact keeps_fail hall.self (.depth m.frames.length hform)
  | succ room ih =>
      intro n hform hall
      rw [call_succ]
      refine keeps_resolve hN callsAllowed hform hall ?_
      rintro - params ⟨_, u, _⟩ ⟨_, v, args⟩ rfl hblock rfl hargs
      refine (keeps_arguments _ _ ?_).bind fun locals => keeps_inFrame ?_ _
      · intro p hp
        obtain ⟨hn, hcs⟩ := Tree.all_node.mp hargs
        have hmem : p.2 ∈ args := (List.of_mem_zip hp).2
        exact ⟨(hN _ hn).2.2 p.2 hmem, (hcs p.2 hmem).self⟩
      · obtain ⟨hn, hcs⟩ := Tree.all_node.mp hblock
        obtain ⟨-, l, result, rfl, hl, hresult⟩ := hN _ hn
        refine keeps_body hN ih _ _ hresult (hcs result (by simp)) l fun s hs => ?_
        exact ⟨hl s hs, hcs s (by simp [hs])⟩

/-! ## Programs -/

theorem keeps_execute (hN : ∀ n, N n → n.Proper) (limits : Limits) {root : Tree}
    (hform : root.form = .root) (hall : root.All N) : Keeps N (execute limits root) := by
  have hproper := hN _ hall.self
  refine keeps_get fun m _ => ?_
  rw [if_pos hform]
  refine keeps_statements hN (keeps_call hN _ _) _ fun s hs => ⟨?_, hall.child hs⟩
  rw [Tree.Proper, hform] at hproper
  exact hproper s hs

end Action

end IntScript
