import IntScript.Proofs.Machine.Effect

/-!
# What a run does, event by event

A run changes the machine in five ways only:

| event | |
| :-- | :-- |
| `print` | a line is written |
| `assign` | a name gets a value |
| `declare` | a function is declared |
| `enter` | a call opens a frame and begins with the body of a function |
| `leave` | the frame of a call is gone |

A `Told` action gives an account of itself: how it ends, and the events up to there, in order.  The
machine it comes to is not part of the account, for it is the one that the events make of the first
machine (`Machine.replay`).  Everything that a program can do is told here a second time, in the
same words, and `Told.act_execute` says that the account is true: forgetting the events, the told
program is the program.

So a property of runs may be stated of the events, and then it says something of every moment of a
run and not only of its end.  To prove one it is enough to look at the single steps (`Told.Law`,
`Told.StatementLaw`).

Which nodes a run tells apart is said once, by `Tree.asExpression` and `Tree.asStatement`.  What is
done at a node is an equation over that, for a program as well as for its account.
-/

namespace IntScript

/-- One thing that a run does to the machine. -/
inductive Event where
  | print (v : Int64)
  | assign (name : String) (v : Int64)
  | declare (declaration : Tree)
  | enter (frame : Frame) (block : Tree)
  | leave

namespace Machine

/-- The machine after an event.  A line that finds no room is not written. -/
def apply (m : Machine) : Event → Machine
  | .print v =>
    match m.sink.write (Text.Decimal.ofInt64 v) with
    | .ok sink => { m with sink := sink }
    | .error _ => m
  | .assign name v => m.assign name v
  | .declare declaration => m.declare declaration.literal declaration
  | .enter frame _ => { m with frames := frame :: m.frames }
  | .leave => { m with frames := m.frames.tail }

/-- The machine after events one after the other. -/
def replay (m : Machine) (es : List Event) : Machine := es.foldl apply m

@[simp] theorem replay_nil (m : Machine) : m.replay [] = m := rfl

@[simp] theorem replay_cons (m : Machine) (e : Event) (es : List Event) :
    m.replay (e :: es) = (m.apply e).replay es := rfl

theorem apply_print {m : Machine} {v : Int64} {sink : Sink}
    (h : m.sink.write (Text.Decimal.ofInt64 v) = .ok sink) :
    m.apply (.print v) = { m with sink := sink } := by
  rw [apply, h]

theorem exists_apply_print (m : Machine) (v : Int64) :
    ∃ sink, m.apply (.print v) = { m with sink := sink } := by
  cases hw : m.sink.write (Text.Decimal.ofInt64 v) with
  | ok sink => exact ⟨sink, apply_print hw⟩
  | error e => exact ⟨m.sink, by rw [apply, hw]⟩

theorem replay_append (m : Machine) (es es' : List Event) :
    m.replay (es ++ es') = (m.replay es).replay es' :=
  List.foldl_append

/-- The events, each with the machine that it meets. -/
def moments (m : Machine) : List Event → List (Machine × Event)
  | [] => []
  | e :: es => (m, e) :: (m.apply e).moments es

theorem moments_append (m : Machine) (es es' : List Event) :
    m.moments (es ++ es') = m.moments es ++ (m.replay es).moments es' := by
  induction es generalizing m with
  | nil => rfl
  | cons e es ih => exact congrArg ((m, e) :: ·) (ih (m.apply e))

end Machine

/-! ## Actions that only look -/

namespace Action

variable {α β : Type}

/-- The action leaves the machine as it is, and what has been written is nothing to it. -/
def Looks (act : Action α) : Prop :=
  ∀ (m : Machine) (sink : Sink),
    act.run { m with sink := sink } = ((act.run m).1, { m with sink := sink })

theorem Looks.run_eq {act : Action α} (h : Looks act) (m : Machine) :
    act.run m = ((act.run m).1, m) :=
  h m m.sink

theorem looks_pure (a : α) : Looks (pure a : Action α) := fun _ _ => rfl

theorem looks_fail (pos : Position) (fault : Fault) : Looks (fail pos fault : Action α) :=
  fun _ _ => rfl

theorem Looks.bind {act : Action α} {f : α → Action β} (h : Looks act) (hf : ∀ a, Looks (f a)) :
    Looks (act >>= f) := by
  intro m sink
  have hm := h.run_eq m
  have hsink := h m sink
  cases hr : (act.run m).1 with
  | error e =>
      rw [hr] at hm hsink
      rw [run_bind_of_error hm, run_bind_of_error hsink]
  | ok a =>
      rw [hr] at hm hsink
      rw [run_bind_of_ok hm, run_bind_of_ok hsink]
      exact hf a m sink

theorem looks_lookup (t : Token) : Looks (lookup t) := by
  intro m sink
  unfold lookup
  rw [run_get_bind, run_get_bind]
  have hget : Machine.get? { m with sink := sink } t.literal = m.get? t.literal := rfl
  rw [hget]
  cases m.get? t.literal with
  | some v => rfl
  | none => rfl

theorem looks_numeral (t : Token) : Looks (numeral t) := by
  unfold numeral
  split
  · exact looks_pure _
  · exact looks_fail _ _

theorem looks_operate (t : Token) (l r : Int64) : Looks (operate t l r) := by
  unfold operate
  split
  · exact looks_pure _
  · exact looks_fail _ _

theorem looks_arguments (pairs : List (Tree × Tree)) :
    ∀ locals : Bindings Int64, Looks (arguments pairs locals) := by
  induction pairs with
  | nil => exact looks_pure
  | cons pair pairs ih =>
      intro locals
      exact (looks_lookup pair.2.token).bind fun v => ih (locals.set pair.1.literal v)

theorem looks_resolve {enter : Machine → Tree → Tree → Tree → Action α} (callsAllowed : Bool)
    (n : Tree) (hblind : ∀ m sink, enter { m with sink := sink } = enter m)
    (henter : ∀ m params block args, Looks (enter m params block args)) :
    Looks (resolve callsAllowed n enter) := by
  unfold resolve
  split
  · exact looks_fail _ _
  · intro m sink
    show (dispatch n (enter { m with sink := sink }) (m.functions.get? n.literal)).run _ =
      (((dispatch n (enter m) (m.functions.get? n.literal)).run m).1, _)
    rw [hblind]
    unfold dispatch
    split
    · exact looks_fail _ _ m sink
    · split
      · split
        · exact looks_fail _ _ m sink
        · exact henter _ _ _ _ m sink
      · exact looks_fail _ _ m sink

def height : Action Nat := do
  let m ← get
  return m.frames.length

theorem looks_height : Looks height := fun _ _ => rfl

theorem looks_call_zero (callsAllowed : Bool) (n : Tree) : Looks (call callsAllowed 0 n) := by
  rw [call_zero]
  refine looks_resolve callsAllowed n ?_ ?_
  · intro m sink
    rfl
  · intro m params block args
    exact looks_fail _ _

/-- What a call finds before it enters the function: its frame, and the body to run. -/
def callee (callsAllowed : Bool) (n : Tree) : Action (Frame × Tree) :=
  resolve callsAllowed n fun _ params block args => do
    let locals ← arguments (params.children.zip args.children) ∅
    return (⟨n.literal, n.token, locals⟩, block)

theorem looks_callee (callsAllowed : Bool) (n : Tree) : Looks (callee callsAllowed n) := by
  refine looks_resolve callsAllowed n ?_ ?_
  · intro m sink
    rfl
  · intro m params block args
    exact (looks_arguments _ _).bind fun locals => looks_pure _

/-- The body belongs to the function that is declared under the name of the call. -/
theorem exists_of_callee {callsAllowed : Bool} {n : Tree} {m : Machine} {found : Frame × Tree}
    (h : ((callee callsAllowed n).run m).1 = .ok found) :
    ∃ d, m.functions.get? found.1.function = some d ∧ d.child? 1 = some found.2 ∧
      found.1.function = n.literal := by
  unfold callee resolve at h
  split at h
  · cases h
  · change ((dispatch n _ (m.functions.get? n.literal)).run m).1 = .ok found at h
    unfold dispatch at h
    split at h
    · cases h
    · next d hd =>
        split at h
        · next params block args _ hblock _ =>
            split at h
            · cases h
            · rcases hr : (arguments (params.children.zip args.children) ∅).run m
                with ⟨e | locals, k⟩
              · rw [run_bind_of_error hr] at h
                cases h
              · rw [run_bind_of_ok hr] at h
                cases h
                exact ⟨d, hd, hblock, rfl⟩
        · cases h

theorem resolve_bind (callsAllowed : Bool) (n : Tree)
    (enter : Machine → Tree → Tree → Tree → Action α) (f : α → Action β) :
    resolve callsAllowed n enter >>= f =
      resolve callsAllowed n fun m params block args => enter m params block args >>= f := by
  unfold resolve
  split
  · rfl
  · refine funext fun m => ?_
    show (dispatch n (enter m) (m.functions.get? n.literal) >>= f).run m =
      (dispatch n _ (m.functions.get? n.literal)).run m
    unfold dispatch
    split
    · rfl
    · split
      · split
        · rfl
        · rfl
      · rfl

/-- A call with room is what it finds, and the body in the frame. -/
theorem call_eq_callee (callsAllowed : Bool) (room : Nat) (n : Tree) :
    call callsAllowed (room + 1) n = (do
      let found ← callee callsAllowed n
      inFrame found.1 (body (call callsAllowed room) n.literal found.2 found.2.children)) := by
  unfold callee
  rw [call_succ, resolve_bind]
  unfold perform
  simp only [bind_assoc, pure_bind]

end Action

/-! ## Nodes, as far as runs tell them apart -/

namespace Tree

/-- An expression is settled by looking, or is a call, or has two operands. -/
inductive AsExpression (n : Tree) where
  | settled (act : Action Int64) (looks : Action.Looks act)
  | call (form : n.form = .call)
  | operation (left right : Tree) (children : n.children = [left, right])

/-- A statement prints, assigns or declares, or all it does is to fail. -/
inductive AsStatement (n : Tree) where
  | print (form : n.form = .print)
  | assign (target : Tree) (form : n.form = .assign) (child : n.child? 0 = some target)
  | declare (form : n.form = .function)
  | failed (fault : Fault)

def asExpression : (n : Tree) → n.AsExpression
  | .node .integer t _ => .settled (Action.numeral t) (Action.looks_numeral t)
  | .node .name t _ => .settled (Action.lookup t) (Action.looks_lookup t)
  | .node .call _ _ => .call rfl
  | .node f t cs =>
    if f = .sum ∨ f = .product ∨ f = .power then
      match cs with
      | [left, right] => .operation left right rfl
      | _ => .settled (Action.fail t.pos (.malformed .operatorArity)) (Action.looks_fail _ _)
    else .settled (Action.fail t.pos (.malformed (.expression f))) (Action.looks_fail _ _)

def asStatement (n : Tree) : n.AsStatement :=
  match hform : n.form with
  | .print => .print hform
  | .assign =>
    match htarget : n.child? 0 with
    | some (.node .name target cs) => .assign (.node .name target cs) hform htarget
    | _ => .failed (.malformed .noTarget)
  | .function =>
    if n.children.length = 2 then .declare hform else .failed (.malformed .declarationArity)
  | f => .failed (.malformed (.statement f))

variable {γ : Type} {n : Tree}

def AsExpression.elim (settled : Action Int64 → γ) (call : γ) (operation : Tree → Tree → γ) :
    n.AsExpression → γ
  | .settled act _ => settled act
  | .call _ => call
  | .operation left right _ => operation left right

def AsStatement.elim (print : γ) (assign : String → γ) (declare : γ) (failed : Fault → γ) :
    n.AsStatement → γ
  | .print _ => print
  | .assign target _ _ => assign target.literal
  | .declare _ => declare
  | .failed fault => failed fault

end Tree

namespace Action

variable (invoke : Tree → Action Int64) (n : Tree)

theorem evaluate_eq_elim :
    evaluate invoke n = n.asExpression.elim id (invoke n) fun l r => (do
      let v ← evaluate invoke l
      let w ← evaluate invoke r
      operate n.token v w) := by
  rcases n with ⟨f, _, _ | ⟨_, _ | ⟨_, _ | ⟨_, _⟩⟩⟩⟩ <;> cases f <;> rfl

theorem statement_eq_elim :
    statement invoke n = n.asStatement.elim
      (do
        let v ← evaluate? invoke (n.child? 0)
        print v)
      (fun name => do
        let v ← evaluate? invoke (n.child? 1)
        modify fun m => m.assign name v)
      (modify fun m => m.declare n.literal n) (fun fault => fail n.pos fault) := by
  rcases n with ⟨f, _, _ | ⟨⟨f', _, _⟩, _ | ⟨_, _ | ⟨_, _⟩⟩⟩⟩ <;> cases f <;> try rfl
  -- what is left are assignments, and there it is the target that decides
  all_goals cases f' <;> rfl

end Action

/-! ## Told actions -/

/-- How an action ends, and the events up to there. -/
structure Account (α : Type) where
  result : Except RunError α
  events : List Event

/-- The account of a call, from that of what is done in its frame. -/
def Account.inFrame {α : Type} (a : Account α) (frame : Frame) (block : Tree) : Account α :=
  ⟨a.result, .enter frame block :: (a.events ++ [.leave])⟩

/-- An action that gives an account of itself, wherever it starts. -/
structure Told (α : Type) where
  account : Machine → Account α

namespace Told

variable {α β : Type}

instance : CoeFun (Told α) fun _ => Machine → Account α := ⟨account⟩

/-- The rest starts from the machine that the events so far have made. -/
protected def bind (t : Told α) (f : α → Told β) : Told β where
  account m :=
    match (t m).result with
    | .error e => ⟨.error e, (t m).events⟩
    | .ok a =>
      let rest := f a (m.replay (t m).events)
      ⟨rest.result, (t m).events ++ rest.events⟩

instance : Monad Told where
  pure a := ⟨fun _ => ⟨.ok a, []⟩⟩
  bind := Told.bind

/-- Of an action that only looks there is nothing to tell but how it ends. -/
def silent (act : Action α) : Told α := ⟨fun m => ⟨(act.run m).1, []⟩⟩

/-- Something that always succeeds. -/
def does (e : Event) : Told Unit := ⟨fun _ => ⟨.ok (), [e]⟩⟩

def print (v : Int64) : Told Unit where
  account m :=
    match m.sink.write (Text.Decimal.ofInt64 v) with
    | .ok _ => ⟨.ok (), [.print v]⟩
    | .error e => ⟨.error (.write e), []⟩

/-- Tells an action in a new frame, which is gone afterwards, whether the action fails or not. -/
def inFrame (frame : Frame) (block : Tree) (t : Told α) : Told α :=
  ⟨fun m => (t { m with frames := frame :: m.frames }).inFrame frame block⟩

/-! ## Told programs -/

def evaluate (invoke : Tree → Told Int64) : Tree → Told Int64
  | .node .integer t _ => silent (Action.numeral t)
  | .node .name t _ => silent (Action.lookup t)
  | .node .call t cs => invoke (.node .call t cs)
  | .node f t cs =>
    if f = .sum ∨ f = .product ∨ f = .power then
      match cs with
      | [left, right] => do
        let l ← evaluate invoke left
        let r ← evaluate invoke right
        silent (Action.operate t l r)
      | _ => silent (Action.fail t.pos (.malformed .operatorArity))
    else silent (Action.fail t.pos (.malformed (.expression f)))

def evaluate? (invoke : Tree → Told Int64) : Option Tree → Told Int64
  | some n => evaluate invoke n
  | none => silent (Action.fail ⟨0, 0⟩ (.malformed .missingExpression))

def statement (invoke : Tree → Told Int64) (n : Tree) : Told Unit :=
  match n.form with
  | .print => do
    let v ← evaluate? invoke (n.child? 0)
    print v
  | .assign =>
    match n.child? 0 with
    | some (.node .name target _) => do
      let v ← evaluate? invoke (n.child? 1)
      does (.assign target.literal v)
    | _ => silent (Action.fail n.pos (.malformed .noTarget))
  | .function =>
    if n.children.length = 2 then does (.declare n)
    else silent (Action.fail n.pos (.malformed .declarationArity))
  | f => silent (Action.fail n.pos (.malformed (.statement f)))

def body (invoke : Tree → Told Int64) (function : String) (n : Tree) : List Tree → Told Int64
  | [] => silent (Action.fail n.pos (.malformed (.noResult function)))
  | s :: rest =>
    if s.form = .result then evaluate? invoke (s.child? 0)
    else do
      statement invoke s
      body invoke function n rest

def call (callsAllowed : Bool) : Nat → Tree → Told Int64
  | 0, n => silent (Action.call callsAllowed 0 n)
  | room + 1, n => do
    let found ← silent (Action.callee callsAllowed n)
    inFrame found.1 found.2 (body (call callsAllowed room) n.literal found.2 found.2.children)

def statements (invoke : Tree → Told Int64) : List Tree → Told Unit
  | [] => pure ()
  | s :: rest => do
    statement invoke s
    statements invoke rest

def callWithin (limits : Limits) (depth : Nat) (n : Tree) : Told Int64 :=
  call limits.callsAllowed (limits.maxDepth - depth) n

def execute (limits : Limits) (root : Tree) : Told Unit := do
  let depth ← silent Action.height
  if root.form = .root then statements (callWithin limits depth) root.children
  else silent (Action.fail root.pos (.malformed .notRoot))

/-! ## Steps -/

theorem bind_of_error {t : Told α} {f : α → Told β} {m : Machine} {e : RunError}
    (h : (t m).result = .error e) : (t >>= f) m = ⟨.error e, (t m).events⟩ := by
  show Told.bind t f m = _
  simp only [Told.bind, h]

theorem bind_of_ok {t : Told α} {f : α → Told β} {m : Machine} {a : α}
    (h : (t m).result = .ok a) :
    (t >>= f) m = ⟨(f a (m.replay (t m).events)).result,
      (t m).events ++ (f a (m.replay (t m).events)).events⟩ := by
  show Told.bind t f m = _
  simp only [Told.bind, h]

theorem execute_of_form {root : Tree} (h : root.form = .root) (limits : Limits) (m : Machine) :
    execute limits root m = statements (callWithin limits m.frames.length) root.children m := by
  unfold execute
  rw [bind_of_ok (a := m.frames.length) rfl, if_pos h]
  rfl

/-- The action that is told: the result, and the machine that the events make. -/
def act (t : Told α) : Action α := fun m => ((t m).result, m.replay (t m).events)

theorem run_act (t : Told α) (m : Machine) :
    t.act.run m = ((t m).result, m.replay (t m).events) := rfl

theorem act_bind (t : Told α) (f : α → Told β) : (t >>= f).act = t.act >>= fun a => (f a).act := by
  refine funext fun m => ?_
  show (t >>= f).act.run m = (t.act >>= fun a => (f a).act).run m
  cases hr : (t m).result with
  | error e =>
      have hact : t.act.run m = (.error e, m.replay (t m).events) := by rw [run_act, hr]
      rw [Action.run_bind_of_error hact, run_act, bind_of_error hr]
  | ok a =>
      have hact : t.act.run m = (.ok a, m.replay (t m).events) := by rw [run_act, hr]
      rw [Action.run_bind_of_ok hact, run_act, run_act, bind_of_ok hr, Machine.replay_append]

theorem print_of_ok {v : Int64} {m : Machine} {sink : Sink}
    (h : m.sink.write (Text.Decimal.ofInt64 v) = .ok sink) : print v m = ⟨.ok (), [.print v]⟩ := by
  simp only [print, h]

theorem print_of_error {v : Int64} {m : Machine} {e : WriteError}
    (h : m.sink.write (Text.Decimal.ofInt64 v) = .error e) :
    print v m = ⟨.error (.write e), []⟩ := by
  simp only [print, h]

theorem act_silent {act : Action α} (h : Action.Looks act) : (silent act).act = act :=
  funext fun m => (h.run_eq m).symm

theorem act_print (v : Int64) : (print v).act = Action.print v := by
  refine funext fun m => ?_
  show ((print v m).result, m.replay (print v m).events) = (Action.print v).run m
  unfold Action.print
  rw [Action.run_get_bind]
  cases hw : m.sink.write (Text.Decimal.ofInt64 v) with
  | error e =>
      rw [print_of_error hw]
      rfl
  | ok sink =>
      rw [print_of_ok hw]
      exact congrArg (Except.ok (), ·) (Machine.apply_print hw)

theorem act_inFrame (frame : Frame) (block : Tree) (t : Told α) :
    (inFrame frame block t).act = Action.inFrame frame t.act := by
  refine funext fun m => ?_
  show (_, m.replay (.enter frame block :: (_ ++ [.leave]))) = (_, _)
  rw [Machine.replay_cons, Machine.replay_append]
  rfl

/-! ## Told nodes -/

section

variable (invoke : Tree → Told Int64) (n : Tree)

theorem evaluate_eq_elim :
    evaluate invoke n = n.asExpression.elim silent (invoke n) fun l r => (do
      let v ← evaluate invoke l
      let w ← evaluate invoke r
      silent (Action.operate n.token v w)) := by
  rcases n with ⟨f, _, _ | ⟨_, _ | ⟨_, _ | ⟨_, _⟩⟩⟩⟩ <;> cases f <;> rfl

theorem statement_eq_elim :
    statement invoke n = n.asStatement.elim
      (do
        let v ← evaluate? invoke (n.child? 0)
        print v)
      (fun name => do
        let v ← evaluate? invoke (n.child? 1)
        does (.assign name v))
      (does (.declare n)) (fun fault => silent (Action.fail n.pos fault)) := by
  rcases n with ⟨f, _, _ | ⟨⟨f', _, _⟩, _ | ⟨_, _ | ⟨_, _⟩⟩⟩⟩ <;> cases f <;> try rfl
  all_goals cases f' <;> rfl

theorem body_result (name : String) (b : Tree) (rest : List Tree) (h : n.form = .result) :
    body invoke name b (n :: rest) = evaluate? invoke (n.child? 0) := by
  rw [body, if_pos h]

theorem body_statement (name : String) (b : Tree) (rest : List Tree) (h : n.form ≠ .result) :
    body invoke name b (n :: rest) = (do
      statement invoke n
      body invoke name b rest) := by
  rw [body, if_neg h]

end

/-! ## The account is true -/

section

variable {invoke : Tree → Told Int64} {invoke' : Tree → Action Int64}

theorem act_evaluate (h : ∀ c, (invoke c).act = invoke' c) :
    ∀ n : Tree, (evaluate invoke n).act = Action.evaluate invoke' n := by
  refine Tree.induction fun f t cs ih => ?_
  rw [evaluate_eq_elim, Action.evaluate_eq_elim]
  cases (Tree.node f t cs).asExpression with
  | settled act hlooks => exact act_silent hlooks
  | call _ => exact h _
  | operation l r hcs =>
      obtain rfl : cs = [l, r] := hcs
      dsimp only [Tree.AsExpression.elim]
      rw [act_bind, ih l (by simp)]
      refine bind_congr fun v => ?_
      rw [act_bind, ih r (by simp)]
      refine bind_congr fun w => ?_
      exact act_silent (Action.looks_operate t v w)

theorem act_evaluate? (h : ∀ c, (invoke c).act = invoke' c) (n? : Option Tree) :
    (evaluate? invoke n?).act = Action.evaluate? invoke' n? := by
  cases n? with
  | none => exact act_silent (Action.looks_fail _ _)
  | some n => exact act_evaluate h n

theorem act_statement (h : ∀ c, (invoke c).act = invoke' c) (n : Tree) :
    (statement invoke n).act = Action.statement invoke' n := by
  rw [statement_eq_elim, Action.statement_eq_elim]
  cases n.asStatement with
  | print _ =>
      dsimp only [Tree.AsStatement.elim]
      rw [act_bind, act_evaluate? h]
      exact bind_congr fun v => act_print v
  | assign target _ _ =>
      dsimp only [Tree.AsStatement.elim]
      rw [act_bind, act_evaluate? h]
      rfl
  | declare _ => rfl
  | failed fault => exact act_silent (Action.looks_fail _ _)

theorem act_statements (h : ∀ c, (invoke c).act = invoke' c) (l : List Tree) :
    (statements invoke l).act = Action.statements invoke' l := by
  induction l with
  | nil => rfl
  | cons s rest ih =>
      unfold statements Action.statements
      rw [act_bind, act_statement h]
      exact bind_congr fun _ => ih

theorem act_body (h : ∀ c, (invoke c).act = invoke' c) (name : String) (b : Tree) (l : List Tree) :
    (body invoke name b l).act = Action.body invoke' name b l := by
  induction l with
  | nil => exact act_silent (Action.looks_fail _ _)
  | cons s rest ih =>
      by_cases hs : s.form = .result
      · rw [body_result invoke s name b rest hs, Action.body_result invoke' name b rest hs]
        exact act_evaluate? h _
      · rw [body_statement invoke s name b rest hs, Action.body_statement invoke' name b rest hs,
          act_bind, act_statement h]
        exact bind_congr fun _ => ih

end

theorem act_call (callsAllowed : Bool) (room : Nat) :
    ∀ n : Tree, (call callsAllowed room n).act = Action.call callsAllowed room n := by
  induction room with
  | zero =>
      intro n
      exact act_silent (Action.looks_call_zero callsAllowed n)
  | succ room ih =>
      intro n
      rw [call, act_bind, act_silent (Action.looks_callee callsAllowed n), Action.call_eq_callee]
      refine bind_congr fun found => ?_
      rw [act_inFrame, act_body ih]

theorem act_callWithin (limits : Limits) (depth : Nat) (n : Tree) :
    (callWithin limits depth n).act = Action.callWithin limits depth n :=
  act_call limits.callsAllowed (limits.maxDepth - depth) n

/-- Forgetting the events, a told program is the program. -/
theorem act_execute (limits : Limits) (root : Tree) :
    (execute limits root).act = Action.execute limits root := by
  unfold execute
  rw [act_bind, act_silent Action.looks_height]
  refine funext fun m => ?_
  show (if root.form = .root then statements (callWithin limits m.frames.length) root.children
    else silent _).act.run m = (if root.form = .root then _ else _ : Action Unit).run m
  split
  · rw [act_statements (fun c => act_callWithin limits m.frames.length c)]
  · rw [act_silent (Action.looks_fail _ _)]

end Told

theorem Machine.execute_eq_account (m : Machine) (limits : Limits) (root : Tree) :
    m.execute limits root = ((Told.execute limits root m).result,
      m.replay (Told.execute limits root m).events) := by
  rw [← Told.run_act, Told.act_execute]
  rfl

namespace Told

/-! ## Laws -/

/-- What holds of actions that only look, from any machine, and of a sequence if it holds of both
parts. -/
structure Law (P : ∀ {α : Type}, Told α → Machine → Prop) : Prop where
  silent {α : Type} {act : Action α} : Action.Looks act → ∀ m, P (silent act) m
  bind {α β : Type} {t : Told α} {f : α → Told β} {m : Machine} : P t m →
    (∀ a, (t m).result = .ok a → P (f a) (m.replay (t m).events)) → P (t >>= f) m

/-- What holds of output and assignments too. -/
structure StatementLaw (P : ∀ {α : Type}, Told α → Machine → Prop) : Prop extends Law P where
  print (v : Int64) (m : Machine) : P (print v) m
  assign (name : String) (v : Int64) (m : Machine) : P (does (.assign name v)) m

variable {P : ∀ {α : Type}, Told α → Machine → Prop} {invoke : Tree → Told Int64}

namespace Law

theorem evaluate (h : Law P) (hinvoke : ∀ c m, P (invoke c) m) :
    ∀ (n : Tree) (m : Machine), P (Told.evaluate invoke n) m := by
  refine Tree.induction fun f t cs ih m => ?_
  rw [evaluate_eq_elim]
  cases (Tree.node f t cs).asExpression with
  | settled act hlooks => exact h.silent hlooks m
  | call _ => exact hinvoke _ m
  | operation l r hcs =>
      obtain rfl : cs = [l, r] := hcs
      refine h.bind (ih l (by simp) m) fun v _ => ?_
      refine h.bind (ih r (by simp) _) fun w _ => ?_
      exact h.silent (Action.looks_operate t v w) _

theorem evaluate? (h : Law P) (hinvoke : ∀ c m, P (invoke c) m) (n? : Option Tree) (m : Machine) :
    P (Told.evaluate? invoke n?) m := by
  cases n? with
  | none => exact h.silent (Action.looks_fail _ _) m
  | some n => exact h.evaluate hinvoke n m

/-- What holds of calls is what holds of bodies in frames of their own. -/
theorem call (h : Law P) (callsAllowed : Bool)
    (hbody : ∀ invoke : Tree → Told Int64, (∀ c m, P (invoke c) m) →
      ∀ (m : Machine) (d block : Tree) (frame : Frame),
        m.functions.get? frame.function = some d → d.child? 1 = some block →
        P (inFrame frame block (Told.body invoke frame.function block block.children)) m)
    (room : Nat) : ∀ (n : Tree) (m : Machine), P (Told.call callsAllowed room n) m := by
  induction room with
  | zero =>
      intro n m
      exact h.silent (Action.looks_call_zero callsAllowed n) m
  | succ room ih =>
      intro n m
      refine h.bind (h.silent (Action.looks_callee callsAllowed n) m) fun found hfound => ?_
      obtain ⟨d, hd, hblock, hname⟩ := Action.exists_of_callee hfound
      rw [← hname]
      exact hbody _ ih m d found.2 found.1 hd hblock

end Law

namespace StatementLaw

theorem statement (h : StatementLaw P) (hinvoke : ∀ c m, P (invoke c) m) {n : Tree}
    (hdeclare : n.form = .function → ∀ m, P (does (.declare n)) m) (m : Machine) :
    P (Told.statement invoke n) m := by
  rw [statement_eq_elim]
  cases n.asStatement with
  | print _ => exact h.bind (h.evaluate? hinvoke _ m) fun v _ => h.print v _
  | assign target _ _ =>
      exact h.bind (h.evaluate? hinvoke _ m) fun v _ => h.assign target.literal v _
  | declare hform => exact hdeclare hform m
  | failed fault => exact h.silent (Action.looks_fail _ _) m

theorem statements (h : StatementLaw P) (hinvoke : ∀ c m, P (invoke c) m) {l : List Tree}
    (hdeclare : ∀ n ∈ l, n.form = .function → ∀ m, P (does (.declare n)) m) (m : Machine) :
    P (Told.statements invoke l) m := by
  induction l generalizing m with
  | nil => exact h.silent (Action.looks_pure ()) m
  | cons s rest ih =>
      refine h.bind (h.statement hinvoke (hdeclare s List.mem_cons_self) m) fun _ _ => ?_
      exact ih (fun n hn => hdeclare n (List.mem_cons_of_mem s hn)) _

theorem body (h : StatementLaw P) (hinvoke : ∀ c m, P (invoke c) m) (name : String) (b : Tree)
    {l : List Tree} (hdeclare : ∀ n ∈ l, n.form = .function → ∀ m, P (does (.declare n)) m)
    (m : Machine) : P (Told.body invoke name b l) m := by
  induction l generalizing m with
  | nil => exact h.silent (Action.looks_fail _ _) m
  | cons s rest ih =>
      by_cases hs : s.form = .result
      · rw [body_result invoke s name b rest hs]
        exact h.evaluate? hinvoke _ m
      · rw [body_statement invoke s name b rest hs]
        refine h.bind (h.statement hinvoke (hdeclare s List.mem_cons_self) m) fun _ _ => ?_
        exact ih (fun n hn => hdeclare n (List.mem_cons_of_mem s hn)) _

theorem execute (h : StatementLaw P) {limits : Limits} {root : Tree}
    (hcall : ∀ room c m, P (Told.call limits.callsAllowed room c) m)
    (hdeclare : ∀ n ∈ root.children, n.form = .function → ∀ m, P (does (.declare n)) m)
    (m : Machine) : P (Told.execute limits root) m := by
  refine h.bind (h.silent Action.looks_height m) fun depth _ => ?_
  show P (if root.form = .root then _ else _) m
  split
  · exact h.statements (fun c => hcall _ c) hdeclare m
  · exact h.silent (Action.looks_fail _ _) m

end StatementLaw

/-! A law may be one of the events alone. -/

section

variable {Q : Machine → List Event → Prop}

theorem law_of_events (hnil : ∀ m, Q m [])
    (happend : ∀ {m es es'}, Q m es → Q (m.replay es) es' → Q m (es ++ es')) :
    Law fun t m => Q m (t m).events where
  silent _ m := hnil m
  bind {α β t f m} h hf := by
    cases hr : (t m).result with
    | error e =>
        rw [bind_of_error hr]
        exact h
    | ok a =>
        rw [bind_of_ok hr]
        exact happend h (hf a hr)

theorem statementLaw_of_events (hnil : ∀ m, Q m [])
    (happend : ∀ {m es es'}, Q m es → Q (m.replay es) es' → Q m (es ++ es'))
    (hprint : ∀ m v, Q m [.print v]) (hassign : ∀ m name v, Q m [.assign name v]) :
    StatementLaw fun t m => Q m (t m).events where
  toLaw := law_of_events hnil happend
  print v m := by
    cases hw : m.sink.write (Text.Decimal.ofInt64 v) with
    | error e =>
        rw [print_of_error hw]
        exact hnil m
    | ok sink =>
        rw [print_of_ok hw]
        exact hprint m v
  assign name v m := hassign m name v

end

end Told

end IntScript
