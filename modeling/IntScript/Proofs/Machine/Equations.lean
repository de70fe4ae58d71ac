import IntScript.Machine.Execute
import IntScript.Proofs.Tree.WellFormed

/-!
# Actions, one case at a time

What follows is about all trees, those that no program has among them, so every case of every
definition comes up, and it comes up again in every property of runs.  The cases are stated here
once, by the form of a node and by the nodes below it:

| node | evaluated |
| :-- | :-- |
| `integer` | the number its token writes |
| `name` | the value of the name |
| `call` | a call |
| `sum`, `product`, `power` | two operands and an operation, or a failure if there are not two |
| any other | a failure |

A `print`, an `assign` and a `function` are the statements that can be run, a call comes to a
function by way of `resolve`, and every other node is a failure.
-/

namespace IntScript

/-- The forms, as far as evaluating tells them apart. -/
theorem Form.expression_cases (f : Form) :
    f = .integer ∨ f = .name ∨ f = .call ∨ (∃ level : Level, f = level.form) ∨
      f ∉ Level.sum.leftForms := by
  cases f with
  | integer => exact .inl rfl
  | name => exact .inr (.inl rfl)
  | call => exact .inr (.inr (.inl rfl))
  | sum => exact .inr (.inr (.inr (.inl ⟨.sum, rfl⟩)))
  | product => exact .inr (.inr (.inr (.inl ⟨.product, rfl⟩)))
  | power => exact .inr (.inr (.inr (.inl ⟨.power, rfl⟩)))
  | _ => exact .inr (.inr (.inr (.inr (by simp [Level.leftForms, Level.rightForms, Level.form]))))

/-- The forms, as far as running tells them apart. -/
theorem Form.statement_cases (f : Form) :
    f = .print ∨ f = .assign ∨ f = .function ∨ f ∉ [Form.print, .assign, .function] := by
  cases f with
  | print => exact .inl rfl
  | assign => exact .inr (.inl rfl)
  | function => exact .inr (.inr (.inl rfl))
  | _ => exact .inr (.inr (.inr (by simp)))

namespace Action

variable {α β : Type}

/-! ## Sequence -/

theorem run_bind (act : Action α) (f : α → Action β) (m : Machine) :
    (act >>= f).run m =
      match act.run m with
      | (.ok a, m') => (f a).run m'
      | (.error e, m') => (.error e, m') := by
  rw [ExceptT.run_bind]
  refine (StateT.run_bind act.run _ m).trans ?_
  rw [show StateT.run act.run m = act.run m from rfl]
  rcases act.run m with ⟨r, m'⟩
  cases r <;> rfl

theorem run_bind_of_ok {act : Action α} {f : α → Action β} {m m' : Machine} {a : α}
    (h : act.run m = (.ok a, m')) : (act >>= f).run m = (f a).run m' := by
  rw [run_bind, h]

theorem run_bind_of_error {act : Action α} {f : α → Action β} {m m' : Machine} {e : RunError}
    (h : act.run m = (.error e, m')) : (act >>= f).run m = (.error e, m') := by
  rw [run_bind, h]

theorem run_bind_error_cases {act : Action α} {f : α → Action β} {m m' : Machine} {e : RunError}
    (h : (act >>= f).run m = (.error e, m')) :
    act.run m = (.error e, m') ∨ ∃ a k, act.run m = (.ok a, k) ∧ (f a).run k = (.error e, m') := by
  rcases hr : act.run m with ⟨d | a, k⟩
  · rw [run_bind_of_error hr] at h
    cases h
    exact .inl rfl
  · rw [run_bind_of_ok hr] at h
    exact .inr ⟨a, k, rfl, h⟩

theorem run_get_bind (f : Machine → Action α) (m : Machine) : (get >>= f).run m = (f m).run m := rfl

/-! ## Expressions -/

def numeral (t : Token) : Action Int64 :=
  match Text.Decimal.int64? t.literal with
  | some v => return v
  | none => fail t.pos (.invalidInteger t.literal)

def operate (t : Token) (l r : Int64) : Action Int64 :=
  match Arithmetic.operate t.kind l r with
  | .ok v => return v
  | .error fault => fail t.pos fault

section

variable (invoke : Tree → Action Int64) {n l r : Tree}

theorem evaluate_integer (h : n.form = .integer) : evaluate invoke n = numeral n.token := by
  cases n
  cases h
  rfl

theorem evaluate_name (h : n.form = .name) : evaluate invoke n = lookup n.token := by
  cases n
  cases h
  rfl

theorem evaluate_call (h : n.form = .call) : evaluate invoke n = invoke n := by
  cases n
  cases h
  rfl

theorem evaluate_operation (level : Level) (h : n.form = level.form) (hc : n.children = [l, r]) :
    evaluate invoke n = (do
      let v ← evaluate invoke l
      let w ← evaluate invoke r
      operate n.token v w) := by
  obtain ⟨f, t, cs⟩ := n
  obtain rfl : f = level.form := h
  obtain rfl : cs = [l, r] := hc
  cases level <;> rfl

theorem evaluate_arity (level : Level) (h : n.form = level.form) (hc : n.children.length ≠ 2) :
    evaluate invoke n = fail n.pos (.malformed .operatorArity) := by
  obtain ⟨f, t, cs⟩ := n
  obtain rfl : f = level.form := h
  match cs, hc with
  | [], _ => cases level <;> rfl
  | [_], _ => cases level <;> rfl
  | _ :: _ :: _ :: _, _ => cases level <;> rfl

theorem evaluate_other (h : n.form ∉ Level.sum.leftForms) :
    evaluate invoke n = fail n.pos (.malformed (.expression n.form)) := by
  obtain ⟨f, t, cs⟩ := n
  cases f with
  | integer | name | call | sum | product | power =>
      simp [Level.leftForms, Level.rightForms, Level.form] at h
  | _ => rcases cs with _ | ⟨_, _ | ⟨_, _ | ⟨_, _⟩⟩⟩ <;> rfl

/-! ## Statements -/

theorem statement_print (h : n.form = .print) :
    statement invoke n = (do
      let v ← evaluate? invoke (n.child? 0)
      print v) := by
  rw [statement, h]

theorem statement_assign {target : Tree} (h : n.form = .assign) (ht : n.child? 0 = some target)
    (hname : target.form = .name) :
    statement invoke n = (do
      let v ← evaluate? invoke (n.child? 1)
      modify fun m => m.assign target.literal v) := by
  obtain ⟨f, t, cs⟩ := target
  obtain rfl : f = .name := hname
  rw [statement, h]
  simp only [ht]
  rfl

theorem statement_noTarget (h : n.form = .assign)
    (ht : ∀ target, n.child? 0 = some target → target.form ≠ .name) :
    statement invoke n = fail n.pos (.malformed .noTarget) := by
  rw [statement, h]
  dsimp only
  split
  · next htarget => exact absurd rfl (ht _ htarget)
  · rfl

theorem statement_function (h : n.form = .function) (hc : n.children.length = 2) :
    statement invoke n = modify fun m => m.declare n.literal n := by
  rw [statement, h]
  exact if_pos hc

theorem statement_arity (h : n.form = .function) (hc : n.children.length ≠ 2) :
    statement invoke n = fail n.pos (.malformed .declarationArity) := by
  rw [statement, h]
  exact if_neg hc

theorem statement_other (h : n.form ∉ [Form.print, .assign, .function]) :
    statement invoke n = fail n.pos (.malformed (.statement n.form)) := by
  unfold statement
  split
  · next hf => exact absurd hf (fun hf => h (by simp [hf]))
  · next hf => exact absurd hf (fun hf => h (by simp [hf]))
  · next hf => exact absurd hf (fun hf => h (by simp [hf]))
  · rfl

theorem body_result (name : String) (b : Tree) (rest : List Tree) (h : n.form = .result) :
    body invoke name b (n :: rest) = evaluate? invoke (n.child? 0) := by
  rw [body, if_pos h]

theorem body_statement (name : String) (b : Tree) (rest : List Tree) (h : n.form ≠ .result) :
    body invoke name b (n :: rest) = (do
      statement invoke n
      body invoke name b rest) := by
  rw [body, if_neg h]

end

/-! ## Calls -/

/-- What a call does with the function it finds before it enters it. -/
def dispatch (n : Tree) (enter : Tree → Tree → Tree → Action α) : Option Tree → Action α
  | none => fail n.pos (.functionNotFound n.literal)
  | some declaration =>
    match declaration.child? 0, declaration.child? 1, n.child? 0 with
    | some params, some block, some args =>
      if args.children.length ≠ params.children.length then
        fail n.pos (.arityMismatch n.literal params.children.length args.children.length)
      else enter params block args
    | _, _, _ => fail n.pos (.malformed .callShape)

/-- What a call does before the function is entered. -/
def resolve (callsAllowed : Bool) (n : Tree)
    (enter : Machine → Tree → Tree → Tree → Action α) : Action α := do
  if callsAllowed = false then fail n.pos (.callsUnsupported n.literal)
  let m ← get
  dispatch n (enter m) (m.functions.get? n.literal)

/-- Runs a function for a call, with the values of the arguments for its parameters. -/
def perform (callsAllowed : Bool) (room : Nat) (n params block args : Tree) : Action Int64 := do
  let locals ← arguments (params.children.zip args.children) ∅
  inFrame ⟨n.literal, n.token, locals⟩
    (body (call callsAllowed room) n.literal block block.children)

/-- A call without room fails where the function would be entered, -/
theorem call_zero (callsAllowed : Bool) (n : Tree) :
    call callsAllowed 0 n = resolve callsAllowed n fun m _ _ _ =>
      fail n.pos (.callDepthExceeded n.literal m.frames.length) := by
  -- the room is looked at below other matches, and no equation is generated for that
  delta call
  rfl

/-- and one with room enters it with room for one call less. -/
theorem call_succ (callsAllowed : Bool) (room : Nat) (n : Tree) :
    call callsAllowed (room + 1) n =
      resolve callsAllowed n fun _ => perform callsAllowed room n := by
  unfold perform
  delta call
  rfl

end Action

end IntScript
