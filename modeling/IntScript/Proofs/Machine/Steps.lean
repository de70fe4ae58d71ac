import IntScript.Proofs.Machine.Events
import Mathlib.Logic.Function.Iterate

/-!
# Runs, step by step

`Action.execute` says what becomes of a program and not what happens on the way, and it ends because
it is written so: each call is given room for so many calls inside it.  Here a program is run in
small steps.  A `Point` of a run has the machine and a control, which is what to do next and, below
that, what is left to do.  No step knows of room.  A call looks at the open frames, and if there are
as many as the limit allows it fails; otherwise it opens one more.

| control | what comes next |
| :-- | :-- |
| `evaluate n use` | the value of the expression `n`, or a failure |
| `value v use` | what the value is used for |
| `statement n rest` | the statement `n` |
| `next rest` | the statement that follows, or the end |
| `fail e use`, `stop e rest` | an expression, a statement has failed: only calls are left |
| `ended r` | nothing |

Such a run could go on for ever, or open any number of frames.  Main statement: it does neither
(`Machine.execute_ends_within_depth`).  It comes to the end that `Machine.execute` gives, and at no
point are more frames open than the limit allows.

The second half is an invariant of the single steps.  For the first half, every action is followed
through the steps that do the same (`Point.reaches_evaluate` and the lemmas behind it).  A call
leads from its node to a body that may be anywhere, so there it is the number of frames that may
still be opened by which the induction goes (`Point.follows`); inside of a body it is the tree.
-/

namespace IntScript

/-! ## Calls that look at the frames -/

namespace Action

/-- What a call finds before it enters the function: its frame, and the body to run.  It fails if as
many frames are open as the limit allows. -/
def approach (limits : Limits) (n : Tree) : Action (Frame × Tree) :=
  resolve limits.callsAllowed n fun m params block args =>
    if limits.maxDepth ≤ m.frames.length then
      fail n.pos (.callDepthExceeded n.literal m.frames.length)
    else do
      let locals ← arguments (params.children.zip args.children) ∅
      return (⟨n.literal, n.token, locals⟩, block)

/-- Whether a call comes to a function does not depend on what it does there. -/
theorem run_resolve_either (callsAllowed : Bool) (n : Tree) (m : Machine) :
    (∃ e, ∀ {α : Type} (enter : Machine → Tree → Tree → Tree → Action α),
      (resolve callsAllowed n enter).run m = (.error e, m)) ∨
    ∃ params block args, ∀ {α : Type} (enter : Machine → Tree → Tree → Tree → Action α),
      (resolve callsAllowed n enter).run m = (enter m params block args).run m := by
  unfold resolve
  cases callsAllowed with
  | false => exact .inl ⟨_, fun _ => rfl⟩
  | true =>
      show (∃ e, ∀ {α : Type} (enter : Machine → Tree → Tree → Tree → Action α),
          (dispatch n (enter m) (m.functions.get? n.literal)).run m = (.error e, m)) ∨
        ∃ params block args, ∀ {α : Type} (enter : Machine → Tree → Tree → Tree → Action α),
          (dispatch n (enter m) (m.functions.get? n.literal)).run m =
            (enter m params block args).run m
      unfold dispatch
      split
      · exact .inl ⟨_, fun _ => rfl⟩
      · split
        · next params block args _ _ _ =>
            split
            · exact .inl ⟨_, fun _ => rfl⟩
            · exact .inr ⟨params, block, args, fun _ => rfl⟩
        · exact .inl ⟨_, fun _ => rfl⟩

theorem looks_approach (limits : Limits) (n : Tree) : Looks (approach limits n) := by
  refine looks_resolve limits.callsAllowed n ?_ ?_
  · intro m sink
    rfl
  · intro m params block args
    split
    · exact looks_fail _ _
    · exact (looks_arguments _ _).bind fun locals => looks_pure _

theorem lt_of_approach {limits : Limits} {n : Tree} {m m' : Machine} {found : Frame × Tree}
    (h : (approach limits n).run m = (.ok found, m')) : m.frames.length < limits.maxDepth := by
  unfold approach at h
  rcases run_resolve_either limits.callsAllowed n m with ⟨e, hrun⟩ | ⟨params, block, args, hrun⟩
  · cases (hrun _).symm.trans h
  · by_contra hfull
    rw [hrun, if_pos (Nat.not_lt.mp hfull)] at h
    cases h

/-- A call with as much room as there are frames to open is what it finds, and the body in the
frame. -/
theorem run_callWithin (limits : Limits) (n : Tree) (m : Machine) :
    (callWithin limits m.frames.length n).run m = (do
      let found ← approach limits n
      inFrame found.1 (body (callWithin limits (m.frames.length + 1)) n.literal found.2
        found.2.children)).run m := by
  unfold callWithin approach
  rw [resolve_bind]
  cases hroom : limits.maxDepth - m.frames.length with
  | zero =>
      rw [call_zero]
      rcases run_resolve_either limits.callsAllowed n m with ⟨e, hrun⟩ | ⟨params, block, args, hrun⟩
      · rw [hrun, hrun]
      · rw [hrun, hrun, if_pos (by omega)]
        rfl
  | succ room =>
      have hless : limits.maxDepth - (m.frames.length + 1) = room := by omega
      rw [call_succ, hless]
      rcases run_resolve_either limits.callsAllowed n m with ⟨e, hrun⟩ | ⟨params, block, args, hrun⟩
      · rw [hrun, hrun]
      · rw [hrun, hrun, if_neg (by omega), perform]
        simp only [bind_assoc, pure_bind]

end Action

/-! ## Points of a run -/

namespace Point

mutual

/-- What the value of an expression is used for, and what is left to do then. -/
inductive Use where
  /-- It is the left operand of an operation. -/
  | left (mark : Token) (right : Tree) (use : Use)
  /-- It is the right operand of an operation, and the left one is known. -/
  | right (mark : Token) (l : Int64) (use : Use)
  | print (rest : Rest)
  | assign (name : String) (rest : Rest)
  /-- It is the value of a call, whose frame goes. -/
  | leave (use : Use)

/-- The statements that follow a statement: those of the program, or those of the body of a function
and what is left to do after the call. -/
inductive Rest where
  | program (l : List Tree)
  | body (function : String) (block : Tree) (l : List Tree) (use : Use)

end

/-- What a run is about to do. -/
inductive Control where
  | execute (root : Tree)
  | evaluate (n? : Option Tree) (use : Use)
  | value (v : Int64) (use : Use)
  | statement (n : Tree) (rest : Rest)
  | next (rest : Rest)
  | fail (e : RunError) (use : Use)
  | stop (e : RunError) (rest : Rest)
  | ended (r : Except RunError Unit)

end Point

structure Point where
  control : Point.Control
  machine : Machine

namespace Point

/-- Where an expression leads to. -/
def settle (use : Use) : Except RunError Int64 × Machine → Point
  | (.ok v, m) => ⟨.value v use, m⟩
  | (.error e, m) => ⟨.fail e use, m⟩

/-- Where a statement leads to. -/
def finish (rest : Rest) : Except RunError Unit × Machine → Point
  | (.ok (), m) => ⟨.next rest, m⟩
  | (.error e, m) => ⟨.stop e rest, m⟩

/-- Where a call leads to, once it has found the function or not. -/
def enter (n : Tree) (use : Use) : Except RunError (Frame × Tree) × Machine → Point
  | (.ok (frame, block), m) =>
    ⟨.next (.body n.literal block block.children (.leave use)),
      { m with frames := frame :: m.frames }⟩
  | (.error e, m) => ⟨.fail e use, m⟩

def conclude (x : Except RunError Unit × Machine) : Point := ⟨.ended x.1, x.2⟩

/-- The first step of an expression. -/
def evaluate (limits : Limits) (use : Use) (m : Machine) : Tree → Point
  | .node .integer t _ => settle use ((Action.numeral t).run m)
  | .node .name t _ => settle use ((Action.lookup t).run m)
  | .node .call t cs =>
    enter (.node .call t cs) use ((Action.approach limits (.node .call t cs)).run m)
  | .node f t cs =>
    if f = .sum ∨ f = .product ∨ f = .power then
      match cs with
      | [left, right] => ⟨.evaluate (some left) (.left t right use), m⟩
      | _ => settle use ((Action.fail t.pos (.malformed .operatorArity)).run m)
    else settle use ((Action.fail t.pos (.malformed (.expression f))).run m)

/-- The first step of a statement. -/
def statement (rest : Rest) (m : Machine) (n : Tree) : Point :=
  match n.form with
  | .print => ⟨.evaluate (n.child? 0) (.print rest), m⟩
  | .assign =>
    match n.child? 0 with
    | some (.node .name target _) => ⟨.evaluate (n.child? 1) (.assign target.literal rest), m⟩
    | _ => finish rest ((Action.fail n.pos (.malformed .noTarget)).run m)
  | .function =>
    if n.children.length = 2 then ⟨.next rest, m.declare n.literal n⟩
    else finish rest ((Action.fail n.pos (.malformed .declarationArity)).run m)
  | f => finish rest ((Action.fail n.pos (.malformed (.statement f))).run m)

/-- A value is used. -/
def value (v : Int64) (m : Machine) : Use → Point
  | .left mark right use => ⟨.evaluate (some right) (.right mark v use), m⟩
  | .right mark l use => settle use ((Action.operate mark l v).run m)
  | .print rest => finish rest ((Action.print v).run m)
  | .assign name rest => ⟨.next rest, m.assign name v⟩
  | .leave use => ⟨.value v use, { m with frames := m.frames.tail }⟩

def next (m : Machine) : Rest → Point
  | .program [] => conclude (.ok (), m)
  | .program (s :: l) => ⟨.statement s (.program l), m⟩
  | .body function block [] use =>
    settle use ((Action.fail block.pos (.malformed (.noResult function))).run m)
  | .body function block (s :: l) use =>
    if s.form = .result then ⟨.evaluate (s.child? 0) use, m⟩
    else ⟨.statement s (.body function block l use), m⟩

/-- An expression has failed, and so has what it is a part of. -/
def fail (e : RunError) (m : Machine) : Use → Point
  | .left _ _ use => ⟨.fail e use, m⟩
  | .right _ _ use => ⟨.fail e use, m⟩
  | .print rest => ⟨.stop e rest, m⟩
  | .assign _ rest => ⟨.stop e rest, m⟩
  | .leave use => ⟨.fail e use, { m with frames := m.frames.tail }⟩

/-- A statement has failed, and so has the call or the program. -/
def stop (e : RunError) (m : Machine) : Rest → Point
  | .program _ => conclude (.error e, m)
  | .body _ _ _ use => ⟨.fail e use, m⟩

/-- One step.  At the end of the run nothing happens any more. -/
def step (limits : Limits) (p : Point) : Point :=
  match p.control with
  | .execute root =>
    if root.form = .root then ⟨.next (.program root.children), p.machine⟩
    else conclude ((Action.fail root.pos (.malformed .notRoot)).run p.machine)
  | .evaluate none use =>
    settle use ((Action.fail ⟨0, 0⟩ (.malformed .missingExpression)).run p.machine)
  | .evaluate (some n) use => evaluate limits use p.machine n
  | .value v use => value v p.machine use
  | .statement n rest => statement rest p.machine n
  | .next rest => next p.machine rest
  | .fail e use => fail e p.machine use
  | .stop e rest => stop e p.machine rest
  | .ended _ => p

theorem evaluate_eq_elim (limits : Limits) (use : Use) (m : Machine) (n : Tree) :
    evaluate limits use m n = n.asExpression.elim (fun act => settle use (act.run m))
      (enter n use ((Action.approach limits n).run m))
      (fun l r => ⟨.evaluate (some l) (.left n.token r use), m⟩) := by
  rcases n with ⟨f, _, _ | ⟨_, _ | ⟨_, _ | ⟨_, _⟩⟩⟩⟩ <;> cases f <;> rfl

theorem statement_eq_elim (rest : Rest) (m : Machine) (n : Tree) :
    statement rest m n = n.asStatement.elim ⟨.evaluate (n.child? 0) (.print rest), m⟩
      (fun name => ⟨.evaluate (n.child? 1) (.assign name rest), m⟩)
      ⟨.next rest, m.declare n.literal n⟩
      (fun fault => finish rest ((Action.fail n.pos fault).run m)) := by
  rcases n with ⟨f, _, _ | ⟨⟨f', _, _⟩, _ | ⟨_, _ | ⟨_, _⟩⟩⟩⟩ <;> cases f <;> try rfl
  all_goals cases f' <;> rfl

/-! ## Frames -/

@[simp] theorem machine_settle (use : Use) (x : Except RunError Int64 × Machine) :
    (settle use x).machine = x.2 := by
  rcases x with ⟨e | v, m⟩ <;> rfl

@[simp] theorem machine_finish (rest : Rest) (x : Except RunError Unit × Machine) :
    (finish rest x).machine = x.2 := by
  rcases x with ⟨e | v, m⟩ <;> rfl

/-- The one step that opens a frame looks first whether it may. -/
theorem length_enter {limits : Limits} {m : Machine} (hm : m.frames.length ≤ limits.maxDepth)
    (n : Tree) (use : Use) :
    (enter n use ((Action.approach limits n).run m)).machine.frames.length ≤ limits.maxDepth := by
  have hlooks := (Action.looks_approach limits n).run_eq m
  rcases hr : (Action.approach limits n).run m with ⟨e | found, m'⟩
  · rw [hr] at hlooks
    cases hlooks
    exact hm
  · have hlt := Action.lt_of_approach hr
    rw [hr] at hlooks
    cases hlooks
    exact hlt

section

variable {limits : Limits} {m : Machine} (hm : m.frames.length ≤ limits.maxDepth)

include hm

theorem length_evaluate (n : Tree) (use : Use) :
    (evaluate limits use m n).machine.frames.length ≤ limits.maxDepth := by
  rw [evaluate_eq_elim]
  cases n.asExpression with
  | settled act hlooks =>
      dsimp only [Tree.AsExpression.elim]
      rw [machine_settle, hlooks.run_eq m]
      exact hm
  | call _ => exact length_enter hm n use
  | operation l r _ => exact hm

theorem length_statement (n : Tree) (rest : Rest) :
    (statement rest m n).machine.frames.length ≤ limits.maxDepth := by
  rw [statement_eq_elim]
  cases n.asStatement with
  | print _ => exact hm
  | assign target _ _ => exact hm
  | declare _ => exact hm
  | failed fault => exact hm

theorem length_value (v : Int64) (use : Use) :
    (value v m use).machine.frames.length ≤ limits.maxDepth := by
  cases use with
  | left mark right use => exact hm
  | right mark l use =>
      rw [value, machine_settle, (Action.looks_operate mark l v).run_eq m]
      exact hm
  | print rest =>
      have hprint := Action.moves_print Action.writable_confined v m
      rw [value, machine_finish, hprint.height]
      exact hm
  | assign name rest =>
      exact Nat.le_trans (Nat.le_of_eq (Machine.confined_assign m name v).height) hm
  | leave use => exact Nat.le_trans (m.frames.tail_sublist.length_le) hm

theorem length_next (rest : Rest) :
    (next m rest).machine.frames.length ≤ limits.maxDepth := by
  match rest with
  | .program [] => exact hm
  | .program (s :: l) => exact hm
  | .body function block [] use => exact hm
  | .body function block (s :: l) use =>
      rw [next]
      split
      · exact hm
      · exact hm

theorem length_fail (e : RunError) (use : Use) :
    (fail e m use).machine.frames.length ≤ limits.maxDepth := by
  cases use with
  | leave use => exact Nat.le_trans (m.frames.tail_sublist.length_le) hm
  | _ => exact hm

end

theorem length_step {limits : Limits} {p : Point}
    (h : p.machine.frames.length ≤ limits.maxDepth) :
    (step limits p).machine.frames.length ≤ limits.maxDepth := by
  obtain ⟨control, m⟩ := p
  cases control with
  | execute root =>
      unfold step
      dsimp only
      split
      · exact h
      · exact h
  | evaluate n? use =>
      cases n? with
      | none => exact h
      | some n => exact length_evaluate h n use
  | value v use => exact length_value h v use
  | statement n rest => exact length_statement h n rest
  | next rest => exact length_next h rest
  | fail e use => exact length_fail h e use
  | stop e rest =>
      cases rest with
      | program l => exact h
      | body function block l use => exact h
  | ended r => exact h

theorem length_iterate_step {limits : Limits} {p : Point}
    (h : p.machine.frames.length ≤ limits.maxDepth) (n : Nat) :
    ((step limits)^[n] p).machine.frames.length ≤ limits.maxDepth := by
  induction n generalizing p with
  | zero => exact h
  | succ n ih => exact ih (length_step h)

/-! ## Following a run -/

/-- The steps of a run lead from the one point to the other. -/
def Reaches (limits : Limits) (p q : Point) : Prop := ∃ n, (step limits)^[n] p = q

section

variable {limits : Limits} {p q r : Point}

theorem Reaches.refl (p : Point) : Reaches limits p p := ⟨0, rfl⟩

theorem Reaches.trans (h : Reaches limits p q) (h' : Reaches limits q r) : Reaches limits p r := by
  obtain ⟨n, rfl⟩ := h
  obtain ⟨n', rfl⟩ := h'
  exact ⟨n' + n, Function.iterate_add_apply _ n' n p⟩

theorem Reaches.of_step (h : step limits p = q) : Reaches limits p q := ⟨1, h⟩

theorem Reaches.after (h : step limits p = q) (h' : Reaches limits q r) : Reaches limits p r :=
  (Reaches.of_step h).trans h'

/-- One action after the other.  Where the first leads to is known, and both its ends are followed
from there. -/
theorem Reaches.bind {α β : Type} {act : Action α} {f : α → Action β} {m : Machine}
    (first : Except RunError α × Machine → Point) {last : Except RunError β × Machine → Point}
    (h : Reaches limits p (first (act.run m)))
    (hok : ∀ a k, act.run m = (.ok a, k) →
      Reaches limits (first (.ok a, k)) (last ((f a).run k)))
    (herror : ∀ e k, Reaches limits (first (.error e, k)) (last (.error e, k))) :
    Reaches limits p (last ((act >>= f).run m)) := by
  rcases hr : act.run m with ⟨e | a, k⟩
  · rw [Action.run_bind_of_error hr]
    rw [hr] at h
    exact h.trans (herror e k)
  · rw [Action.run_bind_of_ok hr]
    rw [hr] at h
    exact h.trans (hok a k hr)

end

/-- Calls from so many open frames are followed by the steps. -/
def Follows (limits : Limits) (depth : Nat) : Prop :=
  ∀ (n : Tree) (use : Use) (m : Machine), n.form = .call → m.frames.length = depth →
    Reaches limits ⟨.evaluate (some n) use, m⟩
      (settle use ((Action.callWithin limits depth n).run m))

section

variable {limits : Limits} {depth : Nat} {m k : Machine}

theorem length_of_evaluate? (n? : Option Tree) {r : Except RunError Int64}
    (hm : m.frames.length = depth)
    (hrun : (Action.evaluate? (Action.callWithin limits depth) n?).run m = (r, k)) :
    k.frames.length = depth := by
  have hquiet := Action.moves_expression (Action.quiet_call limits.callsAllowed) depth n? m
  rw [hrun] at hquiet
  rw [hquiet.frames, hm]

theorem length_of_statement {n : Tree} {r : Except RunError Unit} (hm : m.frames.length = depth)
    (hrun : (Action.statement (Action.callWithin limits depth) n).run m = (r, k)) :
    k.frames.length = depth := by
  have hconfined := Action.confined_statement limits depth n m
  rw [hrun] at hconfined
  rw [hconfined.height, hm]

variable (h : Follows limits depth)

include h

theorem reaches_evaluate :
    ∀ (n : Tree) (use : Use) (m : Machine), m.frames.length = depth →
      Reaches limits ⟨.evaluate (some n) use, m⟩
        (settle use ((Action.evaluate (Action.callWithin limits depth) n).run m)) := by
  refine Tree.induction ?_
  intro f t cs ih use m hm
  have hstep := evaluate_eq_elim limits use m (.node f t cs)
  rw [Action.evaluate_eq_elim]
  generalize (Tree.node f t cs).asExpression = view at hstep ⊢
  cases view with
  | settled act _ => exact .of_step hstep
  | call hform => exact h _ use m hform hm
  | operation l r hcs =>
      obtain rfl : cs = [l, r] := hcs
      refine .after hstep ?_
      refine .bind (settle (.left t r use)) (ih l (by simp) _ m hm) ?_ ?_
      · intro v k hv
        have hk := length_of_evaluate? (some l) hm hv
        refine .after (q := ⟨.evaluate (some r) (.right t v use), k⟩) rfl ?_
        refine .bind (settle (.right t v use)) (ih r (by simp) _ k hk) ?_ ?_
        · intro w k' _
          exact .of_step rfl
        · intro e k'
          exact .of_step rfl
      · intro e k
        exact .of_step rfl

theorem reaches_evaluate? (n? : Option Tree) (use : Use) (hm : m.frames.length = depth) :
    Reaches limits ⟨.evaluate n? use, m⟩
      (settle use ((Action.evaluate? (Action.callWithin limits depth) n?).run m)) := by
  cases n? with
  | none => exact .of_step rfl
  | some n => exact reaches_evaluate h n use m hm

theorem reaches_statement (n : Tree) (rest : Rest) (hm : m.frames.length = depth) :
    Reaches limits ⟨.statement n rest, m⟩
      (finish rest ((Action.statement (Action.callWithin limits depth) n).run m)) := by
  have hstep := statement_eq_elim rest m n
  rw [Action.statement_eq_elim]
  generalize n.asStatement = view at hstep ⊢
  cases view with
  | print _ =>
      refine .after hstep ?_
      refine .bind (settle (.print rest)) (reaches_evaluate? h _ _ hm) ?_ ?_
      · intro v k _
        exact .of_step rfl
      · intro e k
        exact .of_step rfl
  | assign target _ _ =>
      refine .after hstep ?_
      refine .bind (settle (.assign target.literal rest)) (reaches_evaluate? h _ _ hm) ?_ ?_
      · intro v k _
        exact .of_step rfl
      · intro e k
        exact .of_step rfl
  | declare _ => exact .of_step hstep
  | failed fault => exact .of_step hstep

theorem reaches_body (function : String) (block : Tree) (use : Use) (l : List Tree)
    (hm : m.frames.length = depth) :
    Reaches limits ⟨.next (.body function block l use), m⟩
      (settle use ((Action.body (Action.callWithin limits depth) function block l).run m)) := by
  induction l generalizing m with
  | nil => exact .of_step rfl
  | cons s l ih =>
      by_cases hs : s.form = .result
      · rw [Action.body_result _ function block l hs]
        exact .after (if_pos hs) (reaches_evaluate? h _ use hm)
      · rw [Action.body_statement _ function block l hs]
        refine .after (if_neg hs) ?_
        refine .bind (finish (.body function block l use)) (reaches_statement h s _ hm) ?_ ?_
        · intro _ k hk
          exact ih (length_of_statement hm hk)
        · intro e k
          exact .of_step rfl

theorem reaches_statements (l : List Tree) (hm : m.frames.length = depth) :
    Reaches limits ⟨.next (.program l), m⟩
      (conclude ((Action.statements (Action.callWithin limits depth) l).run m)) := by
  induction l generalizing m with
  | nil => exact .of_step rfl
  | cons s l ih =>
      refine .after (q := ⟨.statement s (.program l), m⟩) rfl ?_
      refine .bind (finish (.program l)) (reaches_statement h s _ hm) ?_ ?_
      · intro _ k hk
        exact ih (length_of_statement hm hk)
      · intro e k
        exact .of_step rfl

end

theorem reaches_leave (limits : Limits) (use : Use) (frame : Frame) (act : Action Int64)
    (m : Machine) :
    Reaches limits (settle (.leave use) (act.run { m with frames := frame :: m.frames }))
      (settle use ((Action.inFrame frame act).run m)) := by
  refine .of_step ?_
  have hrun : (Action.inFrame frame act).run m =
      ((act.run { m with frames := frame :: m.frames }).1,
        { (act.run { m with frames := frame :: m.frames }).2 with
          frames := (act.run { m with frames := frame :: m.frames }).2.frames.tail }) := rfl
  rw [hrun]
  rcases act.run { m with frames := frame :: m.frames } with ⟨e | v, k⟩ <;> rfl

/-- Calls are followed by the steps, from any number of open frames. -/
theorem follows (limits : Limits) (depth : Nat) : Follows limits depth := by
  -- a body is run with one more frame open, so there is one less to open
  induction hroom : limits.maxDepth - depth using Nat.strongRecOn generalizing depth with
  | ind room ih =>
      intro n use m hform hm
      subst hm
      rw [Action.run_callWithin]
      refine .bind (enter n use) ?_ ?_ ?_
      · obtain ⟨f, t, cs⟩ := n
        obtain rfl : f = .call := hform
        exact .of_step rfl
      · rintro ⟨frame, block⟩ k hk
        have hlt := Action.lt_of_approach hk
        obtain rfl : k = m := by
          rw [(Action.looks_approach limits n).run_eq m] at hk
          exact (Prod.mk.inj hk).2.symm
        have hbody := ih _ (by omega) (k.frames.length + 1) rfl
        refine .trans ?_ (reaches_leave limits use frame _ k)
        exact reaches_body hbody n.literal block (.leave use) block.children rfl
      · intro e k
        exact .refl _

theorem reaches_execute (limits : Limits) (root : Tree) (m : Machine) :
    Reaches limits ⟨.execute root, m⟩ (conclude (m.execute limits root)) := by
  by_cases hroot : root.form = .root
  · have hrun : m.execute limits root =
        (Action.statements (Action.callWithin limits m.frames.length) root.children).run m := by
      unfold Machine.execute Action.execute
      rw [Action.run_get_bind, if_pos hroot]
    rw [hrun]
    exact .after (if_pos hroot) (reaches_statements (follows limits _) root.children rfl)
  · have hrun : m.execute limits root =
        (Action.fail root.pos (.malformed .notRoot) : Action Unit).run m := by
      unfold Machine.execute Action.execute
      rw [Action.run_get_bind, if_neg hroot]
    rw [hrun]
    exact .of_step (if_neg hroot)

end Point

namespace Machine

/-- A program is run to its end in some number of steps, whatever tree it is and whatever functions
there are, and at no point are more frames open than the limit allows. -/
theorem execute_ends_within_depth (m : Machine) (hm : m.frames = []) (limits : Limits)
    (root : Tree) :
    (∃ n, ∀ k ≥ n, (Point.step limits)^[k] ⟨.execute root, m⟩ =
      ⟨.ended (m.execute limits root).1, (m.execute limits root).2⟩) ∧
    ∀ k, ((Point.step limits)^[k] ⟨.execute root, m⟩).machine.frames.length ≤ limits.maxDepth := by
  constructor
  · obtain ⟨n, hn⟩ := Point.reaches_execute limits root m
    refine ⟨n, ?_⟩
    intro k hk
    obtain ⟨j, rfl⟩ := Nat.exists_eq_add_of_le' hk
    rw [Function.iterate_add_apply, hn]
    exact Function.iterate_fixed rfl j
  · intro k
    refine Point.length_iterate_step ?_ k
    rw [hm]
    exact Nat.zero_le _

/-- A function that declares itself anew and calls itself, with room for three calls: the third call
is open at some point, and the fourth is refused. -/
theorem execute_ends_within_depth_recursion :
    let call : Tree := .node .call ⟨.symbol, "f", ⟨2, 7⟩⟩ [.leaf .args .nowhere]
    let again : Tree := .node .function ⟨.symbol, "f", ⟨1, 1⟩⟩
      [.leaf .params .nowhere, .node .body .nowhere [.node .result .nowhere [call]]]
    let f : Tree := .node .function ⟨.symbol, "f", ⟨1, 6⟩⟩
      [.leaf .params .nowhere, .node .body .nowhere [again, .node .result .nowhere [call]]]
    let m := ofSink (.ofRoom? none)
    let root : Tree := .node .root .nowhere [f, .node .print .nowhere [call]]
    let x := m.execute ⟨3, true⟩ root
    m.frames = [] ∧ x.1 = .error (.eval ⟨.callDepthExceeded "f" 3, ⟨2, 7⟩⟩) ∧
      (∃ k, ((Point.step ⟨3, true⟩)^[k] ⟨.execute root, m⟩).machine.frames.length = 3) ∧
      (∃ n, ∀ k ≥ n, (Point.step ⟨3, true⟩)^[k] ⟨.execute root, m⟩ = ⟨.ended x.1, x.2⟩) ∧
      ∀ k, ((Point.step ⟨3, true⟩)^[k] ⟨.execute root, m⟩).machine.frames.length ≤ 3 := by
  intro call again f m root x
  refine ⟨rfl, by decide +kernel, ⟨13, by decide +kernel⟩, ?_⟩
  exact execute_ends_within_depth m rfl ⟨3, true⟩ root

end Machine

end IntScript
