import IntScript.Machine.Arithmetic
import IntScript.Machine.Basic

/-!
# Running trees

An action runs on a machine; when it fails, what it did so far stays done. Expressions and statements
are run over a way to call functions; a call itself has room for a number of calls inside it, and
runs the body of the function with room for one less. So every run ends, and no more frames are open
at a time than there was room for.

Every tree can be run. One that no program has fails as malformed.
-/

namespace IntScript

/-- Something that runs on a machine. -/
abbrev Action (α : Type) := ExceptT RunError (StateM Machine) α

/-- What bounds the calls of a run. -/
structure Limits where
  /-- So many frames may be open at a time. -/
  maxDepth : Nat
  /-- May functions be called at all? -/
  callsAllowed : Bool
  deriving DecidableEq, Repr

namespace Limits

def defaultDepth : Nat := 256

/-- The limits for a depth asked for; one that is not positive asks for the default. -/
def ofDepth (depth : Int) (callsAllowed : Bool) : Limits :=
  ⟨if depth ≤ 0 then defaultDepth else depth.toNat, callsAllowed⟩

end Limits

namespace Action

def fail {α : Type} (pos : Position) (fault : Fault) : Action α := throw (.eval ⟨fault, pos⟩)

/-- The value of the name a token holds. -/
def lookup (t : Token) : Action Int64 := do
  let m ← get
  match m.get? t.literal with
  | some v => return v
  | none => fail t.pos (.variableNotFound t.literal)

def print (v : Int64) : Action Unit := do
  let m ← get
  match m.sink.write (Text.Decimal.ofInt64 v) with
  | .ok sink => set { m with sink := sink }
  | .error e => throw (.write e)

/-- The value of an expression, `invoke` being the way to call a function. -/
def evaluate (invoke : Tree → Action Int64) : Tree → Action Int64
  | .node .integer t _ =>
    match Text.Decimal.int64? t.literal with
    | some v => return v
    | none => fail t.pos (.invalidInteger t.literal)
  | .node .name t _ => lookup t
  | .node .call t cs => invoke (.node .call t cs)
  | .node f t cs =>
    if f = .sum ∨ f = .product ∨ f = .power then
      match cs with
      | [left, right] => do
        let l ← evaluate invoke left
        let r ← evaluate invoke right
        match Arithmetic.operate t.kind l r with
        | .ok v => return v
        | .error fault => fail t.pos fault
      | _ => fail t.pos (.malformed .operatorArity)
    else fail t.pos (.malformed (.expression f))

/-- The value of an expression that may be missing. -/
def evaluate? (invoke : Tree → Action Int64) : Option Tree → Action Int64
  | some n => evaluate invoke n
  | none => fail ⟨0, 0⟩ (.malformed .missingExpression)

def statement (invoke : Tree → Action Int64) (n : Tree) : Action Unit :=
  match n.form with
  | .print => do
    let v ← evaluate? invoke (n.child? 0)
    print v
  | .assign =>
    match n.child? 0 with
    | some (.node .name target _) => do
      let v ← evaluate? invoke (n.child? 1)
      modify fun m => m.assign target.literal v
    | _ => fail n.pos (.malformed .noTarget)
  | .function =>
    if n.children.length = 2 then modify fun m => m.declare n.literal n
    else fail n.pos (.malformed .declarationArity)
  | f => fail n.pos (.malformed (.statement f))

/-- Runs the statements of a body up to the first returned expression, which gives the value of the
call. -/
def body (invoke : Tree → Action Int64) (function : String) (n : Tree) : List Tree → Action Int64
  | [] => fail n.pos (.malformed (.noResult function))
  | s :: rest =>
    if s.form = .result then evaluate? invoke (s.child? 0)
    else do
      statement invoke s
      body invoke function n rest

/-- The variables a call starts with: each parameter has the value of its argument, which is a name
of the caller. -/
def arguments : List (Tree × Tree) → Bindings Int64 → Action (Bindings Int64)
  | [], locals => return locals
  | (param, arg) :: rest, locals => do
    let v ← lookup arg.token
    arguments rest (locals.set param.literal v)

/-- Runs an action in a new frame, which is gone afterwards, whether the action fails or not. -/
def inFrame {α : Type} (frame : Frame) (act : Action α) : Action α := fun m =>
  let (r, m') := act { m with frames := frame :: m.frames }
  (r, { m' with frames := m'.frames.tail })

/-- The value of a call that has room for `room` calls, itself among them. -/
def call (callsAllowed : Bool) (room : Nat) (n : Tree) : Action Int64 := do
  if callsAllowed = false then fail n.pos (.callsUnsupported n.literal)
  let m ← get
  match m.functions.get? n.literal with
  | none => fail n.pos (.functionNotFound n.literal)
  | some declaration =>
    match declaration.child? 0, declaration.child? 1, n.child? 0 with
    | some params, some block, some args =>
      if args.children.length ≠ params.children.length then
        fail n.pos (.arityMismatch n.literal params.children.length args.children.length)
      else
        match room with
        | 0 => fail n.pos (.callDepthExceeded n.literal m.frames.length)
        | room + 1 => do
          let locals ← arguments (params.children.zip args.children) ∅
          inFrame ⟨n.literal, n.token, locals⟩
            (body (call callsAllowed room) n.literal block block.children)
    | _, _, _ => fail n.pos (.malformed .callShape)

/-- Calls within limits, from where so many frames are open. -/
def callWithin (limits : Limits) (depth : Nat) (n : Tree) : Action Int64 :=
  call limits.callsAllowed (limits.maxDepth - depth) n

/-- Runs the statements of a program in order, up to the first that fails. -/
def statements (invoke : Tree → Action Int64) : List Tree → Action Unit
  | [] => return ()
  | s :: rest => do
    statement invoke s
    statements invoke rest

def execute (limits : Limits) (root : Tree) : Action Unit := do
  let m ← get
  if root.form = .root then statements (callWithin limits m.frames.length) root.children
  else fail root.pos (.malformed .notRoot)

end Action

namespace Machine

def execute (m : Machine) (limits : Limits) (root : Tree) : Except RunError Unit × Machine :=
  (Action.execute limits root).run m

def evaluate (m : Machine) (limits : Limits) (n : Tree) : Except RunError Int64 × Machine :=
  (Action.evaluate (Action.callWithin limits m.frames.length) n).run m

end Machine

end IntScript
