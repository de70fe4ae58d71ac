import IntScript.Bindings
import IntScript.Machine.Sink
import IntScript.Tree.Basic

/-!
# Machines

The state that programs run on: the global variables, the declared functions, a frame for each call
that has not returned, and the output. An assignment writes to the innermost frame, or to the globals
where there is none; a name is looked up in the innermost frame and then in the globals, never in the
frames between.
-/

namespace IntScript

/-- A call that has not returned: the function, the call's token, and the variables of the call. -/
structure Frame where
  function : String
  call : Token
  locals : Bindings Int64

/-- The state of a run. The first frame is the innermost. -/
structure Machine where
  globals : Bindings Int64
  functions : Bindings Tree
  frames : List Frame
  sink : Sink

namespace Machine

/-- A machine on which nothing has run. -/
def ofSink (sink : Sink) : Machine := ⟨∅, ∅, [], sink⟩

/-- Forgets all variables and functions; what was written stays. -/
def reset (m : Machine) : Machine := ofSink m.sink

def get? (m : Machine) (name : String) : Option Int64 :=
  match m.frames with
  | [] => m.globals.get? name
  | frame :: _ => (frame.locals.get? name).or (m.globals.get? name)

/-- Gives a name a value where assignments write to. -/
def assign (m : Machine) (name : String) (v : Int64) : Machine :=
  match m.frames with
  | [] => { m with globals := m.globals.set name v }
  | frame :: outer =>
    { m with frames := { frame with locals := frame.locals.set name v } :: outer }

/-- Declares a function, in place of an earlier one of the same name. -/
def declare (m : Machine) (name : String) (declaration : Tree) : Machine :=
  { m with functions := m.functions.set name declaration }

end Machine

end IntScript
