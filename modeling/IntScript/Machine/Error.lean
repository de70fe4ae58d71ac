import IntScript.Token.Basic
import IntScript.Tree.Form

/-!
# Failures of a run

A run fails for a reason at a position of the program, or because its output cannot be written.
-/

namespace IntScript

/-- What is wrong with a tree that no program has. -/
inductive Malformation where
  | notRoot
  | noTarget
  | declarationArity
  | statement (f : Form)
  | expression (f : Form)
  | missingExpression
  | operatorArity
  | operator (k : Kind)
  | callShape
  | noResult (function : String)
  deriving DecidableEq, Repr

def Malformation.text : Malformation → String
  | .notRoot => "expected Root"
  | .noTarget => "assignment without target"
  | .declarationArity => "function declaration arity"
  | .statement f => s!"unexpected {f.label} statement"
  | .expression f => s!"unexpected {f.label} expression"
  | .missingExpression => "missing expression"
  | .operatorArity => "binary operator arity"
  | .operator k => s!"operator {k.name}"
  | .callShape => "call or declaration shape"
  | .noResult name => s!"function {name} has no return"

/-- The reason of a failure. -/
inductive Fault where
  | variableNotFound (name : String)
  | invalidInteger (literal : String)
  | divisionByZero
  | negativeExponent (exponent : Int64)
  | functionNotFound (name : String)
  | callsUnsupported (name : String)
  | arityMismatch (name : String) (params args : Nat)
  | callDepthExceeded (name : String) (depth : Nat)
  | malformed (m : Malformation)
  deriving DecidableEq, Repr

namespace Fault

/-- The kind of reason in words. -/
def summary : Fault → String
  | .variableNotFound _ => "variable not found"
  | .invalidInteger _ => "invalid integer literal"
  | .divisionByZero => "division by zero"
  | .negativeExponent _ => "negative exponent"
  | .functionNotFound _ => "function not found"
  | .callsUnsupported _ => "function calls not supported"
  | .arityMismatch .. => "argument count mismatch"
  | .callDepthExceeded .. => "call depth exceeded"
  | .malformed _ => "malformed syntax tree"

/-- What distinguishes the reason from others of its kind. -/
def detail : Fault → String
  | .variableNotFound name => name
  | .invalidInteger literal => literal
  | .divisionByZero => ""
  | .negativeExponent e => Text.Decimal.ofInt64 e
  | .functionNotFound name => name
  | .callsUnsupported name => name
  | .arityMismatch name params args => s!"{name} expects {params.repr}, got {args.repr}"
  | .callDepthExceeded name depth => s!"{name} at depth {depth.repr}"
  | .malformed m => m.text

end Fault

/-- A fault and where in the program it shows. -/
structure EvalError where
  fault : Fault
  pos : Position
  deriving DecidableEq, Repr

/-- The text of the error; an empty detail is left out. -/
def EvalError.message (e : EvalError) : String :=
  let text := s!"{e.pos.long}, runtime error, {e.fault.summary}"
  if e.fault.detail = "" then text else s!"{text}: {e.fault.detail}"

/-- Why output was not taken. -/
inductive WriteError where
  | full
  deriving DecidableEq, Repr

def WriteError.message : WriteError → String
  | .full => "disk full"

/-- Why a run failed. -/
inductive RunError where
  | eval (e : EvalError)
  | write (e : WriteError)
  deriving DecidableEq, Repr

def RunError.message : RunError → String
  | .eval e => e.message
  | .write e => s!"eval: write output: {e.message}"

end IntScript
