import IntScript.Files.Feed
import IntScript.Files.Path
import IntScript.Text.Decimal
import IntScript.Text.Utf8

/-!
# Loading programs

A loader reads the text of a program, which may not be larger than a limit and has to be UTF-8. A
loader with a root takes every path from there and refuses those that lead out of it.
-/

namespace IntScript

/-- A directory that paths may not leave, or none, and a limit on the size in bytes. -/
structure Loader where
  root? : Option String
  maxBytes : Int64
  deriving DecidableEq, Repr

/-- Why a program was not loaded. -/
inductive LoadError where
  | escapes (path : String)
  | unreadable (name reason : String)
  | tooLarge (name : String) (limit : Int64)
  | notUtf8 (name : String)
  deriving DecidableEq, Repr

def LoadError.message : LoadError → String
  | .escapes path => s!"source: path escapes root: {path}"
  | .unreadable name reason => s!"source: read {name}: {reason}"
  | .tooLarge name limit =>
    s!"source: file size limit exceeded: {name} is larger than {Text.Decimal.ofInt64 limit} bytes"
  | .notUtf8 name => s!"source: file is not valid UTF-8: {name}"

namespace Loader

/-- The size limit where none is set: one mebibyte. -/
def defaultMaxBytes : Int64 := 1048576

/-- A loader for a root given from the working directory `cwd`; an empty root is none. -/
def ofRoot (cwd root : String) (maxBytes : Int64) : Loader :=
  ⟨if root = "" then none else some (Path.absolute cwd root), maxBytes⟩

/-- The size limit. One that is not positive stands for the default. -/
def limit (l : Loader) : Int64 := if l.maxBytes ≤ 0 then defaultMaxBytes else l.maxBytes

/-- The path to open for a path asked for. -/
def resolve (l : Loader) (path : String) : Except LoadError String :=
  match l.root? with
  | none => .ok path
  | some root =>
    let target := Path.below root (Path.clean path)
    if target = root ∨ (root ++ "/").toList.isPrefixOf target.toList then .ok target
    else .error (.escapes path)

/-- The bytes of a program. One byte more than the limit is asked for, which tells a program that
just fits from one that does not. -/
def read (l : Loader) (feed : Feed) (name : String) : Except LoadError (List UInt8) :=
  match feed.take (l.limit + 1) with
  | .error reason => .error (.unreadable name reason)
  | .ok bytes =>
    if l.limit.toInt < bytes.length then .error (.tooLarge name l.limit)
    else if Text.Utf8.isValid bytes then .ok bytes
    else .error (.notUtf8 name)

/-- The bytes of the program at a path. Opening a file gives its bytes to be read, or the reason why
it cannot be opened. -/
def load (l : Loader) (openFile : String → Except String Feed) (path : String) :
    Except LoadError (List UInt8) :=
  match l.resolve path with
  | .error e => .error e
  | .ok target =>
    match openFile target with
    | .error reason => .error (.unreadable path reason)
    | .ok feed => l.read feed path

end Loader

end IntScript
