import IntScript.Files.Feed
import IntScript.Files.Path

/-!
# Volumes

A tree of files and directories with a working directory in it. Opening a path follows its parts one
by one: each has to exist, and whatever is followed by a slash has to be a directory. A path and the
names in it have a greatest size, and no name has a zero character.
-/

namespace IntScript

/-- A file with its bytes, or a directory. -/
inductive Entry where
  | file (bytes : List UInt8)
  | directory
  deriving DecidableEq, Repr

/-- Why an entry cannot be read. -/
inductive FileFault where
  | noEntry
  | notDirectory
  | isDirectory
  | invalidName
  | nameTooLong
  deriving DecidableEq, Repr

/-- A fault with the path that was asked for. -/
structure FileError where
  fault : FileFault
  path : String
  deriving DecidableEq, Repr

/-- The text of the error. A directory is found out on reading, the rest on opening. -/
def FileError.message (e : FileError) : String :=
  match e.fault with
  | .noEntry => s!"open {e.path}: no such file or directory"
  | .notDirectory => s!"open {e.path}: not a directory"
  | .isDirectory => s!"read {e.path}: is a directory"
  | .invalidName => s!"open {e.path}: invalid argument"
  | .nameTooLong => s!"open {e.path}: file name too long"

/-- Entries by the parts of their path from the root, and the parts of the working directory. The
directories on the way to an entry need no entry of their own. -/
structure Volume where
  cwd : List Part
  entries : List (List Part × Entry)

namespace Volume

/-- The volume with the working directory `cwd` and entries given by their paths from there. -/
def ofEntries (cwd : String) (entries : List (String × Entry)) : Volume :=
  let base := Path.cleanParts cwd.toList
  ⟨base, entries.map fun (path, e) => (base ++ Path.cleanParts path.toList, e)⟩

def at? (v : Volume) (parts : List Part) : Option Entry :=
  match v.entries.lookup parts with
  | some e => some e
  | none =>
    if parts.isPrefixOf v.cwd || v.entries.any fun (path, _) => parts.isPrefixOf path then
      some .directory
    else none

def maxNameSize : Nat := 255

def maxPathSize : Nat := 4095

def byteSize (text : List Char) : Nat := text.foldl (fun n c => n + c.utf8Size) 0

/-- Follows the parts of a path from a place, given with its last part first. -/
def walk (v : Volume) (place : List Part) : List Part → Except FileFault (List Part)
  | [] => .ok place
  | part :: rest =>
    if v.at? place.reverse = some .directory then
      if part = [] ∨ part = .here then v.walk place rest
      else if part = .up then v.walk place.tail rest
      else if maxNameSize < byteSize part then .error .nameTooLong
      else if (v.at? (part :: place).reverse).isSome then v.walk (part :: place) rest
      else .error .noEntry
    else .error .notDirectory

/-- The place from which a path is followed, with its last part first. -/
def start (v : Volume) (path : String) : List Part :=
  if Path.isAbsolute path.toList then [] else v.cwd.reverse

def find (v : Volume) (path : String) : Except FileFault Entry :=
  if path = "" then .error .noEntry
  else if '\x00' ∈ path.toList then .error .invalidName
  else if maxPathSize < byteSize path.toList then .error .nameTooLong
  else
    match v.walk (v.start path) (Path.split path.toList) with
    | .error fault => .error fault
    | .ok place =>
      match v.at? place.reverse with
      | some e => .ok e
      | none => .error .noEntry

/-- Opens the file at a path, or the directory, from which nothing can be read. -/
def openFile (v : Volume) (path : String) : Except String Feed :=
  match v.find path with
  | .error fault => .error (FileError.message ⟨fault, path⟩)
  | .ok (.file bytes) => .ok ⟨bytes, none⟩
  | .ok .directory => .ok ⟨[], some (FileError.message ⟨.isDirectory, path⟩)⟩

/-- Puts a file at a path, in place of one that is there. Nothing changes where a directory is at the
path, or where there is no directory for the file. -/
def create (v : Volume) (path : String) (bytes : List UInt8) : Volume :=
  let parts := Path.split path.toList
  match v.walk (v.start path) parts.dropLast, parts.getLast? with
  | .ok place, some name =>
    let target := (name :: place).reverse
    if name ∈ [[], Part.here, Part.up] ∨ v.at? place.reverse ≠ some .directory
        ∨ v.at? target = some .directory then v
    else { v with entries := (target, .file bytes) :: v.entries.filter (·.1 ≠ target) }
  | _, _ => v

end Volume

end IntScript
