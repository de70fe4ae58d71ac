import IntScript.CommandLine.Run

/-!
# The program

The command line on real files and channels. What is said and done is decided elsewhere: here files
are opened and read, lines are taken from the input, and texts are written.
-/

namespace IntScript.Main

/-- What opening a file gives that cannot be read. A directory can be opened. -/
def failed (path : String) : IO.Error → Except String Feed
  | .noFileOrDirectory .. => .error (FileError.message ⟨.noEntry, path⟩)
  | .inappropriateType _ code _ =>
    if code = 21 then .ok ⟨[], some (FileError.message ⟨.isDirectory, path⟩)⟩
    else .error (FileError.message ⟨.notDirectory, path⟩)
  | .permissionDenied .. => .error s!"open {path}: permission denied"
  | e => .error s!"open {path}: {toString e}"

/-- Opens a file. Its bytes are all read at once. -/
def openFile (path : String) : IO (Except String Feed) := do
  try
    let bytes ← IO.FS.readBinFile path
    return .ok ⟨bytes.toList, none⟩
  catch e => return failed path e

/-- Writes an outcome and gives its exit code. -/
def finish (o : Outcome) : IO UInt32 := do
  IO.print o.output
  IO.eprint o.errors
  return o.code

/-- The next line of the input, with the bytes read before it and those read beyond it. -/
partial def takeLine (input : IO.FS.Stream) (held : List UInt8) :
    IO (Option (List UInt8 × List UInt8)) := do
  match Line.next? false held with
  | some (line, rest) => return some (line.bytes, rest)
  | none =>
    let more ← input.read Line.capacity.toUSize
    if more.isEmpty then
      return (Line.next? true held).map fun (line, rest) => (line.bytes, rest)
    takeLine input (held ++ more.toList)

/-- Leads a dialogue, and gives the history at its end. -/
partial def converse (s : Settings) (input : IO.FS.Stream) (held : List UInt8) (sh : Shell) :
    IO History := do
  IO.print sh.prompt
  (← IO.getStdout).flush
  match ← takeLine input held with
  | none =>
    IO.println ""
    return sh.history
  | some (line, rest) =>
    let reply := sh.takeLine line
    IO.print reply.text
    if let some e := reply.error? then
      IO.eprint (CommandLine.report s e.message)
    if reply.ends then return reply.shell.history
    converse s input rest reply.shell

/-- Reads the history, leads a dialogue and keeps the history, where there is a home to keep it. -/
def dialogue (s : Settings) : IO UInt32 := do
  IO.print Shell.greeting
  let home? := (← IO.getEnv "HOME").filter (· ≠ "")
  let path? := home?.map fun home => Path.below home History.fileName
  let before ← match path? with
    | none => pure (.ok ⟨[], none⟩)
    | some path => openFile path
  let history := match before with
    | .ok feed => History.ofBytes feed.bytes
    | .error _ => .empty
  let history ← converse s (← IO.getStdin) [] (CommandLine.shell s history)
  if let some path := path? then
    try IO.FS.writeBinFile path ⟨history.bytes.toArray⟩
    catch _ => pure ()
  return 0

def act (s : Settings) : Job → IO UInt32
  | .usage => finish ⟨0, CommandLine.usage, ""⟩
  | .program view path => do finish (CommandLine.program s view path (← openFile path))
  | .dialogue => dialogue s

def settings (path? : Option String) : IO (Except SettingsFileError Settings) := do
  match path? with
  | none => return .ok .default
  | some path => return Settings.load path (← openFile path)

end IntScript.Main

open IntScript in
def main (args : List String) : IO UInt32 := do
  match Arguments.read args with
  | .error e => Main.finish (CommandLine.misuse e)
  | .ok a =>
    match Request.ofArguments a with
    | .help => Main.finish CommandLine.helped
    | .version => Main.finish CommandLine.versioned
    | .act path? job =>
      match ← Main.settings path? with
      | .error e => Main.finish (CommandLine.misset e)
      | .ok s => Main.act s job
