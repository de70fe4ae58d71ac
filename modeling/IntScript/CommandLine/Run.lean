import IntScript.CommandLine.Request
import IntScript.Files.Volume
import IntScript.Settings.Load
import IntScript.Shell.Basic
import IntScript.Tree.Outline

/-!
# Running a command line

The whole program as a function: from the arguments, the files, the home directory and the input to
the exit code, what is written on both channels, and the files afterwards.
-/

namespace IntScript

/-- The exit code, the text for the output and the text for the error channel. -/
structure Outcome where
  code : UInt32
  output : String
  errors : String
  deriving DecidableEq, Repr

namespace CommandLine

/-- The line that tells how to call the program. -/
def usage : String :=
  s!"usage: {About.name} [-hVvta] [-c config] <source_file> | {About.name} [-v] [-c config] -i\n"

def lines (l : List String) : String := ((Sink.ofRoom? none).writeAll l).2.text

def help : String :=
  lines ["",
    "  -h          show this help",
    "  -V          print the version",
    "  -v          verbose logging",
    "  -t          print the token stream instead of running",
    "  -a          print the syntax tree instead of running",
    "  -i          interactive session",
    "  -c config   YAML configuration file"]

/-- An error as it is reported, in red where the settings ask for colours. -/
def report (s : Settings) (message : String) : String :=
  if s.color = "always" then s!"\x1b[31m{message}\x1b[0m\n" else s!"{message}\n"

/-- The outcome of something that writes a text and may fail after that. -/
def outcome (s : Settings) (text : String) (error? : Option String) : Outcome :=
  match error? with
  | none => ⟨0, text, ""⟩
  | some message => ⟨1, text, report s message⟩

def view (s : Settings) (bs : List UInt8) : View → Outcome
  | .tokens =>
    let tokens := Tokens.ofBytes bs s.reserved
    outcome s (lines (tokens.list.map Token.listing)) (tokens.error?.map ScanError.message)
  | .tree =>
    match parse bs s.reserved with
    | .error e => outcome s "" e.message
    | .ok root => outcome s (lines root.outline) none
  | .output =>
    let (result, session) := (Session.start s.reserved s.limits (.ofRoom? none)).run bs
    outcome s session.machine.sink.text
      (match result with
        | .ok () => none
        | .error e => some e.message)

/-- Shows the program in a file, given what opening the file gave. -/
def program (s : Settings) (v : View) (path : String) (opened : Except String Feed) : Outcome :=
  match Loader.load ⟨none, s.maxSourceBytes⟩ (fun _ => opened) path with
  | .error e => outcome s "" e.message
  | .ok bytes => view s bytes v

def shell (s : Settings) (history : History) : Shell := .start s.reserved s.limits history

/-- The outcome of a dialogue; errors in it have been reported and do not count at the end. -/
def dialogue (s : Settings) (history : History) (input : List UInt8) : Outcome × History :=
  let d := (shell s history).converse Shell.greeting [] ((Line.all input).map Line.bytes)
  (⟨0, d.text, String.join (d.errors.map fun e => report s e.message)⟩, d.shell.history)

def historyIn (v : Volume) (home : String) : History :=
  match v.find (Path.below home History.fileName) with
  | .ok (.file bytes) => .ofBytes bytes
  | _ => .empty

/-- Does what is left to do once the settings are known. -/
def act (s : Settings) (v : Volume) (home? : Option String) (input : List UInt8) :
    Job → Outcome × Volume
  | .usage => (⟨0, usage, ""⟩, v)
  | .program view path => (program s view path (v.openFile path), v)
  | .dialogue =>
    match home? with
    | none => ((dialogue s .empty input).1, v)
    | some home =>
      let (o, history) := dialogue s (historyIn v home) input
      (o, v.create (Path.below home History.fileName) history.bytes)

/-- The settings in a file, or the default ones. -/
def settings (path? : Option String) (openFile : String → Except String Feed) :
    Except SettingsFileError Settings :=
  match path? with
  | none => .ok .default
  | some path => Settings.load path (openFile path)

/-- The outcome of options that cannot be read. -/
def misuse (e : OptionError) : Outcome := ⟨0, usage, s!"{e.message}\n"⟩

def helped : Outcome := ⟨0, usage ++ help, ""⟩

def versioned : Outcome := ⟨0, s!"{About.name} {About.version}\n", ""⟩

/-- The outcome of settings that cannot be used. -/
def misset (e : SettingsFileError) : Outcome := outcome .default "" e.message

def run (args : List String) (v : Volume) (home? : Option String) (input : List UInt8) :
    Outcome × Volume :=
  match Arguments.read args with
  | .error e => (misuse e, v)
  | .ok a =>
    match Request.ofArguments a with
    | .help => (helped, v)
    | .version => (versioned, v)
    | .act path? job =>
      match settings path? v.openFile with
      | .error e => (misset e, v)
      | .ok s => act s v home? input job

end CommandLine

end IntScript
