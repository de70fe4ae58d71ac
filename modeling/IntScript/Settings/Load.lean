import IntScript.Files.Feed
import IntScript.Settings.Read

/-!
# Settings files
-/

namespace IntScript

/-- Why the settings in a file cannot be used. -/
inductive SettingsFileError where
  | unreadable (path reason : String)
  | unusable (path : String) (e : SettingsError)

def SettingsFileError.message : SettingsFileError → String
  | .unreadable path reason => s!"config: read {path}: {reason}"
  | .unusable path e => s!"config: parse {path}: {e.message}"

/-- The settings in the file at a path, given what opening it gave. -/
def Settings.load (path : String) (opened : Except String Feed) :
    Except SettingsFileError Settings :=
  match opened with
  | .error reason => .error (.unreadable path reason)
  | .ok feed =>
    match feed.all with
    | .error reason => .error (.unreadable path reason)
    | .ok bytes => (Settings.read bytes).mapError (.unusable path)

end IntScript
