/-!
# Paths

A path is text with `/` between its parts. Cleaning works on the text alone and gives the shortest
path with the same meaning: empty parts and `.` are dropped, and `..` takes back the part before it,
or nothing at the root.
-/

namespace IntScript

abbrev Part := List Char

namespace Part

/-- The part that stays where it is. -/
def here : Part := ['.']

/-- The part that leads one level up. -/
def up : Part := ['.', '.']

end Part

namespace Path

/-- The parts between the slashes of a path, empty ones included. -/
def split : List Char → List Part
  | [] => [[]]
  | c :: cs =>
    if c = '/' then [] :: split cs
    else
      match split cs with
      | [] => [[c]]
      | part :: parts => (c :: part) :: parts

/-- Parts with slashes between them. -/
def join : List Part → List Char
  | [] => []
  | [part] => part
  | part :: parts => part ++ '/' :: join parts

def isAbsolute (path : List Char) : Bool := path.head? = some '/'

/-- Takes one more part onto the parts before it, the last of them first. -/
def climb (absolute : Bool) (parts : List Part) (part : Part) : List Part :=
  if part = [] ∨ part = .here then parts
  else if part = .up then
    match parts with
    | [] => if absolute then [] else [part]
    | last :: before => if last = .up then part :: parts else before
  else part :: parts

/-- The parts of the cleaned path. -/
def cleanParts (path : List Char) : List Part :=
  ((split path).foldl (climb (isAbsolute path)) []).reverse

/-- The cleaned path; nothing at all means `.`. -/
def cleanChars (path : List Char) : List Char :=
  if isAbsolute path then '/' :: join (cleanParts path)
  else
    match cleanParts path with
    | [] => Part.here
    | parts => join parts

/-- The shortest path with the same meaning. -/
def clean (path : String) : String := String.ofList (cleanChars path.toList)

/-- The cleaned path of `path` below `base`. An empty path is the base itself, and the other way
round. -/
def below (base path : String) : String :=
  if base = "" then (if path = "" then "" else clean path)
  else if path = "" then clean base
  else clean (base ++ "/" ++ path)

/-- The cleaned path from the root, `path` being taken from the directory `cwd`. -/
def absolute (cwd path : String) : String :=
  if isAbsolute path.toList then clean path else below cwd path

end Path

end IntScript
