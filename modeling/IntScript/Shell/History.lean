import IntScript.Shell.Line
import IntScript.Text.Utf8

/-!
# Histories

What was entered in interactive sessions, the oldest entry first. A history keeps its latest `limit`
entries. It is kept in a file with an entry a line, which is read up to the first line that is not
whole or not UTF-8.
-/

namespace IntScript

def History.limit : Nat := 1000

/-- The latest entries, the oldest of them first. -/
structure History where
  entries : List (List UInt8)
  within : entries.length ≤ History.limit

namespace History

def fileName : String := ".freestyle_history"

/-- The latest of the entries. -/
def ofEntries (entries : List (List UInt8)) : History :=
  ⟨entries.drop (entries.length - limit), by rw [List.length_drop]; omega⟩

def empty : History := ofEntries []

/-- Adds an entry, unless it is the same as the last one. -/
def add (h : History) (entry : List UInt8) : History :=
  if h.entries.getLast? = some entry then h else ofEntries (h.entries ++ [entry])

def ofBytes (bs : List UInt8) : History :=
  ofEntries (((Line.all bs).takeWhile fun line => line.whole && Text.Utf8.isValid line.bytes).map
    Line.bytes)

/-- The bytes of the file that keeps the history. -/
def bytes (h : History) : List UInt8 := h.entries.flatMap (· ++ [Line.feed])

end History

end IntScript
