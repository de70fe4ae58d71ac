/-!
# Lines

Bytes are read line by line. A line ends at a line feed, which does not belong to it, and neither
does a carriage return right before it. What follows the last line feed is a line too, unless it is
empty.

The reader holds `capacity` bytes at a time. Where there is no line feed among them they are given
out as a piece of a line, and what follows counts as a line of its own. A carriage return at the end
of a piece is kept for what follows, since a line feed may come after it.
-/

namespace IntScript

/-- A line without its end. It is not whole if it is a piece of a line too long to be held. -/
structure Line where
  bytes : List UInt8
  whole : Bool
  deriving DecidableEq, Repr

namespace Line

/-- The number of bytes the reader holds. -/
def capacity : Nat := 4096

/-- Ends a line. -/
def feed : UInt8 := '\n'.toUInt8

/-- Belongs to the end of a line when a line feed follows. -/
def carriageReturn : UInt8 := '\r'.toUInt8

/-- Without a carriage return at the end. -/
def chop (bs : List UInt8) : List UInt8 :=
  if bs.getLast? = some carriageReturn then bs.dropLast else bs

/-- The first line and the bytes after it. Without a line feed and with room for more bytes there is
none yet, unless the bytes have `ended`. -/
def next? (ended : Bool) (bs : List UInt8) : Option (Line × List UInt8) :=
  let held := bs.take capacity
  let run := held.takeWhile (· ≠ feed)
  if run.length < held.length then some (⟨chop run, true⟩, bs.drop (run.length + 1))
  else if run.length = capacity then some (⟨chop run, false⟩, bs.drop (chop run).length)
  else if ended ∧ bs ≠ [] then some (⟨bs, true⟩, [])
  else none

theorem length_le_chop (bs : List UInt8) : bs.length ≤ (chop bs).length + 1 := by
  unfold chop
  split
  · rw [List.length_dropLast]
    omega
  · omega

theorem length_lt_of_next? {ended : Bool} {bs rest : List UInt8} {line : Line}
    (h : next? ended bs = some (line, rest)) : rest.length < bs.length := by
  simp only [next?] at h
  split at h
  · rename_i hlt
    simp only [Option.some.injEq, Prod.mk.injEq] at h
    rw [List.length_take] at hlt
    simp only [← h.2, List.length_drop]
    omega
  · split at h
    · rename_i heq
      simp only [Option.some.injEq, Prod.mk.injEq] at h
      have hcap : capacity = 4096 := rfl
      have hrun := (List.takeWhile_sublist (· ≠ feed) (l := bs.take capacity)).length_le
      have hchop := length_le_chop ((bs.take capacity).takeWhile (· ≠ feed))
      rw [List.length_take] at hrun
      simp only [← h.2, List.length_drop]
      omega
    · split at h
      · rename_i hend
        simp only [Option.some.injEq, Prod.mk.injEq] at h
        simp only [← h.2, List.length_nil]
        exact List.length_pos_iff.2 hend.2
      · cases h

def all (bs : List UInt8) : List Line :=
  match _h : next? true bs with
  | none => []
  | some (line, rest) => line :: all rest
termination_by bs.length
decreasing_by exact length_lt_of_next? _h

end Line

end IntScript
