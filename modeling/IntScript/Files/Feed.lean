/-!
# Feeds

What an open file gives: bytes one after the other, and then an end or a failure.
-/

namespace IntScript

/-- Bytes to be read one after the other, and the reason why reading fails after them, if it does. -/
structure Feed where
  bytes : List UInt8
  failure? : Option String
  deriving DecidableEq, Repr

/-- Reads up to `n` bytes, none where `n` is not positive. Failure shows only to a reader that asks
for more bytes than there are. -/
def Feed.take (f : Feed) (n : Int64) : Except String (List UInt8) :=
  if (f.bytes.length : Int) < n.toInt then
    match f.failure? with
    | some reason => .error reason
    | none => .ok f.bytes
  else .ok (f.bytes.take n.toInt.toNat)

def Feed.all (f : Feed) : Except String (List UInt8) :=
  match f.failure? with
  | some reason => .error reason
  | none => .ok f.bytes

end IntScript
