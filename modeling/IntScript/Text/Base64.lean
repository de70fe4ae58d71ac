/-!
# Base 64

Bytes written with 64 characters, four for every three bytes. The end is filled up with equals signs,
and line ends do not count.
-/

namespace IntScript.Text.Base64

/-- The six bits that a character stands for. -/
def digit? (c : Char) : Option Nat :=
  if 'A' ≤ c ∧ c ≤ 'Z' then some (c.toNat - 'A'.toNat)
  else if 'a' ≤ c ∧ c ≤ 'z' then some (c.toNat - 'a'.toNat + 26)
  else if '0' ≤ c ∧ c ≤ '9' then some (c.toNat - '0'.toNat + 52)
  else if c = '+' then some 62
  else if c = '/' then some 63
  else none

/-- The first `count` of the three bytes that four digits stand for. -/
def bytes (count a b c d : Nat) : List UInt8 :=
  let n := ((a * 64 + b) * 64 + c) * 64 + d
  [(n / 65536).toUInt8, (n / 256).toUInt8, n.toUInt8].take count

/-- The bytes that characters, line ends apart, stand for. -/
def ofChars? : List Char → Option (List UInt8)
  | [] => some []
  | [a, b, '=', '='] =>
    match digit? a, digit? b with
    | some a, some b => some (bytes 1 a b 0 0)
    | _, _ => none
  | [a, b, c, '='] =>
    match digit? a, digit? b, digit? c with
    | some a, some b, some c => some (bytes 2 a b c 0)
    | _, _, _ => none
  | a :: b :: c :: d :: rest =>
    match digit? a, digit? b, digit? c, digit? d with
    | some a, some b, some c, some d => (ofChars? rest).map (bytes 3 a b c d ++ ·)
    | _, _, _, _ => none
  | _ => none

def decode? (s : String) : Option (List UInt8) :=
  ofChars? (s.toList.filter fun c => c ≠ '\r' ∧ c ≠ '\n')

end IntScript.Text.Base64
