import IntScript.Text.Utf8
import IntScript.Yaml.Problem

/-!
# Input

A text is given by its bytes, in UTF-8 or, after a byte order mark, in UTF-16. The bytes are read in
portions, each of them as soon as one of its characters is asked for, so that bytes which are no
characters only count if something in their portion or behind it is wanted.
-/

namespace IntScript.Yaml

/-- How bytes stand for characters. -/
inductive Encoding where
  | utf8
  | utf16 (bigEndian : Bool)
  deriving DecidableEq, Repr

def byteOrderMark : Char := '\uFEFF'

namespace Encoding

/-- The encoding that a text announces, and how many bytes the announcement takes. -/
def announced : List UInt8 → Encoding × Nat
  | a :: b :: rest =>
    if a = 0xFF ∧ b = 0xFE then (utf16 false, 2)
    else if a = 0xFE ∧ b = 0xFF then (utf16 true, 2)
    else if a = 0xEF ∧ b = 0xBB ∧ rest.head? = some 0xBF then (utf8, 3)
    else (utf8, 0)
  | _ => (utf8, 0)

/-- What bytes start with: a code point, too few bytes for one, or none. -/
inductive Front where
  | code (n : Nat) (rest : List UInt8)
  | short (p : Problem)
  | wrong (p : Problem)

def frontUtf8 (b : UInt8) (bs : List UInt8) : Front :=
  match Text.Utf8.lead? b.toNat with
  | none => .wrong .leadingByte
  | some l =>
    if (bs.take l.tails).length < l.tails then .short .incompleteUtf8
    else
      match Text.Utf8.tails? l.tails l.bits bs with
      | none => .wrong .trailingByte
      | some (n, rest) =>
        if n < l.least then .wrong .overlongUtf8
        else if n.isValidChar then .code n rest
        else .wrong .noCharacter

def unit (bigEndian : Bool) (a b : UInt8) : Nat :=
  if bigEndian then a.toNat * 256 + b.toNat else b.toNat * 256 + a.toNat

/-- Is the unit the second half of a pair? -/
def isLow (n : Nat) : Bool := 0xDC00 ≤ n && n < 0xE000

/-- Is the unit the first half of a pair? -/
def isHigh (n : Nat) : Bool := 0xD800 ≤ n && n < 0xDC00

def frontUtf16 (bigEndian : Bool) (a : UInt8) : List UInt8 → Front
  | [] => .short .incompleteUtf16
  | b :: bs =>
    let n := unit bigEndian a b
    if isLow n then .wrong .loneLowSurrogate
    else if isHigh n then
      match bs with
      | c :: d :: rest =>
        let m := unit bigEndian c d
        if isLow m then .code (0x10000 + (n - 0xD800) * 1024 + (m - 0xDC00)) rest
        else .wrong .noLowSurrogate
      | _ => .short .incompletePair
    else .code n bs

/-- The code point in front. -/
def front (e : Encoding) (b : UInt8) (bs : List UInt8) : Front :=
  match e with
  | utf8 => frontUtf8 b bs
  | utf16 bigEndian => frontUtf16 bigEndian b bs

end Encoding

/-- The code points that a text may hold. -/
def isAllowed (n : Nat) : Bool :=
  n = 0x09 || n = 0x0A || n = 0x0D || (0x20 ≤ n && n ≤ 0x7E) || n = 0x85 ||
    (0xA0 ≤ n && n ≤ 0xD7FF) || (0xE000 ≤ n && n ≤ 0xFFFD) || (0x10000 ≤ n && n ≤ 0x10FFFF)

/-- The characters of some bytes, the last one first, and the bytes at the end that are too few for a
character, with what is wrong if no more follow. Every character takes a byte, so as much fuel as
there are bytes is enough. -/
def characters (e : Encoding) :
    Nat → List Char → List UInt8 → Except Problem (List Char × List UInt8 × Problem)
  | 0, done, bs => .ok (done, bs, .incompleteUtf8)
  | _, done, [] => .ok (done, [], .incompleteUtf8)
  | fuel + 1, done, b :: bs =>
    match e.front b bs with
    | .short p => .ok (done, b :: bs, p)
    | .wrong p => .error p
    | .code n rest =>
      if isAllowed n then characters e fuel (Char.ofNat n :: done) rest
      else .error .controlCharacter

def portionSize : Nat := 512

/-- The characters of each portion, `left` being the bytes that were too few for a character before.
What comes after a portion that cannot be read does not matter. -/
def portions (e : Encoding) (room : Nat) (short : Problem) :
    Nat → List UInt8 → List UInt8 → List (Except Problem (List Char))
  | 0, _, _ => []
  | fuel + 1, left, bs =>
    if bs.isEmpty then if left.isEmpty then [] else [.error short]
    else
      let bytes := left ++ bs.take room
      match characters e bytes.length [] bytes with
      | .error p => [.error p]
      | .ok (cs, left, short) =>
        .ok cs.reverse :: portions e (portionSize - left.length) short fuel left (bs.drop room)

/-- A text to be read: the characters at hand, and the portions still to come. It is `marked` while
the characters at hand were last added to when a byte order mark stood in front. -/
structure Input where
  ready : List Char
  later : List (Except Problem (List Char))
  marked : Bool

namespace Input

def ofBytes (bs : List UInt8) : Input :=
  let (e, n) := Encoding.announced bs
  ⟨[], portions e (portionSize - n) .incompleteUtf8 (bs.length + 1) [] (bs.drop n), false⟩

def hasLength {α : Type} (n : Nat) (l : List α) : Bool := n = 0 || !(l.drop (n - 1)).isEmpty

/-- Adds portions until `n` characters are at hand or none are left to come. -/
def fill (n : Nat) (ready : List Char) : List (Except Problem (List Char)) → Except Problem Input
  | [] => .ok ⟨ready, [], ready.head? = some byteOrderMark⟩
  | .error p :: _ => .error p
  | .ok cs :: later =>
    let ready := ready ++ cs
    if hasLength n ready then .ok ⟨ready, later, ready.head? = some byteOrderMark⟩
    else fill n ready later

/-- The text with `n` characters at hand, or with all of them if it has fewer. -/
def need (n : Nat) (i : Input) : Except Problem Input :=
  if hasLength n i.ready then .ok i else fill n i.ready i.later

end Input

end IntScript.Yaml
