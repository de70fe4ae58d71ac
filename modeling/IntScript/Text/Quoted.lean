import IntScript.Text.Printable

/-!
# Quoted text

A text in double quotes and a character in single quotes, the way messages show them: printable
characters stand for themselves, the quote and the backslash are escaped by a backslash, and every
other character by its short name or by its code point in hexadecimal.

A text is made of characters.  So two hexadecimal digits, as in `\x1b`, always stand for a control
character, and never for a byte that encodes no character.
-/

namespace IntScript.Text.Quoted

/-- The last `width` hexadecimal digits of `n`, in lower case. -/
def hex : Nat → Nat → List Char
  | 0, _ => []
  | width + 1, n => hex width (n / 16) ++ [Nat.digitChar (n % 16)]

/-- The short escape of a control character that has one. -/
def shortName? (c : Char) : Option Char :=
  match c.toNat with
  | 0x07 => some 'a'
  | 0x08 => some 'b'
  | 0x09 => some 't'
  | 0x0A => some 'n'
  | 0x0B => some 'v'
  | 0x0C => some 'f'
  | 0x0D => some 'r'
  | _ => none

/-- One character between quotes of the shape `quote`. -/
def escape (quote c : Char) : List Char :=
  if c = quote ∨ c = '\\' then ['\\', c]
  else if isPrintable c then [c]
  else
    match shortName? c with
    | some name => ['\\', name]
    | none =>
      if c.toNat < 0x20 ∨ c.toNat = 0x7F then '\\' :: 'x' :: hex 2 c.toNat
      else if c.toNat < 0x10000 then '\\' :: 'u' :: hex 4 c.toNat
      else '\\' :: 'U' :: hex 8 c.toNat

/-- A text in double quotes.  It has characters only, so nothing is escaped byte by byte. -/
def string (s : String) : String :=
  String.ofList ('"' :: s.toList.flatMap (escape '"') ++ ['"'])

def char (c : Char) : String := String.ofList ('\'' :: escape '\'' c ++ ['\''])

end IntScript.Text.Quoted
