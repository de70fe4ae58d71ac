/-!
# Decimal numerals

Whole numbers are written in decimal without leading zeros, and read from an optional sign and at
least one ASCII digit. A 64-bit value is read only where the number fits.
-/

namespace IntScript.Text.Decimal

def isDigit (c : Char) : Bool := '0' ≤ c && c ≤ '9'

/-- The number that a run of digits stands for. -/
def value (digits : List Char) : Nat := digits.foldl (fun n c => n * 10 + (c.toNat - 48)) 0

/-- Reads digits and nothing else. -/
def nat? (digits : List Char) : Option Nat :=
  if digits ≠ [] ∧ digits.all isDigit then some (value digits) else none

/-- Reads digits after an optional sign. -/
def int? : List Char → Option Int
  | '+' :: digits => (nat? digits).map Int.ofNat
  | '-' :: digits => (nat? digits).map fun n => -Int.ofNat n
  | digits => (nat? digits).map Int.ofNat

/-- The number as a 64-bit value, if it is in range. -/
def toInt64? (n : Int) : Option Int64 :=
  if Int64.minValue.toInt ≤ n ∧ n ≤ Int64.maxValue.toInt then some (Int64.ofInt n) else none

def int64? (s : String) : Option Int64 := (int? s.toList).bind toInt64?

def ofInt : Int → String
  | .ofNat n => n.repr
  | .negSucc n => "-" ++ (n + 1).repr

def ofInt64 (v : Int64) : String := ofInt v.toInt

end IntScript.Text.Decimal
