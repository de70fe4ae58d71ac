/-!
# Double precision

The numbers with a 53-bit significand, as exact values. A decimal is read as the nearest of them, a
tie going to the one with the even significand; one that is too large for the exponent is not read.
-/

namespace IntScript.Yaml

/-- A number of double precision: `significand · 2 ^ exponent`, an infinity, or no number at all. -/
inductive Double where
  | finite (significand exponent : Int)
  | infinite (negative : Bool)
  | nan
  deriving DecidableEq, Repr

namespace Double

/-- `num / den` to the nearest whole number, a half to the even neighbour. -/
def roundDiv (num den : Nat) : Nat :=
  let q := num / den
  let r := num % den
  if 2 * r < den then q
  else if den < 2 * r then q + 1
  else if q % 2 = 0 then q else q + 1

/-- `num / den · 2 ^ k` as a fraction. -/
def scale (num den : Nat) (k : Int) : Nat × Nat :=
  if 0 ≤ k then (num <<< k.toNat, den) else (num, den <<< (-k).toNat)

/-- The exponent of the greatest power of two that is not above `num / den`. -/
def log2 (num den : Nat) : Int :=
  let l : Int := num.log2 - den.log2
  let (n, d) := scale num den (-l)
  if d ≤ n then l else l - 1

/-- The nearest double to `num / den`. -/
def nearest (num den : Nat) : Nat × Int :=
  let k := log2 num den - 52
  let (n, d) := scale num den (-k)
  (roundDiv n d, k)

/-- The double nearest to `digits · 10 ^ power`, with a sign. -/
def ofDecimal? (negative : Bool) (digits : Nat) (power : Int) : Option Double :=
  let length : Int := digits.repr.length
  if digits = 0 ∨ power + length < -400 then some (.finite 0 0)
  else if 400 < power + length then none
  else
    let (num, den) :=
      if 0 ≤ power then (digits * Nat.pow 10 power.toNat, 1) else (digits, Nat.pow 10 (-power).toNat)
    let (m, k) := nearest num den
    if k ≤ 971 ∧ (k < 971 ∨ m < 1 <<< 53) then some (.finite (if negative then -m else m) k) else none

def ofInt (n : Int) : Double :=
  if n = 0 then .finite 0 0
  else
    let (m, k) := nearest n.natAbs 1
    .finite (if n < 0 then -m else m) k

def truncate (significand exponent : Int) : Int :=
  if 0 ≤ exponent then significand * (1 <<< exponent.toNat : Nat)
  else Int.tdiv significand (1 <<< (-exponent).toNat : Nat)

/-- The whole part as a 64-bit value, of a number that is at most `2 ^ 63`. What lies outside the
64-bit range all the same becomes its least value. -/
def toInt64? : Double → Option Int64
  | .nan | .infinite false => none
  | .infinite true => some Int64.minValue
  | .finite m e =>
    let n := truncate m e
    if Int64.maxValue.toInt + 1 < n then none
    else if Int64.minValue.toInt ≤ n ∧ n ≤ Int64.maxValue.toInt then some (Int64.ofInt n)
    else some Int64.minValue

end Double

end IntScript.Yaml
