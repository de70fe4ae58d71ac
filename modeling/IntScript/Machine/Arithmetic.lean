import IntScript.Machine.Error

/-!
# Arithmetic

Values are 64-bit signed integers. Sums, differences, products and powers wrap around; quotients are
cut towards zero, and a remainder has the sign of the dividend. Dividing by zero and raising to a
negative power fail.
-/

namespace IntScript.Arithmetic

/-- Raises `base` to the power `exponent` by repeated squaring and multiplies the result onto
`acc`. -/
def powerOnto (acc base : Int64) (exponent : Nat) : Int64 :=
  if exponent = 0 then acc
  else powerOnto (if exponent % 2 = 1 then acc * base else acc) (base * base) (exponent / 2)
termination_by exponent

/-- The power of a 64-bit value, wrapping around. -/
def power (base : Int64) (exponent : Nat) : Int64 := powerOnto 1 base exponent

/-- The operation a mark stands for. -/
def operate (k : Kind) (l r : Int64) : Except Fault Int64 :=
  match k with
  | .add => .ok (l + r)
  | .sub => .ok (l - r)
  | .mod => if r = 0 then .error .divisionByZero else .ok (l % r)
  | .mul => .ok (l * r)
  | .div => if r = 0 then .error .divisionByZero else .ok (l / r)
  | .pow => if r < 0 then .error (.negativeExponent r) else .ok (power l r.toInt.toNat)
  | k => .error (.malformed (.operator k))

end IntScript.Arithmetic
