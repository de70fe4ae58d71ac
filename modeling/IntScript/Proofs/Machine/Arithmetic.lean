import IntScript.Machine.Arithmetic
import Mathlib.Data.Int.ModEq

/-!
# Arithmetic and whole numbers

The operations wrap around, so of a whole number that is too large a residue modulo `2 ^ 64` is
left.  Sums, differences, products and powers of residues are the residues of the sums, differences,
products and powers, because taking the residue, `Int64.ofInt`, goes through them.  For powers this
is about squares that have wrapped around themselves (`Arithmetic.powerOnto_ofInt`).
-/

namespace IntScript.Arithmetic

/-! ## Residues -/

/-- In 64 bits, `w` stands for the whole number `x`. -/
structure Represents (w x : Int) : Prop where
  lower : -2 ^ 63 ≤ w
  upper : w < 2 ^ 63
  modEq : w ≡ x [ZMOD 2 ^ 64]

/-- A whole number is represented once: a range of length `2 ^ 64` has each residue once. -/
theorem Represents.unique {w w' x : Int} (h : Represents w x) (h' : Represents w' x) : w = w' := by
  have hlower := h.lower
  have hupper := h.upper
  have hlower' := h'.lower
  have hupper' := h'.upper
  have hmod : w % 2 ^ 64 = w' % 2 ^ 64 := h.modEq.trans h'.modEq.symm
  omega

theorem represents_ofInt (x : Int) : Represents (Int64.ofInt x).toInt x where
  lower := Int64.le_toInt _
  upper := Int64.toInt_lt _
  modEq := by
    rw [Int64.toInt_ofInt]
    exact Int.bmod_emod

/-! ## Powers -/

/-- Squaring and halving: where the exponent is odd, one factor goes to what has been gathered. -/
theorem mul_pow_halve (a b : Int) (k : Nat) :
    (if k % 2 = 1 then a * b else a) * (b * b) ^ (k / 2) = a * b ^ k := by
  have hsquare : (b * b) ^ (k / 2) = b ^ (2 * (k / 2)) := by rw [pow_mul, sq]
  rcases Nat.mod_two_eq_zero_or_one k with hk | hk
  · rw [if_neg (by omega), hsquare, show 2 * (k / 2) = k by omega]
  · rw [if_pos hk, hsquare, mul_assoc, ← pow_succ', show 2 * (k / 2) + 1 = k by omega]

/-- Repeated squaring in 64 bits gives the residue of the power, whatever wraps around on the
way. -/
theorem powerOnto_ofInt (a b : Int) (k : Nat) :
    powerOnto (.ofInt a) (.ofInt b) k = .ofInt (a * b ^ k) := by
  -- the loop halves the exponent, and its invariant is that what is left to do gives `a * b ^ k`
  induction k using Nat.strongRecOn generalizing a b with
  | ind k ih =>
      rw [powerOnto]
      split
      · next hk => rw [hk, pow_zero, mul_one]
      · next hk =>
          have hlt : k / 2 < k := Nat.div_lt_self (Nat.pos_of_ne_zero hk) (by decide)
          have hacc : (if k % 2 = 1 then Int64.ofInt a * .ofInt b else .ofInt a) =
              .ofInt (if k % 2 = 1 then a * b else a) := by
            rw [← Int64.ofInt_mul, apply_ite Int64.ofInt]
          rw [hacc, ← Int64.ofInt_mul, ih _ hlt, mul_pow_halve]

theorem power_ofInt (b : Int) (k : Nat) : power (.ofInt b) k = .ofInt (b ^ k) := by
  have h := powerOnto_ofInt 1 b k
  rwa [one_mul] at h

/-! ## Operations -/

/-- The operation a mark stands for, in whole numbers without bounds.  Quotients and remainders are
left out, for those of a residue say nothing about the number. -/
def unbounded (k : Kind) (x y : Int) : Int :=
  match k with
  | .add => x + y
  | .sub => x - y
  | .mul => x * y
  | .pow => x ^ y.toNat
  | _ => 0

theorem operate_ofInt {k : Kind} (hk : k ∈ [Kind.add, .sub, .mul]) (x y : Int) :
    operate k (.ofInt x) (.ofInt y) = .ok (.ofInt (unbounded k x y)) := by
  simp only [List.mem_cons, List.not_mem_nil, or_false] at hk
  rcases hk with rfl | rfl | rfl
  · exact congrArg Except.ok (Int64.ofInt_add x y).symm
  · exact congrArg Except.ok (Int64.ofInt_sub x y).symm
  · exact congrArg Except.ok (Int64.ofInt_mul x y).symm

/-- An exponent is taken as the number it is, so it has to fit. -/
theorem operate_pow_ofInt (x : Int) {y : Int} (hlower : 0 ≤ y) (hupper : y < 2 ^ 63) :
    operate .pow (.ofInt x) (.ofInt y) = .ok (.ofInt (unbounded .pow x y)) := by
  have hy : (Int64.ofInt y).toInt = y := Int64.toInt_ofInt_of_le (by omega) hupper
  have hsign : ¬ Int64.ofInt y < 0 := by
    rw [Int64.lt_iff_toInt_lt, hy]
    exact Int.not_lt.mpr hlower
  rw [operate, if_neg hsign, hy, power_ofInt, unbounded]

end IntScript.Arithmetic
