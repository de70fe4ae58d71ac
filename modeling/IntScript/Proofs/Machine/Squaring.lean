import IntScript.Proofs.Machine.Arithmetic

/-!
# Powers by repeated squaring

A power is taken in a loop over 64-bit words.  While the exponent is positive, its last bit tells
whether the square at hand goes into the product, the square is squared, and the exponent is shifted
to the right.  All three words wrap around or lose bits on the way.

Main statement: the loop ends after at most 63 rounds, and it leaves what multiplying by the base
that many times over would leave (`Arithmetic.power_by_squaring`).
-/

namespace IntScript.Arithmetic

/-! ## Halving a word -/

theorem toInt_shiftRight_one (e : Int64) : (e >>> 1).toInt = e.toInt / 2 := by
  have hone : ((1 : Int64).toBitVec.smod 64).toNat = 1 := by decide
  have hshift : (e >>> 1).toInt = e.toInt >>> (1 : Nat) := by
    rw [Int64.toInt, Int64.toBitVec_shiftRight, BitVec.toInt_sshiftRight', hone]
    rfl
  rw [hshift, Int.shiftRight_eq_div_pow]
  rfl

theorem and_one_eq_one_iff (e : Int64) : e &&& 1 = 1 ↔ e.toInt % 2 = 1 := by
  have hbits : e &&& 1 = 1 ↔ e.toBitVec.toNat % 2 = 1 := by
    rw [← Int64.toBitVec_inj, Int64.toBitVec_and, ← BitVec.toNat_inj, BitVec.toNat_and]
    exact Eq.congr_left (Nat.and_one_is_mod _)
  rw [hbits, Int64.toInt, BitVec.toInt_eq_toNat_cond]
  split <;> omega

/-! ## The loop -/

/-- The words that the loop works on. -/
structure Squaring where
  product : Int64
  square : Int64
  exponent : Int64
  deriving DecidableEq, Repr

namespace Squaring

def round (s : Squaring) : Squaring where
  product := if s.exponent &&& 1 = 1 then s.product * s.square else s.product
  square := s.square * s.square
  exponent := s.exponent >>> 1

/-- The loop goes through `n` rounds, ends, and leaves `v`. -/
inductive Leaves : Squaring → Nat → Int64 → Prop
  | done {s : Squaring} : ¬ 0 < s.exponent → Leaves s 0 s.product
  | again {s : Squaring} {n : Nat} {v : Int64} : 0 < s.exponent → Leaves s.round n v →
      Leaves s (n + 1) v

theorem powerOnto_round {s : Squaring} (h : 0 < s.exponent.toInt) :
    powerOnto s.product s.square s.exponent.toInt.toNat =
      powerOnto s.round.product s.round.square s.round.exponent.toInt.toNat := by
  have hpos : s.exponent.toInt.toNat ≠ 0 := by omega
  have hbit : s.exponent.toInt.toNat % 2 = 1 ↔ s.exponent &&& 1 = 1 := by
    rw [and_one_eq_one_iff]
    omega
  have hhalf : s.exponent.toInt.toNat / 2 = s.round.exponent.toInt.toNat := by
    rw [round, toInt_shiftRight_one]
    omega
  rw [powerOnto, if_neg hpos, hhalf]
  simp only [hbit, round]

theorem leaves_of_zero {s : Squaring} (h : s.exponent.toInt = 0) :
    s.Leaves 0 (powerOnto s.product s.square s.exponent.toInt.toNat) := by
  have hdone : ¬ 0 < s.exponent := by
    rw [Int64.lt_iff_toInt_lt, h]
    decide
  rw [h, Int.toNat_zero, powerOnto, if_pos rfl]
  exact .done hdone

/-- The loop ends, for each round takes one bit off the exponent. -/
theorem exists_leaves (bits : Nat) (s : Squaring) (hlower : 0 ≤ s.exponent.toInt)
    (hupper : s.exponent.toInt < 2 ^ bits) :
    ∃ n ≤ bits, s.Leaves n (powerOnto s.product s.square s.exponent.toInt.toNat) := by
  induction bits generalizing s with
  | zero => exact ⟨0, Nat.le_refl 0, leaves_of_zero (by omega)⟩
  | succ bits ih =>
      by_cases hpos : 0 < s.exponent.toInt
      · have hround : s.round.exponent.toInt = s.exponent.toInt / 2 := toInt_shiftRight_one _
        obtain ⟨n, hn, hleaves⟩ := ih s.round (by omega) (by omega)
        rw [powerOnto_round hpos]
        exact ⟨n + 1, Nat.succ_le_succ hn, .again (Int64.lt_iff_toInt_lt.mpr hpos) hleaves⟩
      · exact ⟨0, Nat.zero_le _, leaves_of_zero (by omega)⟩

end Squaring

/-! ## Multiplying over and over -/

theorem iterate_mul_ofInt (b : Int) (k : Nat) :
    (· * Int64.ofInt b)^[k] 1 = .ofInt (b ^ k) := by
  induction k with
  | zero =>
      rw [pow_zero]
      rfl
  | succ k ih => rw [Function.iterate_succ_apply', ih, ← Int64.ofInt_mul, pow_succ]

/-- The loop for a power ends, and leaves the residue of the power: the same as to multiply by the
base over and over. -/
theorem power_by_squaring (base exponent : Int64) (h : 0 ≤ exponent) :
    (∃ n ≤ 63, Squaring.Leaves ⟨1, base, exponent⟩ n (power base exponent.toInt.toNat)) ∧
      operate .pow base exponent = .ok (power base exponent.toInt.toNat) ∧
      power base exponent.toInt.toNat = (· * base)^[exponent.toInt.toNat] 1 ∧
      Represents (power base exponent.toInt.toNat).toInt (base.toInt ^ exponent.toInt.toNat) := by
  have hlower : 0 ≤ exponent.toInt := Int64.le_iff_toInt_le.mp h
  have hresidue (k : Nat) : power base k = .ofInt (base.toInt ^ k) := by
    have hpower := power_ofInt base.toInt k
    rwa [Int64.ofInt_toInt] at hpower
  refine ⟨?_, ?_, ?_, ?_⟩
  · exact Squaring.exists_leaves 63 ⟨1, base, exponent⟩ hlower (Int64.toInt_lt exponent)
  · rw [operate, if_neg (Int64.not_lt.mpr h)]
  · have hiterate := iterate_mul_ofInt base.toInt exponent.toInt.toNat
    rw [Int64.ofInt_toInt] at hiterate
    rw [hresidue, hiterate]
  · rw [hresidue]
    exact represents_ofInt _

/-- The greatest exponent has all 63 bits set, and from `3 ^ 64` on the squares have wrapped
around. -/
theorem power_by_squaring_greatest :
    0 ≤ Int64.maxValue ∧ power (-3) Int64.maxValue.toInt.toNat = 6148914691236517205 ∧
      ∃ n ≤ 63, Squaring.Leaves ⟨1, -3, Int64.maxValue⟩ n 6148914691236517205 := by
  have hlower : 0 ≤ Int64.maxValue := by decide
  have hpower : power (-3) Int64.maxValue.toInt.toNat = 6148914691236517205 := by
    decide +kernel
  obtain ⟨hleaves, -, -, -⟩ := power_by_squaring (-3) Int64.maxValue hlower
  rw [hpower] at hleaves
  exact ⟨hlower, hpower, hleaves⟩

end IntScript.Arithmetic
