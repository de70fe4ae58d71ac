import IntScript.Proofs.Machine.Scope
import Mathlib.Data.Rat.Floor

/-!
# Quotients and remainders

A quotient is cut towards zero, and a remainder has the sign of the dividend.  The least number by
`-1` is the one pair whose quotient does not fit in 64 bits; there the quotient wraps around to the
least number again.

| `l` | `r` | `l / r` | `l % r` |
| --: | --: | --: | --: |
| `7` | `2` | `3` | `1` |
| `-7` | `2` | `-3` | `-1` |
| `7` | `-2` | `-3` | `1` |
| `-7` | `-2` | `3` | `-1` |
| `-2 ^ 63` | `-1` | `-2 ^ 63` | `0` |

Main statement: so it is for all operands, the product and the remainder always give the dividend
back, and a division fails if an operand fails or the divisor is zero, and not otherwise
(`Action.evaluate_division`).
-/

namespace IntScript

namespace Arithmetic

/-! ## Cutting towards zero -/

/-- A rational number without its fraction. -/
def truncate (x : ℚ) : Int := if 0 ≤ x then ⌊x⌋ else ⌈x⌉

theorem truncate_neg (x : ℚ) : truncate (-x) = -truncate x := by
  unfold truncate
  rcases lt_trichotomy x 0 with hx | rfl | hx
  · rw [if_pos (by linarith), if_neg (not_le.mpr hx), Int.floor_neg]
  · simp
  · rw [if_neg (by linarith), if_pos hx.le, Int.ceil_neg]

theorem truncate_natCast_div (a b : Nat) : truncate (a / b) = (a : Int).tdiv b := by
  rw [truncate, if_pos (by positivity), Int.tdiv_eq_ediv_of_nonneg (Int.natCast_nonneg a)]
  exact Rat.floor_intCast_div_natCast a b

theorem truncate_div_natCast (a : Int) (b : Nat) : truncate (a / b) = a.tdiv b := by
  obtain ⟨m, rfl | rfl⟩ := a.eq_nat_or_neg
  · rw [Int.cast_natCast, truncate_natCast_div]
  · rw [Int.cast_neg, neg_div, truncate_neg, Int.cast_natCast, truncate_natCast_div, Int.neg_tdiv]

theorem truncate_div (a b : Int) : truncate (a / b) = a.tdiv b := by
  obtain ⟨n, rfl | rfl⟩ := b.eq_nat_or_neg
  · rw [Int.cast_natCast, truncate_div_natCast]
  · rw [Int.cast_neg, div_neg, truncate_neg, Int.cast_natCast, truncate_div_natCast, Int.tdiv_neg]

/-! ## Words -/

/-- In 64 bits, `l` divided by `r` is `q` and leaves `w`. -/
structure Division (l r q w : Int64) : Prop where
  restores : q * r + w = l
  lt : |w.toInt| < |r.toInt|
  sign : w = 0 ∨ w.toInt.sign = l.toInt.sign
  truncated : ¬ (l = Int64.minValue ∧ r = -1) → q.toInt = truncate (l.toInt / r.toInt)
  wrapped : l = Int64.minValue → r = -1 → q = Int64.minValue ∧ w = 0

theorem div_mul_add_mod (l r : Int64) : l / r * r + l % r = l := by
  have hdiv : l / r = .ofInt (l.toInt.tdiv r.toInt) := by
    rw [Int64.ofInt_tdiv (Int64.minValue_le_toInt l) (Int64.toInt_le l)
      (Int64.minValue_le_toInt r) (Int64.toInt_le r), Int64.ofInt_toInt, Int64.ofInt_toInt]
  have hmod : l % r = .ofInt (l.toInt.tmod r.toInt) := by
    rw [← Int64.toInt_mod, Int64.ofInt_toInt]
  calc l / r * r + l % r
      = .ofInt (l.toInt.tdiv r.toInt) * .ofInt r.toInt + .ofInt (l.toInt.tmod r.toInt) := by
        rw [hdiv, hmod, Int64.ofInt_toInt]
    _ = .ofInt (l.toInt.tdiv r.toInt * r.toInt + l.toInt.tmod r.toInt) := by
        rw [Int64.ofInt_add, Int64.ofInt_mul]
    _ = l := by rw [Int.tdiv_mul_add_tmod, Int64.ofInt_toInt]

theorem division_of_ne {l r : Int64} (h : r ≠ 0) : Division l r (l / r) (l % r) where
  restores := div_mul_add_mod l r
  lt := by
    have hr : r.toInt ≠ 0 := fun hr => h (Int64.toInt_inj.mp hr)
    rw [Int64.toInt_mod, Int.abs_eq_natAbs, Int.abs_eq_natAbs, Int.natAbs_tmod]
    exact_mod_cast Nat.mod_lt _ (Int.natAbs_pos.mpr hr)
  sign := by
    have hsign := Int.sign_tmod l.toInt r.toInt
    rw [← Int64.toInt_mod] at hsign
    split at hsign
    · exact .inl (Int64.toInt_inj.mp (Int.sign_eq_zero_iff_zero.mp hsign))
    · exact .inr hsign
  truncated := by
    intro hfits
    rw [truncate_div]
    by_cases hl : l = Int64.minValue
    · exact Int64.toInt_div_of_ne_right l r fun hr => hfits ⟨hl, hr⟩
    · exact Int64.toInt_div_of_ne_left l r hl
  wrapped := by
    rintro rfl rfl
    decide

theorem operate_divide {k : Kind} (hk : k = .div ∨ k = .mod) (l r : Int64) :
    operate k l r =
      if r = 0 then .error .divisionByZero else .ok (if k = .div then l / r else l % r) := by
  rcases hk with rfl | rfl <;> rfl

end Arithmetic

namespace Action

open Arithmetic (Division)

/-! ## Operands -/

def operands (invoke : Tree → Action Int64) (left right : Tree) : Action (Int64 × Int64) := do
  let l ← evaluate invoke left
  let r ← evaluate invoke right
  return (l, r)

section

variable {invoke : Tree → Action Int64} {left right : Tree} {m m' : Machine} (level : Level)
  {t : Token}

theorem evaluate_operands :
    evaluate invoke (.node level.form t [left, right]) = (do
      let p ← operands invoke left right
      operate t p.1 p.2) := by
  rw [evaluate_operation invoke level rfl rfl, operands]
  simp only [bind_assoc, pure_bind]
  rfl

theorem run_operation_of_error {e : RunError}
    (h : (operands invoke left right).run m = (.error e, m')) :
    (evaluate invoke (.node level.form t [left, right])).run m = (.error e, m') := by
  rw [evaluate_operands, run_bind_of_error h]

theorem run_operation_of_ok {l r : Int64}
    (h : (operands invoke left right).run m = (.ok (l, r), m')) :
    (evaluate invoke (.node level.form t [left, right])).run m = (operate t l r).run m' := by
  rw [evaluate_operands, run_bind_of_ok h]

theorem run_operate_zero (ht : t.kind = .div ∨ t.kind = .mod) (l : Int64) (m : Machine) :
    (operate t l 0).run m = (.error (.eval ⟨.divisionByZero, t.pos⟩), m) := by
  rw [operate, Arithmetic.operate_divide ht, if_pos rfl]
  rfl

theorem run_operate_of_ne (ht : t.kind = .div ∨ t.kind = .mod) (l : Int64) {r : Int64} (hr : r ≠ 0)
    (m : Machine) :
    (operate t l r).run m = (.ok (if t.kind = .div then l / r else l % r), m) := by
  rw [operate, Arithmetic.operate_divide ht, if_neg hr]
  rfl

/-- A division fails with its operands, or when the divisor turns out to be zero. -/
theorem run_divide_error_iff (ht : t.kind = .div ∨ t.kind = .mod) {e : RunError} :
    (evaluate invoke (.node level.form t [left, right])).run m = (.error e, m') ↔
      (operands invoke left right).run m = (.error e, m') ∨
        e = .eval ⟨.divisionByZero, t.pos⟩ ∧
          ∃ l, (operands invoke left right).run m = (.ok (l, 0), m') := by
  constructor
  · intro h
    rcases hrun : (operands invoke left right).run m with ⟨d | ⟨l, r⟩, k⟩
    · rw [run_operation_of_error level hrun] at h
      cases h
      exact .inl rfl
    · rw [run_operation_of_ok level hrun] at h
      by_cases hr : r = 0
      · subst hr
        rw [run_operate_zero ht] at h
        cases h
        exact .inr ⟨rfl, l, rfl⟩
      · rw [run_operate_of_ne ht l hr] at h
        cases h
  · rintro (hrun | ⟨rfl, l, hrun⟩)
    · exact run_operation_of_error level hrun
    · rw [run_operation_of_ok level hrun, run_operate_zero ht]

end

/-! ## Main statement -/

/-- The quotient and the remainder of any two values with a divisor that is not zero are there, and
they are what they should be.  A division fails where an operand fails, or else with both operands
evaluated because the divisor is zero. -/
theorem evaluate_division (invoke : Tree → Action Int64) (i j : Level) {d p : Token}
    (hd : d.kind = .div) (hp : p.kind = .mod) (left right : Tree) (m m' : Machine) :
    (∀ l r, (operands invoke left right).run m = (.ok (l, r), m') → r ≠ 0 →
      ∃ q w, (evaluate invoke (.node i.form d [left, right])).run m = (.ok q, m') ∧
        (evaluate invoke (.node j.form p [left, right])).run m = (.ok w, m') ∧
        Division l r q w) ∧
    (∀ e, (evaluate invoke (.node i.form d [left, right])).run m = (.error e, m') ↔
      (operands invoke left right).run m = (.error e, m') ∨
        e = .eval ⟨.divisionByZero, d.pos⟩ ∧
          ∃ l, (operands invoke left right).run m = (.ok (l, 0), m')) ∧
    (∀ e, (evaluate invoke (.node j.form p [left, right])).run m = (.error e, m') ↔
      (operands invoke left right).run m = (.error e, m') ∨
        e = .eval ⟨.divisionByZero, p.pos⟩ ∧
          ∃ l, (operands invoke left right).run m = (.ok (l, 0), m')) := by
  refine ⟨?_, ?_, ?_⟩
  · intro l r hrun hr
    refine ⟨l / r, l % r, ?_, ?_, Arithmetic.division_of_ne hr⟩
    · rw [run_operation_of_ok i hrun, run_operate_of_ne (.inl hd) l hr, if_pos hd]
    · rw [run_operation_of_ok j hrun, run_operate_of_ne (.inr hp) l hr, if_neg (by simp [hp])]
  · intro e
    exact run_divide_error_iff i (.inl hd)
  · intro e
    exact run_divide_error_iff j (.inr hp)

/-- The least number by `-1`, and by zero. -/
theorem evaluate_division_least :
    let mark (k : Kind) : Token := ⟨k, "", ⟨1, 3⟩⟩
    let name (s : String) : Tree := .leaf .name ⟨.symbol, s, ⟨1, 1⟩⟩
    let m : Machine := { Machine.ofSink (.ofRoom? none) with
      globals := .ofList [("least", Int64.minValue), ("minus", -1), ("zero", 0)] }
    let value (k : Kind) (divisor : String) :=
      (evaluate (callWithin ⟨256, true⟩ 0)
        (.node .product (mark k) [name "least", name divisor])).run m
    (mark .div).kind = .div ∧ (mark .mod).kind = .mod ∧
      value .div "minus" = (.ok Int64.minValue, m) ∧ value .mod "minus" = (.ok 0, m) ∧
      value .div "zero" = (.error (.eval ⟨.divisionByZero, ⟨1, 3⟩⟩), m) ∧
      value .mod "zero" = (.error (.eval ⟨.divisionByZero, ⟨1, 3⟩⟩), m) := by
  intro mark name m value
  have hoperands (s : String) (v : Int64) (hv : m.get? s = some v) :
      (operands (callWithin ⟨256, true⟩ 0) (name "least") (name s)).run m =
        (.ok (Int64.minValue, v), m) := by
    have hleast : m.get? "least" = some Int64.minValue := by decide +kernel
    rw [operands, evaluate_name _ rfl, evaluate_name _ rfl,
      run_bind_of_ok (run_lookup_of_some hleast), run_bind_of_ok (run_lookup_of_some hv)]
    rfl
  have hdivision (s : String) := evaluate_division (callWithin ⟨256, true⟩ 0) .product .product
    (d := mark .div) (p := mark .mod) rfl rfl (name "least") (name s) m m
  have hminus := hoperands "minus" (-1) (by decide +kernel)
  have hzero := hoperands "zero" 0 (by decide +kernel)
  obtain ⟨q, w, hq, hw, hqw⟩ := (hdivision "minus").1 _ _ hminus (by decide)
  obtain ⟨rfl, rfl⟩ := hqw.wrapped rfl rfl
  obtain ⟨-, hdiv, hmod⟩ := hdivision "zero"
  refine ⟨rfl, rfl, hq, hw, (hdiv _).mpr ?_, (hmod _).mpr ?_⟩
  · exact .inr ⟨rfl, _, hzero⟩
  · exact .inr ⟨rfl, _, hzero⟩

end Action

end IntScript
