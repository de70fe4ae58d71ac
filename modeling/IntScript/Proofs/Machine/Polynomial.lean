import IntScript.Proofs.Machine.Arithmetic
import IntScript.Proofs.Machine.Scope

/-!
# Overflow on the way

Every operation of an expression wraps around on its own, a power even within itself.  Main
statement: where only sums, differences, products and powers are taken, it is the same as to reckon
in whole numbers and to wrap around once, at the end (`Machine.evaluate_polynomial`).

Such expressions are the polynomials in the variables, with exponents that are written out.  In
`x ^ y` the exponent could itself have wrapped around, and would then be another number.
-/

namespace IntScript

open Arithmetic (Represents)

namespace Machine

/-! ## Polynomials -/

/-- The value of an expression in whole numbers without bounds. -/
def unbounded (m : Machine) : Tree → Int
  | .node .integer t _ => (Text.Decimal.int? t.literal.toList).getD 0
  | .node .name t _ => ((m.get? t.literal).getD 0).toInt
  | .node _ t [l, r] => Arithmetic.unbounded t.kind (m.unbounded l) (m.unbounded r)
  | _ => 0

/-- The expression is a polynomial in names that have a value, with integers that fit in 64 bits
and exponents that are integers.  How its operations are grouped does not matter.  An integer with
a sign is found only in trees made by hand; an exponent may not have a minus. -/
inductive IsPolynomial (m : Machine) : Tree → Prop
  | integer {t : Token} {cs : List Tree} {k : Int}
      (hk : Text.Decimal.int? t.literal.toList = some k) (hlower : -2 ^ 63 ≤ k)
      (hupper : k < 2 ^ 63) : IsPolynomial m (.node .integer t cs)
  | name {t : Token} {cs : List Tree} {v : Int64} (hv : m.get? t.literal = some v) :
      IsPolynomial m (.node .name t cs)
  | operation (level : Level) {t : Token} {l r : Tree} (ht : t.kind ∈ [Kind.add, .sub, .mul])
      (hl : IsPolynomial m l) (hr : IsPolynomial m r) :
      IsPolynomial m (.node level.form t [l, r])
  | power (level : Level) {t u : Token} {l : Tree} {cs : List Tree} {k : Int} (ht : t.kind = .pow)
      (hl : IsPolynomial m l) (hk : Text.Decimal.int? u.literal.toList = some k) (hlower : 0 ≤ k)
      (hupper : k < 2 ^ 63) : IsPolynomial m (.node level.form t [l, .node .integer u cs])

theorem unbounded_operation (m : Machine) (level : Level) (t : Token) (l r : Tree) :
    m.unbounded (.node level.form t [l, r]) =
      Arithmetic.unbounded t.kind (m.unbounded l) (m.unbounded r) := by
  cases level <;> rfl

theorem unbounded_integer (m : Machine) {t : Token} {k : Int} (cs : List Tree)
    (h : Text.Decimal.int? t.literal.toList = some k) : m.unbounded (.node .integer t cs) = k := by
  rw [unbounded, h, Option.getD_some]

end Machine

namespace Action

/-! ## Values and residues -/

theorem run_numeral_of_some {t : Token} {k : Int} (h : Text.Decimal.int? t.literal.toList = some k)
    (hlower : -2 ^ 63 ≤ k) (hupper : k < 2 ^ 63) (m : Machine) :
    (numeral t).run m = (.ok (.ofInt k), m) := by
  have hfits : Int64.minValue.toInt ≤ k ∧ k ≤ Int64.maxValue.toInt := by
    rw [Int64.toInt_minValue, Int64.toInt_maxValue]
    omega
  have hread : Text.Decimal.int64? t.literal = some (.ofInt k) := by
    rw [Text.Decimal.int64?, h, Option.bind_some, Text.Decimal.toInt64?, if_pos hfits]
  rw [numeral, hread]
  rfl

theorem run_operate_of_ok {t : Token} {l r v : Int64} (h : Arithmetic.operate t.kind l r = .ok v)
    (m : Machine) : (operate t l r).run m = (.ok v, m) := by
  rw [operate, h]
  rfl

theorem run_operation {m : Machine} {invoke : Tree → Action Int64} {level : Level} {t : Token}
    {l r : Tree} {v w z : Int64} (hl : (evaluate invoke l).run m = (.ok v, m))
    (hr : (evaluate invoke r).run m = (.ok w, m)) (h : Arithmetic.operate t.kind v w = .ok z) :
    (evaluate invoke (.node level.form t [l, r])).run m = (.ok z, m) := by
  rw [evaluate_operation invoke level rfl rfl, run_bind_of_ok hl, run_bind_of_ok hr]
  exact run_operate_of_ok h m

/-- The value of a polynomial is the residue of its value in whole numbers. -/
theorem run_polynomial {m : Machine} {n : Tree} (hn : m.IsPolynomial n)
    (invoke : Tree → Action Int64) :
    (evaluate invoke n).run m = (.ok (.ofInt (m.unbounded n)), m) := by
  induction hn with
  | @integer t cs k hk hlower hupper =>
      rw [evaluate_integer invoke rfl, m.unbounded_integer cs hk]
      exact run_numeral_of_some hk hlower hupper m
  | @name t cs v hv =>
      rw [evaluate_name invoke rfl, Machine.unbounded, hv, Option.getD_some, Int64.ofInt_toInt]
      exact run_lookup_of_some hv
  | @operation level t l r ht hl hr ihl ihr =>
      rw [m.unbounded_operation]
      exact run_operation ihl ihr (Arithmetic.operate_ofInt ht _ _)
  | @power level t u l cs k ht hl hk hlower hupper ihl =>
      have hr : (evaluate invoke (.node .integer u cs)).run m = (.ok (.ofInt k), m) := by
        rw [evaluate_integer invoke rfl]
        exact run_numeral_of_some hk (by omega) hupper m
      rw [m.unbounded_operation, m.unbounded_integer cs hk]
      refine run_operation ihl hr ?_
      rw [ht]
      exact Arithmetic.operate_pow_ofInt _ hlower hupper

end Action

namespace Machine

/-- A polynomial has a value on every machine, and changes nothing there.  The value is the one
64-bit number that is congruent modulo `2 ^ 64` to what the polynomial gives in whole numbers. -/
theorem evaluate_polynomial {m : Machine} {n : Tree} (hn : m.IsPolynomial n) (limits : Limits) :
    ∃ v : Int64, m.evaluate limits n = (.ok v, m) ∧ Represents v.toInt (m.unbounded n) ∧
      ∀ w, Represents w (m.unbounded n) → w = v.toInt := by
  have hv := Arithmetic.represents_ofInt (m.unbounded n)
  refine ⟨.ofInt (m.unbounded n), Action.run_polynomial hn _, hv, ?_⟩
  intro w hw
  exact hw.unique hv

/-- `x ^ 3 - x * 10 ^ 36 - 7` with `x` at `10 ^ 18`: both terms are far out of range, and their
difference is `-7`. -/
theorem evaluate_polynomial_far_out :
    let mark (k : Kind) (s : String) : Token := ⟨k, s, ⟨1, 1⟩⟩
    let integer (s : String) : Tree := .leaf .integer (mark .integer s)
    let x : Tree := .leaf .name (mark .symbol "x")
    let cube : Tree := .node .power (mark .pow "^") [x, integer "3"]
    let n : Tree := .node .sum (mark .sub "-")
      [.node .sum (mark .sub "-") [cube, .node .product (mark .mul "*")
        [x, .node .power (mark .pow "^") [integer "10", integer "36"]]], integer "7"]
    let m : Machine :=
      { ofSink (.ofRoom? none) with globals := .ofList [("x", 1000000000000000000)] }
    m.IsPolynomial n ∧ m.unbounded cube = 10 ^ 54 ∧ m.unbounded n = -7 ∧
      ∃ v : Int64, m.evaluate ⟨256, true⟩ n = (.ok v, m) ∧ Represents v.toInt (m.unbounded n) ∧
        ∀ w, Represents w (m.unbounded n) → w = v.toInt := by
  intro mark integer x cube n m
  have hinteger {s : String} {k : Int} (hk : Text.Decimal.int? s.toList = some k)
      (hlower : -2 ^ 63 ≤ k) (hupper : k < 2 ^ 63) : m.IsPolynomial (integer s) :=
    .integer hk hlower hupper
  have hx : m.IsPolynomial x := .name (v := 1000000000000000000) (by decide +kernel)
  have hcube : m.IsPolynomial cube :=
    .power .power (k := 3) rfl hx (by decide +kernel) (by decide) (by decide)
  have hterm : m.IsPolynomial (.node .power (mark .pow "^") [integer "10", integer "36"]) :=
    .power .power (k := 36) rfl (hinteger (k := 10) (by decide +kernel) (by decide) (by decide))
      (by decide +kernel) (by decide) (by decide)
  have hn : m.IsPolynomial n := by
    refine .operation .sum (by decide) (.operation .sum (by decide) hcube ?_) ?_
    · exact .operation .product (by decide) hx hterm
    · exact hinteger (k := 7) (by decide +kernel) (by decide) (by decide)
  exact ⟨hn, by decide +kernel, by decide +kernel, evaluate_polynomial hn ⟨256, true⟩⟩

end Machine

end IntScript
