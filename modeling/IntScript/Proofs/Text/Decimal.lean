import IntScript.Text.Decimal

/-!
# Numerals and numbers

A numeral is read as the number that its digits stand for, and the text of a number is the numeral
without zeros in front (`Text.Decimal.repr_value`).  So reading and writing lose nothing but these
zeros.  A number is read back from its text (`Text.Decimal.int?_ofInt`), so different numbers have
different texts.
-/

namespace IntScript.Text.Decimal

/-! ## Digits -/

theorem isDigit_iff {c : Char} : isDigit c = true ↔ 48 ≤ c.toNat ∧ c.toNat ≤ 57 := by
  simp only [isDigit, Bool.and_eq_true, decide_eq_true_eq]
  rfl

theorem digitChar_of_isDigit {c : Char} (h : isDigit c = true) :
    Nat.digitChar (c.toNat - 48) = c := by
  have hrange := isDigit_iff.mp h
  refine Char.toNat_inj.mp ?_
  rw [Nat.toNat_digitChar_of_lt_ten (by omega)]
  omega

theorem isDigit_of_mem_repr {n : Nat} {c : Char} (h : c ∈ n.repr.toList) : isDigit c = true := by
  rw [Nat.repr_eq_ofList_toDigits, String.toList_ofList] at h
  have hdigit := Nat.isDigit_of_mem_toDigits (by decide) (by decide) h
  rw [Char.isDigit, Bool.and_eq_true, decide_eq_true_eq, decide_eq_true_eq] at hdigit
  exact isDigit_iff.mpr hdigit

/-! ## Reading -/

theorem value_eq_ofDigitChars (digits : List Char) :
    value digits = Nat.ofDigitChars 10 digits 0 := by
  rw [value, Nat.ofDigitChars_eq_foldl]
  simp only [Nat.mul_comm]
  rfl

theorem nat?_of_digits {digits : List Char} (hne : digits ≠ [])
    (h : ∀ c ∈ digits, isDigit c = true) : nat? digits = some (value digits) := by
  rw [nat?, if_pos ⟨hne, List.all_eq_true.mpr h⟩]

theorem int?_of_digits {digits : List Char} (h : ∀ c ∈ digits, isDigit c = true) :
    int? digits = (nat? digits).map Int.ofNat := by
  have hsign : ∀ c rest, isDigit c = false → digits ≠ c :: rest := by
    rintro c rest hc rfl
    cases hc.symm.trans (h c List.mem_cons_self)
  unfold int?
  split
  · exact absurd rfl (hsign _ _ (by decide))
  · exact absurd rfl (hsign _ _ (by decide))
  · rfl

/-! ## Writing -/

/-- A numeral without the zeros in front; where it is all zeros, one of them is left. -/
def significant (digits : List Char) : List Char :=
  match digits.dropWhile (· == '0') with
  | [] => ['0']
  | c :: rest => c :: rest

/-- Behind digits that stand for a positive number, every digit more is one in the text. -/
theorem toDigits_append {n : Nat} (hn : 0 < n) {digits : List Char}
    (h : ∀ c ∈ digits, isDigit c = true) :
    Nat.toDigits 10 n ++ digits = Nat.toDigits 10 (Nat.ofDigitChars 10 digits n) := by
  induction digits generalizing n with
  | nil => rw [List.append_nil, Nat.ofDigitChars_nil]
  | cons c digits ih =>
      have hc : isDigit c = true := h c List.mem_cons_self
      have hlt : c.toNat - 48 < 10 := by
        have hrange := isDigit_iff.mp hc
        omega
      have hone : Nat.toDigits 10 n ++ [c] = Nat.toDigits 10 (10 * n + (c.toNat - 48)) := by
        rw [← Nat.toDigits_append_toDigits (by decide) hn hlt, Nat.toDigits_of_lt_base hlt,
          digitChar_of_isDigit hc]
      have hrest := ih (n := 10 * n + (c.toNat - 48)) (by omega)
        fun d hd => h d (List.mem_cons_of_mem c hd)
      calc Nat.toDigits 10 n ++ c :: digits
          = (Nat.toDigits 10 n ++ [c]) ++ digits := by rw [List.append_assoc, List.singleton_append]
        _ = Nat.toDigits 10 (Nat.ofDigitChars 10 digits (10 * n + (c.toNat - 48))) := by
            rw [hone, hrest]
        _ = Nat.toDigits 10 (Nat.ofDigitChars 10 (c :: digits) n) := by
            rw [Nat.ofDigitChars_cons]
            rfl

/-- What is read and written again has lost its zeros in front. -/
theorem repr_value {digits : List Char} (h : ∀ c ∈ digits, isDigit c = true) :
    (value digits).repr.toList = significant digits := by
  rw [value_eq_ofDigitChars, Nat.repr_eq_ofList_toDigits, String.toList_ofList]
  induction digits with
  | nil => rfl
  | cons c digits ih =>
      have hdigits : ∀ d ∈ digits, isDigit d = true := fun d hd => h d (List.mem_cons_of_mem c hd)
      rw [Nat.ofDigitChars_cons, significant]
      by_cases hc : c = '0'
      · subst hc
        rw [List.dropWhile_cons_of_pos rfl]
        exact ih hdigits
      · have hdigit : isDigit c = true := h c List.mem_cons_self
        have hrange := isDigit_iff.mp hdigit
        have hpos : 0 < c.toNat - 48 := by
          have hne : c.toNat ≠ 48 := fun heq => hc (Char.toNat_inj.mp heq)
          omega
        have happend := toDigits_append hpos hdigits
        rw [Nat.toDigits_of_lt_base (by omega), digitChar_of_isDigit hdigit] at happend
        rw [List.dropWhile_cons_of_neg (by simpa using hc), Nat.mul_zero, Nat.zero_add]
        exact happend.symm

/-! ## Texts of numbers -/

theorem nat?_repr (n : Nat) : nat? n.repr.toList = some n := by
  have hne : n.repr.toList ≠ [] := by
    rw [Nat.repr_eq_ofList_toDigits, String.toList_ofList]
    exact Nat.toDigits_ne_nil
  rw [nat?_of_digits hne fun _ hc => isDigit_of_mem_repr hc, value_eq_ofDigitChars,
    Nat.repr_eq_ofList_toDigits, String.toList_ofList, Nat.ofDigitChars_ten_toDigits]

theorem int?_ofInt (n : Int) : int? (ofInt n).toList = some n := by
  cases n with
  | ofNat n =>
      rw [ofInt, int?_of_digits fun _ hc => isDigit_of_mem_repr hc, nat?_repr]
      rfl
  | negSucc n =>
      rw [ofInt, String.toList_append]
      exact congrArg (Option.map fun k => -Int.ofNat k) (nat?_repr (n + 1))

theorem ofInt_injective : Function.Injective ofInt := by
  intro m n h
  have hread := congrArg (fun s : String => int? s.toList) h
  simpa only [int?_ofInt, Option.some.injEq] using hread

theorem not_mem_ofInt {c : Char} (hminus : c ≠ '-') (hdigit : isDigit c = false) (n : Int) :
    c ∉ (ofInt n).toList := by
  have hrepr {n : Nat} : c ∉ n.repr.toList := by
    intro h
    cases hdigit.symm.trans (isDigit_of_mem_repr h)
  cases n with
  | ofNat n => exact hrepr
  | negSucc n =>
      rw [ofInt, String.toList_append, List.mem_append]
      rintro (h | h)
      · exact hminus (List.mem_singleton.mp h)
      · exact hrepr h

end IntScript.Text.Decimal
