import IntScript.Text.Quoted
import Mathlib.Algebra.Group.Nat.Defs

/-!
# What stands between quotes

A text in double quotes can be told from what is behind it, and from every other text
(`Text.Quoted.string_append_inj`), and it keeps to one line (`Text.Quoted.newline_not_mem_string`).

Character by character: one that stands for itself is no quote and no backslash.  Every other one is
a backslash, a letter, and as many hexadecimal digits as the letter calls for (`Writes`), so that
nobody has to look further to see where it ends.
-/

namespace IntScript.Text.Quoted

/-! ## Hexadecimal digits -/

theorem length_hex (width n : Nat) : (hex width n).length = width := by
  induction width generalizing n with
  | zero => rfl
  | succ width ih => rw [hex, List.length_append, ih, List.length_singleton]

theorem digitChar_inj {a b : Nat} (ha : a < 16) (hb : b < 16)
    (h : Nat.digitChar a = Nat.digitChar b) : a = b := by
  have hall : ∀ a < 16, ∀ b < 16, Nat.digitChar a = Nat.digitChar b → a = b := by decide
  exact hall a ha b hb h

theorem hex_inj {width m n : Nat} (hm : m < 16 ^ width) (hn : n < 16 ^ width)
    (h : hex width m = hex width n) : m = n := by
  induction width generalizing m n with
  | zero => omega
  | succ width ih =>
      rw [hex, hex] at h
      obtain ⟨hfront, hlast⟩ := List.append_inj h (by rw [length_hex, length_hex])
      have hquotient : m / 16 = n / 16 := ih (by omega) (by omega) hfront
      have hremainder : m % 16 = n % 16 :=
        digitChar_inj (Nat.mod_lt _ (by decide)) (Nat.mod_lt _ (by decide))
          (List.singleton_inj.mp hlast)
      omega

theorem newline_not_mem_hex (width n : Nat) : '\n' ∉ hex width n := by
  induction width generalizing n with
  | zero => exact List.not_mem_nil
  | succ width ih =>
      rw [hex, List.mem_append, List.mem_singleton]
      rintro (h | h)
      · exact ih _ h
      · exact Nat.digitChar_ne '\n' (by decide) h.symm

/-! ## One character -/

/-- The number of digits behind the letter of an escape. -/
def width : Char → Nat
  | 'x' => 2
  | 'u' => 4
  | 'U' => 8
  | _ => 0

/-- The character of an escape without digits. -/
def meaning : Char → Char
  | 'a' => '\x07'
  | 'b' => '\x08'
  | 't' => '\t'
  | 'n' => '\n'
  | 'v' => '\x0B'
  | 'f' => '\x0C'
  | 'r' => '\r'
  | c => c

/-- How a character is written in double quotes. -/
inductive Writes (c : Char) : List Char → Prop
  | itself : c ≠ '"' → c ≠ '\\' → c ≠ '\n' → Writes c [c]
  | escaped {letter : Char} : letter ≠ '\n' → (width letter = 0 → c = meaning letter) →
      (width letter ≠ 0 → c.toNat < 16 ^ width letter) →
      Writes c ('\\' :: letter :: hex (width letter) c.toNat)

theorem writes_shortName {c letter : Char} (h : shortName? c = some letter) :
    Writes c ['\\', letter] := by
  have hletter : letter ≠ '\n' ∧ width letter = 0 ∧ c = meaning letter := by
    unfold shortName? at h
    split at h <;> cases h <;>
      exact ⟨by decide, by decide, Char.toNat_inj.mp (by assumption)⟩
  obtain ⟨hline, hwidth, hmeaning⟩ := hletter
  have hwrites := Writes.escaped hline (fun _ => hmeaning) (fun hne => absurd hwidth hne)
  rwa [hwidth, hex] at hwrites

theorem writes_code {c : Char} (letter : Char) (hletter : letter ≠ '\n')
    (hwidth : width letter ≠ 0) (h : c.toNat < 16 ^ width letter) :
    Writes c ('\\' :: letter :: hex (width letter) c.toNat) :=
  .escaped hletter (fun hzero => absurd hzero hwidth) fun _ => h

theorem writes_escape (c : Char) : Writes c (escape '"' c) := by
  unfold escape
  split
  · next h =>
      have hself : width c = 0 ∧ meaning c = c ∧ c ≠ '\n' := by
        rcases h with rfl | rfl <;> decide
      obtain ⟨hwidth, hmeaning, hline⟩ := hself
      have hwrites := Writes.escaped hline (fun _ => hmeaning.symm) fun hne => absurd hwidth hne
      rwa [hwidth, hex] at hwrites
  · next h =>
      rw [not_or] at h
      split
      · next hprintable =>
          refine .itself h.1 h.2 ?_
          rintro rfl
          cases hprintable
      · split
        · next hname => exact writes_shortName hname
        · split
          · next hsmall =>
              exact writes_code 'x' (by decide) (by decide) (by simp only [width]; omega)
          · split
            · next hsmall => exact writes_code 'u' (by decide) (by decide) hsmall
            · have hvalid : c.toNat.isValidChar := c.valid
              have hlarge : c.toNat < 16 ^ 8 := by
                rcases hvalid with hvalid | hvalid <;> omega
              exact writes_code 'U' (by decide) (by decide) hlarge

theorem Writes.exists_cons {c : Char} {l : List Char} (h : Writes c l) :
    ∃ d rest, l = d :: rest ∧ d ≠ '"' := by
  cases h with
  | itself hquote _ _ => exact ⟨c, [], rfl, hquote⟩
  | escaped _ _ _ => exact ⟨'\\', _, rfl, by decide⟩

theorem Writes.newline_not_mem {c : Char} {l : List Char} (h : Writes c l) : '\n' ∉ l := by
  cases h with
  | itself _ _ hline => exact fun hmem => hline (List.mem_singleton.mp hmem).symm
  | escaped hletter _ _ =>
      simp only [List.mem_cons, not_or]
      exact ⟨by decide, hletter.symm, newline_not_mem_hex _ _⟩

theorem Writes.append_inj {c d : Char} {l k x y : List Char} (hc : Writes c l) (hd : Writes d k)
    (h : l ++ x = k ++ y) : c = d ∧ x = y := by
  cases hc with
  | itself _ hslash _ =>
      cases hd with
      | itself _ _ _ =>
          rw [List.singleton_append, List.singleton_append, List.cons.injEq] at h
          exact h
      | escaped _ _ _ => exact absurd (List.cons.inj h).1 hslash
  | @escaped letter _ hmeaning hcode =>
      cases hd with
      | itself _ hslash _ => exact absurd (List.cons.inj h).1.symm hslash
      | @escaped letter' _ hmeaning' hcode' =>
          obtain ⟨-, h⟩ := List.cons.inj h
          obtain ⟨rfl, h⟩ := List.cons.inj h
          obtain ⟨hhex, hrest⟩ := List.append_inj h (by rw [length_hex, length_hex])
          refine ⟨?_, hrest⟩
          by_cases hwidth : width letter = 0
          · exact (hmeaning hwidth).trans (hmeaning' hwidth).symm
          · exact Char.toNat_inj.mp (hex_inj (hcode hwidth) (hcode' hwidth) hhex)

/-! ## Texts -/

theorem flatMap_escape_inj {cs ds x y : List Char}
    (h : cs.flatMap (escape '"') ++ '"' :: x = ds.flatMap (escape '"') ++ '"' :: y) :
    cs = ds ∧ x = y := by
  induction cs generalizing ds with
  | nil =>
      cases ds with
      | nil => exact ⟨rfl, (List.cons.inj h).2⟩
      | cons d ds =>
          obtain ⟨e, rest, hd, hquote⟩ := (writes_escape d).exists_cons
          rw [List.flatMap_cons, hd] at h
          exact absurd (List.cons.inj h).1.symm hquote
  | cons c cs ih =>
      cases ds with
      | nil =>
          obtain ⟨e, rest, hc, hquote⟩ := (writes_escape c).exists_cons
          rw [List.flatMap_cons, hc] at h
          exact absurd (List.cons.inj h).1 hquote
      | cons d ds =>
          rw [List.flatMap_cons, List.flatMap_cons, List.append_assoc, List.append_assoc] at h
          obtain ⟨rfl, htail⟩ := (writes_escape c).append_inj (writes_escape d) h
          obtain ⟨rfl, hrest⟩ := ih htail
          exact ⟨rfl, hrest⟩

/-- A quoted text can be told from what is behind it. -/
theorem string_append_inj {s t : String} {x y : List Char}
    (h : (string s).toList ++ x = (string t).toList ++ y) : s = t ∧ x = y := by
  rw [string, string, String.toList_ofList, String.toList_ofList] at h
  simp only [List.cons_append, List.append_assoc, List.nil_append] at h
  obtain ⟨hchars, hrest⟩ := flatMap_escape_inj (List.cons.inj h).2
  exact ⟨String.toList_inj.mp hchars, hrest⟩

theorem newline_not_mem_string (s : String) : '\n' ∉ (string s).toList := by
  rw [string, String.toList_ofList]
  intro h
  rcases List.mem_append.mp h with h | h
  · rcases List.mem_cons.mp h with h | h
    · cases h
    · obtain ⟨c, -, hc⟩ := List.mem_flatMap.mp h
      exact (writes_escape c).newline_not_mem hc
  · cases List.mem_singleton.mp h

end IntScript.Text.Quoted
