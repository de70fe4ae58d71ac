/-!
# Ranges of code points

A class of characters is given by a list of ranges in ascending order; membership stops at the first
range that starts above the code point.
-/

namespace IntScript.Text

/-- The code points from `first` to `last`, both included. -/
structure CodeRange where
  first : Nat
  last : Nat
  deriving DecidableEq, Repr

namespace CodeRange

/-- Does a range of the ascending list `ranges` hold the code point `n`? -/
def covers : List CodeRange → Nat → Bool
  | [], _ => false
  | r :: ranges, n => r.first ≤ n && (n ≤ r.last || covers ranges n)

theorem exists_of_covers {ranges : List CodeRange} {n : Nat} (h : covers ranges n = true) :
    ∃ r ∈ ranges, r.first ≤ n ∧ n ≤ r.last := by
  induction ranges with
  | nil => cases h
  | cons r ranges ih =>
    simp only [covers, Bool.and_eq_true, Bool.or_eq_true, decide_eq_true_eq] at h
    obtain ⟨hfirst, hlast | hrest⟩ := h
    · exact ⟨r, List.mem_cons_self, hfirst, hlast⟩
    · obtain ⟨s, hs, hn⟩ := ih hrest
      exact ⟨s, List.mem_cons_of_mem r hs, hn⟩

/-- Ranges that are not empty, do not touch, and ascend. -/
def Ascending (ranges : List CodeRange) : Prop :=
  (∀ r ∈ ranges, r.first ≤ r.last) ∧ ranges.Pairwise fun r s => r.last < s.first

/-- In an ascending list the early stop loses nothing. -/
theorem covers_eq_true_iff {ranges : List CodeRange} (h : Ascending ranges) (n : Nat) :
    covers ranges n = true ↔ ∃ r ∈ ranges, r.first ≤ n ∧ n ≤ r.last := by
  refine ⟨exists_of_covers, ?_⟩
  induction ranges with
  | nil => simp
  | cons r ranges ih =>
    obtain ⟨hle, hasc⟩ := h
    obtain ⟨hfirst, hrest⟩ := List.pairwise_cons.1 hasc
    have ih := ih ⟨fun s hs => hle s (List.mem_cons_of_mem _ hs), hrest⟩
    simp only [covers, Bool.and_eq_true, Bool.or_eq_true, decide_eq_true_eq, List.mem_cons]
    rintro ⟨s, rfl | hs, hsn⟩
    · exact ⟨hsn.1, .inl hsn.2⟩
    · have := hfirst s hs
      have := hle r List.mem_cons_self
      exact ⟨by omega, .inr (ih ⟨s, hs, hsn⟩)⟩

/-- No range of the one list has a code point in common with a range of the other. -/
def Disjoint (ranges ranges' : List CodeRange) : Prop :=
  ∀ r ∈ ranges, ∀ s ∈ ranges', r.last < s.first ∨ s.last < r.first

instance (ranges ranges' : List CodeRange) : Decidable (Disjoint ranges ranges') :=
  inferInstanceAs (Decidable (∀ r ∈ ranges, ∀ s ∈ ranges', r.last < s.first ∨ s.last < r.first))

theorem Disjoint.covers_eq_false {ranges ranges' : List CodeRange} (h : Disjoint ranges ranges')
    {n : Nat} (hn : covers ranges n = true) : covers ranges' n = false := by
  cases hn' : covers ranges' n with
  | false => rfl
  | true =>
    obtain ⟨r, hr, hrn⟩ := exists_of_covers hn
    obtain ⟨s, hs, hsn⟩ := exists_of_covers hn'
    have := h r hr s hs
    omega

end CodeRange

end IntScript.Text
