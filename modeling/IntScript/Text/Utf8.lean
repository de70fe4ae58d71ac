/-!
# UTF-8

Bytes are read as characters leniently: a byte that starts no encoding stands for U+FFFD and the
reading goes on with the next byte. An encoding counts only in its shortest form and only for a
code point that is a character, so surrogates and values above U+10FFFF are no encodings.
-/

namespace IntScript.Text.Utf8

/-- Stands for a byte that belongs to no encoding. -/
def replacement : Char := '\uFFFD'

/-- What the first byte of an encoding promises: how many bytes follow, the bits it carries itself,
and the least code point that needs this length. -/
structure Lead where
  tails : Nat
  bits : Nat
  least : Nat
  deriving DecidableEq, Repr

def lead? (b : Nat) : Option Lead :=
  if b < 0x80 then some ⟨0, b, 0⟩
  else if b < 0xC0 then none
  else if b < 0xE0 then some ⟨1, b - 0xC0, 0x80⟩
  else if b < 0xF0 then some ⟨2, b - 0xE0, 0x800⟩
  else if b < 0xF8 then some ⟨3, b - 0xF0, 0x10000⟩
  else none

/-- Appends the six bits of each of `n` following bytes to the code point `v`. -/
def tails? : Nat → Nat → List UInt8 → Option (Nat × List UInt8)
  | 0, v, bs => some (v, bs)
  | _ + 1, _, [] => none
  | n + 1, v, b :: bs =>
    if 0x80 ≤ b.toNat ∧ b.toNat < 0xC0 then tails? n (v * 64 + (b.toNat - 0x80)) bs else none

/-- The character whose encoding the bytes start with, and the bytes after it. -/
def next? : List UInt8 → Option (Char × List UInt8)
  | [] => none
  | b :: bs =>
    match lead? b.toNat with
    | none => none
    | some l =>
      match tails? l.tails l.bits bs with
      | none => none
      | some (v, rest) => if l.least ≤ v ∧ v.isValidChar then some (Char.ofNat v, rest) else none

theorem length_le_of_tails? {n v w : Nat} {bs rest : List UInt8}
    (h : tails? n v bs = some (w, rest)) : rest.length ≤ bs.length := by
  induction n generalizing v bs with
  | zero =>
    simp only [tails?, Option.some.injEq, Prod.mk.injEq] at h
    simp [h.2]
  | succ n ih =>
    cases bs with
    | nil => simp [tails?] at h
    | cons b bs =>
      simp only [tails?] at h
      split at h
      · have := ih h
        simp only [List.length_cons]
        omega
      · cases h

theorem length_lt_of_next? {bs rest : List UInt8} {c : Char} (h : next? bs = some (c, rest)) :
    rest.length < bs.length := by
  cases bs with
  | nil => simp [next?] at h
  | cons b bs =>
    simp only [next?] at h
    split at h
    · cases h
    · split at h
      · cases h
      · rename_i hv
        split at h
        · simp only [Option.some.injEq, Prod.mk.injEq] at h
          have := length_le_of_tails? hv
          simp only [← h.2, List.length_cons]
          omega
        · cases h

/-- The characters of a byte string; each byte outside every encoding gives one `replacement`. -/
def decode : List UInt8 → List Char
  | [] => []
  | b :: bs =>
    match _h : next? (b :: bs) with
    | some (c, rest) => c :: decode rest
    | none => replacement :: decode bs
termination_by bs => bs.length
decreasing_by
  · exact length_lt_of_next? _h
  · simp

/-- Is every byte part of an encoding? -/
def isValid : List UInt8 → Bool
  | [] => true
  | b :: bs =>
    match _h : next? (b :: bs) with
    | some (_, rest) => isValid rest
    | none => false
termination_by bs => bs.length
decreasing_by exact length_lt_of_next? _h

def encode (cs : List Char) : List UInt8 := cs.flatMap String.utf8EncodeChar

/-- The text of a byte string, read leniently. -/
def text (bs : List UInt8) : String := String.ofList (decode bs)

def bytes (s : String) : List UInt8 := encode s.toList

@[simp] theorem decode_nil : decode [] = [] := by rw [decode]

@[simp] theorem isValid_nil : isValid [] = true := by rw [isValid]

end IntScript.Text.Utf8
