import IntScript.Text.Utf8

/-!
# Laws of UTF-8

Reading never looks across an ASCII byte (`decode_append_ascii`), so a text can be cut at its line
ends before or after it is read. The encoding of a text is read as that text (`decode_encode`), and
bytes that are all part of an encoding are the encoding of the text they are read as
(`encode_decode`). So the valid bytes are the encodings of texts (`isValid_iff_exists_encode`).
Texts in increasing order have encodings in increasing order (`bytes_lt_bytes`).
-/

namespace IntScript.Text.Utf8

/-! ### First bytes and following bytes -/

theorem lead?_one {d : Nat} (h : d < 128) : lead? d = some ⟨0, d, 0⟩ := by
  rw [lead?, if_pos (by omega)]

theorem lead?_two {d : Nat} (h : d < 32) : lead? (d + 0xC0) = some ⟨1, d, 0x80⟩ := by
  rw [lead?, if_neg (by omega), if_neg (by omega), if_pos (by omega), Nat.add_sub_cancel]

theorem lead?_three {d : Nat} (h : d < 16) : lead? (d + 0xE0) = some ⟨2, d, 0x800⟩ := by
  rw [lead?, if_neg (by omega), if_neg (by omega), if_neg (by omega), if_pos (by omega),
    Nat.add_sub_cancel]

theorem lead?_four {d : Nat} (h : d < 8) : lead? (d + 0xF0) = some ⟨3, d, 0x10000⟩ := by
  rw [lead?, if_neg (by omega), if_neg (by omega), if_neg (by omega), if_neg (by omega),
    if_pos (by omega), Nat.add_sub_cancel]

theorem tails?_cons {b : Nat} (h : b < 64) (n v : Nat) (bs : List UInt8) :
    tails? (n + 1) v (UInt8.ofNat (b + 0x80) :: bs) = tails? n (v * 64 + b) bs := by
  have hb : (UInt8.ofNat (b + 0x80)).toNat = b + 0x80 := by
    rw [UInt8.toNat_ofNat']
    omega
  simp only [tails?, hb]
  rw [if_pos (by omega), Nat.add_sub_cancel]

theorem tails?_append {n v w : Nat} {bs rest : List UInt8} (h : tails? n v bs = some (w, rest))
    (more : List UInt8) : tails? n v (bs ++ more) = some (w, rest ++ more) := by
  induction n generalizing v bs with
  | zero =>
    cases h
    rfl
  | succ n ih =>
    cases bs with
    | nil => cases h
    | cons b bs =>
      simp only [tails?, List.cons_append] at h ⊢
      split at h
      · rw [if_pos ‹_›]
        exact ih h
      · cases h

theorem tails?_append_ascii {n v : Nat} {bs : List UInt8} (h : tails? n v bs = none) {b : UInt8}
    (hb : b.toNat < 0x80) (more : List UInt8) : tails? n v (bs ++ b :: more) = none := by
  induction n generalizing v bs with
  | zero => cases h
  | succ n ih =>
    cases bs with
    | nil =>
      rw [List.nil_append, tails?, if_neg (by omega)]
    | cons a bs =>
      simp only [tails?, List.cons_append] at h ⊢
      split at h
      · rw [if_pos ‹_›]
        exact ih h
      · rw [if_neg ‹_›]

/-- What a first byte can be, with the bits it carries. -/
theorem lead?_cases {b : Nat} {l : Lead} (h : lead? b = some l) :
    (b < 128 ∧ l = ⟨0, b, 0⟩) ∨ (∃ d < 32, b = d + 0xC0 ∧ l = ⟨1, d, 0x80⟩) ∨
      (∃ d < 16, b = d + 0xE0 ∧ l = ⟨2, d, 0x800⟩) ∨ ∃ d < 8, b = d + 0xF0 ∧ l = ⟨3, d, 0x10000⟩ := by
  unfold lead? at h
  split at h
  · cases h
    exact .inl ⟨by omega, rfl⟩
  · split at h
    · cases h
    · split at h
      · cases h
        exact .inr (.inl ⟨b - 0xC0, by omega, by omega, rfl⟩)
      · split at h
        · cases h
          exact .inr (.inr (.inl ⟨b - 0xE0, by omega, by omega, rfl⟩))
        · split at h
          · cases h
            exact .inr (.inr (.inr ⟨b - 0xF0, by omega, by omega, rfl⟩))
          · cases h

theorem exists_of_tails? {n v w : Nat} {bs rest : List UInt8}
    (h : tails? (n + 1) v bs = some (w, rest)) :
    ∃ d more, d < 64 ∧ bs = UInt8.ofNat (d + 0x80) :: more ∧
      tails? n (v * 64 + d) more = some (w, rest) := by
  cases bs with
  | nil => cases h
  | cons b bs =>
    simp only [tails?] at h
    split at h
    · refine ⟨b.toNat - 0x80, bs, by omega, ?_, h⟩
      rw [Nat.sub_add_cancel (by omega), UInt8.ofNat_toNat]
    · cases h

/-! ### Characters -/

theorem next?_of_lead? {c : Char} {b n bits least v : Nat} {bs rest : List UInt8} (hb : b < 256)
    (hl : lead? b = some ⟨n, bits, least⟩) (ht : tails? n bits bs = some (v, rest))
    (hc : v = c.val.toNat) (hmin : least ≤ c.val.toNat) :
    next? (UInt8.ofNat b :: bs) = some (c, rest) := by
  have hb : (UInt8.ofNat b).toNat = b := by
    rw [UInt8.toNat_ofNat']
    omega
  have hv : c.val.toNat.isValidChar := c.valid
  have hof : Char.ofNat c.val.toNat = c := Char.ofNat_toNat c
  simp only [next?, hb, hl, ht]
  rw [hc, if_pos ⟨hmin, hv⟩, hof]

theorem next?_ascii {b : UInt8} (h : b.toNat < 0x80) (bs : List UInt8) :
    next? (b :: bs) = some (Char.ofNat b.toNat, bs) := by
  have hv : b.toNat.isValidChar := Or.inl (by omega)
  simp [next?, lead?, h, tails?, hv]

theorem next?_encode (c : Char) (bs : List UInt8) :
    next? (String.utf8EncodeChar c ++ bs) = some (c, bs) := by
  have hv : c.val.toNat.isValidChar := c.valid
  have hmax : c.val.toNat < 0x110000 := by
    rcases hv with h | h <;> omega
  simp only [String.utf8EncodeChar]
  split
  · exact next?_of_lead? (by omega) (lead?_one (by omega)) rfl rfl (Nat.zero_le _)
  · split
    · refine next?_of_lead? (by omega) (lead?_two (by omega)) (tails?_cons (by omega) ..) ?_ (by omega)
      omega
    · split
      · refine next?_of_lead? (by omega) (lead?_three (by omega))
          ((tails?_cons (by omega) ..).trans (tails?_cons (by omega) ..)) ?_ (by omega)
        omega
      · refine next?_of_lead? (by omega) (lead?_four (by omega))
          ((tails?_cons (by omega) ..).trans
            ((tails?_cons (by omega) ..).trans (tails?_cons (by omega) ..))) ?_ (by omega)
        omega

theorem exists_lead?_of_next? {b : UInt8} {bs rest : List UInt8} {c : Char}
    (h : next? (b :: bs) = some (c, rest)) :
    ∃ l, lead? b.toNat = some l ∧ tails? l.tails l.bits bs = some (c.val.toNat, rest) ∧
      l.least ≤ c.val.toNat := by
  simp only [next?] at h
  split at h
  · cases h
  · rename_i l hl
    split at h
    · cases h
    · rename_i v tail htails
      split at h
      · rename_i hv
        cases h
        have hval : (Char.ofNat v).val.toNat = v := by
          rw [Char.ofNat, dif_pos hv.2]
          rfl
        exact ⟨l, hl, hval.symm ▸ htails, hval.symm ▸ hv.1⟩
      · cases h

theorem eq_encode_of_next? {bs rest : List UInt8} {c : Char} (h : next? bs = some (c, rest)) :
    bs = String.utf8EncodeChar c ++ rest := by
  cases bs with
  | nil => cases h
  | cons b bs =>
    obtain ⟨l, hl, htails, hleast⟩ := exists_lead?_of_next? h
    have hb : UInt8.ofNat b.toNat = b := UInt8.ofNat_toNat
    rw [← hb]
    simp only [String.utf8EncodeChar]
    generalize c.val.toNat = v at htails hleast
    rcases lead?_cases hl with ⟨hd, rfl⟩ | ⟨d, hd, hbd, rfl⟩ | ⟨d, hd, hbd, rfl⟩ | ⟨d, hd, hbd, rfl⟩ <;>
      dsimp only at htails hleast
    · cases htails
      rw [if_pos (by omega)]
      rfl
    · obtain ⟨d₁, _, hd₁, rfl, hrest⟩ := exists_of_tails? htails
      cases hrest
      rw [if_neg (by omega), if_pos (by omega), hbd]
      congr 3 <;> omega
    · obtain ⟨d₁, _, hd₁, rfl, htails₁⟩ := exists_of_tails? htails
      obtain ⟨d₂, _, hd₂, rfl, hrest⟩ := exists_of_tails? htails₁
      cases hrest
      rw [if_neg (by omega), if_neg (by omega), if_pos (by omega), hbd]
      congr 4 <;> omega
    · obtain ⟨d₁, _, hd₁, rfl, htails₁⟩ := exists_of_tails? htails
      obtain ⟨d₂, _, hd₂, rfl, htails₂⟩ := exists_of_tails? htails₁
      obtain ⟨d₃, _, hd₃, rfl, hrest⟩ := exists_of_tails? htails₂
      cases hrest
      rw [if_neg (by omega), if_neg (by omega), if_neg (by omega), hbd]
      congr 5 <;> omega

/-- An ASCII byte does not change how the bytes before it start. -/
theorem next?_append_ascii (a : UInt8) (bs : List UInt8) {b : UInt8} (hb : b.toNat < 0x80)
    (more : List UInt8) :
    next? (a :: bs ++ b :: more) = (next? (a :: bs)).map fun p => (p.1, p.2 ++ b :: more) := by
  simp only [List.cons_append, next?]
  cases lead? a.toNat with
  | none => rfl
  | some l =>
    cases h : tails? l.tails l.bits bs with
    | none => simp only [h, tails?_append_ascii h hb, Option.map_none]
    | some p =>
      obtain ⟨v, rest⟩ := p
      simp only [h, tails?_append h]
      split
      · rfl
      · rfl

/-! ### Texts -/

theorem decode_of_next? {bs rest : List UInt8} {c : Char} (h : next? bs = some (c, rest)) :
    decode bs = c :: decode rest := by
  cases bs with
  | nil => cases h
  | cons b bs =>
    rw [decode]
    split
    · rename_i h'
      rw [h'] at h
      cases h
      rfl
    · rename_i h'
      rw [h'] at h
      cases h

theorem decode_ascii {b : UInt8} (h : b.toNat < 0x80) (bs : List UInt8) :
    decode (b :: bs) = Char.ofNat b.toNat :: decode bs :=
  decode_of_next? (next?_ascii h bs)

theorem decode_of_next?_none {b : UInt8} {bs : List UInt8} (h : next? (b :: bs) = none) :
    decode (b :: bs) = replacement :: decode bs := by
  rw [decode]
  split
  · rename_i h'
    rw [h'] at h
    cases h
  · rfl

/-- Reading never looks across an ASCII byte. -/
theorem decode_append_ascii (bs : List UInt8) {b : UInt8} (hb : b.toNat < 0x80)
    (more : List UInt8) : decode (bs ++ b :: more) = decode bs ++ decode (b :: more) := by
  fun_induction decode bs with
  | case1 => rfl
  | case2 a bs c rest h ih =>
    have happ := next?_append_ascii a bs hb more
    rw [h] at happ
    rw [List.cons_append] at happ ⊢
    rw [decode_of_next? happ, ih]
    rfl
  | case3 a bs h ih =>
    have happ := next?_append_ascii a bs hb more
    rw [h] at happ
    rw [List.cons_append] at happ ⊢
    rw [decode_of_next?_none happ, ih]
    rfl

theorem decode_encode (cs : List Char) : decode (encode cs) = cs := by
  induction cs with
  | nil => exact decode_nil
  | cons c cs ih =>
    rw [encode, List.flatMap_cons, decode_of_next? (next?_encode c _)]
    exact congrArg (c :: ·) ih

/-- Where every byte is part of an encoding, nothing is lost in reading. -/
theorem encode_decode {bs : List UInt8} (h : isValid bs = true) : encode (decode bs) = bs := by
  fun_induction isValid bs with
  | case1 => rw [decode_nil]; rfl
  | case2 b bs c rest hnext ih =>
    rw [decode_of_next? hnext, encode, List.flatMap_cons, eq_encode_of_next? hnext]
    exact congrArg _ (ih h)
  | case3 => cases h

theorem isValid_of_next? {bs rest : List UInt8} {c : Char} (h : next? bs = some (c, rest)) :
    isValid bs = isValid rest := by
  cases bs with
  | nil => cases h
  | cons b bs =>
    rw [isValid]
    split
    · rename_i h'
      rw [h'] at h
      cases h
      rfl
    · rename_i h'
      rw [h'] at h
      cases h

/-- Valid are the encodings of texts, and nothing else. -/
theorem isValid_iff_exists_encode {bs : List UInt8} : isValid bs = true ↔ ∃ cs, encode cs = bs := by
  constructor
  · intro h
    exact ⟨decode bs, encode_decode h⟩
  · rintro ⟨cs, rfl⟩
    induction cs with
    | nil => exact isValid_nil
    | cons c cs ih =>
      rw [encode, List.flatMap_cons, isValid_of_next? (next?_encode c _)]
      exact ih

/-! ### Order -/

theorem cons_ofNat_lt {a b : Nat} {xs ys : List UInt8} (hle : a ≤ b) (hb : b < 256)
    (htail : a = b → xs < ys) : UInt8.ofNat a :: xs < UInt8.ofNat b :: ys := by
  rw [List.cons_lt_cons_iff, UInt8.lt_iff_toNat_lt, UInt8.toNat_ofNat', UInt8.toNat_ofNat']
  rcases Nat.lt_or_eq_of_le hle with hlt | rfl
  · left
    omega
  · exact .inr ⟨rfl, htail rfl⟩

theorem encodeChar_append_lt {c d : Char} (h : c < d) (xs ys : List UInt8) :
    String.utf8EncodeChar c ++ xs < String.utf8EncodeChar d ++ ys := by
  have hcd : c.val.toNat < d.val.toNat := h
  have hmax : d.val.toNat < 0x110000 := by
    have hv : d.val.toNat.isValidChar := d.valid
    rcases hv with h | h <;> omega
  simp only [String.utf8EncodeChar]
  generalize c.val.toNat = x at hcd
  generalize d.val.toNat = y at hcd hmax
  clear h
  -- a longer encoding starts with a greater byte, and in encodings of the same length the bytes are
  -- the digits of the code points
  repeat' split
  all_goals refine cons_ofNat_lt (by omega) (by omega) fun h₁ => ?_
  all_goals try omega
  all_goals refine cons_ofNat_lt (by omega) (by omega) fun h₂ => ?_
  all_goals try omega
  all_goals refine cons_ofNat_lt (by omega) (by omega) fun h₃ => ?_
  all_goals try omega
  refine cons_ofNat_lt (by omega) (by omega) fun h₄ => ?_
  omega

theorem append_lt_append_left (l : List UInt8) {xs ys : List UInt8} (h : xs < ys) :
    l ++ xs < l ++ ys := by
  induction l with
  | nil => exact h
  | cons b l ih => exact List.cons_lt_cons_iff.mpr (.inr ⟨rfl, ih⟩)

theorem encode_lt_encode {cs ds : List Char} (h : cs < ds) : encode cs < encode ds := by
  induction cs generalizing ds with
  | nil =>
    cases ds with
    | nil => exact absurd h (List.not_lt_nil [])
    | cons d ds =>
      obtain ⟨b, bs, hd⟩ := List.exists_cons_of_ne_nil (String.utf8EncodeChar_ne_nil (c := d))
      simp [encode, hd]
  | cons c cs ih =>
    cases ds with
    | nil => exact absurd h (List.not_lt_nil _)
    | cons d ds =>
      simp only [encode, List.flatMap_cons]
      rcases List.cons_lt_cons_iff.mp h with hlt | ⟨rfl, hlt⟩
      · exact encodeChar_append_lt hlt _ _
      · exact append_lt_append_left _ (ih hlt)

/-- The order of strings is the order of their bytes. -/
theorem bytes_lt_bytes {s t : String} (h : s < t) : bytes s < bytes t :=
  encode_lt_encode (String.lt_iff.mp h)

end IntScript.Text.Utf8
