import IntScript.Text.Blank
import IntScript.Text.Letter
import IntScript.Text.Utf8
import IntScript.Token.Basic
import IntScript.Token.Keywords

/-!
# Scanning

A scanner cuts tokens off the front of a text. Blanks separate tokens and are dropped, except that a
line end is a token. A word is a longest run of letters, a number a longest run of digits, and a mark
a single character; any other character stops the scanner for good.

Main statement: a token that is not an end of text takes at least one character
(`Scanner.length_lt_of_next`), so scanning ends.
-/

namespace IntScript

/-- A character that starts no token. -/
structure ScanError where
  char : Char
  pos : Position
  deriving DecidableEq, Repr

def ScanError.message (e : ScanError) : String :=
  s!"{e.pos.long}, unexpected character {Text.Quoted.char e.char}"

/-- A text that is being scanned: what is left of it, where that starts, and the reserved words. -/
structure Scanner where
  rest : List Char
  pos : Position
  keywords : Keywords

namespace Scanner

/-- A scanner at the start of a text. -/
def ofChars (cs : List Char) (kw : Keywords) : Scanner := ⟨cs, .start, kw⟩

def ofBytes (bs : List UInt8) (kw : Keywords) : Scanner := ofChars (Text.Utf8.decode bs) kw

/-- The same reserved words at the start of another text. -/
def restart (s : Scanner) (bs : List UInt8) : Scanner := ofBytes bs s.keywords

/-- A blank that is not a line end. -/
def isGap (c : Char) : Bool := c != '\n' && Text.isBlank c

/-- Drops the blanks at the front, up to a line end. -/
def skipGap (s : Scanner) : Scanner :=
  { s with
    rest := s.rest.dropWhile isGap
    pos := s.pos.advance (s.rest.takeWhile isGap).length }

/-- Cuts off the longest run of characters of a class, as a token of the kind that `kind` gives it. -/
def cutRun (s : Scanner) (isMember : Char → Bool) (kind : String → Kind) : Token × Scanner :=
  let run := s.rest.takeWhile isMember
  let literal := String.ofList run
  (⟨kind literal, literal, s.pos⟩,
    { s with rest := s.rest.dropWhile isMember, pos := s.pos.advance run.length })

/-- The next token, or the character that is none. At the end of the text, and after an error, the
answer stays the same. -/
def next (s : Scanner) : Except ScanError Token × Scanner :=
  let s := s.skipGap
  match s.rest with
  | [] => (.ok ⟨.endOfText, "", s.pos⟩, s)
  | c :: cs =>
    if c = '\n' then
      (.ok ⟨.newline, "\n", s.pos⟩, { s with rest := cs, pos := s.pos.nextLine })
    else if Text.isLetter c then
      let (t, s) := s.cutRun Text.isLetter s.keywords.classify
      (.ok t, s)
    else if Text.Decimal.isDigit c then
      let (t, s) := s.cutRun Text.Decimal.isDigit fun _ => .integer
      (.ok t, s)
    else
      match Kind.ofMark? c with
      | some k => (.ok ⟨k, c.toString, s.pos⟩, { s with rest := cs, pos := s.pos.advance 1 })
      | none => (.error ⟨c, s.pos⟩, s)

theorem length_skipGap_le (s : Scanner) : s.skipGap.rest.length ≤ s.rest.length :=
  (List.dropWhile_sublist _).length_le

theorem length_dropWhile_cons_lt {p : Char → Bool} {c : Char} {cs : List Char} (h : p c = true) :
    ((c :: cs).dropWhile p).length < (c :: cs).length := by
  rw [List.dropWhile_cons_of_pos h, List.length_cons]
  exact Nat.lt_succ_of_le (List.dropWhile_sublist _).length_le

theorem length_next_le (s : Scanner) : s.next.2.rest.length ≤ s.rest.length := by
  refine Nat.le_trans ?_ (length_skipGap_le s)
  simp only [next]
  split
  · simp
  · rename_i c cs hrest
    split
    · simp [hrest]
    · split
      · simpa [cutRun, hrest] using Nat.le_of_lt (length_dropWhile_cons_lt ‹_›)
      · split
        · simpa [cutRun, hrest] using Nat.le_of_lt (length_dropWhile_cons_lt ‹_›)
        · split <;> simp [hrest]

/-- A token that is not an end of text takes at least one character. -/
theorem length_lt_of_next {s s' : Scanner} {t : Token} (h : s.next = (.ok t, s'))
    (ht : t.kind ≠ .endOfText) : s'.rest.length < s.rest.length := by
  refine Nat.lt_of_lt_of_le ?_ (length_skipGap_le s)
  simp only [next] at h
  split at h
  · simp only [Prod.mk.injEq, Except.ok.injEq] at h
    exact absurd (h.1 ▸ rfl) ht
  · rename_i c cs hrest
    rw [hrest]
    split at h
    · simp only [Prod.mk.injEq] at h
      simp [← h.2]
    · split at h
      · simp only [cutRun, hrest, Prod.mk.injEq] at h
        rw [← h.2]
        exact length_dropWhile_cons_lt ‹_›
      · split at h
        · simp only [cutRun, hrest, Prod.mk.injEq] at h
          rw [← h.2]
          exact length_dropWhile_cons_lt ‹_›
        · split at h
          · simp only [Prod.mk.injEq] at h
            simp [← h.2]
          · simp only [Prod.mk.injEq, reduceCtorEq, false_and] at h

end Scanner

/-- The tokens of a text: all of them up to and with the first end of text, or those before the
character that is none. -/
structure Tokens where
  list : List Token
  error? : Option ScanError
  deriving DecidableEq, Repr

namespace Scanner

/-- Scans on to the first end of text or the first error. -/
def drain (s : Scanner) : Tokens × Scanner :=
  match _h : s.next with
  | (.error e, s') => (⟨[], some e⟩, s')
  | (.ok t, s') =>
    if _ht : t.kind = .endOfText then (⟨[t], none⟩, s')
    else
      let (ts, last) := s'.drain
      ({ ts with list := t :: ts.list }, last)
termination_by s.rest.length
decreasing_by exact length_lt_of_next _h _ht

end Scanner

def Tokens.ofBytes (bs : List UInt8) (kw : Keywords) : Tokens := (Scanner.ofBytes bs kw).drain.1

end IntScript
