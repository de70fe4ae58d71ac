import IntScript.Parse.Error
import IntScript.Token.Source

/-!
# Readers

A reader takes something off the front of a token source, or fails. It progresses if whatever it
reads makes the source smaller, and it is steady if it never makes the source larger. A reader that
progresses as long as it finds something can be repeated (`many`); that is the only loop of the
grammar, apart from looking past line ends.
-/

namespace IntScript

/-- Reads an `α` from a source of tokens. -/
abbrev Reader (σ α : Type) := StateT σ (Except ParseError) α

namespace Reader

theorem bind_eq_ok {σ α β : Type} {r : Reader σ α} {f : α → Reader σ β} {s s' : σ} {b : β}
    (h : (r >>= f) s = .ok (b, s')) : ∃ a s₁, r s = .ok (a, s₁) ∧ f a s₁ = .ok (b, s') := by
  simp only [bind, StateT.bind, Except.bind] at h
  split at h
  · cases h
  · rename_i p hp
    exact ⟨p.1, p.2, hp, h⟩

theorem pure_eq_ok {σ α : Type} {a b : α} {s s' : σ}
    (h : (pure a : Reader σ α) s = .ok (b, s')) : a = b ∧ s = s' := by
  cases h
  exact ⟨rfl, rfl⟩

variable {σ α β : Type} [TokenSource σ]

open TokenSource (size span)

/-- Reading leaves no more than there was. -/
def Steady (r : Reader σ α) : Prop := ∀ s a s', r s = .ok (a, s') → size s' ≤ size s

/-- Reading leaves less than there was. -/
def Progresses (r : Reader σ α) : Prop := ∀ s a s', r s = .ok (a, s') → size s' < size s

/-- Finding something leaves less than there was; finding nothing, no more. -/
def Advances (r : Reader σ (Option α)) : Prop :=
  ∀ s a s', r s = .ok (a, s') → size s' ≤ size s ∧ (a.isSome → size s' < size s)

theorem Progresses.steady {r : Reader σ α} (h : Progresses r) : Steady r :=
  fun s a s' hr => Nat.le_of_lt (h s a s' hr)

theorem Advances.steady {r : Reader σ (Option α)} (h : Advances r) : Steady r :=
  fun s a s' hr => (h s a s' hr).1

theorem steady_pure (a : α) : Steady (pure a : Reader σ α) := by
  intro s b s' h
  replace h := pure_eq_ok h
  exact Nat.le_of_eq (by rw [h.2])

theorem Steady.bind {r : Reader σ α} {f : α → Reader σ β} (hr : Steady r) (hf : ∀ a, Steady (f a)) :
    Steady (r >>= f) := by
  intro s b s' h
  obtain ⟨a, s₁, h₁, h₂⟩ := bind_eq_ok h
  exact Nat.le_trans (hf a _ _ _ h₂) (hr _ _ _ h₁)

theorem Progresses.bind {r : Reader σ α} {f : α → Reader σ β} (hr : Progresses r)
    (hf : ∀ a, Steady (f a)) : Progresses (r >>= f) := by
  intro s b s' h
  obtain ⟨a, s₁, h₁, h₂⟩ := bind_eq_ok h
  exact Nat.lt_of_le_of_lt (hf a _ _ _ h₂) (hr _ _ _ h₁)

theorem Steady.bind_progresses {r : Reader σ α} {f : α → Reader σ β} (hr : Steady r)
    (hf : ∀ a, Progresses (f a)) : Progresses (r >>= f) := by
  intro s b s' h
  obtain ⟨a, s₁, h₁, h₂⟩ := bind_eq_ok h
  exact Nat.lt_of_lt_of_le (hf a _ _ _ h₂) (hr _ _ _ h₁)

/-- Fails because of a token. -/
def refuse (expected : Expected) (found : Token) : Reader σ α := throw (.misfit ⟨expected, found⟩)

/-- The token `i` places ahead, which stays where it is. -/
def peek (i : Nat) : Reader σ Token := fun s =>
  match TokenSource.peek s i with
  | (.ok t, s') => .ok (t, s')
  | (.error e, _) => .error (.scan e)

def drop (n : Nat) : Reader σ Unit := fun s => .ok ((), TokenSource.drop s n)

/-- The next token, which is dropped. -/
def next : Reader σ Token := do
  let t ← peek 0
  drop 1
  return t

/-- The next token, which has to be of a given kind. -/
def expect (kind : Kind) (expected : Expected) : Reader σ Token := do
  let t ← next
  if t.kind = kind then return t else refuse expected t

theorem peek_eq_ok {i : Nat} {s s' : σ} {t : Token} (h : (peek i : Reader σ Token) s = .ok (t, s')) :
    TokenSource.peek s i = (.ok t, s') := by
  simp only [peek] at h
  split at h
  · rename_i hp
    simp only [Except.ok.injEq, Prod.mk.injEq] at h
    rw [hp, h.1, h.2]
  · cases h

theorem steady_peek (i : Nat) : Steady (peek i : Reader σ Token) := by
  intro s t s' h
  have := TokenSource.size_peek_le s i
  rwa [peek_eq_ok h] at this

theorem steady_drop (n : Nat) : Steady (drop n : Reader σ Unit) := by
  intro s t s' h
  simp only [drop, Except.ok.injEq, Prod.mk.injEq] at h
  rw [← h.2]
  exact TokenSource.size_drop_le s n

theorem steady_next : Steady (next : Reader σ Token) :=
  (steady_peek 0).bind fun _ => (steady_drop 1).bind fun _ => steady_pure _

/-- A token that is looked at and then dropped makes the source smaller, unless it is an end of
text. -/
theorem size_lt_of_peek_drop {s s' : σ} {t : Token} (h : (peek 0 : Reader σ Token) s = .ok (t, s'))
    (ht : t.kind ≠ .endOfText) : size (TokenSource.drop s' 1) < size s :=
  TokenSource.size_drop_lt (peek_eq_ok h) ht

theorem size_lt_of_next {s s' : σ} {t : Token} (h : (next : Reader σ Token) s = .ok (t, s'))
    (ht : t.kind ≠ .endOfText) : size s' < size s := by
  obtain ⟨t₁, s₁, h₁, h₂⟩ := bind_eq_ok h
  obtain ⟨_, s₂, h₃, h₄⟩ := bind_eq_ok h₂
  replace h₄ := pure_eq_ok h₄
  simp only [drop, Except.ok.injEq, Prod.mk.injEq] at h₃
  rw [← h₄.2, ← h₃.2]
  exact size_lt_of_peek_drop h₁ (h₄.1 ▸ ht)

theorem progresses_expect {kind : Kind} (hk : kind ≠ .endOfText) (expected : Expected) :
    Progresses (expect kind expected : Reader σ Token) := by
  intro s t s' h
  obtain ⟨t₁, s₁, h₁, h₂⟩ := bind_eq_ok h
  split at h₂
  · rename_i hkind
    replace h₂ := pure_eq_ok h₂
    rw [← h₂.2]
    exact size_lt_of_next h₁ (hkind ▸ hk)
  · cases h₂

/-- Repeats a reader until it finds nothing. -/
def many (r : Reader σ (Option α)) (hr : Advances r) : Reader σ (List α) := fun s =>
  match _h : r s with
  | .error e => .error e
  | .ok (none, s') => .ok ([], s')
  | .ok (some a, s') =>
    match many r hr s' with
    | .error e => .error e
    | .ok (as, s'') => .ok (a :: as, s'')
termination_by s => size s
decreasing_by exact (hr _ _ _ _h).2 rfl

theorem steady_many {r : Reader σ (Option α)} (hr : Advances r) : Steady (many r hr) := by
  intro s as s' h
  fun_induction many r hr s generalizing as s' with
  | case1 => cases h
  | case2 s s₁ h₁ =>
    simp only [Except.ok.injEq, Prod.mk.injEq] at h
    exact h.2 ▸ (hr _ _ _ h₁).1
  | case3 => cases h
  | case4 s a s₁ h₁ as₁ s₂ h₂ ih =>
    simp only [Except.ok.injEq, Prod.mk.injEq] at h
    rw [← h.2]
    exact Nat.le_trans (ih as₁ s₂ h₂) (hr _ _ _ h₁).1

end Reader

end IntScript
