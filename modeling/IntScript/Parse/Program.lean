import IntScript.Parse.Expression
import IntScript.Token.Window

/-!
# Programs

    print    :=  'print' sum
    assign   :=  Symbol '=' sum
    function :=  'func' Symbol list body
    body     :=  '{' (print | assign | Newline)* 'return' sum [Newline* '}']
    program  :=  (print | assign | function | Newline)* EOF

Statements need no separator. The brace that closes a body may be missing, and then the line ends
after the returned expression belong to what follows.

Main definition: `Reader.program`, which reads any source of tokens; `parse` applies it to a window
on a text.
-/

namespace IntScript

namespace Reader

variable {σ α : Type} [TokenSource σ]

open TokenSource (size span)

def printStatement : Reader σ Tree := do
  let word ← next
  let e ← expression
  return .node .print word [e]

def assignment : Reader σ Tree := do
  let name ← next
  let mark ← expect .assign .assignMark
  let e ← expression
  return .node .assign mark [.leaf .name name, e]

theorem progresses_printStatement : Progresses (printStatement : Reader σ Tree) :=
  steady_next.bind_progresses fun _ => progresses_expression.bind fun _ => steady_pure _

theorem progresses_assignment : Progresses (assignment : Reader σ Tree) :=
  steady_next.bind_progresses fun _ =>
    (progresses_expect (by decide) _).bind fun _ =>
      progresses_expression.steady.bind fun _ => steady_pure _

/-- A statement of a body, or none for a line end, or nothing before the returned expression. -/
def bodyItem : Reader σ (Option (Option Tree)) := do
  let t ← peek 0
  if t.kind = .printWord then
    let n ← printStatement
    return some (some n)
  else if t.kind = .symbol then
    let n ← assignment
    return some (some n)
  else if t.kind = .newline then
    drop 1
    return some none
  else if t.kind = .returnWord then return none
  else refuse .bodyStatement t

/-- Reading on after a look makes no less progress than without it. -/
theorem le_and_lt_of_peek {s s₁ s' : σ} {t : Token} {P : Prop}
    (h : (peek 0 : Reader σ Token) s = .ok (t, s₁)) (hlt : size s' < size s₁) :
    size s' ≤ size s ∧ (P → size s' < size s) := by
  have := steady_peek 0 _ _ _ h
  exact ⟨by omega, fun _ => by omega⟩

theorem le_and_lt_of_dropped {s s₁ s' : σ} {t : Token} {a b : α} {P : Prop}
    (h : (peek 0 : Reader σ Token) s = .ok (t, s₁)) (ht : t.kind = .newline)
    (hd : (do drop 1; return b : Reader σ α) s₁ = .ok (a, s')) :
    size s' ≤ size s ∧ (P → size s' < size s) := by
  have hlt := size_lt_of_peek_drop h (by simp [ht])
  obtain ⟨_, s₂, h₁, h₂⟩ := bind_eq_ok hd
  simp only [drop, Except.ok.injEq, Prod.mk.injEq] at h₁
  replace h₂ := pure_eq_ok h₂
  rw [h₁.2, h₂.2] at hlt
  exact ⟨Nat.le_of_lt hlt, fun _ => hlt⟩

theorem le_and_lt_of_stopped {s s₁ s' : σ} {t : Token} {a : Option α}
    (h : (peek 0 : Reader σ Token) s = .ok (t, s₁))
    (hs : (return none : Reader σ (Option α)) s₁ = .ok (a, s')) :
    size s' ≤ size s ∧ (a.isSome → size s' < size s) := by
  have := steady_peek 0 _ _ _ h
  replace hs := pure_eq_ok hs
  exact ⟨hs.2 ▸ this, by simp [← hs.1]⟩

theorem advances_bodyItem : Advances (bodyItem : Reader σ (Option (Option Tree))) := by
  intro s a s' h
  obtain ⟨t, s₁, h₁, h₂⟩ := bind_eq_ok h
  split at h₂
  · exact le_and_lt_of_peek h₁ (progresses_printStatement.bind (fun _ => steady_pure _) _ _ _ h₂)
  · split at h₂
    · exact le_and_lt_of_peek h₁ (progresses_assignment.bind (fun _ => steady_pure _) _ _ _ h₂)
    · split at h₂
      · exact le_and_lt_of_dropped h₁ ‹_› h₂
      · split at h₂
        · exact le_and_lt_of_stopped h₁ h₂
        · cases h₂

/-- Drops a closing brace, with the line ends before it, if there is one after the first `i` tokens,
which are line ends; otherwise drops nothing. -/
def closeBodyFrom (i : Nat) : Reader σ Unit := fun s =>
  match _h : TokenSource.peek s i with
  | (.error e, _) => .error (.scan e)
  | (.ok t, s') =>
    if _ht : t.kind = .newline then closeBodyFrom (i + 1) s'
    else if t.kind = .closeBrace then .ok ((), TokenSource.drop s' (i + 1))
    else .ok ((), s')
termination_by s => span s - i
decreasing_by
  have ht : t.kind ≠ .endOfText := by simp [_ht]
  have := TokenSource.lt_span_of_peek _h ht
  have := TokenSource.span_peek_le _h ht
  omega

def closeBody : Reader σ Unit := closeBodyFrom 0

theorem steady_closeBodyFrom (i : Nat) : Steady (closeBodyFrom i : Reader σ Unit) := by
  intro s a s' h
  have hpeek := TokenSource.size_peek_le s i
  fun_induction closeBodyFrom i s generalizing a s' with
  | case1 => cases h
  | case2 i s t s₁ h₁ ht ih =>
    rw [h₁] at hpeek
    exact Nat.le_trans (ih a s' h (TokenSource.size_peek_le _ _)) hpeek
  | case3 i s t s₁ h₁ ht ht' =>
    simp only [Except.ok.injEq, Prod.mk.injEq] at h
    rw [h₁] at hpeek
    rw [← h.2]
    exact Nat.le_trans (TokenSource.size_drop_le _ _) hpeek
  | case4 i s t s₁ h₁ ht ht' =>
    simp only [Except.ok.injEq, Prod.mk.injEq] at h
    rw [h₁] at hpeek
    rw [← h.2]
    exact hpeek

def body : Reader σ Tree := do
  let mark ← expect .openBrace .openBrace
  let items ← many bodyItem advances_bodyItem
  let word ← next
  let e ← expression
  closeBody
  return .node .body mark (items.filterMap id ++ [.node .result word [e]])

theorem progresses_body : Progresses (body : Reader σ Tree) :=
  (progresses_expect (by decide) _).bind fun _ =>
    (steady_many _).bind fun _ => steady_next.bind fun _ =>
      progresses_expression.steady.bind fun _ =>
        (steady_closeBodyFrom 0).bind fun _ => steady_pure _

def function : Reader σ Tree := do
  drop 1
  let name ← expect .symbol .functionName
  let params ← symbolList .params .param .parameter
  let b ← body
  return .node .function name [params, b]

theorem progresses_function : Progresses (function : Reader σ Tree) :=
  (steady_drop 1).bind_progresses fun _ =>
    (progresses_expect (by decide) _).bind fun _ =>
      (progresses_symbolList _ _ _).steady.bind fun _ =>
        progresses_body.steady.bind fun _ => steady_pure _

/-- A statement of a program, or none for a line end, or nothing at the end of the text. -/
def programItem : Reader σ (Option (Option Tree)) := do
  let t ← peek 0
  if t.kind = .printWord then
    let n ← printStatement
    return some (some n)
  else if t.kind = .symbol then
    let n ← assignment
    return some (some n)
  else if t.kind = .funcWord then
    let n ← function
    return some (some n)
  else if t.kind = .newline then
    drop 1
    return some none
  else if t.kind = .endOfText then return none
  else refuse .statement t

theorem advances_programItem : Advances (programItem : Reader σ (Option (Option Tree))) := by
  intro s a s' h
  obtain ⟨t, s₁, h₁, h₂⟩ := bind_eq_ok h
  split at h₂
  · exact le_and_lt_of_peek h₁ (progresses_printStatement.bind (fun _ => steady_pure _) _ _ _ h₂)
  · split at h₂
    · exact le_and_lt_of_peek h₁ (progresses_assignment.bind (fun _ => steady_pure _) _ _ _ h₂)
    · split at h₂
      · exact le_and_lt_of_peek h₁ (progresses_function.bind (fun _ => steady_pure _) _ _ _ h₂)
      · split at h₂
        · exact le_and_lt_of_dropped h₁ ‹_› h₂
        · split at h₂
          · exact le_and_lt_of_stopped h₁ h₂
          · cases h₂

def program : Reader σ Tree := do
  let items ← many programItem advances_programItem
  return .node .root .nowhere (items.filterMap id)

end Reader

/-- The tree of the program that a text is, given the text's bytes and the reserved words. -/
def parse (bs : List UInt8) (kw : Keywords) : Except ParseError Tree :=
  (Reader.program (Window.ofBytes bs kw)).map (·.1)

/-- The same from the finished list of the text's tokens. -/
def Tokens.parse (ts : Tokens) : Except ParseError Tree := (Reader.program ts).map (·.1)

end IntScript
