import IntScript.Parse.Reader
import IntScript.Tree.Basic

/-!
# Expressions

    list   :=  '(' Symbol (',' Symbol)* ')'
    atom   :=  Integer | Symbol | Symbol list
    power  :=  atom ('^' atom)*
    product:=  power (('*' | '/') power)*
    sum    :=  product (('+' | '-' | '%') product)*

At all three levels operations group to the left.
-/

namespace IntScript

/-- The levels of operations, the loosest first. -/
inductive Level where
  | sum
  | product
  | power
  deriving DecidableEq, Repr

namespace Level

def marks : Level → List Kind
  | .sum => [.add, .sub, .mod]
  | .product => [.mul, .div]
  | .power => [.pow]

def form : Level → Form
  | .sum => .sum
  | .product => .product
  | .power => .power

theorem ne_endOfText_of_mem_marks {l : Level} {k : Kind} (h : k ∈ l.marks) : k ≠ .endOfText := by
  rintro rfl
  cases l <;> simp [marks] at h

end Level

namespace Reader

variable {σ : Type} [TokenSource σ]

/-- The symbol after a comma, or nothing at the closing parenthesis. -/
def listItem (expected : Expected) : Reader σ (Option Token) := do
  let separator ← next
  if separator.kind = .comma then
    let t ← expect .symbol expected
    return some t
  else if separator.kind = .closeParen then return none
  else refuse .separator separator

theorem advances_listItem (expected : Expected) :
    Advances (listItem expected : Reader σ (Option Token)) := by
  intro s a s' h
  obtain ⟨t, s₁, h₁, h₂⟩ := bind_eq_ok h
  have hle := steady_next _ _ _ h₁
  split at h₂
  · have := (progresses_expect (by decide) expected).bind (fun t => steady_pure (some t)) _ _ _ h₂
    exact ⟨by omega, fun _ => by omega⟩
  · split at h₂
    · replace h₂ := pure_eq_ok h₂
      exact ⟨h₂.2 ▸ hle, by simp [← h₂.1]⟩
    · cases h₂

def symbolList (list item : Form) (expected : Expected) : Reader σ Tree := do
  let mark ← expect .openParen .openParen
  let first ← expect .symbol expected
  let others ← many (listItem expected) (advances_listItem expected)
  return .node list mark ((first :: others).map (.leaf item))

theorem progresses_symbolList (list item : Form) (expected : Expected) :
    Progresses (symbolList list item expected : Reader σ Tree) :=
  (progresses_expect (by decide) _).bind fun _ =>
    (progresses_expect (by decide) _).steady.bind fun _ =>
      (steady_many _).bind fun _ => steady_pure _

/-- A number, a variable or a call. -/
def atom : Reader σ Tree := do
  let t ← next
  if t.kind = .integer then return .leaf .integer t
  else if t.kind = .symbol then
    let ahead ← peek 0
    if ahead.kind = .openParen then
      let args ← symbolList .args .arg .argument
      return .node .call t [args]
    else return .leaf .name t
  else refuse .operand t

theorem progresses_atom : Progresses (atom : Reader σ Tree) := by
  intro s a s' h
  obtain ⟨t, s₁, h₁, h₂⟩ := bind_eq_ok h
  split at h₂
  · rename_i hk
    exact Nat.lt_of_le_of_lt (steady_pure _ _ _ _ h₂) (size_lt_of_next h₁ (by simp [hk]))
  · split at h₂
    · rename_i hk
      refine Nat.lt_of_le_of_lt ?_ (size_lt_of_next h₁ (by simp [hk]))
      obtain ⟨ahead, s₂, h₃, h₄⟩ := bind_eq_ok h₂
      refine Nat.le_trans ?_ (steady_peek 0 _ _ _ h₃)
      split at h₄
      · exact ((progresses_symbolList _ _ _).steady.bind fun _ => steady_pure _) _ _ _ h₄
      · exact steady_pure _ _ _ _ h₄
    · cases h₂

/-- A mark of a level with the operand after it, or nothing before any other token. -/
def operation (level : Level) (operand : Reader σ Tree) : Reader σ (Option (Token × Tree)) := do
  let mark ← peek 0
  if mark.kind ∈ level.marks then
    drop 1
    let right ← operand
    return some (mark, right)
  else return none

theorem advances_operation (level : Level) {operand : Reader σ Tree} (ho : Progresses operand) :
    Advances (operation level operand) := by
  intro s a s' h
  obtain ⟨t, s₁, h₁, h₂⟩ := bind_eq_ok h
  split at h₂
  · rename_i hk
    obtain ⟨_, s₂, h₃, h₄⟩ := bind_eq_ok h₂
    have hlt := size_lt_of_peek_drop h₁ (Level.ne_endOfText_of_mem_marks hk)
    simp only [drop, Except.ok.injEq, Prod.mk.injEq] at h₃
    rw [h₃.2] at hlt
    have := (ho.bind fun r => steady_pure (some (t, r))) _ _ _ h₄
    exact ⟨by omega, fun _ => by omega⟩
  · have := steady_peek 0 _ _ _ h₁
    replace h₂ := pure_eq_ok h₂
    exact ⟨h₂.2 ▸ this, by simp [← h₂.1]⟩

/-- Operands joined by the marks of a level, grouped to the left. -/
def chain (level : Level) (operand : Reader σ Tree) (ho : Progresses operand) : Reader σ Tree := do
  let first ← operand
  let others ← many (operation level operand) (advances_operation level ho)
  return others.foldl (fun left p => .node level.form p.1 [left, p.2]) first

theorem progresses_chain (level : Level) {operand : Reader σ Tree} (ho : Progresses operand) :
    Progresses (chain level operand ho) :=
  ho.bind fun _ => (steady_many _).bind fun _ => steady_pure _

/-- An operand of a product. -/
def power : Reader σ Tree := chain .power atom progresses_atom

/-- An operand of a sum. -/
def product : Reader σ Tree := chain .product power (progresses_chain _ _)

def expression : Reader σ Tree := chain .sum product (progresses_chain _ _)

theorem progresses_expression : Progresses (expression : Reader σ Tree) := progresses_chain _ _

end Reader

end IntScript
