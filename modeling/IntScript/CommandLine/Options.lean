import IntScript.About

/-!
# Options

Options are single letters after a dash, and several may share one dash. An option that takes a text
finds it in the rest of its argument or, if that is empty, in the next argument. Options end before
the first argument that is empty, a lone dash or without a dash in front, and after the argument
`--`; what is left then are the operands.
-/

namespace IntScript

/-- An option that was given. -/
inductive Flag where
  | help
  | version
  | verbose
  | tokens
  | tree
  | interactive
  | settings (path : String)
  deriving DecidableEq, Repr

/-- Why the options cannot be read. -/
inductive OptionError where
  | unknown (letter : Char)
  | noText (letter : Char)
  deriving DecidableEq, Repr

def OptionError.message : OptionError → String
  | .unknown letter => s!"{About.name}: unknown option -{letter.toString}"
  | .noText letter => s!"{About.name}: expected argument for -{letter.toString}"

/-- What a letter stands for: a flag, or a flag that takes a text. -/
inductive Letter where
  | plain (flag : Flag)
  | withText (flag : String → Flag)

namespace Letter

/-- The letters that are options. -/
def ofChar? : Char → Option Letter
  | 'h' => some (.plain .help)
  | 'V' => some (.plain .version)
  | 'v' => some (.plain .verbose)
  | 't' => some (.plain .tokens)
  | 'a' => some (.plain .tree)
  | 'i' => some (.plain .interactive)
  | 'c' => some (.withText .settings)
  | _ => none

end Letter

/-- The flags of a command line, and what is left after them. -/
structure Arguments where
  flags : List Flag
  operands : List String
  deriving DecidableEq, Repr

namespace Arguments

def cons (flag : Flag) (a : Arguments) : Arguments := { a with flags := flag :: a.flags }

/-- Reads the letters of one argument, with the arguments after it. -/
def ofLetters (args : List String) : List Char → Except OptionError Arguments
  | [] => .ok ⟨[], args⟩
  | c :: cs =>
    match Letter.ofChar? c with
    | none => .error (.unknown c)
    | some (.plain flag) => (ofLetters args cs).map (cons flag)
    | some (.withText flag) =>
      if cs ≠ [] then .ok ⟨[flag (String.ofList cs)], args⟩
      else
        match args with
        | [] => .error (.noText c)
        | text :: rest => .ok ⟨[flag text], rest⟩

theorem length_le_of_ofLetters {args : List String} {cs : List Char} {a : Arguments}
    (h : ofLetters args cs = .ok a) : a.operands.length ≤ args.length := by
  induction cs generalizing a with
  | nil =>
    cases h
    exact Nat.le_refl _
  | cons c cs ih =>
    simp only [ofLetters] at h
    split at h
    · cases h
    · cases hr : ofLetters args cs with
      | error e =>
        rw [hr] at h
        cases h
      | ok b =>
        rw [hr] at h
        cases h
        have := ih hr
        exact this
    · split at h
      · cases h
        exact Nat.le_refl _
      · split at h
        · cases h
        · cases h
          exact Nat.le_succ _

def read : List String → Except OptionError Arguments
  | [] => .ok ⟨[], []⟩
  | arg :: args =>
    match arg.toList with
    | '-' :: c :: cs =>
      if arg = "--" then .ok ⟨[], args⟩
      else
        match _h : ofLetters args (c :: cs) with
        | .error e => .error e
        | .ok first =>
          (read first.operands).map fun later => ⟨first.flags ++ later.flags, later.operands⟩
    | _ => .ok ⟨[], arg :: args⟩
termination_by args => args.length
decreasing_by
  have := length_le_of_ofLetters _h
  simp only [List.length_cons]
  omega

end Arguments

end IntScript
