import IntScript.Proofs.Token.Ahead
import Mathlib.Logic.Equiv.Defs

/-!
# Phrases

A phrase is a type of derivations, with the tokens of each and a condition `Ends` on what may stand
behind it.  A reader of the grammar looks one token beyond what it takes (or, behind a body, beyond
any number of line ends), so it stops where the derivation stops only if what comes next does not
carry it on.  `Ends` says just that.

Phrases are put together as the right side of a production is: one token (`leaf`), nothing before a
token of certain kinds (`before`), one phrase and then another (`seq`), one or another (`alt`), and
any number of one and then another (`rounds`).  For each way of putting phrases together there is a
lemma for each of three properties:

| | |
| :-- | :-- |
| `Definite P` | derivations start with kinds in `P` and are told apart by their tokens |
| `Local` | whether a derivation ends shows in the next token |
| `Fits Q P` | before a list in `Q` derivations end, and in front of it they make a list in `P` |

For a phrase to be definite it is enough that alternatives start differently.
-/

namespace IntScript

namespace Tokens

theorem exists_prepend_of_isPrefix {ts : Tokens} {l l' : List Token} (h : l ++ l' <+: ts.list) :
    ∃ ts' : Tokens, ts = ts'.prepend l ∧ l' <+: ts'.list := by
  obtain ⟨k, hk⟩ := h
  refine ⟨⟨l' ++ k, ts.error?⟩, ?_, List.prefix_append _ _⟩
  rw [prepend, ← List.append_assoc, hk]

/-- The next token is there, and of a kind in `P`. -/
def Next (P : Kind → Prop) (ts : Tokens) : Prop := ∃ t l, ts.list = t :: l ∧ P t.kind

theorem Next.imp {P Q : Kind → Prop} {ts : Tokens} (h : ts.Next P) (hPQ : ∀ k, P k → Q k) :
    ts.Next Q := by
  obtain ⟨t, l, hl, ht⟩ := h
  exact ⟨t, l, hl, hPQ _ ht⟩

theorem Next.unique {P Q : Kind → Prop} {ts : Tokens} (hP : ts.Next P) (hQ : ts.Next Q) :
    ∃ k, P k ∧ Q k := by
  obtain ⟨t, l, hl, ht⟩ := hP
  obtain ⟨t', l', hl', ht'⟩ := hQ
  rw [hl] at hl'
  cases hl'
  exact ⟨t.kind, ht, ht'⟩

end Tokens

namespace Grammar

/-- A type of derivations. -/
structure Phrase (δ : Type) where
  /-- The tokens of a derivation. -/
  tokens : δ → List Token
  /-- A reader of the derivation stops before these. -/
  Ends : δ → Tokens → Prop

namespace Phrase

variable {δ δ' ε : Type}

/-- One token of certain kinds. -/
def leaf (P : Kind → Prop) : Phrase { t : Token // P t.kind } where
  tokens t := [t.1]
  Ends _ _ := True

def one (k : Kind) : Phrase { t : Token // t.kind = k } := leaf (· = k)

/-- Nothing, before a token of certain kinds. -/
def before (P : Kind → Prop) : Phrase Unit where
  tokens _ := []
  Ends _ ts := ts.Next P

def seq (p : Phrase δ) (q : Phrase ε) : Phrase (δ × ε) where
  tokens d := p.tokens d.1 ++ q.tokens d.2
  Ends d ts := p.Ends d.1 (ts.prepend (q.tokens d.2)) ∧ q.Ends d.2 ts

def alt (p : Phrase δ) (q : Phrase ε) : Phrase (δ ⊕ ε) where
  tokens := Sum.elim p.tokens q.tokens
  Ends := Sum.elim p.Ends q.Ends

/-- Each of the derivations ends before those after it. -/
def EndsAll (p : Phrase δ) (q : Phrase ε) : List δ → ε → Tokens → Prop
  | [], e, ts => q.Ends e ts
  | d :: ds, e, ts =>
      p.Ends d (ts.prepend (ds.flatMap p.tokens ++ q.tokens e)) ∧ EndsAll p q ds e ts

theorem EndsAll.last {p : Phrase δ} {q : Phrase ε} {e : ε} {ts : Tokens} :
    ∀ {ds : List δ}, p.EndsAll q ds e ts → q.Ends e ts
  | [], h => h
  | _ :: _, h => EndsAll.last h.2

theorem EndsAll.of_append {p : Phrase δ} {q : Phrase ε} {d : δ} {ds : List δ} {e : ε}
    {ts : Tokens} :
    ∀ {front : List δ}, p.EndsAll q (front ++ d :: ds) e ts →
      p.Ends d (ts.prepend (ds.flatMap p.tokens ++ q.tokens e))
  | [], h => h.1
  | _ :: _, h => EndsAll.of_append h.2

/-- Any number of one phrase, and then another. -/
def rounds (p : Phrase δ) (q : Phrase ε) : Phrase (List δ × ε) where
  tokens d := d.1.flatMap p.tokens ++ q.tokens d.2
  Ends d ts := EndsAll p q d.1 d.2 ts

/-- The same derivations by other names. -/
def via (p : Phrase δ) (f : δ' ≃ δ) : Phrase δ' where
  tokens d := p.tokens (f d)
  Ends d ts := p.Ends (f d) ts

theorem tokens_rounds_cons (p : Phrase δ) (q : Phrase ε) (d : δ) (ds : List δ) (e : ε) :
    (p.rounds q).tokens (d :: ds, e) = p.tokens d ++ (p.rounds q).tokens (ds, e) := by
  simp only [rounds, List.flatMap_cons, List.append_assoc]

/-! ## Where derivations start and how they are told apart -/

/-- The tokens say where the phrase starts and which derivation it is. -/
structure Definite (p : Phrase δ) (P : Kind → Prop) : Prop where
  /-- From a derivation that ends on, the first token is of a kind in `P`. -/
  starts (d : δ) {ts : Tokens} : p.Ends d ts → (ts.prepend (p.tokens d)).Next P
  /-- No derivation holds an end of text. -/
  endless (d : δ) : ∀ t ∈ p.tokens d, t.kind ≠ .endOfText
  /-- Of two derivations that end, neither is a proper beginning of the other. -/
  unique (d d' : δ) {ts ts' : Tokens} : p.Ends d ts → p.Ends d' ts' →
    ts.prepend (p.tokens d) = ts'.prepend (p.tokens d') → d = d' ∧ ts = ts'

theorem definite_leaf {P : Kind → Prop} (hP : ∀ k, P k → k ≠ .endOfText) :
    (leaf P).Definite P where
  starts d ts _ := ⟨d.1, ts.list, rfl, d.2⟩
  endless d t ht := by
    rw [List.mem_singleton.mp ht]
    exact hP _ d.2
  unique := by
    rintro d d' ⟨l, e⟩ ⟨l', e'⟩ _ _ h
    simp only [Tokens.prepend, leaf, List.cons_append, List.nil_append, Tokens.mk.injEq,
      List.cons.injEq] at h
    obtain ⟨⟨ht, rfl⟩, rfl⟩ := h
    exact ⟨Subtype.ext ht, rfl⟩

theorem definite_one {k : Kind} (hk : k ≠ .endOfText) : (one k).Definite (· = k) :=
  definite_leaf fun _ h => h ▸ hk

theorem definite_before (P : Kind → Prop) : (before P).Definite P where
  starts _ _ h := h
  endless _ _ ht := by cases ht
  unique _ _ _ _ _ _ h := ⟨rfl, h⟩

namespace Definite

variable {p : Phrase δ} {q : Phrase ε} {P Q : Kind → Prop}

theorem imp (hp : p.Definite P) (h : ∀ k, P k → Q k) : p.Definite Q where
  starts d _ hd := (hp.starts d hd).imp h
  endless := hp.endless
  unique := hp.unique

theorem via (hp : p.Definite P) (f : δ' ≃ δ) : (p.via f).Definite P where
  starts d _ hd := hp.starts (f d) hd
  endless d := hp.endless (f d)
  unique d d' ts ts' hd hd' h := by
    obtain ⟨heq, hts⟩ := hp.unique (f d) (f d') hd hd' h
    exact ⟨f.injective heq, hts⟩

theorem seq (hp : p.Definite P) (hq : q.Definite Q) : (p.seq q).Definite P where
  starts d ts hd := by
    have h := hp.starts d.1 hd.1
    rwa [← Tokens.prepend_append] at h
  endless d t ht := by
    rcases List.mem_append.mp ht with ht | ht
    · exact hp.endless d.1 t ht
    · exact hq.endless d.2 t ht
  unique := by
    rintro ⟨d, e⟩ ⟨d', e'⟩ ts ts' hd hd' h
    simp only [Phrase.seq, Tokens.prepend_append] at hd hd' h
    obtain ⟨rfl, h'⟩ := hp.unique d d' hd.1 hd'.1 h
    obtain ⟨rfl, rfl⟩ := hq.unique e e' hd.2 hd'.2 h'
    exact ⟨rfl, rfl⟩

theorem ne_of_starts (hp : p.Definite P) (hq : q.Definite Q) (hPQ : ∀ k, P k → ¬ Q k)
    {d : δ} {e : ε}
    {ts ts' : Tokens} (hd : p.Ends d ts) (he : q.Ends e ts') :
    ts.prepend (p.tokens d) ≠ ts'.prepend (q.tokens e) := by
  intro h
  obtain ⟨k, hk, hk'⟩ := (hp.starts d hd).unique (h ▸ hq.starts e he)
  exact hPQ k hk hk'

theorem alt (hp : p.Definite P) (hq : q.Definite Q) (hPQ : ∀ k, P k → ¬ Q k) :
    (p.alt q).Definite (fun k => P k ∨ Q k) where
  starts := by
    rintro (d | e) ts hd
    · exact (hp.starts d hd).imp fun _ => .inl
    · exact (hq.starts e hd).imp fun _ => .inr
  endless
    | .inl d => hp.endless d
    | .inr e => hq.endless e
  unique := by
    rintro (d | e) (d' | e') ts ts' hd hd' h
    · obtain ⟨rfl, rfl⟩ := hp.unique d d' hd hd' h
      exact ⟨rfl, rfl⟩
    · exact absurd h (ne_of_starts hp hq hPQ hd hd')
    · exact absurd h.symm (ne_of_starts hp hq hPQ hd' hd)
    · obtain ⟨rfl, rfl⟩ := hq.unique e e' hd hd' h
      exact ⟨rfl, rfl⟩

theorem rounds (hp : p.Definite P) (hq : q.Definite Q) (hPQ : ∀ k, P k → ¬ Q k) :
    (p.rounds q).Definite (fun k => P k ∨ Q k) where
  starts := by
    rintro ⟨ds, e⟩ ts hd
    cases ds with
    | nil => exact (hq.starts e hd).imp fun _ => .inr
    | cons d ds =>
        rw [tokens_rounds_cons, Tokens.prepend_append]
        exact (hp.starts d hd.1).imp fun _ => .inl
  endless d t ht := by
    rcases List.mem_append.mp ht with ht | ht
    · obtain ⟨d₁, -, ht⟩ := List.mem_flatMap.mp ht
      exact hp.endless d₁ t ht
    · exact hq.endless d.2 t ht
  unique := by
    rintro ⟨ds, e⟩ ⟨ds', e'⟩ ts ts' hd hd' heq
    -- rounds match one by one, since a round never matches the end
    induction ds generalizing ds' with
    | nil =>
        cases ds' with
        | nil =>
            obtain ⟨rfl, rfl⟩ := hq.unique e e' hd hd' heq
            exact ⟨rfl, rfl⟩
        | cons d' ds' =>
            rw [tokens_rounds_cons, Tokens.prepend_append] at heq
            exact absurd heq.symm (ne_of_starts hp hq hPQ hd'.1 hd)
    | cons d ds ih =>
        rw [tokens_rounds_cons, Tokens.prepend_append] at heq
        cases ds' with
        | nil => exact absurd heq (ne_of_starts hp hq hPQ hd.1 hd')
        | cons d' ds' =>
            rw [tokens_rounds_cons, Tokens.prepend_append] at heq
            obtain ⟨rfl, hrest⟩ := hp.unique d d' hd.1 hd'.1 heq
            obtain ⟨hpair, hts⟩ := ih ds' hd.2 hd'.2 hrest
            cases hpair
            exact ⟨rfl, hts⟩

end Definite

/-! ## Next tokens -/

/-- Whether a derivation ends shows in the next token. -/
def Local (p : Phrase δ) : Prop :=
  ∀ ⦃d t ts ts'⦄, ts.list.head? = some t → ts'.list.head? = some t → p.Ends d ts → p.Ends d ts'

theorem local_leaf (P : Kind → Prop) : (leaf P).Local := fun _ _ _ _ _ _ _ => trivial

theorem local_one (k : Kind) : (one k).Local := local_leaf (· = k)

theorem local_before (P : Kind → Prop) : (before P).Local := by
  rintro d t ts ts' ht ht' ⟨u, l, hl, hu⟩
  obtain ⟨l', hl'⟩ := List.head?_eq_some_iff.mp ht'
  rw [hl, List.head?_cons, Option.some.injEq] at ht
  exact ⟨t, l', hl', ht ▸ hu⟩

/-- What stands before both lists hides their difference. -/
theorem Local.prepend {p : Phrase δ} (hp : p.Local) {d : δ} {t : Token} {ts ts' : Tokens}
    (ht : ts.list.head? = some t) (ht' : ts'.list.head? = some t) {l : List Token}
    (h : p.Ends d (ts.prepend l)) : p.Ends d (ts'.prepend l) := by
  cases l with
  | nil => exact hp ht ht' h
  | cons u l => exact hp (t := u) rfl rfl h

theorem Local.seq {p : Phrase δ} {q : Phrase ε} (hp : p.Local) (hq : q.Local) :
    (p.seq q).Local := by
  intro d t ts ts' ht ht' h
  exact ⟨hp.prepend ht ht' h.1, hq ht ht' h.2⟩

theorem Local.alt {p : Phrase δ} {q : Phrase ε} (hp : p.Local) (hq : q.Local) :
    (p.alt q).Local := by
  rintro (d | e) t ts ts' ht ht' h
  · exact hp ht ht' h
  · exact hq ht ht' h

theorem Local.rounds {p : Phrase δ} {q : Phrase ε} (hp : p.Local) (hq : q.Local) :
    (p.rounds q).Local := by
  rintro ⟨ds, e⟩ t ts ts' ht ht' h
  induction ds with
  | nil => exact hq ht ht' h
  | cons d ds ih => exact ⟨hp.prepend ht ht' h.1, ih h.2⟩

theorem Local.via {p : Phrase δ} (hp : p.Local) (f : δ' ≃ δ) : (p.via f).Local :=
  fun d _ _ _ ht ht' h => hp (d := f d) ht ht' h

/-! ## What lets derivations end -/

/-- Before what satisfies `Q` every derivation ends, and with it in front the list satisfies `P`. -/
def Fits (p : Phrase δ) (Q P : Tokens → Prop) : Prop :=
  ∀ d ⦃ts⦄, Q ts → p.Ends d ts ∧ P (ts.prepend (p.tokens d))

theorem fits_leaf (P : Kind → Prop) (Q : Tokens → Prop) : (leaf P).Fits Q (Tokens.Next P) :=
  fun d ts _ => ⟨trivial, d.1, ts.list, rfl, d.2⟩

theorem fits_one (k : Kind) (Q : Tokens → Prop) : (one k).Fits Q (Tokens.Next (· = k)) :=
  fits_leaf (· = k) Q

theorem fits_before (P : Kind → Prop) : (before P).Fits (Tokens.Next P) (Tokens.Next P) :=
  fun _ _ h => ⟨h, h⟩

namespace Fits

variable {p : Phrase δ} {q : Phrase ε} {P P' Q Q' : Tokens → Prop}

theorem imp (hp : p.Fits Q P) (hQ : ∀ ts, Q' ts → Q ts) (hP : ∀ ts, P ts → P' ts) :
    p.Fits Q' P' := by
  intro d ts h
  obtain ⟨hd, hts⟩ := hp d (hQ ts h)
  exact ⟨hd, hP _ hts⟩

theorem via (hp : p.Fits Q P) (f : δ' ≃ δ) : (p.via f).Fits Q P := fun d => hp (f d)

theorem seq (hp : p.Fits P P') (hq : q.Fits Q P) : (p.seq q).Fits Q P' := by
  rintro ⟨d, e⟩ ts h
  obtain ⟨he, hts⟩ := hq e h
  obtain ⟨hd, hts'⟩ := hp d hts
  rw [← Tokens.prepend_append] at hts'
  exact ⟨⟨hd, he⟩, hts'⟩

theorem alt (hp : p.Fits Q P) (hq : q.Fits Q P) : (p.alt q).Fits Q P
  | .inl d, _, h => hp d h
  | .inr e, _, h => hq e h

theorem rounds (hp : p.Fits P P) (hq : q.Fits Q P) : (p.rounds q).Fits Q P := by
  rintro ⟨ds, e⟩ ts h
  induction ds with
  | nil => exact hq e h
  | cons d ds ih =>
      obtain ⟨hds, hts⟩ := ih
      obtain ⟨hd, hts'⟩ := hp d hts
      rw [tokens_rounds_cons, Tokens.prepend_append]
      exact ⟨⟨hd, hds⟩, hts'⟩

end Fits

end Phrase

end Grammar

end IntScript
