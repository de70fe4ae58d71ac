import IntScript.Proofs.Grammar.Phrase
import IntScript.Proofs.Parse.Simulation

/-!
# Readers and the phrases they read

`Reads r p value` is the contract between a reader and a phrase, on finished lists:

* `complete`: a derivation that ends is read, and nothing behind it is touched;
* `outcome`: whatever the list, the reader finds a derivation that ends, or runs into the scanning
  error, or refuses a token.

The two ways to fail say how far the grammar went along.  Before a scanning error all of the list is
the beginning of a derivation.  A refused token has the beginning of a derivation before it, and it
is refused whatever comes behind it (`Outcome.refused`): the reader has not looked further.

Contracts compose as phrases do: along a sequence (`Reads.bind`), a choice by the next token
(`Branch`, which is the contract on lists that start with certain kinds) and a repetition
(`Reads.many`).
-/

namespace IntScript

namespace Tokens

/-- The list does not stop short: an end of text is in it, or an error stands behind it. -/
def Closed (ts : Tokens) : Prop := ts.error? = none → ∃ t ∈ ts.list, t.kind = .endOfText

theorem Finished.closed {ts : Tokens} (h : ts.Finished) : ts.Closed := by
  intro he
  cases h with
  | whole hl ht => exact ⟨_, List.mem_append_right _ (List.mem_singleton_self _), ht⟩
  | broken hl => cases he

theorem Closed.prepend {ts : Tokens} (h : ts.Closed) (l : List Token) : (ts.prepend l).Closed := by
  intro he
  obtain ⟨t, ht, hk⟩ := h he
  exact ⟨t, List.mem_append_right _ ht, hk⟩

theorem Closed.of_prepend {ts : Tokens} {l : List Token} (h : (ts.prepend l).Closed)
    (hl : ∀ t ∈ l, t.kind ≠ .endOfText) : ts.Closed := by
  intro he
  obtain ⟨t, ht, hk⟩ := h he
  rcases List.mem_append.mp ht with ht | ht
  · exact absurd hk (hl t ht)
  · exact ⟨t, ht, hk⟩

theorem Closed.cases {ts : Tokens} (h : ts.Closed) :
    (∃ t l e?, ts = ⟨t :: l, e?⟩) ∨ ∃ e, ts = ⟨[], some e⟩ := by
  obtain ⟨l, e?⟩ := ts
  cases l with
  | cons t l => exact .inl ⟨t, l, e?, rfl⟩
  | nil =>
      cases e? with
      | some e => exact .inr ⟨e, rfl⟩
      | none =>
          obtain ⟨t, ht, -⟩ := h rfl
          cases ht

end Tokens

namespace Reader

theorem bind_of_ok {σ α β : Type} {r : Reader σ α} {f : α → Reader σ β} {s s₁ : σ} {a : α}
    (h : r s = .ok (a, s₁)) : (r >>= f) s = f a s₁ := by
  simp only [bind, StateT.bind, h, Except.bind]

theorem bind_of_error {σ α β : Type} {r : Reader σ α} {f : α → Reader σ β} {s : σ}
    {e : ParseError} (h : r s = .error e) : (r >>= f) s = .error e := by
  simp only [bind, StateT.bind, h, Except.bind]

/-! ### Tokens of a finished list -/

/-- The next token, which has to be of certain kinds. -/
def accept {σ : Type} [TokenSource σ] (P : Kind → Prop) [DecidablePred P] (x : Expected) :
    Reader σ Token := do
  let t ← next
  if P t.kind then return t else refuse x t

theorem peek_bind {α : Type} (f : Token → Reader Tokens α) (t : Token) (l : List Token)
    (e? : Option ScanError) : (peek 0 >>= f) ⟨t :: l, e?⟩ = f t ⟨t :: l, e?⟩ := rfl

theorem next_bind {α : Type} (f : Token → Reader Tokens α) (t : Token) (l : List Token)
    (e? : Option ScanError) : (next >>= f) ⟨t :: l, e?⟩ = f t ⟨l, e?⟩ := rfl

theorem drop_bind {α : Type} (f : Unit → Reader Tokens α) (t : Token) (l : List Token)
    (e? : Option ScanError) : (drop 1 >>= f) ⟨t :: l, e?⟩ = f () ⟨l, e?⟩ := rfl

theorem accept_of_mem {P : Kind → Prop} [DecidablePred P] (x : Expected) {t : Token} (ht : P t.kind)
    (l : List Token) (e? : Option ScanError) :
    accept P x (⟨t :: l, e?⟩ : Tokens) = .ok (t, ⟨l, e?⟩) := by
  rw [accept, next_bind, if_pos ht]
  rfl

theorem accept_of_not_mem {P : Kind → Prop} [DecidablePred P] (x : Expected) {t : Token}
    (ht : ¬ P t.kind) (l : List Token) (e? : Option ScanError) :
    accept P x (⟨t :: l, e?⟩ : Tokens) = .error (.misfit ⟨x, t⟩) := by
  rw [accept, next_bind, if_neg ht]
  rfl

theorem accept_bind {α : Type} {P : Kind → Prop} [DecidablePred P] (x : Expected) {t : Token}
    (ht : P t.kind) (f : Token → Reader Tokens α) (l : List Token) (e? : Option ScanError) :
    (accept P x >>= f) ⟨t :: l, e?⟩ = f t ⟨l, e?⟩ :=
  bind_of_ok (accept_of_mem x ht l e?)

theorem expect_bind {α : Type} (x : Expected) {t : Token} {k : Kind} (ht : t.kind = k)
    (f : Token → Reader Tokens α) (l : List Token) (e? : Option ScanError) :
    (expect k x >>= f) ⟨t :: l, e?⟩ = f t ⟨l, e?⟩ :=
  accept_bind (P := (· = k)) x ht f l e?

end Reader

namespace Grammar

variable {δ δ' ε α β : Type}

theorem head?_of_isPrefix {l k k' : List Token} {t : Token} (h : l ++ [t] <+: k)
    (h' : l ++ [t] <+: k') : ∃ u, k.head? = some u ∧ k'.head? = some u := by
  obtain ⟨m, rfl⟩ := h
  obtain ⟨m', rfl⟩ := h'
  cases l with
  | nil => exact ⟨t, rfl, rfl⟩
  | cons u l => exact ⟨u, rfl, rfl⟩

/-- The reader refuses a token behind others, whatever stands behind it. -/
def Refuses (r : Reader Tokens α) (l : List Token) (m : Misfit) : Prop :=
  ∀ ts : Tokens, ts.Closed → l ++ [m.found] <+: ts.list → r ts = .error (.misfit m)

/-- What a reader can do with a list. -/
inductive Outcome (r : Reader Tokens α) (p : Phrase δ) (value : δ → α) (ts : Tokens) : Prop
  | found (d : δ) (ts' : Tokens) : ts = ts'.prepend (p.tokens d) → p.Ends d ts' →
      r ts = .ok (value d, ts') → Outcome r p value ts
  | cut (e : ScanError) (d : δ) : ts.error? = some e → ts.list <+: p.tokens d →
      r ts = .error (.scan e) → Outcome r p value ts
  | refused (m : Misfit) (l : List Token) (d : δ) : l ++ [m.found] <+: ts.list →
      l <+: p.tokens d → Refuses r l m → Outcome r p value ts

/-- A reader reads the derivations of a phrase, and nothing else. -/
structure Reads (r : Reader Tokens α) (p : Phrase δ) (value : δ → α) : Prop where
  complete (d : δ) {ts : Tokens} : ts.Closed → p.Ends d ts →
    r (ts.prepend (p.tokens d)) = .ok (value d, ts)
  outcome {ts : Tokens} : ts.Closed → Outcome r p value ts

namespace Outcome

variable {r r' : Reader Tokens α} {p : Phrase δ} {q : Phrase ε} {v : δ → α} {ts : Tokens}

theorem congr (h : Outcome r' p v ts) (hts : ts.Closed)
    (heq : ∀ ts' : Tokens, ts'.Closed → ts'.list.head? = ts.list.head? → r ts' = r' ts') :
    Outcome r p v ts := by
  cases h with
  | found d ts' hd he hok => exact .found d ts' hd he ((heq ts hts rfl).trans hok)
  | cut e d he hpre herr => exact .cut e d he hpre ((heq ts hts rfl).trans herr)
  | refused m l d hm hpre hall =>
      refine .refused m l d hm hpre fun ts' hts' hl => ?_
      obtain ⟨u, hu, hu'⟩ := head?_of_isPrefix hm hl
      exact (heq ts' hts' (hu'.trans hu.symm)).trans (hall ts' hts' hl)

theorem inl {u : δ ⊕ ε → α} (h : Outcome r p (fun d => u (.inl d)) ts) :
    Outcome r (p.alt q) u ts := by
  cases h with
  | found d ts' hd he hok => exact .found (.inl d) ts' hd he hok
  | cut e d he hpre herr => exact .cut e (.inl d) he hpre herr
  | refused m l d hm hpre hall => exact .refused m l (.inl d) hm hpre hall

theorem inr {u : δ ⊕ ε → α} (h : Outcome r q (fun e => u (.inr e)) ts) :
    Outcome r (p.alt q) u ts := by
  cases h with
  | found d ts' hd he hok => exact .found (.inr d) ts' hd he hok
  | cut e d he hpre herr => exact .cut e (.inr d) he hpre herr
  | refused m l d hm hpre hall => exact .refused m l (.inr d) hm hpre hall

theorem via (f : δ' ≃ δ) {v : δ' → α} (h : Outcome r p (fun d => v (f.symm d)) ts) :
    Outcome r (p.via f) v ts := by
  have hback : ∀ d, (p.via f).tokens (f.symm d) = p.tokens d := fun d =>
    congrArg p.tokens (f.apply_symm_apply d)
  cases h with
  | found d ts' hd he hok =>
      refine .found (f.symm d) ts' (by rw [hback, hd]) ?_ hok
      show p.Ends (f (f.symm d)) ts'
      rwa [f.apply_symm_apply]
  | cut e d he hpre herr => exact .cut e (f.symm d) he (by rwa [hback]) herr
  | refused m l d hm hpre hall => exact .refused m l (f.symm d) hm (by rwa [hback]) hall

theorem map (h : Outcome r p v ts) (g : α → β) :
    Outcome (do let a ← r; return g a) p (fun d => g (v d)) ts := by
  cases h with
  | found d ts' hd he hok =>
      refine .found d ts' hd he ?_
      rw [Reader.bind_of_ok hok]
      rfl
  | cut e d he hpre herr => exact .cut e d he hpre (Reader.bind_of_error herr)
  | refused m l d hm hpre hall =>
      exact .refused m l d hm hpre fun ts' hts' h => Reader.bind_of_error (hall ts' hts' h)

end Outcome

/-! ## One token -/

theorem refuses_next {r : Reader Tokens α} {x : Expected} {t : Token}
    (h : ∀ l e?, r ⟨t :: l, e?⟩ = .error (.misfit ⟨x, t⟩)) : Refuses r [] ⟨x, t⟩ := by
  rintro ⟨l, e?⟩ - ⟨l', rfl⟩
  exact h l' e?

theorem reads_accept (P : Kind → Prop) [DecidablePred P] [Nonempty { t : Token // P t.kind }]
    (x : Expected) : Reads (Reader.accept P x) (Phrase.leaf P) (fun t => t.1) where
  complete d ts _ _ := Reader.accept_of_mem x d.2 ts.list ts.error?
  outcome {ts} hts := by
    obtain ⟨d₀⟩ := ‹Nonempty { t : Token // P t.kind }›
    rcases hts.cases with ⟨t, l, e?, rfl⟩ | ⟨e, rfl⟩
    · by_cases ht : P t.kind
      · exact .found ⟨t, ht⟩ ⟨l, e?⟩ rfl trivial (Reader.accept_of_mem x ht l e?)
      · exact .refused ⟨x, t⟩ [] d₀ (List.prefix_append [t] l) List.nil_prefix
          (refuses_next (Reader.accept_of_not_mem x ht))
    · exact .cut e d₀ rfl List.nil_prefix rfl

theorem reads_expect (k : Kind) [Nonempty { t : Token // t.kind = k }] (x : Expected) :
    Reads (Reader.expect k x) (Phrase.one k) (fun t => t.1) :=
  reads_accept (· = k) x

/-! ## One phrase behind another -/

/-- The end of a derivation shows in the tokens that a reader behind it goes through up to one that
it refuses. -/
def Phrase.LocalBefore (p : Phrase δ) (r : Reader Tokens α) : Prop :=
  ∀ ⦃d m l ts ts'⦄, l ++ [Misfit.found m] <+: ts.list → l ++ [Misfit.found m] <+: ts'.list →
    Refuses r l m → p.Ends d ts → p.Ends d ts'

theorem Phrase.Local.localBefore {p : Phrase δ} (hp : p.Local) (r : Reader Tokens α) :
    p.LocalBefore r := by
  intro d m l ts ts' hl hl' _ hd
  obtain ⟨t, ht, ht'⟩ := head?_of_isPrefix hl hl'
  exact hp ht ht' hd

theorem Phrase.LocalBefore.seq {p : Phrase δ} {q : Phrase ε} {r : Reader Tokens α} (hp : p.Local)
    (hq : q.LocalBefore r) : (p.seq q).LocalBefore r := by
  intro d m l ts ts' hl hl' hr hd
  obtain ⟨t, ht, ht'⟩ := head?_of_isPrefix hl hl'
  exact ⟨hp.prepend ht ht' hd.1, hq hl hl' hr hd.2⟩

theorem Phrase.LocalBefore.alt {p : Phrase δ} {q : Phrase ε} {r : Reader Tokens α}
    (hp : p.LocalBefore r) (hq : q.LocalBefore r) : (p.alt q).LocalBefore r := by
  rintro (d | e) m l ts ts' hl hl' hr hd
  · exact hp hl hl' hr hd
  · exact hq hl hl' hr hd

theorem Phrase.LocalBefore.via {p : Phrase δ} {r : Reader Tokens α} (hp : p.LocalBefore r)
    (f : δ' ≃ δ) : (p.via f).LocalBefore r :=
  fun d _ _ _ _ hl hl' hr hd => hp (d := f d) hl hl' hr hd

theorem Refuses.of_map {r : Reader Tokens α} {g : α → β} {l : List Token} {m : Misfit}
    (h : Refuses (do let a ← r; return g a) l m) : Refuses r l m := by
  intro ts hts hl
  have herr := h ts hts hl
  cases hr : r ts with
  | ok a =>
      rw [Reader.bind_of_ok hr] at herr
      cases herr
  | error e =>
      rw [Reader.bind_of_error hr] at herr
      cases herr
      rfl

theorem Phrase.LocalBefore.map {p : Phrase δ} {r : Reader Tokens α} (hp : p.LocalBefore r)
    (g : α → β) : p.LocalBefore (do let a ← r; return g a) :=
  fun _ _ _ _ _ hl hl' hr hd => hp hl hl' hr.of_map hd

/-- What a reader does that has a derivation `d` behind it and goes on as `s`.  A token that `s`
refuses is refused by the whole reader, because on another list `d` ends as it does here. -/
theorem Outcome.behind {ζ : Type} {r s : Reader Tokens β} {p : Phrase δ} {q : Phrase ε}
    {z : Phrase ζ} {w : ζ → β} {d : δ} {ts : Tokens} (join : ε → ζ)
    (h : Outcome s q (fun e => w (join e)) ts) (hp : p.LocalBefore s)
    (hendless : ∀ t ∈ p.tokens d, t.kind ≠ .endOfText) (hts : ts.Closed) (hd : p.Ends d ts)
    (htokens : ∀ e, z.tokens (join e) = p.tokens d ++ q.tokens e)
    (hends : ∀ e ts', p.Ends d (ts'.prepend (q.tokens e)) → q.Ends e ts' → z.Ends (join e) ts')
    (hr : ∀ ts' : Tokens, ts'.Closed → p.Ends d ts' → r (ts'.prepend (p.tokens d)) = s ts') :
    Outcome r z w (ts.prepend (p.tokens d)) := by
  cases h with
  | found e ts₁ he hends₁ hok =>
      refine .found (join e) ts₁ ?_ (hends e ts₁ (he ▸ hd) hends₁) ((hr ts hts hd).trans hok)
      rw [he, htokens, Tokens.prepend_append]
  | cut x e hx hpre herr =>
      refine .cut x (join e) hx ?_ ((hr ts hts hd).trans herr)
      rw [htokens]
      exact (List.prefix_append_right_inj _).mpr hpre
  | refused m l e hm hpre hall =>
      refine .refused m (p.tokens d ++ l) (join e) ?_ ?_ fun ts' hts' hl => ?_
      · rw [List.append_assoc]
        exact (List.prefix_append_right_inj _).mpr hm
      · rw [htokens]
        exact (List.prefix_append_right_inj _).mpr hpre
      · rw [List.append_assoc] at hl
        obtain ⟨ts₁, rfl, hm₁⟩ := Tokens.exists_prepend_of_isPrefix hl
        have hts₁ := hts'.of_prepend hendless
        exact (hr ts₁ hts₁ (hp hm hm₁ hall hd)).trans (hall ts₁ hts₁ hm₁)

/-! ## Sequence -/

namespace Reads

variable {r : Reader Tokens α} {p : Phrase δ} {q : Phrase ε} {v : δ → α} {P : Kind → Prop}

theorem congr {r' : Reader Tokens α} (hr : Reads r' p v)
    (heq : ∀ ts : Tokens, ts.Closed → r ts = r' ts) :
    Reads r p v where
  complete d _ hts hd := (heq _ (hts.prepend _)).trans (hr.complete d hts hd)
  outcome hts := (hr.outcome hts).congr hts fun ts' hts' _ => heq ts' hts'

theorem via (f : δ' ≃ δ) {v : δ' → α} (hr : Reads r p fun d => v (f.symm d)) :
    Reads r (p.via f) v where
  complete d _ hts hd := by
    have h := hr.complete (f d) hts hd
    rwa [f.symm_apply_apply] at h
  outcome hts := (hr.outcome hts).via f

theorem map (hr : Reads r p v) (g : α → β) :
    Reads (do let a ← r; return g a) p (fun d => g (v d)) where
  complete d ts hts hd := by
    rw [Reader.bind_of_ok (hr.complete d hts hd)]
    rfl
  outcome hts := (hr.outcome hts).map g

/-- Reading one phrase and then another, where the end of the first shows in the next token. -/
theorem bind [Nonempty ε] {f : α → Reader Tokens β} {w : δ × ε → β} (hr : Reads r p v)
    (hdef : p.Definite P) (hp : p.Local) (hf : ∀ d, Reads (f (v d)) q fun e => w (d, e)) :
    Reads (r >>= f) (p.seq q) w where
  complete d ts hts hd := by
    obtain ⟨hd₁, hd₂⟩ := hd
    show (r >>= f) (ts.prepend (p.tokens d.1 ++ q.tokens d.2)) = _
    rw [Tokens.prepend_append, Reader.bind_of_ok (hr.complete d.1 (hts.prepend _) hd₁)]
    exact (hf d.1).complete d.2 hts hd₂
  outcome {ts} hts := by
    cases hr.outcome hts with
    | cut e d he hpre herr =>
        obtain ⟨d₂⟩ := ‹Nonempty ε›
        exact .cut e (d, d₂) he (hpre.trans (List.prefix_append _ _)) (Reader.bind_of_error herr)
    | refused m l d hm hpre hall =>
        obtain ⟨d₂⟩ := ‹Nonempty ε›
        exact .refused m l (d, d₂) hm (hpre.trans (List.prefix_append _ _))
          fun ts' hts' h => Reader.bind_of_error (hall ts' hts' h)
    | found d ts₁ hd he hok =>
        subst hd
        have hts₁ := hts.of_prepend (hdef.endless d)
        refine ((hf d).outcome hts₁).behind (fun e => (d, e)) (hp.localBefore _)
          (hdef.endless d) hts₁ he (fun _ => rfl) (fun _ _ h h' => ⟨h, h'⟩) ?_
        intro ts' hts' hd'
        exact Reader.bind_of_ok (hr.complete d hts' hd')

/-- Behind a phrase that has been read, readers may differ where the phrase does not end. -/
theorem bind_eq {f g : α → Reader Tokens β} (hr : Reads r p v) (hdef : p.Definite P)
    (hfg : ∀ d {ts : Tokens}, ts.Closed → p.Ends d ts → f (v d) ts = g (v d) ts) {ts : Tokens}
    (hts : ts.Closed) : (r >>= f) ts = (r >>= g) ts := by
  cases hr.outcome hts with
  | found d ts' hd he hok =>
      subst hd
      rw [Reader.bind_of_ok hok, Reader.bind_of_ok hok]
      exact hfg d (hts.of_prepend (hdef.endless d)) he
  | cut e d he hpre herr => rw [Reader.bind_of_error herr, Reader.bind_of_error herr]
  | refused m l d hm hpre hall =>
      rw [Reader.bind_of_error (hall ts hts hm), Reader.bind_of_error (hall ts hts hm)]

end Reads

/-! ## Choice -/

/-- The contract on lists that start with kinds in `P`. -/
structure Branch (r : Reader Tokens α) (P : Kind → Prop) (p : Phrase δ) (value : δ → α) : Prop where
  complete (d : δ) {ts : Tokens} : ts.Closed → p.Ends d ts →
    r (ts.prepend (p.tokens d)) = .ok (value d, ts)
  outcome {ts : Tokens} : ts.Closed → ts.Next P → Outcome r p value ts

namespace Branch

variable {r r' : Reader Tokens α} {P Q : Kind → Prop} {p : Phrase δ} {q : Phrase ε} {v : δ → α}

theorem of_reads (h : Reads r' p v) (hp : p.Definite P)
    (heq : ∀ t l e?, P (Token.kind t) → r ⟨t :: l, e?⟩ = r' ⟨t :: l, e?⟩) : Branch r P p v where
  complete d ts hts hd := by
    obtain ⟨t, l, hl, ht⟩ := hp.starts d hd
    have hsame := heq t l ts.error? ht
    rw [← hl] at hsame
    exact hsame.trans (h.complete d hts hd)
  outcome := by
    rintro ⟨_, e?⟩ hts ⟨t, l, rfl, ht⟩
    refine (h.outcome hts).congr hts ?_
    rintro ⟨_, e'⟩ - hhead
    obtain ⟨l', rfl⟩ := List.head?_eq_some_iff.mp hhead
    exact heq t l' e' ht

theorem of_before {a : α}
    (heq : ∀ t l e?, P (Token.kind t) → r ⟨t :: l, e?⟩ = .ok (a, ⟨t :: l, e?⟩)) :
    Branch r P (Phrase.before P) (fun _ => a) where
  complete := by
    rintro - ⟨_, e?⟩ - ⟨t, l, rfl, ht⟩
    exact heq t l e? ht
  outcome := by
    rintro ⟨_, e?⟩ - ⟨t, l, rfl, ht⟩
    exact .found () _ rfl ⟨t, l, rfl, ht⟩ (heq t l e? ht)

theorem alt {u : δ ⊕ ε → α} (h : Branch r P p fun d => u (.inl d))
    (h' : Branch r Q q fun e => u (.inr e)) : Branch r (fun k => P k ∨ Q k) (p.alt q) u where
  complete := by
    rintro (d | e) ts hts hd
    · exact h.complete d hts hd
    · exact h'.complete e hts hd
  outcome := by
    rintro ts hts ⟨t, l, hl, ht | ht⟩
    · exact (h.outcome hts ⟨t, l, hl, ht⟩).inl
    · exact (h'.outcome hts ⟨t, l, hl, ht⟩).inr

theorem via (f : δ' ≃ δ) {v : δ' → α} (h : Branch r P p fun d => v (f.symm d)) :
    Branch r P (p.via f) v where
  complete d _ hts hd := by
    have h := h.complete (f d) hts hd
    rwa [f.symm_apply_apply] at h
  outcome hts hP := (h.outcome hts hP).via f

theorem reads [Nonempty δ] (h : Branch r P p v) (x : Expected)
    (hrefuse : ∀ t l e?, ¬ P (Token.kind t) → r ⟨t :: l, e?⟩ = .error (.misfit ⟨x, t⟩))
    (herror : ∀ e, r ⟨[], some e⟩ = .error (.scan e)) : Reads r p v where
  complete := h.complete
  outcome {ts} hts := by
    obtain ⟨d₀⟩ := ‹Nonempty δ›
    rcases hts.cases with ⟨t, l, e?, rfl⟩ | ⟨e, rfl⟩
    · by_cases ht : P t.kind
      · exact h.outcome hts ⟨t, l, rfl, ht⟩
      · exact .refused ⟨x, t⟩ [] d₀ (List.prefix_append [t] l) List.nil_prefix
          (refuses_next fun l e? => hrefuse t l e? ht)
    · exact .cut e d₀ rfl List.nil_prefix (herror e)

end Branch

/-! ## Repetition -/

namespace Reads

variable {r : Reader Tokens (Option α)} {hr : Reader.Advances r} {p : Phrase δ} {q : Phrase ε}
  {v : δ → α} {P : Kind → Prop}

theorem many_complete (h : Reads r (p.alt q) (Sum.elim (fun d => some (v d)) fun _ => none)) :
    ∀ {ds : List δ} {e : ε} {ts : Tokens}, ts.Closed → p.EndsAll q ds e ts →
      Reader.many r hr (ts.prepend ((p.rounds q).tokens (ds, e))) = .ok (ds.map v, ts)
  | [], e, ts, hts, hd => Reader.many_of_none hr (h.complete (.inr e) hts hd)
  | d :: ds, e, ts, hts, hd => by
      have hround : r ((ts.prepend ((p.rounds q).tokens (ds, e))).prepend (p.tokens d)) =
          .ok (some (v d), ts.prepend ((p.rounds q).tokens (ds, e))) :=
        h.complete (.inl d) (hts.prepend _) hd.1
      rw [Phrase.tokens_rounds_cons, Tokens.prepend_append, Reader.many_of_some hr hround,
        Reader.bind_of_ok (many_complete h hts hd.2)]
      rfl

theorem many_outcome [Nonempty ε]
    (h : Reads r (p.alt q) (Sum.elim (fun d => some (v d)) fun _ => none)) (hdef : p.Definite P)
    (hp : p.LocalBefore (Reader.many r hr)) {ts : Tokens} (hts : ts.Closed) :
    Outcome (Reader.many r hr) (p.rounds q) (fun d => d.1.map v) ts := by
  obtain ⟨e₀⟩ := ‹Nonempty ε›
  have honce : ∀ d, p.tokens d <+: (p.rounds q).tokens ([d], e₀) := fun d => by
    rw [Phrase.tokens_rounds_cons]
    exact List.prefix_append _ _
  induction hn : TokenSource.size ts using Nat.strongRecOn generalizing ts with
  | ind n ih =>
      cases h.outcome hts with
      | cut e d he hpre herr =>
          have herr' := Reader.many_of_error hr herr
          cases d with
          | inl d => exact .cut e ([d], e₀) he (hpre.trans (honce d)) herr'
          | inr e' => exact .cut e ([], e') he hpre herr'
      | refused m l d hm hpre hall =>
          have hall' : Refuses (Reader.many r hr) l m :=
            fun ts' hts' hl => Reader.many_of_error hr (hall ts' hts' hl)
          cases d with
          | inl d => exact .refused m l ([d], e₀) hm (hpre.trans (honce d)) hall'
          | inr e' => exact .refused m l ([], e') hm hpre hall'
      | found d ts₁ hd he hok =>
          cases d with
          | inr e => exact .found ([], e) ts₁ hd he (Reader.many_of_none hr hok)
          | inl d =>
              subst hd
              have hts₁ := hts.of_prepend (hdef.endless d)
              have hlt := (hr _ _ _ hok).2 rfl
              have hlater := (ih _ (hn ▸ hlt) hts₁ rfl).map (v d :: ·)
              show Outcome _ _ _ (ts₁.prepend (p.tokens d))
              refine hlater.behind (fun ds : List δ × ε => (d :: ds.1, ds.2)) (hp.map _)
                (hdef.endless d) hts₁ he ?_ (fun _ _ h₁ h₂ => ⟨h₁, h₂⟩) ?_
              · exact fun ds => p.tokens_rounds_cons q d ds.1 ds.2
              · intro ts' hts' hd'
                exact Reader.many_of_some hr (h.complete (.inl d) hts' hd')

/-- Repeating a reader that finds one phrase or ends with another. -/
theorem many [Nonempty ε] (h : Reads r (p.alt q) (Sum.elim (fun d => some (v d)) fun _ => none))
    (hdef : p.Definite P) (hp : p.LocalBefore (Reader.many r hr)) :
    Reads (Reader.many r hr) (p.rounds q) (fun d => d.1.map v) where
  complete _ _ hts hd := many_complete h hts hd
  outcome hts := many_outcome h hdef hp hts

end Reads

end Grammar

end IntScript
