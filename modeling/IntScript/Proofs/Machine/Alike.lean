import IntScript.Proofs.Machine.Tandem

/-!
# Machines that no run tells apart

Two machines are alike if what a run can get at is the same in both: the global variables, the
variables of the innermost frame, the output, how many frames there are, and, up to a relation
between trees, the functions.  What is in the frames further out does not matter, nor what the
frames say of the calls they were opened for.

Main statement: runs of like trees on like machines end alike (`Action.tandem_alike`).  They come to
the same value, or fail for the same reason at nodes that correspond, and the machines are alike
again.
-/

namespace IntScript

/-! ## Tables -/

namespace Bindings

variable {α : Type} {R : α → α → Prop}

/-- The tables bind the same names, and each to values that are related. -/
def Rel (R : α → α → Prop) (b b' : Bindings α) : Prop :=
  List.Forall₂ (fun p q => p.1 = q.1 ∧ R p.2 q.2) b.entries b'.entries

theorem Rel.refl (hR : ∀ a, R a a) (b : Bindings α) : Rel R b b :=
  List.forall₂_same.mpr fun p _ => ⟨rfl, hR p.2⟩

theorem Rel.get? {b b' : Bindings α} (h : Rel R b b') (name : String) :
    Option.Rel R (b.get? name) (b'.get? name) := by
  unfold Bindings.get?
  unfold Rel at h
  generalize b.entries = l, b'.entries = l' at h
  induction h with
  | nil => exact .none
  | cons hp _ ih =>
      rw [lookup_cons_eq_ite, lookup_cons_eq_ite, ← hp.1]
      split
      · exact .some hp.2
      · exact ih

theorem Rel.set {b b' : Bindings α} (h : Rel R b b') (name : String) {a a' : α} (ha : R a a') :
    Rel R (b.set name a) (b'.set name a') := by
  show List.Forall₂ _ (place name a b.entries) (place name a' b'.entries)
  unfold Rel at h
  generalize b.entries = l, b'.entries = l' at h
  induction h with
  | nil => exact .cons ⟨rfl, ha⟩ .nil
  | @cons p q l l' hp hl ih =>
      obtain ⟨n, w⟩ := p
      obtain ⟨_, w'⟩ := q
      obtain ⟨rfl, hw⟩ := hp
      unfold place
      split
      · exact .cons ⟨rfl, ha⟩ (.cons ⟨rfl, hw⟩ hl)
      · split
        · exact .cons ⟨rfl, ha⟩ hl
        · exact .cons ⟨rfl, hw⟩ ih

theorem Rel.names_eq {b b' : Bindings α} (h : Rel R b b') : b.names = b'.names := by
  unfold names
  unfold Rel at h
  generalize b.entries = l, b'.entries = l' at h
  induction h with
  | nil => rfl
  | cons hp _ ih => rw [List.map_cons, List.map_cons, hp.1, ih]

theorem Rel.eq (hR : ∀ a a', R a a' → a = a') {b b' : Bindings α} (h : Rel R b b') : b = b' := by
  have hentries : b.entries = b'.entries := by
    refine List.forall₂_eq_eq_eq ▸ List.Forall₂.imp ?_ h
    exact fun p q hp => Prod.ext hp.1 (hR _ _ hp.2)
  obtain ⟨l, hl⟩ := b
  obtain rfl : l = b'.entries := hentries
  rfl

end Bindings

/-! ## Machines -/

/-- The machines are the same to a run, with functions related by `T`. -/
structure Machine.Alike (T : Tree → Tree → Prop) (m m' : Machine) : Prop where
  globals : m.globals = m'.globals
  functions : Bindings.Rel (Tree.Declared T) m.functions m'.functions
  sink : m.sink = m'.sink
  height : m.frames.length = m'.frames.length
  locals : m.frames.head?.map Frame.locals = m'.frames.head?.map Frame.locals

/-- The runs failed for the same reason, and if that shows somewhere, at nodes related by `T`. -/
inductive RunError.Alike (T : Tree → Tree → Prop) : RunError → RunError → Prop
  | write (e : WriteError) : Alike T (.write e) (.write e)
  | missing : Alike T (.eval ⟨.malformed .missingExpression, ⟨0, 0⟩⟩)
      (.eval ⟨.malformed .missingExpression, ⟨0, 0⟩⟩)
  | eval {n n' : Tree} (fault : Fault) : T n n' →
      Alike T (.eval ⟨fault, n.pos⟩) (.eval ⟨fault, n'.pos⟩)

theorem RunError.Alike.eq {e e' : RunError} (h : e.Alike Eq e') : e = e' := by
  cases h with
  | write e => rfl
  | missing => rfl
  | eval fault hn => rw [hn]

namespace Machine.Alike

variable {T : Tree → Tree → Prop} {m m' : Machine}

theorem get?_eq (h : m.Alike T m') (name : String) : m.get? name = m'.get? name := by
  obtain ⟨globals, functions, frames, sink⟩ := m
  obtain ⟨globals', functions', frames', sink'⟩ := m'
  obtain ⟨rfl, -, -, hheight, hlocals⟩ := h
  rcases frames with _ | ⟨frame, outer⟩ <;> rcases frames' with _ | ⟨frame', outer'⟩
  · rfl
  · cases hheight
  · cases hheight
  · have hlocals : frame.locals = frame'.locals := Option.some.inj hlocals
    show (frame.locals.get? name).or (globals.get? name) =
      (frame'.locals.get? name).or (globals.get? name)
    rw [hlocals]

theorem assign (h : m.Alike T m') (name : String) (v : Int64) :
    (m.assign name v).Alike T (m'.assign name v) := by
  obtain ⟨globals, functions, frames, sink⟩ := m
  obtain ⟨globals', functions', frames', sink'⟩ := m'
  obtain ⟨rfl, hfunctions, rfl, hheight, hlocals⟩ := h
  rcases frames with _ | ⟨frame, outer⟩ <;> rcases frames' with _ | ⟨frame', outer'⟩
  · exact ⟨rfl, hfunctions, rfl, rfl, rfl⟩
  · cases hheight
  · cases hheight
  · have hlocals : frame.locals = frame'.locals := Option.some.inj hlocals
    refine ⟨rfl, hfunctions, rfl, hheight, ?_⟩
    show some (frame.locals.set name v) = some (frame'.locals.set name v)
    rw [hlocals]

theorem closed (h : m.Alike T m') {k k' : Machine} (hk : k.Alike T k')
    (hm : k.frames.tail = m.frames) (hm' : k'.frames.tail = m'.frames) :
    Alike T { k with frames := k.frames.tail } { k' with frames := k'.frames.tail } := by
  refine ⟨hk.globals, hk.functions, hk.sink, ?_, ?_⟩
  · rw [hm, hm']
    exact h.height
  · rw [hm, hm']
    exact h.locals

end Machine.Alike

namespace Action

variable {α : Type} {T : Tree → Tree → Prop}

/-- Both runs have failed, and alike. -/
def FailAlike (T : Tree → Tree → Prop) (e : RunError) (m : Machine) (e'? : Option RunError)
    (m' : Machine) : Prop :=
  ∃ e', e'? = some e' ∧ e.Alike T e' ∧ m.Alike T m'

theorem joint_print {m m' : Machine} (h : m.Alike T m') (v : Int64) :
    Joint (Machine.Alike T) (FailAlike T) ((print v).run m) ((print v).run m') := by
  unfold print
  rw [run_get_bind, run_get_bind, ← h.sink]
  cases m.sink.write (Text.Decimal.ofInt64 v) with
  | ok sink => exact .ok ⟨h.globals, h.functions, rfl, h.height, h.locals⟩
  | error e => exact .error ⟨_, rfl, .write e, h⟩

theorem tandem_alike (hT : Tree.ReadAlike T) : Tandem T (Machine.Alike T) (FailAlike T) where
  trees := hT
  get?_eq := Machine.Alike.get?_eq
  functions h name := h.functions.get? name
  height_eq h := h.height
  assign := Machine.Alike.assign
  declare h hn hform := by
    rw [← hT.literal_eq hn (by simp [hform])]
    exact ⟨h.globals, h.functions.set _ ⟨hn, hT.items hn (.inr hform)⟩, h.sink, h.height, h.locals⟩
  print := joint_print
  fault h hn fault := ⟨_, rfl, .eval fault hn, h⟩
  missing h := ⟨_, rfl, .missing, h⟩
  enter h _ _ locals := ⟨h.globals, h.functions, h.sink, congrArg (· + 1) h.height, rfl⟩
  leave h hk := h.closed hk
  abandon h hD hm hm' := by
    obtain ⟨e', he', halike, hk⟩ := hD
    exact ⟨e', he', halike, h.closed hk hm hm'⟩
  go_on _ h _ := by
    obtain ⟨_, he, -⟩ := h
    cases he

theorem Joint.alike_cases {x x' : Except RunError α × Machine}
    (h : Joint (Machine.Alike T) (FailAlike T) x x') :
    x.2.Alike T x'.2 ∧ ((∃ a, x.1 = .ok a ∧ x'.1 = .ok a) ∨
      ∃ e e', x.1 = .error e ∧ x'.1 = .error e' ∧ e.Alike T e') := by
  cases h with
  | @ok a m m' hm => exact ⟨hm, .inl ⟨a, rfl, rfl⟩⟩
  | @error e m m' r hD =>
      obtain ⟨e', he', halike, hm⟩ := hD
      cases r with
      | ok a => cases he'
      | error d =>
          cases he'
          exact ⟨hm, .inr ⟨e, e', rfl, rfl, halike⟩⟩

end Action

end IntScript
