import IntScript.Proofs.Machine.Deeds
import IntScript.Proofs.Session.Failure
import IntScript.Text.Utf8.Lemmas

/-!
# What a session lists

A session lists its global variables and its functions.  The main statement says what it has to do
with the texts that have been run since the last reset (`Session.listings_exact`).  Of these texts,
whether they came to their ends or not, the deeds are taken one after the other, that is the
statements that were completed outside of any call:

| listed | |
| :-- | :-- |
| a variable with its value | the latest assignment to the variable gave it that value |
| a function | there is a declaration of the function |

A call runs the body of the latest declaration before it, at whatever depth it is made, and nothing
that happens inside of a call changes a global variable.  Names are listed in the order of their
bytes.
-/

namespace IntScript

/-! ## Statements of a text -/

namespace Told

variable {limits : Limits} {m : Machine}

theorem allows_statement (limits : Limits) (hflat : m.Flat) (hm : m.frames = []) (n : Tree) :
    ∀ p ∈ m.moments (statement (callWithin limits 0) n m).events, p.1.Allows p.2 := by
  by_cases hform : n.form = .function
  · rw [statement_eq_elim]
    cases n.asStatement with
    | print hform' => cases hform.symm.trans hform'
    | assign _ hform' _ => cases hform.symm.trans hform'
    | declare _ =>
        intro p hp
        obtain rfl : p = (m, .declare n) := List.mem_singleton.mp hp
        exact hm
    | failed fault =>
        intro p hp
        exact absurd hp List.not_mem_nil
  · refine (law_faithful.statement ?_ ?_ m hflat).allows
    · intro c k
      exact faithful_call _ _ c k
    · intro h
      exact absurd h hform

theorem snd_run_statement (limits : Limits) (depth : Nat) (n : Tree) (m : Machine) :
    ((Action.statement (Action.callWithin limits depth) n).run m).2 =
      m.replay (statement (callWithin limits depth) n m).events := by
  rw [← act_statement (act_callWithin limits depth)]
  rfl

theorem allows_statements {l : List Tree}
    (hl : ∀ n ∈ l, (n.form = .print ∨ n.form = .assign ∨ n.form = .function) ∧ n.WellFormed)
    (hknows : m.Knows Tree.Proper) (hm : m.frames = []) :
    ∀ p ∈ m.moments (statements (callWithin limits 0) l m).events, p.1.Allows p.2 := by
  induction l generalizing m with
  | nil => exact fun p hp => absurd hp List.not_mem_nil
  | cons n l ih =>
      have hfirst := allows_statement limits hknows.flat hm n
      unfold statements
      cases hr : (statement (callWithin limits 0) n m).result with
      | error d =>
          rw [bind_of_error hr]
          exact hfirst
      | ok u =>
          rw [bind_of_ok hr]
          intro p hp
          rcases Machine.mem_moments_append.mp hp with hp | hp
          · exact hfirst p hp
          · refine ih (fun n hn => hl n (List.mem_cons_of_mem _ hn)) ?_ ?_ p hp
            · -- the functions are still well formed, also if this is a declaration
              obtain ⟨hform, hwf⟩ := hl n List.mem_cons_self
              have hkeeps := Action.keeps_statement (fun _ hn => hn)
                (Action.keeps_call (fun _ hn => hn) limits.callsAllowed (limits.maxDepth - 0))
                hform hwf m hknows
              rw [← snd_run_statement limits 0 n m]
              exact hkeeps.1
            · exact (nested_statement limits 0 n m).frames_replay hm

end Told

namespace Session

/-! ## Texts -/

/-- The events of a text that is run. -/
def record (s : Session) (bs : List UInt8) : List Event :=
  match parse bs s.keywords with
  | .error _ => []
  | .ok root => (Told.execute s.limits root s.machine).events

/-- Goes on with steps from where `texts` have been run since the last reset. -/
def recentFrom (s : Session) (texts : List (Session × List UInt8)) :
    List Step → List (Session × List UInt8)
  | [] => texts
  | .run bs :: steps => (s.run bs).2.recentFrom (texts ++ [(s, bs)]) steps
  | .reset :: steps => s.reset.recentFrom [] steps

/-- The texts that are run after the last reset, each with the session that it is run in. -/
def recent (s : Session) (steps : List Step) : List (Session × List UInt8) := s.recentFrom [] steps

/-- What the statements of the texts do outside of calls. -/
def deeds (texts : List (Session × List UInt8)) : List Event :=
  texts.flatMap fun p => p.1.machine.deeds (p.1.record p.2)

theorem record_of_parse {s : Session} {bs : List UInt8} {root : Tree}
    (h : parse bs s.keywords = .ok root) :
    s.record bs = (Told.execute s.limits root s.machine).events := by
  unfold record
  rw [h]

theorem record_of_parse_error {s : Session} {bs : List UInt8} {e : ParseError}
    (h : parse bs s.keywords = .error e) : s.record bs = [] := by
  unfold record
  rw [h]

theorem machine_run (s : Session) (bs : List UInt8) :
    (s.run bs).2.machine = s.machine.replay (s.record bs) := by
  cases hparse : parse bs s.keywords with
  | error e =>
      rw [run_of_parse_error hparse, record_of_parse_error hparse]
      rfl
  | ok root =>
      rw [run_of_parse hparse, record_of_parse hparse, Machine.execute_eq_account]

/-- A session that has come from a machine on which nothing has run by texts. -/
inductive Recent : List (Session × List UInt8) → Session → Prop
  | fresh {s : Session} (sink : Sink) : s.machine = .ofSink sink → Recent [] s
  | run {texts : List (Session × List UInt8)} {s : Session} (bs : List UInt8) : Recent texts s →
      Recent (texts ++ [(s, bs)]) (s.run bs).2

theorem Recent.recentFrom {texts : List (Session × List UInt8)} {s : Session} (h : Recent texts s)
    (steps : List Step) : Recent (s.recentFrom texts steps) (s.after steps) := by
  induction steps generalizing texts s with
  | nil => exact h
  | cons step steps ih =>
      cases step with
      | run bs => exact ih (h.run bs)
      | reset => exact ih (.fresh s.machine.sink rfl)

theorem Recent.of_append {texts : List (Session × List UInt8)} {s : Session} (h : Recent texts s)
    {earlier later : List (Session × List UInt8)} {p : Session × List UInt8}
    (htexts : texts = earlier ++ p :: later) : Recent earlier p.1 := by
  induction h generalizing later with
  | fresh sink _ => simp at htexts
  | @run texts s bs h ih =>
      rcases List.eq_nil_or_concat later with rfl | ⟨later, q, rfl⟩
      · obtain ⟨rfl, hp⟩ := List.append_inj' htexts rfl
        cases hp
        exact h
      · rw [List.concat_eq_append, ← List.cons_append, ← List.append_assoc] at htexts
        exact ih (List.append_inj' htexts rfl).1

section

variable {texts : List (Session × List UInt8)} {s : Session}

theorem Recent.knows (h : Recent texts s) : s.machine.Knows Tree.Proper := by
  induction h with
  | fresh sink hs =>
      rw [hs]
      exact Machine.knows_ofSink _ sink
  | run bs _ ih => exact knows_run ih bs

theorem Recent.frames (h : Recent texts s) : s.machine.frames = [] := by
  induction h with
  | fresh sink hs =>
      rw [hs]
      rfl
  | run bs _ ih => exact frames_run ih bs

/-! ## Events of a text -/

theorem Recent.execute_eq (h : Recent texts s) {bs : List UInt8} {root : Tree}
    (hparse : parse bs s.keywords = .ok root) :
    Told.execute s.limits root s.machine =
      Told.statements (Told.callWithin s.limits 0) root.children s.machine := by
  rw [Told.execute_of_form (wellFormed_of_parse hparse).1, h.frames]
  rfl

theorem Recent.allows (h : Recent texts s) (bs : List UInt8) :
    ∀ p ∈ s.machine.moments (s.record bs), p.1.Allows p.2 := by
  cases hparse : parse bs s.keywords with
  | error e =>
      rw [record_of_parse_error hparse]
      exact fun p hp => absurd hp List.not_mem_nil
  | ok root =>
      obtain ⟨hform, hwf⟩ := wellFormed_of_parse hparse
      rw [record_of_parse hparse, h.execute_eq hparse]
      refine Told.allows_statements ?_ h.knows h.frames
      intro n hn
      have hproper := hwf.self
      rw [Tree.Proper, hform] at hproper
      exact ⟨hproper n hn, hwf.child hn⟩

theorem Recent.exists_completes (h : Recent texts s) {bs : List UInt8} {root : Tree}
    (hparse : parse bs s.keywords = .ok root) :
    ∃ i last, i ≤ root.children.length ∧
      Completes s.limits s.machine (root.children.take i) (s.machine.deeds (s.record bs)) last ∧
      ((s.run bs).1 = .ok () ↔ i = root.children.length) := by
  obtain ⟨i, last, hi, hcompletes, hend⟩ :=
    Told.exists_completes s.limits root.children h.frames
  rw [← h.execute_eq hparse] at hcompletes hend
  rw [record_of_parse hparse]
  refine ⟨i, last, hi, hcompletes, ?_⟩
  rw [← hend, run_of_parse hparse, Machine.execute_eq_account]
  cases (Told.execute s.limits root s.machine).result with
  | error e =>
      constructor
      · intro h
        cases h
      · intro h
        cases h
  | ok u => exact ⟨fun _ => rfl, fun _ => rfl⟩

/-! ## Listings -/

theorem deeds_concat (texts : List (Session × List UInt8)) (s : Session) (bs : List UInt8) :
    deeds (texts ++ [(s, bs)]) = deeds texts ++ s.machine.deeds (s.record bs) := by
  unfold deeds
  rw [List.flatMap_append, List.flatMap_singleton]

/-- What single events settle is settled by the latest deed of the texts, and of the events of the
next one so far. -/
theorem Recent.latest {α : Type} (h : Recent texts s) {f : Event → Option α}
    {g : Machine → Option α} (hfresh : ∀ sink, g (.ofSink sink) = none)
    (hstep : ∀ m e, m.Allows e → g (m.apply e) = (Event.latest f (m.deeds [e])).or (g m)) :
    g s.machine = Event.latest f (deeds texts) := by
  induction h with
  | fresh sink hs =>
      rw [hs]
      exact hfresh sink
  | @run texts s bs h ih =>
      rw [machine_run, Machine.replay_latest hstep (h.allows bs), deeds_concat,
        Event.latest_append, ih]

theorem Recent.get?_globals (h : Recent texts s) (name : String) :
    s.machine.globals.get? name = Event.latest (Event.assigned? name) (deeds texts) :=
  h.latest (g := fun m => m.globals.get? name) (fun _ => rfl)
    (fun m e _ => m.get?_globals_apply e name)

theorem Recent.get?_functions (h : Recent texts s) (name : String) :
    s.machine.functions.get? name = Event.latest (Event.declared? name) (deeds texts) :=
  h.latest (g := fun m => m.functions.get? name) (fun _ => rfl)
    (fun _ _ he => Machine.get?_functions_apply he name)

/-- A call enters the body of the latest declaration. -/
theorem Recent.exists_declared (h : Recent texts s) {bs : List UInt8} {before behind : List Event}
    {frame : Frame} {block : Tree}
    (hrecord : s.record bs = before ++ .enter frame block :: behind) :
    ∃ d, Event.latest (Event.declared? frame.function) (deeds texts ++ s.machine.deeds before) =
      some d ∧ d.child? 1 = some block := by
  have hallows := h.allows bs
  rw [hrecord] at hallows
  have hbefore : ∀ p ∈ s.machine.moments before, p.1.Allows p.2 := by
    intro p hp
    exact hallows p (Machine.mem_moments_append.mpr (.inl hp))
  obtain ⟨d, hd, hblock⟩ := hallows (s.machine.replay before, .enter frame block)
    (Machine.mem_moments_append.mpr (.inr List.mem_cons_self))
  refine ⟨d, ?_, hblock⟩
  have hlatest := Machine.replay_latest (g := fun m => m.functions.get? frame.function)
    (fun _ _ he => Machine.get?_functions_apply he frame.function) hbefore
  rw [Event.latest_append, ← h.get?_functions, ← hd]
  exact hlatest.symm

end

/-! ## Main statement -/

/-- The record of a text that is run after others. -/
structure Accounted (earlier : List (Session × List UInt8)) (s : Session) (bs : List UInt8) :
    Prop where
  /-- What is recorded is what the run does. -/
  replayed : (s.run bs).2.machine = s.machine.replay (s.record bs)
  /-- Of a text that is not a program there is nothing to record. -/
  refused : ∀ e, parse bs s.keywords = .error e → s.record bs = []
  /-- A deed is a statement of the text that has been completed. -/
  completed : ∀ root, parse bs s.keywords = .ok root → ∃ i last, i ≤ root.children.length ∧
    Completes s.limits s.machine (root.children.take i) (s.machine.deeds (s.record bs)) last ∧
    ((s.run bs).1 = .ok () ↔ i = root.children.length)
  /-- A call runs the latest function of its name. -/
  latest : ∀ before frame block behind, s.record bs = before ++ .enter frame block :: behind →
    ∃ d, Event.latest (Event.declared? frame.function) (deeds earlier ++ s.machine.deeds before) =
      some d ∧ d.child? 1 = some block
  /-- What happens inside of calls leaves the global variables as they are. -/
  confined : ∀ now e, (now, e) ∈ s.machine.moments (s.record bs) → now.frames ≠ [] →
    (now.apply e).globals = now.globals

/-- What a session lists are the deeds of the texts since the last reset. -/
theorem listings_exact (kw : Keywords) (limits : Limits) (sink : Sink) (steps : List Step) :
    let s := (start kw limits sink).after steps
    let texts := (start kw limits sink).recent steps
    (∀ name v, (name, v) ∈ s.globals ↔
      Event.latest (Event.assigned? name) (deeds texts) = some v) ∧
    (∀ name, name ∈ s.functionNames ↔ ∃ d, .declare d ∈ deeds texts ∧ d.literal = name) ∧
    (∀ name, s.machine.functions.get? name =
      Event.latest (Event.declared? name) (deeds texts)) ∧
    (s.globalNames.Pairwise fun a b => Text.Utf8.bytes a < Text.Utf8.bytes b) ∧
    (s.functionNames.Pairwise fun a b => Text.Utf8.bytes a < Text.Utf8.bytes b) ∧
    ∀ earlier s' bs later, texts = earlier ++ (s', bs) :: later → Accounted earlier s' bs := by
  intro s texts
  have h : Recent texts s := (Recent.fresh (s := start kw limits sink) sink rfl).recentFrom steps
  refine ⟨?_, ?_, h.get?_functions, ?_, ?_, ?_⟩
  · intro name v
    rw [← h.get?_globals]
    exact (Bindings.get?_eq_some_iff s.machine.globals).symm
  · intro name
    refine (Bindings.mem_names_iff s.machine.functions).trans ?_
    rw [h.get?_functions, Option.isSome_iff_exists, Event.exists_latest]
    constructor
    · rintro ⟨e, he, hd⟩
      obtain ⟨d, rfl, hname⟩ := Event.exists_declared?.mp hd
      exact ⟨d, he, hname⟩
    · rintro ⟨d, hd, hname⟩
      exact ⟨_, hd, Event.exists_declared?.mpr ⟨d, rfl, hname⟩⟩
  · exact s.machine.globals.sorted_names.imp Text.Utf8.bytes_lt_bytes
  · exact s.machine.functions.sorted_names.imp Text.Utf8.bytes_lt_bytes
  · intro earlier s' bs later htexts
    have h' : Recent earlier s' := h.of_append htexts
    refine ⟨s'.machine_run bs, fun _ => record_of_parse_error, fun _ => h'.exists_completes, ?_, ?_⟩
    · intro before frame block behind hrecord
      exact h'.exists_declared hrecord
    · intro now e _ hnow
      exact Machine.globals_apply hnow e

/-- A text fails after two of its assignments, one of them by a function that assigns to a name of
the same spelling.  The next text declares the function anew. -/
theorem listings_exact_redeclared :
    let bs := ("func f(n) \x7b x = n return x + 1 \x7d " ++
      "x = 1 y = f(x) z = y / 0 x = 7").toUTF8.toList
    let bs' := "func f(n) \x7b return 0 - n \x7d x = f(y)".toUTF8.toList
    let first := (start .standard ⟨9, true⟩ (.ofRoom? none)).after
      [.run "w = 3 x = 9".toUTF8.toList, .reset]
    let steps := [Step.run "w = 3 x = 9".toUTF8.toList, .reset, .run bs, .run bs']
    let s := (start .standard ⟨9, true⟩ (.ofRoom? none)).after steps
    let texts := (start .standard ⟨9, true⟩ (.ofRoom? none)).recent steps
    (first.run bs).1 = .error (.run (.eval ⟨.divisionByZero, ⟨1, 55⟩⟩)) ∧
      s.globals = [("x", -2), ("y", 2)] ∧ s.functionNames = ["f"] ∧
      Event.latest (Event.assigned? "x") (deeds texts) = some (-2) ∧
      texts = [(first, bs), ((first.run bs).2, bs')] ∧
      Accounted [] first bs ∧ Accounted [(first, bs)] (first.run bs).2 bs' := by
  intro bs bs' first steps s texts
  obtain ⟨hglobals, -, -, -, -, haccounted⟩ :=
    listings_exact .standard ⟨9, true⟩ (.ofRoom? none) steps
  have herror : (first.run bs).1 = .error (.run (.eval ⟨.divisionByZero, ⟨1, 55⟩⟩)) := by
    decide +kernel
  have hlisted : s.globals = [("x", -2), ("y", 2)] := by decide +kernel
  have hnames : s.functionNames = ["f"] := by decide +kernel
  have hx : ("x", (-2 : Int64)) ∈ s.globals := by rw [hlisted]; exact List.mem_cons_self
  exact ⟨herror, hlisted, hnames, (hglobals "x" (-2)).mp hx, rfl,
    haccounted [] first bs [((first.run bs).2, bs')] rfl,
    haccounted [(first, bs)] (first.run bs).2 bs' [] rfl⟩

end Session

end IntScript
