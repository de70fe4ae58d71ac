import IntScript.Bindings.Lemmas
import IntScript.Proofs.Machine.Events

/-!
# What is done outside of calls

Most of the events of a run happen inside of calls.  The deeds of a run are those that do not: the
lines, assignments and declarations that it makes while no call is open (`Machine.deeds`).

| | |
| :-- | :-- |
| who does them | the statements of the program, one deed each, in order (`exists_completes`) |
| what they do | all that happens to globals and functions (`replay_latest`) |

Of an expression there are no deeds, whatever its calls do, for they are inside of calls
(`Told.law_sheltered`).  And since the body of a function assigns in its frame and declares nothing,
the globals are what the deeds have assigned, and the functions are what they have declared.
-/

namespace IntScript

namespace Event

/-- The event comes from a statement. -/
def isDeed : Event → Bool
  | .enter .. | .leave => false
  | _ => true

/-- The value that the event gives to a global variable. -/
def assigned? (name : String) : Event → Option Int64
  | .assign target v => if target = name then some v else none
  | _ => none

/-- The function that the event declares under a name. -/
def declared? (name : String) : Event → Option Tree
  | .declare d => if d.literal = name then some d else none
  | _ => none

/-- The last of the events that say something about a matter, and what it says. -/
def latest {α : Type} (f : Event → Option α) (es : List Event) : Option α :=
  (es.filterMap f).getLast?

@[simp] theorem latest_nil {α : Type} (f : Event → Option α) : latest f [] = none := rfl

theorem latest_append {α : Type} (f : Event → Option α) (es es' : List Event) :
    latest f (es ++ es') = (latest f es').or (latest f es) := by
  unfold latest
  rw [List.filterMap_append, List.getLast?_append]

theorem latest_singleton {α : Type} (f : Event → Option α) (e : Event) : latest f [e] = f e := by
  unfold latest
  cases h : f e <;> simp [h]

theorem exists_latest {α : Type} {f : Event → Option α} {es : List Event} :
    (∃ a, latest f es = some a) ↔ ∃ e ∈ es, ∃ a, f e = some a := by
  unfold latest
  constructor
  · rintro ⟨a, ha⟩
    obtain ⟨e, he, hfe⟩ := List.mem_filterMap.mp (List.mem_of_getLast? ha)
    exact ⟨e, he, a, hfe⟩
  · rintro ⟨e, he, a, hfe⟩
    have hne : es.filterMap f ≠ [] := List.ne_nil_of_mem (List.mem_filterMap.mpr ⟨e, he, hfe⟩)
    exact ⟨_, List.getLast?_eq_some_getLast hne⟩

theorem exists_declared? {name : String} {e : Event} :
    (∃ d, declared? name e = some d) ↔ ∃ d, e = .declare d ∧ d.literal = name := by
  cases e with
  | declare d => simp [declared?]
  | _ => simp [declared?]

end Event

namespace Machine

variable {m : Machine} {es es' : List Event}

/-- The lines, assignments and declarations that are made while no call is open. -/
def deeds (m : Machine) (es : List Event) : List Event :=
  ((m.moments es).filter fun p => p.1.frames.isEmpty && p.2.isDeed).map Prod.snd

theorem deeds_append (m : Machine) (es es' : List Event) :
    m.deeds (es ++ es') = m.deeds es ++ (m.replay es).deeds es' := by
  unfold deeds
  rw [moments_append, List.filter_append, List.map_append]

theorem deeds_cons (m : Machine) (e : Event) (es : List Event) :
    m.deeds (e :: es) = m.deeds [e] ++ (m.apply e).deeds es :=
  m.deeds_append [e] es

theorem deeds_of_frames_eq_nil (h : m.frames = []) {e : Event} (he : e.isDeed = true) :
    m.deeds [e] = [e] := by
  simp [deeds, moments, h, he]

theorem deeds_of_frames_ne_nil (h : m.frames ≠ []) (e : Event) : m.deeds [e] = [] := by
  simp [deeds, moments, h]

/-! ## Events in order -/

theorem mem_moments_append {p : Machine × Event} :
    p ∈ m.moments (es ++ es') ↔ p ∈ m.moments es ∨ p ∈ (m.replay es).moments es' := by
  rw [moments_append, List.mem_append]

/-- The calls that are open at the start stay open, and in the end there are no others. -/
structure Nested (m : Machine) (es : List Event) : Prop where
  above : ∀ p ∈ m.moments es, m.frames.length ≤ p.1.frames.length
  height : (m.replay es).frames.length = m.frames.length

theorem nested_nil (m : Machine) : m.Nested [] where
  above _ h := absurd h List.not_mem_nil
  height := rfl

theorem Nested.append (h : m.Nested es) (h' : (m.replay es).Nested es') : m.Nested (es ++ es') where
  above p hp := by
    rcases mem_moments_append.mp hp with hp | hp
    · exact h.above p hp
    · rw [← h.height]
      exact h'.above p hp
  height := by rw [replay_append, h'.height, h.height]

theorem nested_of_isDeed (m : Machine) {e : Event} (he : e.isDeed = true) : m.Nested [e] where
  above p hp := by
    obtain rfl : p = (m, e) := List.mem_singleton.mp hp
    exact Nat.le_refl _
  height := by
    cases e with
    | print v =>
        obtain ⟨sink, hprint⟩ := m.exists_apply_print v
        exact congrArg (·.frames.length) hprint
    | assign name v => exact (confined_assign m name v).height
    | declare d => rfl
    | enter | leave => cases he

theorem mem_moments_call {frame : Frame} {block : Tree} {p : Machine × Event} :
    p ∈ m.moments (.enter frame block :: (es ++ [.leave])) ↔
      p = (m, .enter frame block) ∨ p ∈ moments { m with frames := frame :: m.frames } es ∨
        p = (replay { m with frames := frame :: m.frames } es, .leave) := by
  rw [moments, List.mem_cons, moments_append, List.mem_append]
  exact or_congr_right (or_congr_right List.mem_singleton)

theorem replay_call (m : Machine) (frame : Frame) (block : Tree) (es : List Event) :
    m.replay (.enter frame block :: (es ++ [.leave])) =
      (replay { m with frames := frame :: m.frames } es).apply .leave := by
  rw [replay_cons, replay_append]
  rfl

/-- All that a call does is inside of it. -/
structure Sheltered (m : Machine) (es : List Event) : Prop extends m.Nested es where
  deeper : ∀ p ∈ m.moments es, p.2.isDeed = true → m.frames.length < p.1.frames.length

theorem sheltered_nil (m : Machine) : m.Sheltered [] where
  toNested := nested_nil m
  deeper _ h := absurd h List.not_mem_nil

theorem Sheltered.append (h : m.Sheltered es) (h' : (m.replay es).Sheltered es') :
    m.Sheltered (es ++ es') where
  toNested := h.toNested.append h'.toNested
  deeper p hp hdeed := by
    rcases mem_moments_append.mp hp with hp | hp
    · exact h.deeper p hp hdeed
    · rw [← h.height]
      exact h'.deeper p hp hdeed

theorem Nested.sheltered_call {frame : Frame} (h : Nested { m with frames := frame :: m.frames } es)
    (block : Tree) : m.Sheltered (.enter frame block :: (es ++ [.leave])) where
  above p hp := by
    rcases mem_moments_call.mp hp with rfl | hp | rfl
    · exact Nat.le_refl _
    · exact Nat.le_of_succ_le (h.above p hp)
    · exact Nat.le_of_succ_le (Nat.le_of_eq h.height.symm)
  height := by
    rw [replay_call]
    show (replay _ es).frames.tail.length = _
    rw [List.length_tail, h.height]
    rfl
  deeper p hp hdeed := by
    rcases mem_moments_call.mp hp with rfl | hp | rfl
    · cases hdeed
    · exact h.above p hp
    · cases hdeed

theorem Sheltered.deeds_eq_nil (h : m.Sheltered es) : m.deeds es = [] := by
  refine List.map_eq_nil_iff.mpr (List.filter_eq_nil_iff.mpr ?_)
  intro p hp hdeed
  obtain ⟨hempty, hdeed⟩ := Bool.and_eq_true_iff.mp hdeed
  have hlt := h.deeper p hp hdeed
  rw [List.isEmpty_iff.mp hempty] at hlt
  exact absurd hlt (Nat.not_lt_zero _)

/-! ## Functions -/

/-- What a program can do at a moment: call a function that is declared, and declare one where no
call is open. -/
def Allows (now : Machine) : Event → Prop
  | .enter frame block =>
    ∃ d, now.functions.get? frame.function = some d ∧ d.child? 1 = some block
  | .declare _ => now.frames = []
  | _ => True

/-- The events are possible, and no function is declared. -/
structure Faithful (m : Machine) (es : List Event) : Prop where
  allows : ∀ p ∈ m.moments es, p.1.Allows p.2
  functions : (m.replay es).functions = m.functions

theorem faithful_nil (m : Machine) : m.Faithful [] where
  allows _ h := absurd h List.not_mem_nil
  functions := rfl

theorem Faithful.append (h : m.Faithful es) (h' : (m.replay es).Faithful es') :
    m.Faithful (es ++ es') where
  allows p hp := by
    rcases mem_moments_append.mp hp with hp | hp
    · exact h.allows p hp
    · exact h'.allows p hp
  functions := by rw [replay_append, h'.functions, h.functions]

theorem faithful_print (m : Machine) (v : Int64) : m.Faithful [.print v] where
  allows p hp := by
    obtain rfl : p = (m, .print v) := List.mem_singleton.mp hp
    exact trivial
  functions := by
    obtain ⟨sink, hprint⟩ := m.exists_apply_print v
    show (m.apply (.print v)).functions = _
    rw [hprint]

theorem faithful_assign (m : Machine) (name : String) (v : Int64) :
    m.Faithful [.assign name v] where
  allows p hp := by
    obtain rfl : p = (m, .assign name v) := List.mem_singleton.mp hp
    exact trivial
  functions := m.functions_assign name v

theorem Faithful.call {frame : Frame} (h : Faithful { m with frames := frame :: m.frames } es)
    {d block : Tree} (hd : m.functions.get? frame.function = some d)
    (hblock : d.child? 1 = some block) : m.Faithful (.enter frame block :: (es ++ [.leave])) where
  allows p hp := by
    rcases mem_moments_call.mp hp with rfl | hp | rfl
    · exact ⟨d, hd, hblock⟩
    · exact h.allows p hp
    · exact trivial
  functions := by
    rw [replay_call]
    exact h.functions

end Machine

/-! ## Calls -/

namespace Told

/-- Bodies keep to their frames, -/
theorem law_nested : StatementLaw fun t m => m.Nested (t m).events :=
  statementLaw_of_events Machine.nested_nil Machine.Nested.append
    (fun m _ => m.nested_of_isDeed rfl) (fun m _ _ => m.nested_of_isDeed rfl)

/-- so all that calls do is inside of them. -/
theorem law_sheltered : Law fun t m => m.Sheltered (t m).events :=
  law_of_events Machine.sheltered_nil Machine.Sheltered.append

theorem sheltered_call (callsAllowed : Bool) (room : Nat) (n : Tree) (m : Machine) :
    m.Sheltered (call callsAllowed room n m).events := by
  refine law_sheltered.call callsAllowed ?_ room n m
  intro invoke hinvoke m d block frame _ _
  refine Machine.Nested.sheltered_call ?_ block
  refine law_nested.body (fun c m => (hinvoke c m).toNested) frame.function block ?_ _
  intro n _ _ m
  exact m.nested_of_isDeed rfl

theorem law_faithful : StatementLaw fun t m => m.Flat → m.Faithful (t m).events := by
  refine statementLaw_of_events (Q := fun m es => m.Flat → m.Faithful es) ?_ ?_ ?_ ?_
  · intro m _
    exact m.faithful_nil
  · intro m es es' h h' hm
    exact (h hm).append (h' (hm.of_functions_eq (h hm).functions))
  · intro m v _
    exact m.faithful_print v
  · intro m name v _
    exact m.faithful_assign name v

theorem faithful_call (callsAllowed : Bool) (room : Nat) (n : Tree) (m : Machine) :
    m.Flat → m.Faithful (call callsAllowed room n m).events := by
  refine law_faithful.call callsAllowed ?_ room n m
  intro invoke hinvoke m d block frame hd hblock hm
  refine Machine.Faithful.call ?_ hd hblock
  refine law_faithful.body hinvoke frame.function block ?_ _ hm
  intro s hs hform
  exact absurd hform (hm frame.function d block hd hblock s hs)

end Told

/-! ## Globals and functions -/

namespace Machine

variable {α : Type} {m : Machine}

/-- What is settled by single events is settled by the latest deed about it. -/
theorem replay_latest {f : Event → Option α} {g : Machine → Option α}
    (hstep : ∀ m e, m.Allows e → g (m.apply e) = (Event.latest f (m.deeds [e])).or (g m))
    {es : List Event} (h : ∀ p ∈ m.moments es, p.1.Allows p.2) :
    g (m.replay es) = (Event.latest f (m.deeds es)).or (g m) := by
  induction es generalizing m with
  | nil => rfl
  | cons e es ih =>
      have hrest := ih fun p hp => h p (List.mem_cons_of_mem _ hp)
      have hfirst := hstep m e (h (m, e) List.mem_cons_self)
      rw [replay_cons, hrest, hfirst, m.deeds_cons e es, Event.latest_append, Option.or_assoc]

theorem latest_deeds_of_none {f : Event → Option α} {e : Event} (h : f e = none) (m : Machine) :
    Event.latest f (m.deeds [e]) = none := by
  by_cases hdeed : (m.frames.isEmpty && e.isDeed) = true
  · simp [deeds, moments, hdeed, Event.latest_singleton, h]
  · simp [deeds, moments, hdeed]

theorem globals_apply (h : m.frames ≠ []) (e : Event) : (m.apply e).globals = m.globals := by
  cases e with
  | print v =>
      obtain ⟨sink, hprint⟩ := m.exists_apply_print v
      rw [hprint]
  | assign name v => exact (confined_assign m name v).globals h
  | declare d => rfl
  | enter frame block => rfl
  | leave => rfl

theorem get?_globals_apply (m : Machine) (e : Event) (name : String) :
    (m.apply e).globals.get? name =
      (Event.latest (Event.assigned? name) (m.deeds [e])).or (m.globals.get? name) := by
  by_cases hframes : m.frames = []
  · cases e with
    | assign target v =>
        rw [deeds_of_frames_eq_nil hframes rfl, Event.latest_singleton]
        show (m.assign target v).globals.get? name = _
        rw [assign_of_frames_eq_nil hframes]
        exact m.globals.get?_set_eq_or target v name
    | print v =>
        obtain ⟨sink, hprint⟩ := m.exists_apply_print v
        rw [latest_deeds_of_none rfl, hprint]
        rfl
    | declare d =>
        rw [latest_deeds_of_none rfl]
        rfl
    | enter frame block =>
        rw [latest_deeds_of_none rfl]
        rfl
    | leave =>
        rw [latest_deeds_of_none rfl]
        rfl
  · rw [deeds_of_frames_ne_nil hframes, globals_apply hframes]
    rfl

theorem get?_functions_apply {e : Event} (h : m.Allows e) (name : String) :
    (m.apply e).functions.get? name =
      (Event.latest (Event.declared? name) (m.deeds [e])).or (m.functions.get? name) := by
  cases e with
  | declare d =>
      rw [deeds_of_frames_eq_nil h rfl, Event.latest_singleton]
      show (m.functions.set d.literal d).get? name = _
      exact m.functions.get?_set_eq_or d.literal d name
  | print v =>
      obtain ⟨sink, hprint⟩ := m.exists_apply_print v
      rw [latest_deeds_of_none rfl, hprint]
      rfl
  | assign target v =>
      rw [latest_deeds_of_none rfl]
      exact congrArg (·.get? name) (m.functions_assign target v)
  | enter frame block =>
      rw [latest_deeds_of_none rfl]
      rfl
  | leave =>
      rw [latest_deeds_of_none rfl]
      rfl

end Machine

/-! ## Statements -/

/-- The deed of a statement that is run on a machine: what the statement says, with the value that
its expression has there. -/
inductive Done (limits : Limits) (before : Machine) (n : Tree) : Event → Prop
  | print {expr : Tree} {v : Int64} : n.form = .print → n.child? 0 = some expr →
      (before.evaluate limits expr).1 = .ok v → Done limits before n (.print v)
  | assign {target expr : Tree} {v : Int64} : n.form = .assign → n.child? 0 = some target →
      n.child? 1 = some expr → (before.evaluate limits expr).1 = .ok v →
      Done limits before n (.assign target.literal v)
  | declare : n.form = .function → Done limits before n (.declare n)

/-- Statements that are run one after the other to their ends, each with its deed. -/
inductive Completes (limits : Limits) : Machine → List Tree → List Event → Machine → Prop
  | nil (m : Machine) : Completes limits m [] [] m
  | cons {m m' last : Machine} {n : Tree} {e : Event} {l : List Tree} {es : List Event} :
      Done limits m n e → m.execute limits (.node .root n.token [n]) = (.ok (), m') →
      Completes limits m' l es last → Completes limits m (n :: l) (e :: es) last

theorem Machine.Nested.frames_replay {m : Machine} {es : List Event} (h : m.Nested es)
    (hm : m.frames = []) : (m.replay es).frames = [] := by
  have hheight := h.height
  rw [hm] at hheight
  exact List.eq_nil_of_length_eq_zero hheight

namespace Told

variable {limits : Limits} {m : Machine}

theorem sheltered_evaluate? (limits : Limits) (depth : Nat) (n? : Option Tree) (m : Machine) :
    m.Sheltered (evaluate? (callWithin limits depth) n? m).events :=
  law_sheltered.evaluate? (fun c m => sheltered_call _ _ c m) n? m

theorem exists_expression {v : Int64} {n? : Option Tree} (hm : m.frames = [])
    (h : (evaluate? (callWithin limits 0) n? m).result = .ok v) :
    ∃ expr, n? = some expr ∧ (m.evaluate limits expr).1 = .ok v := by
  cases n? with
  | none => cases h
  | some expr =>
      refine ⟨expr, rfl, ?_⟩
      have hact := congrArg (·.run m) (act_evaluate (act_callWithin limits 0) expr)
      unfold Machine.evaluate
      rw [hm]
      exact (congrArg Prod.fst hact).symm.trans h

theorem deeds_evaluate?_bind (hm : m.frames = []) (n? : Option Tree) {f : Int64 → Told Unit}
    {g : Int64 → Event} (hg : ∀ v, (g v).isDeed = true)
    (hf : ∀ v k, f v k = ⟨.ok (), [g v]⟩ ∨ ∃ d, f v k = ⟨.error d, []⟩) :
    (∃ v expr, n? = some expr ∧ (m.evaluate limits expr).1 = .ok v ∧
      ((evaluate? (callWithin limits 0) n? >>= f) m).result = .ok () ∧
      m.deeds ((evaluate? (callWithin limits 0) n? >>= f) m).events = [g v]) ∨
    ∃ d, ((evaluate? (callWithin limits 0) n? >>= f) m).result = .error d ∧
      m.deeds ((evaluate? (callWithin limits 0) n? >>= f) m).events = [] := by
  have hsheltered := sheltered_evaluate? limits 0 n? m
  cases hr : (evaluate? (callWithin limits 0) n? m).result with
  | error d =>
      rw [bind_of_error hr]
      exact .inr ⟨d, rfl, hsheltered.deeds_eq_nil⟩
  | ok v =>
      obtain ⟨expr, hexpr, hvalue⟩ := exists_expression hm hr
      have hframes := hsheltered.toNested.frames_replay hm
      rw [bind_of_ok hr, Machine.deeds_append, hsheltered.deeds_eq_nil, List.nil_append]
      rcases hf v (m.replay (evaluate? (callWithin limits 0) n? m).events) with hdone | ⟨d, hfail⟩
      · rw [hdone]
        exact .inl ⟨v, expr, hexpr, hvalue, rfl, Machine.deeds_of_frames_eq_nil hframes (hg v)⟩
      · rw [hfail]
        exact .inr ⟨d, rfl, rfl⟩

/-- A statement that ends well has one deed, and a statement that fails has none. -/
theorem deeds_statement (limits : Limits) (hm : m.frames = []) (n : Tree) :
    (∃ e, (statement (callWithin limits 0) n m).result = .ok () ∧
      m.deeds (statement (callWithin limits 0) n m).events = [e] ∧ Done limits m n e) ∨
    ∃ d, (statement (callWithin limits 0) n m).result = .error d ∧
      m.deeds (statement (callWithin limits 0) n m).events = [] := by
  rw [statement_eq_elim]
  cases n.asStatement with
  | print hform =>
      have hprint (v : Int64) (k : Machine) :
          print v k = ⟨.ok (), [.print v]⟩ ∨ ∃ d, print v k = ⟨.error d, []⟩ := by
        cases hw : k.sink.write (Text.Decimal.ofInt64 v) with
        | ok sink => exact .inl (print_of_ok hw)
        | error e => exact .inr ⟨_, print_of_error hw⟩
      refine (deeds_evaluate?_bind hm (n.child? 0) (fun _ => rfl) hprint).imp_left ?_
      rintro ⟨v, expr, hexpr, hvalue, hresult, hdeeds⟩
      exact ⟨.print v, hresult, hdeeds, .print hform hexpr hvalue⟩
  | assign target hform htarget =>
      have hassign (v : Int64) (k : Machine) :
          does (.assign target.literal v) k = ⟨.ok (), [.assign target.literal v]⟩ ∨
            ∃ d, does (.assign target.literal v) k = ⟨.error d, []⟩ :=
        .inl rfl
      refine (deeds_evaluate?_bind hm (n.child? 1) (fun _ => rfl) hassign).imp_left ?_
      rintro ⟨v, expr, hexpr, hvalue, hresult, hdeeds⟩
      exact ⟨.assign target.literal v, hresult, hdeeds, .assign hform htarget hexpr hvalue⟩
  | declare hform =>
      exact .inl ⟨.declare n, rfl, Machine.deeds_of_frames_eq_nil hm rfl, .declare hform⟩
  | failed fault => exact .inr ⟨_, rfl, rfl⟩

theorem nested_statement (limits : Limits) (depth : Nat) (n : Tree) (m : Machine) :
    m.Nested (statement (callWithin limits depth) n m).events := by
  refine law_nested.statement (fun c m => (sheltered_call _ _ c m).toNested) ?_ m
  intro _ m
  exact m.nested_of_isDeed rfl

theorem execute_statement {n : Tree} (hm : m.frames = [])
    (h : (statement (callWithin limits 0) n m).result = .ok ()) :
    m.execute limits (.node .root n.token [n]) =
      (.ok (), m.replay (statement (callWithin limits 0) n m).events) := by
  have hrun : (Action.statement (Action.callWithin limits 0) n).run m =
      (.ok (), m.replay (statement (callWithin limits 0) n m).events) := by
    rw [← act_statement (act_callWithin limits 0), run_act, h]
  show (Action.statements (Action.callWithin limits m.frames.length) [n]).run m = _
  rw [hm]
  exact Action.run_bind_of_ok hrun

/-- The deeds of a program are those of its statements up to the first that fails. -/
theorem exists_completes (limits : Limits) (l : List Tree) (hm : m.frames = []) :
    ∃ i last, i ≤ l.length ∧
      Completes limits m (l.take i) (m.deeds (statements (callWithin limits 0) l m).events) last ∧
      ((statements (callWithin limits 0) l m).result = .ok () ↔ i = l.length) := by
  induction l generalizing m with
  | nil => exact ⟨0, m, Nat.le_refl _, .nil m, fun _ => rfl, fun _ => rfl⟩
  | cons n l ih =>
      unfold statements
      rcases deeds_statement limits hm n with ⟨e, hresult, hdeeds, hdone⟩ | ⟨d, hresult, hdeeds⟩
      · have hframes := (nested_statement limits 0 n m).frames_replay hm
        obtain ⟨i, last, hi, hcompletes, hend⟩ := ih hframes
        have hrun := execute_statement hm hresult
        rw [bind_of_ok hresult, Machine.deeds_append, hdeeds]
        refine ⟨i + 1, last, Nat.succ_le_succ hi, .cons hdone hrun hcompletes, ?_⟩
        rw [hend, List.length_cons, Nat.succ_inj]
      · rw [bind_of_error hresult, hdeeds]
        refine ⟨0, m, Nat.zero_le _, .nil m, ?_, ?_⟩
        · intro h
          cases h
        · intro h
          cases h

end Told

end IntScript
