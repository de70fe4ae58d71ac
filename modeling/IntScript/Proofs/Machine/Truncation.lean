import IntScript.Proofs.Machine.Events
import IntScript.Proofs.Machine.Output
import IntScript.Parse.Program

/-!
# Output that is cut off

A program is run twice, from the same machine but for the sink.  One sink takes every line, the
other takes `k` lines and no more.  As long as no more than `k` lines are written, there is no
difference.  At the line after that the second run fails, and nothing is done any more but to leave
the calls that are open.

Main statement: so the second run has written the first `k` lines, and its variables and functions
are those that the first run has when it is about to print the next line
(`Machine.execute_truncates`).

The events of the two runs are compared (`Account.Cut`).  Those of the second run are the events of
the first one up to a `print`, and then one `leave` after the other, which is why a call that is cut
off in the middle leaves no trace but its output.
-/

namespace IntScript

def Event.printed : List Event → List Int64
  | [] => []
  | .print v :: es => v :: printed es
  | _ :: es => printed es

theorem Event.printed_append (es es' : List Event) :
    printed (es ++ es') = printed es ++ printed es' := by
  induction es with
  | nil => rfl
  | cons e es ih =>
      cases e with
      | print v => exact congrArg (v :: ·) ih
      | _ => exact ih

namespace Machine

/-! ## Room -/

/-- The machine with so much room for output, and the same lines. -/
def withRoom (m : Machine) (room? : Option Nat) : Machine :=
  { m with sink := ⟨m.sink.lines, room?⟩ }

/-- The machine with one more line, and as much room. -/
def written (m : Machine) (line : String) : Machine :=
  { m with sink := ⟨m.sink.lines.push line, m.sink.room?⟩ }

theorem apply_print_of_unlimited {m : Machine} (h : m.sink.room? = none) (v : Int64) :
    m.apply (.print v) = m.written (Text.Decimal.ofInt64 v) :=
  apply_print (Sink.write_of_unlimited h _)

theorem apply_print_withRoom (m : Machine) (k : Nat) (v : Int64) :
    (m.withRoom (some (k + 1))).apply (.print v) =
      (m.written (Text.Decimal.ofInt64 v)).withRoom (some k) :=
  rfl

theorem apply_withRoom {e : Event} (h : Event.printed [e] = []) (m : Machine)
    (room? : Option Nat) : (m.withRoom room?).apply e = (m.apply e).withRoom room? := by
  cases e with
  | print v => cases h
  | assign name v =>
      unfold apply assign
      cases hf : m.frames <;> simp [withRoom, hf]
  | declare d => rfl
  | enter frame block => rfl
  | leave => rfl

/-- A sink without a limit has the lines before and one for each value that is printed. -/
theorem sink_replay {m : Machine} (h : m.sink.room? = none) (es : List Event) :
    (m.replay es).sink =
      ⟨m.sink.lines ++ ((Event.printed es).map Text.Decimal.ofInt64).toArray, none⟩ := by
  induction es generalizing m with
  | nil =>
      show m.sink = ⟨m.sink.lines ++ #[], none⟩
      rw [Array.append_empty, ← h]
  | cons e es ih =>
      rw [replay_cons]
      cases e with
      | print v =>
          rw [apply_print_of_unlimited h, ih (m := m.written _) h]
          simp [written, Event.printed]
      | assign name v =>
          have hsink : (m.apply (.assign name v)).sink = m.sink := m.sink_assign name v
          rw [ih (hsink ▸ h), hsink]
          rfl
      | declare d => exact ih h
      | enter frame block => exact ih h
      | leave => exact ih h

theorem replay_withRoom {m : Machine} (h : m.sink.room? = none) {es : List Event} {k : Nat}
    (hk : (Event.printed es).length ≤ k) :
    (m.withRoom (some k)).replay es =
      (m.replay es).withRoom (some (k - (Event.printed es).length)) := by
  induction es generalizing m k with
  | nil => rfl
  | cons e es ih =>
      have hroom : (m.apply e).sink.room? = none := congrArg Sink.room? (sink_replay h [e])
      rw [replay_cons, replay_cons]
      by_cases he : Event.printed [e] = []
      · have hprinted : Event.printed (e :: es) = Event.printed es := by
          rw [← List.singleton_append, Event.printed_append, he, List.nil_append]
        rw [apply_withRoom he, hprinted]
        rw [hprinted] at hk
        exact ih hroom hk
      · cases e with
        | print v =>
            obtain ⟨k, rfl⟩ : ∃ j, k = j + 1 := ⟨k - 1, by simp [Event.printed] at hk; omega⟩
            rw [apply_print_withRoom, ← apply_print_of_unlimited h]
            rw [Event.printed, List.length_cons, Nat.add_sub_add_right]
            exact ih hroom (Nat.le_of_succ_le_succ hk)
        | _ => exact absurd rfl he

/-- The moments when a line is about to be printed, each with the value. -/
def printing (m : Machine) (es : List Event) : List (Machine × Int64) :=
  (m.moments es).filterMap fun
    | (now, .print v) => some (now, v)
    | _ => none

theorem printing_append (m : Machine) (es es' : List Event) :
    m.printing (es ++ es') = m.printing es ++ (m.replay es).printing es' := by
  unfold printing
  rw [moments_append, List.filterMap_append]

theorem map_snd_printing (m : Machine) (es : List Event) :
    (m.printing es).map Prod.snd = Event.printed es := by
  induction es generalizing m with
  | nil => rfl
  | cons e es ih =>
      cases e with
      | print v => exact congrArg (v :: ·) (ih _)
      | _ => exact ih _

theorem length_printing (m : Machine) (es : List Event) :
    (m.printing es).length = (Event.printed es).length := by
  rw [← m.map_snd_printing es, List.length_map]

theorem getElem?_printing (m : Machine) (es : List Event) (v : Int64) (es' : List Event) :
    (m.printing (es ++ .print v :: es'))[(Event.printed es).length]? = some (m.replay es, v) := by
  rw [printing_append, ← m.length_printing es, List.getElem?_append_right (Nat.le_refl _),
    Nat.sub_self]
  rfl

theorem replay_leave (m : Machine) (j : Nat) :
    m.replay (List.replicate j .leave) = { m with frames := m.frames.drop j } := by
  induction j generalizing m with
  | zero => rfl
  | succ j ih =>
      rw [List.replicate_succ, replay_cons, ih]
      simp [apply]

/-- Where the room is used up, and the open calls are left. -/
theorem replay_cut {m : Machine} (h : m.sink.room? = none) (es : List Event) (j : Nat) :
    (m.withRoom (some (Event.printed es).length)).replay (es ++ List.replicate j .leave) =
      { (m.replay es).withRoom (some 0) with frames := (m.replay es).frames.drop j } := by
  rw [replay_append, replay_withRoom h (Nat.le_refl _), replay_leave, Nat.sub_self]
  rfl

end Machine

/-! ## The two accounts -/

/-- How the account of a run with room for `k` lines stands to that of a run without a limit: it is
the same, or it ends where the line after them is to be printed. -/
inductive Account.Cut {α : Type} (k : Nat) (free : Account α) : Account α → Prop
  | whole : (Event.printed free.events).length ≤ k → Cut k free free
  | short (es : List Event) (v : Int64) (es' : List Event) (j : Nat) :
      free.events = es ++ .print v :: es' → (Event.printed es).length = k →
      Cut k free ⟨.error (.write .full), es ++ List.replicate j .leave⟩

/-- The short account is that of a run that prints more lines. -/
theorem Account.Cut.eq_of_le {α : Type} {k : Nat} {free tight : Account α} (h : Cut k free tight)
    (hk : (Event.printed free.events).length ≤ k) : tight = free := by
  cases h with
  | whole => rfl
  | short es v es' j hevents hlength =>
      rw [hevents, Event.printed_append, List.length_append, hlength, Event.printed,
        List.length_cons] at hk
      omega

theorem Account.Cut.exists_of_lt {α : Type} {k : Nat} {free tight : Account α}
    (h : Cut k free tight) (hk : k < (Event.printed free.events).length) :
    ∃ es v es' j, free.events = es ++ .print v :: es' ∧ (Event.printed es).length = k ∧
      tight = ⟨.error (.write .full), es ++ List.replicate j .leave⟩ := by
  cases h with
  | whole hle => exact absurd hk (Nat.not_lt.mpr hle)
  | short es v es' j hevents hlength => exact ⟨es, v, es', j, hevents, hlength, rfl⟩

theorem Account.Cut.inFrame {α : Type} {k : Nat} {free tight : Account α} (h : Cut k free tight)
    (frame : Frame) (block : Tree) :
    Cut k (free.inFrame frame block) (tight.inFrame frame block) := by
  cases h with
  | whole hk =>
      refine .whole ?_
      show (Event.printed (free.events ++ [.leave])).length ≤ k
      rw [Event.printed_append, show Event.printed [.leave] = [] from rfl, List.append_nil]
      exact hk
  | short es v es' j hevents hk =>
      have hleave : List.replicate j Event.leave ++ [.leave] = List.replicate (j + 1) .leave :=
        List.replicate_succ'.symm
      unfold Account.inFrame
      rw [hevents, List.append_assoc, List.append_assoc, hleave]
      exact .short (.enter frame block :: es) v (es' ++ [.leave]) (j + 1) rfl hk

namespace Told

variable {α β : Type}

/-- Wherever there is no limit, a limit does nothing but cut off. -/
def Truncates (t : Told α) (m : Machine) : Prop :=
  m.sink.room? = none → ∀ k, (t m).Cut k (t (m.withRoom (some k)))

/-- What is the same for all sinks and prints nothing is not cut off. -/
theorem truncates_of_eq {t : Told α} {m : Machine}
    (h : ∀ k, t (m.withRoom (some k)) = t m) (hprinted : Event.printed (t m).events = []) :
    t.Truncates m := by
  intro _ k
  rw [h k]
  refine .whole ?_
  rw [hprinted]
  exact Nat.zero_le k

theorem exists_events_bind (t : Told α) (f : α → Told β) (m : Machine) :
    ∃ rest, ((t >>= f) m).events = (t m).events ++ rest := by
  cases hr : (t m).result with
  | error e => exact ⟨[], by rw [bind_of_error hr, List.append_nil]⟩
  | ok a => exact ⟨_, by rw [bind_of_ok hr]⟩

theorem truncates_silent {act : Action α} (h : Action.Looks act) (m : Machine) :
    (silent act).Truncates m := by
  refine truncates_of_eq (fun k => ?_) rfl
  have hfst := congrArg Prod.fst (h m ⟨m.sink.lines, some k⟩)
  exact congrArg (Account.mk · []) hfst

theorem truncates_print (v : Int64) (m : Machine) : (print v).Truncates m := by
  intro hroom k
  rw [print_of_ok (Sink.write_of_unlimited hroom _)]
  cases k with
  | zero => exact .short [] v [] 0 rfl rfl
  | succ k => exact .whole (Nat.succ_le_succ (Nat.zero_le k))

theorem Truncates.bind {t : Told α} {f : α → Told β} {m : Machine} (h : t.Truncates m)
    (hf : ∀ a, (t m).result = .ok a → (f a).Truncates (m.replay (t m).events)) :
    (t >>= f).Truncates m := by
  intro hroom k
  have ht := h hroom k
  generalize htight : t (m.withRoom (some k)) = tight at ht
  cases ht with
  | short es v es' j hevents hk =>
      -- the first part is cut off, and the second is not reached
      rw [bind_of_error (m := m.withRoom (some k)) (by rw [htight]), htight]
      obtain ⟨rest, hrest⟩ := exists_events_bind t f m
      refine .short es v (es' ++ rest) j ?_ hk
      rw [hrest, hevents, List.append_assoc, List.cons_append]
  | whole hk =>
      cases hr : (t m).result with
      | error e =>
          rw [bind_of_error hr, bind_of_error (m := m.withRoom (some k)) (by rw [htight, hr]), htight]
          exact .whole hk
      | ok a =>
          -- the second part has the room that is left
          have hrest := hf a hr (by rw [Machine.sink_replay hroom])
            (k - (Event.printed (t m).events).length)
          rw [← Machine.replay_withRoom hroom hk] at hrest
          rw [bind_of_ok (m := m.withRoom (some k)) (by rw [htight, hr]), htight, bind_of_ok hr]
          generalize f a ((m.withRoom (some k)).replay (t m).events) = rest at hrest
          cases hrest with
          | whole hk' =>
              refine .whole ?_
              rw [Event.printed_append, List.length_append]
              omega
          | short es v es' j hevents hk' =>
              rw [← List.append_assoc]
              refine .short ((t m).events ++ es) v es' j ?_ ?_
              · rw [hevents, List.append_assoc]
              · rw [Event.printed_append, List.length_append]
                omega

theorem Truncates.inFrame {t : Told α} {m : Machine} (frame : Frame) (block : Tree)
    (h : t.Truncates { m with frames := frame :: m.frames }) :
    (inFrame frame block t).Truncates m :=
  fun hroom k => (h hroom k).inFrame frame block

theorem law_truncates : StatementLaw Truncates where
  silent := truncates_silent
  bind := Truncates.bind
  print := truncates_print
  assign _ _ _ := truncates_of_eq (fun _ => rfl) rfl

theorem truncates_execute (limits : Limits) (root : Tree) (m : Machine) :
    (execute limits root).Truncates m := by
  have hdeclare (n : Tree) (m : Machine) : (does (.declare n)).Truncates m :=
    truncates_of_eq (fun _ => rfl) rfl
  refine law_truncates.execute ?_ (fun n _ _ => hdeclare n) m
  refine law_truncates.call limits.callsAllowed ?_
  intro invoke hinvoke m d block frame _ _
  refine Truncates.inFrame frame block ?_
  exact law_truncates.body hinvoke _ _ (fun n _ _ => hdeclare n) _

end Told

/-! ## Main statement -/

namespace Machine

/-- A limit on the output cuts off what comes behind so many lines, and nothing else.  The program
and the machine are arbitrary. -/
theorem execute_truncates (m : Machine) (limits : Limits) (root : Tree) (k : Nat) :
    let free := (m.withRoom none).execute limits root
    let tight := (m.withRoom (some k)).execute limits root
    let es := (Told.execute limits root (m.withRoom none)).events
    let prints := (m.withRoom none).printing es
    let lines := prints.map fun p => Text.Decimal.ofInt64 p.2
    free.2 = (m.withRoom none).replay es ∧
    free.2.sink.lines.toList = m.sink.lines.toList ++ lines ∧
    (prints.length ≤ k →
      tight.1 = free.1 ∧ tight.2 = free.2.withRoom (some (k - prints.length))) ∧
    ∀ now v, prints[k]? = some (now, v) →
      tight.1 = .error (.write .full) ∧
      tight.2.sink.lines.toList = m.sink.lines.toList ++ lines.take k ∧
      tight.2.globals = now.globals ∧ tight.2.functions = now.functions ∧
      tight.2.frames.length = m.frames.length := by
  intro free tight es prints lines
  have hfree : free = (_, (m.withRoom none).replay es) := execute_eq_account _ limits root
  have htight : tight = _ := execute_eq_account _ limits root
  have hheight : tight.2.frames.length = m.frames.length :=
    (Action.confined_execute limits root (m.withRoom (some k))).height
  have hlines : lines = (Event.printed es).map Text.Decimal.ofInt64 := by
    rw [← map_snd_printing (m.withRoom none) es, List.map_map]
    rfl
  have hcount : prints.length = (Event.printed es).length := length_printing _ _
  have hcut : Account.Cut k (Told.execute limits root (m.withRoom none))
      (Told.execute limits root (m.withRoom (some k))) :=
    Told.truncates_execute limits root (m.withRoom none) rfl k
  refine ⟨congrArg Prod.snd hfree, ?_, ?_, ?_⟩
  · rw [hfree, sink_replay rfl, hlines]
    simp [withRoom]
  · intro hk
    rw [hcount] at hk ⊢
    rw [htight, hfree, hcut.eq_of_le hk]
    exact ⟨rfl, replay_withRoom (m := m.withRoom none) rfl hk⟩
  · intro now v hnow
    have hk : k < (Event.printed es).length := by
      rw [← hcount]
      exact (List.getElem?_eq_some_iff.mp hnow).1
    obtain ⟨before, w, behind, j, hes, rfl, heq⟩ := hcut.exists_of_lt hk
    have hes : es = before ++ .print w :: behind := hes
    -- the machine of the second run is that of the moment, without room and with fewer frames
    have hmoment : (m.withRoom none).replay before = now := by
      have hprints := (m.withRoom none).getElem?_printing before w behind
      rw [← hes] at hprints
      exact congrArg Prod.fst (Option.some.inj (hprints.symm.trans hnow))
    have hcut : tight.2 = { now.withRoom (some 0) with frames := now.frames.drop j } := by
      rw [htight, heq, ← hmoment]
      exact replay_cut (m := m.withRoom none) rfl before j
    refine ⟨by rw [htight, heq], ?_, by rw [hcut]; rfl, by rw [hcut]; rfl, hheight⟩
    rw [hcut, hlines, hes, Event.printed_append, List.map_append,
      List.take_left' (List.length_map _)]
    show now.sink.lines.toList = _
    rw [← hmoment, sink_replay rfl]
    simp [withRoom]

/-- The second line of the function is not written, so it does not come to the division by zero
behind it, and `x` keeps its value. -/
theorem execute_truncates_in_call :
    let root := (parse ("func f(n) \x7b print n n = n + 1 print n return n \x7d " ++
      "x = 4 x = f(x) / 0").toUTF8.toList .standard).toOption.getD default
    let m := ofSink (.ofRoom? none)
    let prints := m.printing (Told.execute ⟨9, true⟩ root m).events
    let tight (k : Nat) := (m.withRoom (some k)).execute ⟨9, true⟩ root
    prints.length = 2 ∧ (tight 2).1 = .error (.eval ⟨.divisionByZero, ⟨1, 65⟩⟩) ∧
      ∃ now, prints[1]? = some (now, 5) ∧ (tight 1).1 = .error (.write .full) ∧
        (tight 1).2.globals = now.globals ∧ now.globals.entries = [("x", 4)] ∧
        (tight 1).2.sink.lines.toList = ["4"] := by
  intro root m prints tight
  have hcount : prints.length = 2 := by decide +kernel
  obtain ⟨-, -, hwhole, -⟩ := execute_truncates m ⟨9, true⟩ root 2
  obtain ⟨-, -, -, hshort⟩ := execute_truncates m ⟨9, true⟩ root 1
  have hsame := (hwhole (Nat.le_of_eq hcount)).1
  have herror : (m.execute ⟨9, true⟩ root).1 = .error (.eval ⟨.divisionByZero, ⟨1, 65⟩⟩) := by
    decide +kernel
  obtain ⟨⟨now, v⟩, hnow⟩ : ∃ p, prints[1]? = some p :=
    ⟨_, List.getElem?_eq_getElem (by rw [hcount]; decide)⟩
  obtain rfl : v = 5 := by
    have hv : prints[1]?.map Prod.snd = some 5 := by decide +kernel
    rw [hnow] at hv
    exact Option.some.inj hv
  obtain ⟨hfull, hlines, hglobals, -, -⟩ := hshort now 5 hnow
  have hx : (tight 1).2.globals.entries = [("x", 4)] := by decide +kernel
  have hone : (tight 1).2.sink.lines.toList = ["4"] := by decide +kernel
  exact ⟨hcount, hsame.trans herror, now, hnow, hfull, hglobals, hglobals ▸ hx, hone⟩

end Machine

end IntScript
