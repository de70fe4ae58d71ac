import IntScript.Proofs.Machine.Tandem

/-!
# Output that is always taken

A sink without a limit takes every line.  So on such a sink a program fails for reasons of its own
only, never because of what it writes (`Machine.exists_eval_of_execute`).

The run is put beside itself.  Of the machines the two copies go through nothing has to be said but
that they are equal and that the sink still has no limit.
-/

namespace IntScript

theorem Sink.write_of_unlimited {s : Sink} (h : s.room? = none) (line : String) :
    s.write line = .ok { s with lines := s.lines.push line } := by
  unfold write
  rw [h]

namespace Action

/-- The machines are equal, and their output has no limit. -/
def Unlimited (m m' : Machine) : Prop := m = m' ∧ m.sink.room? = none

/-- Both runs have failed, and for a reason of the program. -/
def OwnFailure (e : RunError) (_ : Machine) (e'? : Option RunError) (_ : Machine) : Prop :=
  e'? = some e ∧ ∃ d, e = .eval d

theorem joint_print_unlimited {m m' : Machine} (h : Unlimited m m') (v : Int64) :
    Joint Unlimited OwnFailure ((print v).run m) ((print v).run m') := by
  obtain ⟨rfl, hroom⟩ := h
  unfold print
  rw [run_get_bind, Sink.write_of_unlimited hroom]
  exact .ok ⟨rfl, hroom⟩

theorem tandem_unlimited : Tandem Eq Unlimited OwnFailure where
  trees := Tree.readAlike_eq
  get?_eq h name := by rw [h.1]
  functions := by
    rintro m _ ⟨rfl, -⟩ name
    cases hd : m.functions.get? name with
    | none => exact .none
    | some d => exact .some ⟨rfl, d.sameItems_refl⟩
  height_eq h := by rw [h.1]
  assign := by
    rintro m _ ⟨rfl, hroom⟩ name v
    refine ⟨rfl, ?_⟩
    rw [Machine.sink_assign]
    exact hroom
  declare := by
    rintro m _ n _ ⟨rfl, hroom⟩ rfl -
    exact ⟨rfl, hroom⟩
  print := joint_print_unlimited
  fault := by
    rintro m m' n _ - rfl fault
    exact ⟨rfl, _, rfl⟩
  missing _ := ⟨rfl, _, rfl⟩
  enter := by
    rintro m _ n _ ⟨rfl, hroom⟩ rfl - locals
    exact ⟨rfl, hroom⟩
  leave := by
    rintro m m' k _ - ⟨rfl, hroom⟩ - -
    exact ⟨rfl, hroom⟩
  abandon _ h _ _ := h
  go_on _ h _ := by cases h.1

end Action

namespace Machine

/-- Where every line is taken, a program that fails has itself to blame. -/
theorem exists_eval_of_execute {m : Machine} (hroom : m.sink.room? = none) {limits : Limits}
    {root : Tree} {e : RunError} (h : (m.execute limits root).1 = .error e) : ∃ d, e = .eval d := by
  have hjoint : Action.Joint Action.Unlimited Action.OwnFailure (m.execute limits root)
      (m.execute limits root) :=
    (Action.tandem_unlimited.execute rfl fun _ => .inl ⟨rfl, rfl⟩).joint ⟨rfl, hroom⟩
  rcases hr : m.execute limits root with ⟨r, m'⟩
  rw [hr] at h hjoint
  obtain rfl : r = .error e := h
  cases hjoint with
  | error hown => exact hown.2

end Machine

end IntScript
