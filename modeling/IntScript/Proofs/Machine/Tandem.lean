import IntScript.Proofs.Machine.Effect
import Mathlib.Data.List.Forall2

/-!
# Two runs side by side

Two runs are compared step by step: of trees that are alike, from machines that are alike, and
perhaps within different limits.  They go along together, or the first of them has failed.  What it
means to be alike is left open, as three relations:

| | |
| :-- | :-- |
| `T` | trees that read alike: forms, kinds, children, and the names and numbers they write |
| `S` | machines from which both runs go on |
| `D` | how the second run may stand once the first has failed |

`Tandem T S D` lists what the relations have to satisfy.  From that it follows, action by action,
that runs of like programs stay together (`Tandem.execute`): the fundamental lemma of a logical
relation, with one lemma for each action.

Once the first run has failed nothing is known of what the second one does, except that it writes on
behind the lines that are there.  So `D` may only speak of an unfinished second run in a way that
further output does not make false (`Tandem.go_on`).  A comparison of runs that always end alike has
no use for this; it asks in `D` that the second run has failed too.
-/

namespace IntScript

/-- The fault is that a limit does not allow a call. -/
def Fault.IsLimit : Fault → Prop
  | .callsUnsupported _ | .callDepthExceeded _ _ => True
  | _ => False

/-! ## Trees -/

namespace Tree

/-- The names in the lists that are the first children are the same. -/
def SameItems (n n' : Tree) : Prop :=
  ∀ l l', n.child? 0 = some l → n'.child? 0 = some l' →
    l.children.map literal = l'.children.map literal

theorem sameItems_refl (n : Tree) : n.SameItems n := by
  intro l l' hl hl'
  rw [hl] at hl'
  cases hl'
  rfl

/-- What a run reads in trees that are related by `T`. -/
structure ReadAlike (T : Tree → Tree → Prop) : Prop where
  form_eq {n n' : Tree} : T n n' → n.form = n'.form
  kind_eq {n n' : Tree} : T n n' → n.token.kind = n'.token.kind
  children {n n' : Tree} : T n n' → List.Forall₂ T n.children n'.children
  literal_eq {n n' : Tree} : T n n' → n.form ∈ [Form.integer, .name, .call, .function] →
    n.literal = n'.literal
  items {n n' : Tree} : T n n' → n.form = .call ∨ n.form = .function → n.SameItems n'

theorem readAlike_eq : ReadAlike Eq where
  form_eq h := by rw [h]
  kind_eq h := by rw [h]
  literal_eq h _ := by rw [h]
  children h := by
    rw [h]
    exact List.forall₂_same.mpr fun _ _ => rfl
  items h _ := by
    rw [h]
    exact sameItems_refl _

/-- Functions that can be called alike. -/
def Declared (T : Tree → Tree → Prop) (d d' : Tree) : Prop := T d d' ∧ d.SameItems d'

variable {T : Tree → Tree → Prop}

theorem rel_getElem? {cs ds : List Tree} (h : List.Forall₂ T cs ds) (i : Nat) :
    Option.Rel T cs[i]? ds[i]? := by
  induction h generalizing i with
  | nil => exact .none
  | cons hc _ ih =>
      cases i with
      | zero => exact .some hc
      | succ i => exact ih i

theorem ReadAlike.child? (hT : ReadAlike T) {n n' : Tree} (h : T n n') (i : Int) :
    Option.Rel T (n.child? i) (n'.child? i) := by
  unfold Tree.child?
  split
  · exact .none
  · exact rel_getElem? (hT.children h) i.toNat

theorem ReadAlike.exists_child (hT : ReadAlike T) {n n' c : Tree} (h : T n n') {i : Int}
    (hc : n.child? i = some c) : ∃ c', n'.child? i = some c' ∧ T c c' := by
  have hchild := hT.child? h i
  rw [hc] at hchild
  generalize n'.child? i = c'? at hchild
  cases hchild with
  | some hcc' => exact ⟨_, rfl, hcc'⟩

theorem ReadAlike.exists_child_of (hT : ReadAlike T) {n n' c' : Tree} (h : T n n') {i : Int}
    (hc' : n'.child? i = some c') : ∃ c, n.child? i = some c ∧ T c c' := by
  have hchild := hT.child? h i
  rw [hc'] at hchild
  generalize n.child? i = c? at hchild
  cases hchild with
  | some hcc' => exact ⟨_, rfl, hcc'⟩

end Tree

namespace Action

variable {α β : Type} {T : Tree → Tree → Prop} {S : Machine → Machine → Prop}
  {D : RunError → Machine → Option RunError → Machine → Prop}

/-! ## Results -/

/-- Why an action failed, if it did. -/
def failure? : Except RunError α → Option RunError
  | .ok _ => none
  | .error e => some e

/-- How two runs stand: both have come to the same value, or the first has failed. -/
inductive Joint (S : Machine → Machine → Prop)
    (D : RunError → Machine → Option RunError → Machine → Prop) :
    Except RunError α × Machine → Except RunError α × Machine → Prop
  | ok {a : α} {m m' : Machine} : S m m' → Joint S D (.ok a, m) (.ok a, m')
  | error {e : RunError} {m m' : Machine} {r : Except RunError α} :
      D e m (failure? r) m' → Joint S D (.error e, m) (r, m')

/-- From machines in `S` two actions stand as `Joint` says, and the second only adds output. -/
structure Paired (S : Machine → Machine → Prop)
    (D : RunError → Machine → Option RunError → Machine → Prop) (act act' : Action α) : Prop where
  joint {m m' : Machine} : S m m' → Joint S D (act.run m) (act'.run m')
  grows : Moves Machine.Grows act'

end Action

/-- Relations that runs respect. -/
structure Tandem (T : Tree → Tree → Prop) (S : Machine → Machine → Prop)
    (D : RunError → Machine → Option RunError → Machine → Prop) : Prop where
  trees : Tree.ReadAlike T
  get?_eq {m m' : Machine} : S m m' → ∀ name, m.get? name = m'.get? name
  functions {m m' : Machine} : S m m' → ∀ name,
    Option.Rel (Tree.Declared T) (m.functions.get? name) (m'.functions.get? name)
  height_eq {m m' : Machine} : S m m' → m.frames.length = m'.frames.length
  assign {m m' : Machine} : S m m' → ∀ name v, S (m.assign name v) (m'.assign name v)
  declare {m m' : Machine} {n n' : Tree} : S m m' → T n n' → n.form = .function →
    S (m.declare n.literal n) (m'.declare n'.literal n')
  print {m m' : Machine} : S m m' → ∀ v,
    Action.Joint S D ((Action.print v).run m) ((Action.print v).run m')
  fault {m m' : Machine} {n n' : Tree} : S m m' → T n n' → ∀ fault,
    D (.eval ⟨fault, n.pos⟩) m (some (.eval ⟨fault, n'.pos⟩)) m'
  missing {m m' : Machine} : S m m' →
    D (.eval ⟨.malformed .missingExpression, ⟨0, 0⟩⟩) m
      (some (.eval ⟨.malformed .missingExpression, ⟨0, 0⟩⟩)) m'
  /-- A frame is opened for a call, with the same variables on both sides, -/
  enter {m m' : Machine} {n n' : Tree} : S m m' → T n n' → n.form = .call → ∀ locals,
    S { m with frames := ⟨n.literal, n.token, locals⟩ :: m.frames }
      { m' with frames := ⟨n'.literal, n'.token, locals⟩ :: m'.frames }
  /-- and when it is closed, the frames of the callers are what they were, -/
  leave {m m' k k' : Machine} : S m m' → S k k' → k.frames.tail = m.frames →
    k'.frames.tail = m'.frames →
    S { k with frames := k.frames.tail } { k' with frames := k'.frames.tail }
  /-- also when it is closed because the first run fails. -/
  abandon {m m' k k' : Machine} {e : RunError} {e'? : Option RunError} : S m m' → D e k e'? k' →
    k.frames.tail = m.frames → k'.frames.tail = m'.frames →
    D e { k with frames := k.frames.tail } e'? { k' with frames := k'.frames.tail }
  /-- An unfinished second run may go on. -/
  go_on {m m' k : Machine} {e : RunError} (e'? : Option RunError) : D e m none m' → m'.Grows k →
    D e m e'? k

namespace Tandem

open IntScript.Action

variable {α β : Type} {T : Tree → Tree → Prop} {S : Machine → Machine → Prop}
  {D : RunError → Machine → Option RunError → Machine → Prop} (P : Tandem T S D)

include P

/-! ## Steps -/

omit P in
theorem pure (a : α) : Paired S D (Pure.pure a : Action α) (Pure.pure a) where
  joint h := .ok h
  grows := moves_pure a

theorem fail {n n' : Tree} (h : T n n') (fault : Fault) :
    Paired S D (Action.fail n.pos fault : Action α) (Action.fail n'.pos fault) where
  joint hS := .error (P.fault hS h fault)
  grows := moves_fail _ _

theorem bind {act act' : Action α} {f f' : α → Action β} (h : Paired S D act act')
    (hf : ∀ a, Paired S D (f a) (f' a)) : Paired S D (act >>= f) (act' >>= f') where
  joint {m m'} hS := by
    have hact := h.joint hS
    rcases hr : act.run m with ⟨e | a, k⟩
    · rw [hr] at hact
      rw [run_bind_of_error hr]
      rcases hr' : act'.run m' with ⟨e' | a', k'⟩
      · rw [hr'] at hact
        rw [run_bind_of_error hr']
        cases hact with
        | error hD => exact .error hD
      · -- the first run is over, and the second one goes on with `f'`
        rw [hr'] at hact
        rw [run_bind_of_ok hr']
        cases hact with
        | error hD => exact .error (P.go_on _ hD ((hf a').grows k'))
    · rw [hr] at hact
      rw [run_bind_of_ok hr]
      rcases hr' : act'.run m' with ⟨e' | a', k'⟩
      · rw [hr'] at hact
        cases hact
      · rw [hr'] at hact
        rw [run_bind_of_ok hr']
        cases hact with
        | ok hS' => exact (hf a).joint hS'
  grows := h.grows.bind fun a => (hf a).grows

theorem lookup {n n' : Tree} (h : T n n') (hliteral : n.literal = n'.literal) :
    Paired S D (Action.lookup n.token) (Action.lookup n'.token) where
  joint {m m'} hS := by
    have hliteral : n'.token.literal = n.token.literal := hliteral.symm
    unfold Action.lookup
    rw [run_get_bind, run_get_bind, hliteral, ← P.get?_eq hS]
    cases m.get? n.token.literal with
    | some v => exact (pure v).joint hS
    | none => exact (P.fail h _).joint hS
  grows := moves_lookup _

theorem numeral {n n' : Tree} (h : T n n') (hliteral : n.literal = n'.literal) :
    Paired S D (Action.numeral n.token) (Action.numeral n'.token) := by
  unfold Action.numeral
  rw [show n'.token.literal = n.token.literal from hliteral.symm]
  split
  · exact pure _
  · exact P.fail h _

theorem operate {n n' : Tree} (h : T n n') (l r : Int64) :
    Paired S D (Action.operate n.token l r) (Action.operate n'.token l r) := by
  unfold Action.operate
  rw [← P.trees.kind_eq h]
  split
  · exact pure _
  · exact P.fail h _

/-! ## Expressions -/

variable {invoke invoke' : Tree → Action Int64}

theorem evaluate (hinvoke : ∀ c c', T c c' → c.form = .call → Paired S D (invoke c) (invoke' c')) :
    ∀ n n' : Tree, T n n' → Paired S D (Action.evaluate invoke n) (Action.evaluate invoke' n') := by
  refine Tree.induction fun f t cs ih n' h => ?_
  have hform := P.trees.form_eq h
  have hchildren := P.trees.children h
  rw [Tree.form_node] at hform
  rcases f.expression_cases with rfl | rfl | rfl | ⟨level, rfl⟩ | hf
  · rw [evaluate_integer invoke' hform.symm]
    exact P.numeral h (P.trees.literal_eq h (by simp))
  · rw [evaluate_name invoke' hform.symm]
    exact P.lookup h (P.trees.literal_eq h (by simp))
  · rw [evaluate_call invoke' hform.symm]
    exact hinvoke _ n' h rfl
  · by_cases hc : cs.length = 2
    · obtain ⟨l, r, rfl⟩ := List.length_eq_two.mp hc
      obtain ⟨l', ds, hl, hds, hn'⟩ := List.forall₂_cons_left_iff.mp hchildren
      obtain ⟨r', es, hr, hes, rfl⟩ := List.forall₂_cons_left_iff.mp hds
      obtain rfl := List.forall₂_nil_left_iff.mp hes
      rw [evaluate_operation invoke level rfl rfl, evaluate_operation invoke' level hform.symm hn']
      refine P.bind (ih l (by simp) l' hl) fun v => ?_
      exact P.bind (ih r (by simp) r' hr) fun w => P.operate h v w
    · have hc' : n'.children.length ≠ 2 := by
        rw [← hchildren.length_eq]
        exact hc
      rw [evaluate_arity invoke level (n := .node level.form t cs) rfl hc,
        evaluate_arity invoke' level hform.symm hc']
      exact P.fail h _
  · rw [evaluate_other invoke (n := .node f t cs) hf, evaluate_other invoke' (hform ▸ hf), ← hform]
    exact P.fail h _

theorem evaluate?
    (hinvoke : ∀ c c', T c c' → c.form = .call → Paired S D (invoke c) (invoke' c')) {n n' : Tree}
    (h : T n n') (i : Int) :
    Paired S D (Action.evaluate? invoke (n.child? i)) (Action.evaluate? invoke' (n'.child? i)) := by
  have hchild := P.trees.child? h i
  generalize n.child? i = c?, n'.child? i = c'? at hchild
  cases hchild with
  | some hc => exact P.evaluate hinvoke _ _ hc
  | none => exact ⟨fun hS => .error (P.missing hS), moves_fail _ _⟩

/-! ## Statements -/

theorem statement
    (hinvoke : ∀ c c', T c c' → c.form = .call → Paired S D (invoke c) (invoke' c')) {n n' : Tree}
    (h : T n n') : Paired S D (Action.statement invoke n) (Action.statement invoke' n') := by
  have hform := P.trees.form_eq h
  rcases n.form.statement_cases with hf | hf | hf | hf
  · rw [statement_print invoke hf, statement_print invoke' (hform ▸ hf)]
    refine P.bind (P.evaluate? hinvoke h 0) fun v => ⟨fun hS => P.print hS v, ?_⟩
    exact (moves_print writable_confined v).imp fun _ _ => Machine.Confined.grows
  · by_cases ht : ∃ target, n.child? 0 = some target ∧ target.form = .name
    · obtain ⟨target, ht, hname⟩ := ht
      obtain ⟨target', ht', htarget⟩ := P.trees.exists_child h ht
      rw [statement_assign invoke hf ht hname,
        statement_assign invoke' (hform ▸ hf) ht' (P.trees.form_eq htarget ▸ hname),
        ← P.trees.literal_eq htarget (by simp [hname])]
      refine P.bind (P.evaluate? hinvoke h 1) fun v => ⟨fun hS => .ok (P.assign hS _ v), ?_⟩
      exact fun m => (Machine.confined_assign m _ v).grows
    · have ht' : ∀ target', n'.child? 0 = some target' → target'.form ≠ .name := by
        intro target' ht' hname
        obtain ⟨target, hc, htarget⟩ := P.trees.exists_child_of h ht'
        exact ht ⟨target, hc, (P.trees.form_eq htarget).trans hname⟩
      rw [statement_noTarget invoke hf fun target ht' hname => ht ⟨target, ht', hname⟩,
        statement_noTarget invoke' (hform ▸ hf) ht']
      exact P.fail h _
  · have hlength := (P.trees.children h).length_eq
    by_cases hc : n.children.length = 2
    · rw [statement_function invoke hf hc, statement_function invoke' (hform ▸ hf) (hlength ▸ hc)]
      refine ⟨fun hS => .ok (P.declare hS h hf), fun m => refl (r := Machine.Grows) m⟩
    · rw [statement_arity invoke hf hc, statement_arity invoke' (hform ▸ hf) (hlength ▸ hc)]
      exact P.fail h _
  · rw [statement_other invoke hf, statement_other invoke' (hform ▸ hf), ← hform]
    exact P.fail h _

theorem statements
    (hinvoke : ∀ c c', T c c' → c.form = .call → Paired S D (invoke c) (invoke' c'))
    {l l' : List Tree} (h : List.Forall₂ T l l') :
    Paired S D (Action.statements invoke l) (Action.statements invoke' l') := by
  induction h with
  | nil => exact pure ()
  | cons hs _ ih => exact P.bind (P.statement hinvoke hs) fun _ => ih

theorem body (hinvoke : ∀ c c', T c c' → c.form = .call → Paired S D (invoke c) (invoke' c'))
    (name : String) {b b' : Tree} (hb : T b b') {l l' : List Tree} (h : List.Forall₂ T l l') :
    Paired S D (Action.body invoke name b l) (Action.body invoke' name b' l') := by
  induction h with
  | nil => exact P.fail hb _
  | @cons s s' l l' hs _ ih =>
      have hform := P.trees.form_eq hs
      by_cases hf : s.form = .result
      · rw [body_result invoke name b l hf, body_result invoke' name b' l' (hform ▸ hf)]
        exact P.evaluate? hinvoke hs 0
      · rw [body_statement invoke name b l hf, body_statement invoke' name b' l' (hform ▸ hf)]
        exact P.bind (P.statement hinvoke hs) fun _ => ih

/-! ## Calls -/

omit P in
/-- A parameter and the argument given for it, in both runs. -/
def Given (T : Tree → Tree → Prop) (p p' : Tree × Tree) : Prop :=
  p.1.literal = p'.1.literal ∧ T p.2 p'.2 ∧ p.2.literal = p'.2.literal

omit P in
theorem given_zip : ∀ {params params' args args' : List Tree},
    params.map Tree.literal = params'.map Tree.literal → List.Forall₂ T args args' →
      args.map Tree.literal = args'.map Tree.literal →
        List.Forall₂ (Given T) (params.zip args) (params'.zip args')
  | [], [], _, _, _, _, _ => .nil
  | _ :: _, _ :: _, [], [], _, .nil, _ => .nil
  | _ :: _, _ :: _, _ :: _, _ :: _, hparams, .cons harg hargs, hliterals => by
      obtain ⟨hparam, hparams⟩ := List.cons.inj hparams
      obtain ⟨hliteral, hliterals⟩ := List.cons.inj hliterals
      exact .cons ⟨hparam, harg, hliteral⟩ (given_zip hparams hargs hliterals)

theorem arguments {pairs pairs' : List (Tree × Tree)} (h : List.Forall₂ (Given T) pairs pairs') :
    ∀ locals, Paired S D (Action.arguments pairs locals) (Action.arguments pairs' locals) := by
  induction h with
  | nil => exact fun locals => pure locals
  | cons hp _ ih =>
      obtain ⟨hparam, harg, hliteral⟩ := hp
      intro locals
      refine P.bind (P.lookup harg hliteral) fun v => ?_
      rw [← hparam]
      exact ih _

theorem inFrame {act act' : Action α} (h : Paired S D act act')
    (hact : Moves Machine.Confined act) (hact' : Moves Machine.Confined act') {frame frame' : Frame}
    (henter : ∀ {m m'}, S m m' →
      S { m with frames := frame :: m.frames } { m' with frames := frame' :: m'.frames }) :
    Paired S D (Action.inFrame frame act) (Action.inFrame frame' act') where
  joint {m m'} hS := by
    have hrun := h.joint (henter hS)
    have houter := (hact { m with frames := frame :: m.frames }).outer
    have houter' := (hact' { m' with frames := frame' :: m'.frames }).outer
    show Joint S D
      ((act.run { m with frames := frame :: m.frames }).1,
        { (act.run { m with frames := frame :: m.frames }).2 with
          frames := (act.run { m with frames := frame :: m.frames }).2.frames.tail })
      ((act'.run { m' with frames := frame' :: m'.frames }).1,
        { (act'.run { m' with frames := frame' :: m'.frames }).2 with
          frames := (act'.run { m' with frames := frame' :: m'.frames }).2.frames.tail })
    generalize act.run { m with frames := frame :: m.frames } = x,
      act'.run { m' with frames := frame' :: m'.frames } = x' at hrun houter houter'
    cases hrun with
    | ok hS' => exact .ok (P.leave hS hS' houter houter')
    | error hD => exact .error (P.abandon hS hD houter houter')
  grows := (quiet_inFrame hact' frame').imp fun _ _ => Machine.Quiet.grows

theorem dispatch {enter enter' : Tree → Tree → Tree → Action Int64} {n n' : Tree} (h : T n n')
    (hform : n.form = .call) {m m' : Machine} (hS : S m m') {d? d'? : Option Tree}
    (hd : Option.Rel (Tree.Declared T) d? d'?)
    (henter : ∀ params params' block block' args args', T block block' →
      List.Forall₂ (Given T) (params.children.zip args.children)
        (params'.children.zip args'.children) →
      Joint S D ((enter params block args).run m) ((enter' params' block' args').run m')) :
    Joint S D ((Action.dispatch n enter d?).run m) ((Action.dispatch n' enter' d'?).run m') := by
  have hliteral := P.trees.literal_eq h (by simp [hform])
  unfold Action.dispatch
  rw [← hliteral]
  cases hd with
  | none => exact (P.fail h _).joint hS
  | @some d d' hd =>
      obtain ⟨hd, hparams⟩ := hd
      have hargs := P.trees.items h (.inl hform)
      have hfirst := P.trees.child? hd 0
      have hsecond := P.trees.child? hd 1
      have hlist := P.trees.child? h 0
      unfold Tree.SameItems at hparams hargs
      dsimp only
      generalize d.child? 0 = p?, d'.child? 0 = p'? at hparams hfirst ⊢
      generalize d.child? 1 = b?, d'.child? 1 = b'? at hsecond ⊢
      generalize n.child? 0 = a?, n'.child? 0 = a'? at hargs hlist ⊢
      cases hfirst with
      | none => exact (P.fail h _).joint hS
      | @some params params' hfirst =>
          cases hsecond with
          | none => exact (P.fail h _).joint hS
          | @some block block' hblock =>
              cases hlist with
              | none => exact (P.fail h _).joint hS
              | @some args args' hlist =>
                  have hparams := hparams params params' rfl rfl
                  have hargs := hargs args args' rfl rfl
                  have hlength : params.children.length = params'.children.length := by
                    simpa using congrArg List.length hparams
                  dsimp only
                  rw [← hlength, ← (P.trees.children hlist).length_eq]
                  split
                  · exact (P.fail h _).joint hS
                  · exact henter params params' block block' args args' hblock
                      (given_zip hparams (P.trees.children hlist) hargs)

theorem resolve {enter enter' : Machine → Tree → Tree → Tree → Action Int64} {n n' : Tree}
    (h : T n n') (hform : n.form = .call) (callsAllowed : Bool)
    (henter : ∀ {m m'} params params' block block' args args', S m m' → T block block' →
      List.Forall₂ (Given T) (params.children.zip args.children)
        (params'.children.zip args'.children) →
      Joint S D ((enter m params block args).run m) ((enter' m' params' block' args').run m'))
    (hgrows : Moves Machine.Grows (Action.resolve callsAllowed n' enter')) :
    Paired S D (Action.resolve callsAllowed n enter) (Action.resolve callsAllowed n' enter') where
  joint {m m'} hS := by
    have hliteral := P.trees.literal_eq h (by simp [hform])
    cases callsAllowed with
    | false =>
        unfold Action.resolve
        rw [← hliteral]
        exact (P.fail h _).joint hS
    | true =>
        show Joint S D ((Action.dispatch n (enter m) (m.functions.get? n.literal)).run m)
          ((Action.dispatch n' (enter' m') (m'.functions.get? n'.literal)).run m')
        rw [← hliteral]
        refine P.dispatch h hform hS (P.functions hS _) ?_
        intro params params' block block' args args'
        exact henter params params' block block' args args' hS
  grows := hgrows

theorem perform {callsAllowed callsAllowed' : Bool} {room room' : Nat}
    (hcall : ∀ c c', T c c' → c.form = .call →
      Paired S D (Action.call callsAllowed room c) (Action.call callsAllowed' room' c'))
    {n n' params params' block block' args args' : Tree} (h : T n n') (hform : n.form = .call)
    (hblock : T block block')
    (hgiven : List.Forall₂ (Given T) (params.children.zip args.children)
      (params'.children.zip args'.children)) :
    Paired S D (Action.perform callsAllowed room n params block args)
      (Action.perform callsAllowed' room' n' params' block' args') := by
  refine P.bind (P.arguments hgiven ∅) fun locals => P.inFrame ?_ ?_ ?_ ?_
  · rw [← P.trees.literal_eq h (by simp [hform])]
    exact P.body hcall n.literal hblock (P.trees.children hblock)
  · exact confined_body (quiet_call callsAllowed room) _ _ _
  · exact confined_body (quiet_call callsAllowed' room') _ _ _
  · exact fun hS => P.enter hS h hform locals

omit P in
/-- A limit may stop the first run, wherever the second one goes from there. -/
def Cuts (S : Machine → Machine → Prop)
    (D : RunError → Machine → Option RunError → Machine → Prop) : Prop :=
  ∀ {m m' k : Machine} (pos : Position) {fault : Fault} (e'? : Option RunError),
    S m m' → m'.Grows k → fault.IsLimit → D (.eval ⟨fault, pos⟩) m e'? k

omit P in
/-- The second run is as free to make calls as the first, and freer only if limits may cut the first
one short. -/
def Freer (S : Machine → Machine → Prop)
    (D : RunError → Machine → Option RunError → Machine → Prop)
    (callsAllowed callsAllowed' : Bool) (room room' : Nat) : Prop :=
  callsAllowed = callsAllowed' ∧ room = room' ∨
    Cuts S D ∧ (callsAllowed = true → callsAllowed' = true) ∧ room ≤ room'

omit P in
theorem Freer.pred {callsAllowed callsAllowed' : Bool} {room room' : Nat}
    (h : Freer S D callsAllowed callsAllowed' (room + 1) (room' + 1)) :
    Freer S D callsAllowed callsAllowed' room room' := by
  rcases h with ⟨hallowed, hroom⟩ | ⟨hcuts, hallowed, hroom⟩
  · exact .inl ⟨hallowed, Nat.succ.inj hroom⟩
  · exact .inr ⟨hcuts, hallowed, Nat.le_of_succ_le_succ hroom⟩

omit P in
theorem cut (hcuts : Cuts S D) {m m' : Machine} (hS : S m m') {act' : Action α}
    (hgrows : Moves Machine.Grows act') (pos : Position) {fault : Fault} (hfault : fault.IsLimit) :
    Joint S D ((Action.fail pos fault : Action α).run m) (act'.run m') :=
  .error (hcuts pos _ hS (hgrows m') hfault)

theorem call_of_allowed_eq (callsAllowed : Bool) {room room' : Nat}
    (hfree : Freer S D callsAllowed callsAllowed room room') : ∀ n n', T n n' → n.form = .call →
      Paired S D (Action.call callsAllowed room n) (Action.call callsAllowed room' n') := by
  induction room generalizing room' with
  | zero =>
      intro n n' h hform
      have hgrows := grows_call callsAllowed room' n'
      cases room' with
      | zero =>
          rw [call_zero] at hgrows ⊢
          rw [call_zero]
          refine P.resolve h hform callsAllowed (fun _ _ _ _ _ _ hS _ _ => ?_) hgrows
          rw [← P.height_eq hS, ← P.trees.literal_eq h (by simp [hform])]
          exact (P.fail h _).joint hS
      | succ room' =>
          -- here the first run has come to its limit, and the second one enters the function
          obtain ⟨-, hroom⟩ | ⟨hcuts, -⟩ := hfree
          · cases hroom
          rw [call_succ] at hgrows ⊢
          rw [call_zero]
          refine P.resolve h hform callsAllowed (fun _ params' _ block' _ args' hS _ _ => ?_) hgrows
          refine cut hcuts hS (Moves.imp ?_ fun _ _ => Machine.Quiet.grows) n.pos trivial
          exact quiet_perform callsAllowed room' n' params' block' args'
  | succ room ih =>
      intro n n' h hform
      have hgrows := grows_call callsAllowed room' n'
      cases room' with
      | zero =>
          obtain ⟨-, hroom⟩ | ⟨-, -, hroom⟩ := hfree
          · cases hroom
          · exact absurd hroom (Nat.not_succ_le_zero room)
      | succ room' =>
          rw [call_succ] at hgrows ⊢
          rw [call_succ]
          refine P.resolve h hform callsAllowed (fun _ _ _ _ _ _ hS hblock hgiven => ?_) hgrows
          exact (P.perform (ih hfree.pred) h hform hblock hgiven).joint hS

theorem call {callsAllowed callsAllowed' : Bool} {room room' : Nat}
    (hfree : Freer S D callsAllowed callsAllowed' room room') (n n' : Tree) (h : T n n')
    (hform : n.form = .call) :
    Paired S D (Action.call callsAllowed room n) (Action.call callsAllowed' room' n') := by
  by_cases hallowed : callsAllowed = callsAllowed'
  · subst hallowed
    exact P.call_of_allowed_eq callsAllowed hfree n n' h hform
  · obtain ⟨heq, -⟩ | ⟨hcuts, himp, -⟩ := hfree
    · exact absurd heq hallowed
    have hgrows := grows_call callsAllowed' room' n'
    obtain rfl : callsAllowed = false := by
      cases callsAllowed with
      | false => rfl
      | true => exact absurd (himp rfl).symm hallowed
    refine ⟨fun hS => ?_, hgrows⟩
    cases room with
    | zero =>
        rw [call_zero]
        exact cut hcuts hS hgrows n.pos trivial
    | succ room =>
        rw [call_succ]
        exact cut hcuts hS hgrows n.pos trivial

/-! ## Programs -/

/-- Programs that are alike, run side by side. -/
theorem execute {limits limits' : Limits} {root root' : Tree} (h : T root root')
    (hfree : ∀ depth, Freer S D limits.callsAllowed limits'.callsAllowed (limits.maxDepth - depth)
      (limits'.maxDepth - depth)) :
    Paired S D (Action.execute limits root) (Action.execute limits' root') where
  joint {m m'} hS := by
    unfold Action.execute
    rw [run_get_bind, run_get_bind, ← P.trees.form_eq h, ← P.height_eq hS]
    split
    · exact (P.statements (P.call (hfree m.frames.length)) (P.trees.children h)).joint hS
    · exact (P.fail h _).joint hS
  grows := (confined_execute limits' root').imp fun _ _ => Machine.Confined.grows

end Tandem

end IntScript
