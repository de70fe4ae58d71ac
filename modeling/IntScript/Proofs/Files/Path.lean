import IntScript.Files.Path

/-!
# Clean paths

What cleaning leaves of a path from the root.  Its parts are plain (`Part.Plain`): none is empty,
`.` or `..`, and none has a slash in it.  So it is `/` with the plain parts behind it, separated by
slashes (`Path.rooted`), and such a path is told from all others by its parts.

Cleaning takes the parts of a path one by one, with those taken so far on a stack.  What one part
does to a stack gives what all of them do:

| one part | all parts | |
| :-- | :-- | :-- |
| `kept_climb` | `kept_foldl_climb` | only parts that cleaning keeps get on the stack |
| `climb_of_plain` | `foldl_climb_of_plain` | plain parts get on it as they are |
| `foldl_climb_climb` | `foldl_climb_clean` | cleaned before or not, a path leads to the same place |
| `climb_ups` | `foldl_climb_ups` | of a path from anywhere, `..`s and then plain parts stay |

Since the parts of a path from the root can be read off it, a path lies below another just if its
text starts with the other's text and a slash (`isPrefix_rooted_iff`).  The root itself is the one
exception: its text ends in a slash already.
-/

namespace IntScript

/-- A part that leads one level down. -/
structure Part.Plain (p : Part) : Prop where
  ne_nil : p ≠ []
  ne_here : p ≠ .here
  ne_up : p ≠ .up
  slash_not_mem : '/' ∉ p

/-- A part that cleaning keeps: a plain one, and `..` in a path that does not start at the root. -/
def Part.Kept (absolute : Bool) (p : Part) : Prop := p.Plain ∨ absolute = false ∧ p = .up

theorem Part.Plain.kept {p : Part} (hp : p.Plain) (b : Bool) : p.Kept b := .inl hp

theorem Part.Kept.plain {p : Part} (hp : p.Kept true) : p.Plain := by
  rcases hp with hplain | ⟨hb, -⟩
  · exact hplain
  · cases hb

theorem Part.Kept.slash_not_mem {p : Part} {b : Bool} (hp : p.Kept b) : '/' ∉ p := by
  rcases hp with hplain | ⟨-, rfl⟩
  · exact hplain.slash_not_mem
  · decide

namespace Path

/-! ## Splitting and joining -/

theorem split_eq_splitOn (l : List Char) : split l = l.splitOn '/' := by
  induction l with
  | nil => rfl
  | cons c l ih =>
      rw [split, List.splitOn_cons_eq_if_modifyHead, ih]
      by_cases hc : c = '/'
      · simp [hc]
      · rw [if_neg hc, if_neg (by simpa using hc)]
        cases h : l.splitOn '/' with
        | nil => exact absurd h (List.splitOn_ne_nil '/' l)
        | cons p ps => rfl

theorem join_eq_intercalate (ps : List Part) : join ps = ['/'].intercalate ps := by
  fun_induction join ps with
  | case1 => rfl
  | case2 p => exact List.intercalate_singleton.symm
  | case3 p ps hps ih =>
      rw [ih, List.intercalate_cons_of_ne_nil hps, List.append_assoc]
      rfl

theorem split_append (l l' : List Char) : split (l ++ '/' :: l') = split l ++ split l' := by
  simp only [split_eq_splitOn]
  exact List.splitOn_append_cons_self ..

theorem split_slash (l : List Char) : split ('/' :: l) = [] :: split l := split_append [] l

theorem split_ne_nil (l : List Char) : split l ≠ [] := by
  rw [split_eq_splitOn]
  exact List.splitOn_ne_nil '/' l

theorem split_join {ps : List Part} (hps : ∀ p ∈ ps, '/' ∉ p) (hne : ps ≠ []) :
    split (join ps) = ps := by
  rw [split_eq_splitOn, join_eq_intercalate]
  exact List.splitOn_intercalate _ hps hne

theorem slash_not_mem_of_mem_split {l : List Char} {p : Part} (hp : p ∈ split l) : '/' ∉ p := by
  fun_induction split l generalizing p with
  | case1 =>
      rw [List.mem_singleton.mp hp]
      exact List.not_mem_nil
  | case2 l ih =>
      rcases List.mem_cons.mp hp with rfl | hp
      · exact List.not_mem_nil
      · exact ih hp
  | case3 c l hc hl ih => exact absurd hl (split_ne_nil l)
  | case4 c l hc q qs hl ih =>
      rw [hl] at ih
      rcases List.mem_cons.mp hp with rfl | hp
      · rw [List.mem_cons, not_or]
        exact ⟨Ne.symm hc, ih List.mem_cons_self⟩
      · exact ih (List.mem_cons_of_mem q hp)

theorem join_append {ps qs : List Part} (hps : ps ≠ []) (hqs : qs ≠ []) :
    join (ps ++ qs) = join ps ++ '/' :: join qs := by
  simp only [join_eq_intercalate]
  induction ps with
  | nil => exact absurd rfl hps
  | cons p ps ih =>
      cases ps with
      | nil =>
          rw [List.singleton_append, List.intercalate_cons_of_ne_nil hqs,
            List.intercalate_singleton, List.append_assoc]
          rfl
      | cons q ps =>
          rw [List.cons_append, List.intercalate_cons_of_ne_nil (by simp), ih (by simp),
            List.intercalate_cons_cons, List.append_assoc, List.append_assoc, List.append_assoc]

/-! ## Climbing -/

theorem climb_of_idle {q : Part} (hq : q = [] ∨ q = .here) (b : Bool) (stack : List Part) :
    climb b stack q = stack := by
  unfold climb
  rw [if_pos hq]

theorem climb_of_plain {q : Part} (hq : q.Plain) (b : Bool) (stack : List Part) :
    climb b stack q = q :: stack := by
  unfold climb
  rw [if_neg (not_or.mpr ⟨hq.ne_nil, hq.ne_here⟩), if_neg hq.ne_up]

theorem climb_up_nil (b : Bool) : climb b [] .up = if b then [] else [.up] := rfl

theorem climb_up_cons (b : Bool) (last : Part) (before : List Part) :
    climb b (last :: before) .up = if last = .up then .up :: last :: before else before := rfl

theorem part_cases {q : Part} (hq : '/' ∉ q) : (q = [] ∨ q = .here) ∨ q = .up ∨ q.Plain := by
  by_cases hidle : q = [] ∨ q = .here
  · exact .inl hidle
  · by_cases hup : q = .up
    · exact .inr (.inl hup)
    · rw [not_or] at hidle
      exact .inr (.inr ⟨hidle.1, hidle.2, hup, hq⟩)

theorem kept_climb {b : Bool} {stack : List Part} (h : ∀ p ∈ stack, p.Kept b) {q : Part}
    (hq : '/' ∉ q) : ∀ p ∈ climb b stack q, p.Kept b := by
  rcases part_cases hq with hidle | rfl | hplain
  · rw [climb_of_idle hidle]
    exact h
  · cases stack with
    | nil =>
        rw [climb_up_nil]
        cases b with
        | true => exact h
        | false => exact List.forall_mem_cons.mpr ⟨.inr ⟨rfl, rfl⟩, h⟩
    | cons last before =>
        rw [climb_up_cons]
        have hboth := List.forall_mem_cons.mp h
        split
        · rename_i hlast
          exact List.forall_mem_cons.mpr ⟨hlast ▸ hboth.1, h⟩
        · exact hboth.2
  · rw [climb_of_plain hplain]
    exact List.forall_mem_cons.mpr ⟨hplain.kept b, h⟩

theorem kept_foldl_climb {b : Bool} {stack qs : List Part} (h : ∀ p ∈ stack, p.Kept b)
    (hqs : ∀ q ∈ qs, '/' ∉ q) : ∀ p ∈ qs.foldl (climb b) stack, p.Kept b := by
  induction qs generalizing stack with
  | nil => exact h
  | cons q qs ih =>
      rw [List.forall_mem_cons] at hqs
      exact ih (kept_climb h hqs.1) hqs.2

theorem foldl_climb_of_plain {qs : List Part} (hqs : ∀ q ∈ qs, q.Plain) (b : Bool)
    (stack : List Part) : qs.foldl (climb b) stack = qs.reverse ++ stack := by
  induction qs generalizing stack with
  | nil => rfl
  | cons q qs ih =>
      rw [List.forall_mem_cons] at hqs
      rw [List.foldl_cons, climb_of_plain hqs.1, ih hqs.2, List.reverse_cons, List.append_assoc]
      rfl

theorem foldl_climb_split_join {ps : List Part} (hps : ∀ p ∈ ps, p.Plain) (b : Bool)
    (stack : List Part) : (split (join ps)).foldl (climb b) stack = ps.reverse ++ stack := by
  by_cases hne : ps = []
  · subst hne
    exact climb_of_idle (.inl rfl) b stack
  · rw [split_join (fun p hp => (hps p hp).slash_not_mem) hne, foldl_climb_of_plain hps]

/-- One more part of a path that does not start at the root does to a stack that does what it still
does after cleaning: `..` takes back a part that was kept, or is kept itself and takes one off the
stack later. -/
theorem foldl_climb_climb {front stack : List Part} (h : ∀ p ∈ front, p.Kept false) {q : Part}
    (hq : '/' ∉ q) :
    (climb false front q).reverse.foldl (climb true) stack =
      climb true (front.reverse.foldl (climb true) stack) q := by
  rcases part_cases hq with hidle | rfl | hplain
  · rw [climb_of_idle hidle, climb_of_idle hidle]
  · cases front with
    | nil => rfl
    | cons last before =>
        rw [climb_up_cons]
        split
        · rw [List.reverse_cons, List.foldl_append]
          rfl
        · rename_i hlast
          have hplain := (List.forall_mem_cons.mp h).1.resolve_right fun hup => hlast hup.2
          rw [List.reverse_cons, List.foldl_append, List.foldl_cons, List.foldl_nil,
            climb_of_plain hplain, climb_up_cons, if_neg hlast]
  · rw [climb_of_plain hplain, List.reverse_cons, List.foldl_append]
    rfl

theorem foldl_climb_clean {front qs stack : List Part} (h : ∀ p ∈ front, p.Kept false)
    (hqs : ∀ q ∈ qs, '/' ∉ q) :
    (qs.foldl (climb false) front).reverse.foldl (climb true) stack =
      qs.foldl (climb true) (front.reverse.foldl (climb true) stack) := by
  induction qs generalizing front with
  | nil => rfl
  | cons q qs ih =>
      rw [List.forall_mem_cons] at hqs
      rw [List.foldl_cons, ih (kept_climb h hqs.1) hqs.2, foldl_climb_climb h hqs.1,
        List.foldl_cons]

theorem climb_ups {us : List Part} (hus : ∀ u ∈ us, u.Plain) (k : Nat) {q : Part} (hq : '/' ∉ q) :
    ∃ vs j, (∀ v ∈ vs, v.Plain) ∧
      climb false (us ++ List.replicate k .up) q = vs ++ List.replicate j .up := by
  rcases part_cases hq with hidle | rfl | hplain
  · exact ⟨us, k, hus, climb_of_idle hidle ..⟩
  · cases us with
    | nil =>
        refine ⟨[], k + 1, hus, ?_⟩
        cases k with
        | zero => rfl
        | succ k => rfl
    | cons u us =>
        have hboth := List.forall_mem_cons.mp hus
        exact ⟨us, k, hboth.2, (climb_up_cons ..).trans (if_neg hboth.1.ne_up)⟩
  · exact ⟨q :: us, k, List.forall_mem_cons.mpr ⟨hplain, hus⟩, climb_of_plain hplain ..⟩

theorem foldl_climb_ups {us qs : List Part} (hus : ∀ u ∈ us, u.Plain) (k : Nat)
    (hqs : ∀ q ∈ qs, '/' ∉ q) :
    ∃ vs j, (∀ v ∈ vs, v.Plain) ∧
      qs.foldl (climb false) (us ++ List.replicate k .up) = vs ++ List.replicate j .up := by
  induction qs generalizing us k with
  | nil => exact ⟨us, k, hus, rfl⟩
  | cons q qs ih =>
      rw [List.forall_mem_cons] at hqs
      obtain ⟨vs, j, hvs, hclimb⟩ := climb_ups hus k hqs.1
      rw [List.foldl_cons, hclimb]
      exact ih hvs j hqs.2

theorem foldl_climb_replicate {stack : List Part} (h : ∀ p ∈ stack, p.Plain) (k : Nat) :
    (List.replicate k Part.up).foldl (climb true) stack = stack.drop k := by
  induction k generalizing stack with
  | zero => rfl
  | succ k ih =>
      rw [List.replicate_succ, List.foldl_cons]
      cases stack with
      | nil => exact (ih h).trans List.drop_nil
      | cons last before =>
          have hboth := List.forall_mem_cons.mp h
          rw [climb_up_cons, if_neg hboth.1.ne_up, ih hboth.2, List.drop_succ_cons]

/-- The path has a `..` that no part before it makes up for, so from some places it leads up. -/
def Climbs (path : String) : Prop := .up ∈ (split path.toList).foldl (climb false) []

theorem exists_foldl_climb (path : String) :
    ∃ us k, (∀ u ∈ us, u.Plain) ∧ (k = 0 ↔ ¬ Climbs path) ∧
      ∀ stack, (∀ p ∈ stack, Part.Plain p) →
        (split path.toList).foldl (climb true) stack = us ++ stack.drop k := by
  have hslash : ∀ q ∈ split path.toList, '/' ∉ q := fun q => slash_not_mem_of_mem_split
  obtain ⟨us, k, hus, hparts⟩ : ∃ us k, (∀ u ∈ us, u.Plain) ∧
      (split path.toList).foldl (climb false) [] = us ++ List.replicate k .up :=
    foldl_climb_ups (fun u hu => absurd hu List.not_mem_nil) 0 hslash
  refine ⟨us, k, hus, ?_, ?_⟩
  · have hup : Part.up ∉ us := fun h => (hus _ h).ne_up rfl
    rw [Climbs, hparts, List.mem_append, List.mem_replicate]
    simp [hup]
  · intro stack hstack
    have hclean : ((split path.toList).foldl (climb false) []).reverse.foldl (climb true) stack =
        (split path.toList).foldl (climb true) stack := foldl_climb_clean (by simp) hslash
    rw [hparts, List.reverse_append, List.reverse_replicate, List.foldl_append,
      foldl_climb_replicate hstack, foldl_climb_of_plain (by simpa using hus),
      List.reverse_reverse] at hclean
    exact hclean.symm

theorem kept_cleanParts (path : List Char) : ∀ p ∈ cleanParts path, p.Kept (isAbsolute path) := by
  intro p hp
  rw [cleanParts, List.mem_reverse] at hp
  exact kept_foldl_climb (by simp) (fun q => slash_not_mem_of_mem_split) p hp

/-! ## Paths from the root -/

/-- The path from the root through parts. -/
def rooted (ps : List Part) : String := String.ofList ('/' :: join ps)

/-- The parts of a path that are not empty. -/
def components (path : String) : List Part := (split path.toList).filter (· ≠ [])

@[simp] theorem toList_rooted (ps : List Part) : (rooted ps).toList = '/' :: join ps :=
  String.toList_ofList

theorem isAbsolute_rooted (ps : List Part) : isAbsolute (rooted ps).toList = true := by
  rw [toList_rooted]
  rfl

theorem clean_of_isAbsolute {path : String} (h : isAbsolute path.toList = true) :
    clean path = rooted (cleanParts path.toList) := by
  rw [clean, cleanChars, if_pos h, rooted]

theorem components_rooted {ps : List Part} (hps : ∀ p ∈ ps, p.Plain) :
    components (rooted ps) = ps := by
  have hne : ∀ p ∈ ps, decide (p ≠ []) = true := fun p hp => decide_eq_true (hps p hp).ne_nil
  rw [components, toList_rooted, split_slash]
  by_cases hnil : ps = []
  · subst hnil
    rfl
  · rw [split_join (fun p hp => (hps p hp).slash_not_mem) hnil, List.filter_cons_of_neg (by simp),
      List.filter_eq_self.mpr hne]

theorem rooted_inj {ps qs : List Part} (hps : ∀ p ∈ ps, p.Plain) (hqs : ∀ q ∈ qs, q.Plain) :
    rooted ps = rooted qs ↔ ps = qs := by
  constructor
  · intro h
    rw [← components_rooted hps, h, components_rooted hqs]
  · exact congrArg rooted

theorem clean_rooted {ps : List Part} (hps : ∀ p ∈ ps, p.Plain) :
    clean (rooted ps) = rooted ps := by
  rw [clean_of_isAbsolute (isAbsolute_rooted ps), toList_rooted, cleanParts, split_slash,
    List.foldl_cons, climb_of_idle (.inl rfl), foldl_climb_split_join hps, List.append_nil,
    List.reverse_reverse]

/-- A path is followed part by part from the place it is taken from. -/
theorem below_rooted {ps : List Part} (hps : ∀ p ∈ ps, p.Plain) (path : String) :
    below (rooted ps) path =
      rooted ((split path.toList).foldl (climb true) ps.reverse).reverse := by
  have hroot : rooted ps ≠ "" := by
    intro h
    have := congrArg String.toList h
    simp at this
  rw [below, if_neg hroot]
  split
  · rename_i hpath
    subst hpath
    rw [clean_rooted hps]
    exact congrArg rooted (List.reverse_reverse ps).symm
  · have hlist : (rooted ps ++ "/" ++ path).toList = ('/' :: join ps) ++ '/' :: path.toList := by
      simp [String.toList_append]
    have habs : isAbsolute (rooted ps ++ "/" ++ path).toList = true := by
      rw [hlist]
      rfl
    rw [clean_of_isAbsolute habs, cleanParts, habs, hlist, split_append, split_slash,
      List.foldl_append, List.foldl_cons, climb_of_idle (.inl rfl), foldl_climb_split_join hps,
      List.append_nil]

theorem exists_rooted_below {ps : List Part} (hps : ∀ p ∈ ps, p.Plain) (path : String) :
    ∃ qs, (∀ q ∈ qs, q.Plain) ∧ below (rooted ps) path = rooted qs := by
  refine ⟨_, fun q hq => ?_, below_rooted hps path⟩
  have hstack : ∀ p ∈ ps.reverse, p.Kept true :=
    fun p hp => (hps p (List.mem_reverse.mp hp)).kept true
  rw [List.mem_reverse] at hq
  exact (kept_foldl_climb hstack (fun q => slash_not_mem_of_mem_split) q hq).plain

/-- It may be cleaned before, unless it starts at the root: from there `..` leads nowhere, but from
a place below it does. -/
theorem below_clean {ps : List Part} (hps : ∀ p ∈ ps, p.Plain) {path : String}
    (h : isAbsolute path.toList = false) :
    below (rooted ps) (clean path) = below (rooted ps) path := by
  have hslash : ∀ q ∈ split path.toList, '/' ∉ q := fun q => slash_not_mem_of_mem_split
  have hparts : cleanParts path.toList =
      ((split path.toList).foldl (climb false) []).reverse := by rw [cleanParts, h]
  have hfold : (split (clean path).toList).foldl (climb true) ps.reverse =
      (cleanParts path.toList).foldl (climb true) ps.reverse := by
    rw [clean, String.toList_ofList, cleanChars, if_neg (by simp [h])]
    split
    · rename_i hnil
      rw [hnil]
      exact climb_of_idle (.inr rfl) true ps.reverse
    · rename_i hne
      exact congrArg _ (split_join (fun q hq => (kept_cleanParts _ q hq).slash_not_mem) hne)
  rw [below_rooted hps, below_rooted hps, hfold, hparts, foldl_climb_clean (by simp) hslash]
  rfl

/-- A path that starts at the root goes down from any place once it is cleaned.  Before that it
leads to the same place, unless it climbs. -/
theorem below_clean_of_isAbsolute {ps : List Part} (hps : ∀ p ∈ ps, p.Plain) {path : String}
    (h : isAbsolute path.toList = true) :
    components (below (rooted ps) (clean path)) = ps ++ components (clean path) ∧
      (below (rooted ps) (clean path) = below (rooted ps) path ↔ ps = [] ∨ ¬ Climbs path) := by
  obtain ⟨us, k, hus, hk, hfold⟩ := exists_foldl_climb path
  have hstack : ∀ p ∈ ps.reverse, p.Plain := by simpa using hps
  have hdown : ∀ u ∈ us.reverse, u.Plain := by simpa using hus
  have hall : ∀ p ∈ ps ++ us.reverse, p.Plain := by
    rw [List.forall_mem_append]
    exact ⟨hps, hdown⟩
  have hclean : clean path = rooted us.reverse := by
    rw [clean_of_isAbsolute h, cleanParts, h, hfold [] (by simp), List.drop_nil, List.append_nil]
  have htarget : below (rooted ps) (clean path) = rooted (ps ++ us.reverse) := by
    rw [hclean, below_rooted hps, toList_rooted, split_slash, List.foldl_cons,
      climb_of_idle (.inl rfl), foldl_climb_split_join hdown, List.reverse_append,
      List.reverse_reverse, List.reverse_reverse]
  have hbelow : below (rooted ps) path = rooted ((ps.reverse.drop k).reverse ++ us.reverse) := by
    rw [below_rooted hps, hfold _ hstack, List.reverse_append]
  have hshort : ∀ p ∈ (ps.reverse.drop k).reverse ++ us.reverse, p.Plain := by
    rw [List.forall_mem_append]
    refine ⟨fun p hp => ?_, hdown⟩
    exact hstack p (List.mem_of_mem_drop (List.mem_reverse.mp hp))
  refine ⟨by rw [htarget, hclean, components_rooted hall, components_rooted hdown], ?_⟩
  rw [htarget, hbelow, rooted_inj hall hshort, List.append_cancel_right_eq, ← hk]
  constructor
  · intro heq
    have hlength := congrArg List.length heq
    rw [List.length_reverse, List.length_drop, List.length_reverse] at hlength
    by_cases hnil : ps = []
    · exact .inl hnil
    · have hpos := List.length_pos_iff.mpr hnil
      exact .inr (by omega)
  · rintro (rfl | rfl)
    · simp
    · simp

/-- Taken from an absolute directory, every path becomes one from the root through plain parts. -/
theorem exists_rooted_absolute {cwd : String} (hcwd : isAbsolute cwd.toList = true)
    (path : String) : ∃ ps, (∀ p ∈ ps, p.Plain) ∧ absolute cwd path = rooted ps := by
  have hclean : ∀ text : String, isAbsolute text.toList = true →
      ∃ ps, (∀ p ∈ ps, p.Plain) ∧ clean text = rooted ps :=
    fun text h => ⟨_, fun p hp => (h ▸ kept_cleanParts text.toList p hp).plain, clean_of_isAbsolute h⟩
  have hne : cwd ≠ "" := by
    rintro rfl
    cases hcwd
  have hjoined : isAbsolute (cwd ++ "/" ++ path).toList = true := by
    simp only [isAbsolute, decide_eq_true_eq, String.toList_append, List.append_assoc] at hcwd ⊢
    rw [List.head?_append, hcwd]
    rfl
  rw [absolute]
  split
  · exact hclean path ‹_›
  · rw [below, if_neg hne]
    split
    · exact hclean cwd hcwd
    · exact hclean _ hjoined

theorem rooted_eq_slash_iff {ps : List Part} (hps : ∀ p ∈ ps, p.Plain) :
    rooted ps = "/" ↔ ps = [] := by
  have hnil : rooted [] = "/" := by decide
  rw [← hnil]
  exact rooted_inj hps fun _ h => absurd h List.not_mem_nil

theorem rooted_append {ps qs : List Part} (hps : ps ≠ []) (hqs : qs ≠ []) :
    rooted (ps ++ qs) = rooted ps ++ "/" ++ String.ofList (join qs) := by
  apply String.toList_injective
  simp [join_append hps hqs, String.toList_append]

/-- Below a path from the root, but for the root itself, is just what starts with its text and a
slash. -/
theorem isPrefix_rooted_iff {ps qs : List Part} (hps : ∀ p ∈ ps, p.Plain)
    (hqs : ∀ q ∈ qs, q.Plain) :
    (rooted ps ++ "/").toList <+: (rooted qs).toList ↔
      ps ≠ [] ∧ ∃ us, us ≠ [] ∧ qs = ps ++ us := by
  have hlist : (rooted ps ++ "/").toList = '/' :: (join ps ++ ['/']) := by
    simp [String.toList_append]
  rw [hlist, toList_rooted, List.cons_prefix_cons]
  constructor
  · rintro ⟨-, rest, hrest⟩
    have hsplit : split (join ps) ++ split rest = split (join qs) := by
      rw [← split_append, ← hrest, List.append_assoc]
      rfl
    have hne : qs ≠ [] := by
      rintro rfl
      simp [join] at hrest
    rw [split_join (fun q hq => (hqs q hq).slash_not_mem) hne] at hsplit
    have hnil : ps ≠ [] := by
      rintro rfl
      exact (hqs [] (hsplit ▸ List.mem_cons_self)).ne_nil rfl
    rw [split_join (fun p hp => (hps p hp).slash_not_mem) hnil] at hsplit
    exact ⟨hnil, split rest, split_ne_nil rest, hsplit.symm⟩
  · rintro ⟨hnil, us, hus, rfl⟩
    rw [join_append hnil hus]
    exact ⟨rfl, join us, by simp⟩

end Path

end IntScript
