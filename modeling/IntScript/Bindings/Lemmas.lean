import IntScript.Bindings
import Mathlib.Data.List.Sort

/-!
# Laws of tables

Names come in increasing order, so each of them is bound once: the binding that is found is the one
that is there (`get?_eq_some_iff`), and the names of a table tell in which order its bindings stand
(`names_eq_of_isSome`).  A table whose values are replaced one by one binds each name to the image
of what it was bound to (`get?_filterMap`).
-/

namespace IntScript.Bindings

variable {α β : Type}

/-! ## Lists of bindings -/

theorem lookup_eq_none_of_lt {name : String} {l : List (String × α)} (h : ∀ p ∈ l, name < p.1) :
    l.lookup name = none := by
  rw [List.lookup_eq_none_iff]
  intro p hp
  refine bne_iff_ne.mpr ?_
  intro hname
  exact String.lt_irrefl _ (hname ▸ h p hp)

theorem lookup_eq_some_iff_mem {l : List (String × α)} (h : l.Pairwise fun a b => a.1 < b.1)
    {name : String} {v : α} : l.lookup name = some v ↔ (name, v) ∈ l := by
  induction l with
  | nil => simp
  | cons p l ih =>
      obtain ⟨hp, hl⟩ := List.pairwise_cons.mp h
      rw [lookup_cons_eq_ite, List.mem_cons, ← ih hl]
      split
      · next hname =>
          subst hname
          rw [lookup_eq_none_of_lt hp]
          simp [Prod.ext_iff, eq_comm]
      · next hname => simp [Prod.ext_iff, hname]

theorem lookup_filterMap {f : α → Option β} {l : List (String × α)}
    (h : l.Pairwise fun a b => a.1 < b.1) (name : String) :
    (l.filterMap fun p => (f p.2).map (p.1, ·)).lookup name = (l.lookup name).bind f := by
  induction l with
  | nil => rfl
  | cons p l ih =>
      obtain ⟨hp, hl⟩ := List.pairwise_cons.mp h
      have ih := ih hl
      rw [lookup_cons_eq_ite]
      cases hf : f p.2 with
      | none =>
          rw [List.filterMap_cons_none (by rw [hf]; rfl), ih]
          split
          · next hname =>
              rw [hname, lookup_eq_none_of_lt hp, Option.bind_some, hf, Option.bind_none]
          · rfl
      | some w =>
          rw [List.filterMap_cons_some (b := (p.1, w)) (by rw [hf]; rfl), lookup_cons_eq_ite, ih]
          split
          · rw [Option.bind_some, hf]
          · rfl

theorem get?_set_eq_or (b : Bindings α) (name : String) (v : α) (n : String) :
    (b.set name v).get? n = (if name = n then some v else none).or (b.get? n) := by
  rw [get?_set]
  by_cases h : name = n
  · rw [if_pos h.symm, if_pos h, Option.some_or]
  · rw [if_neg (Ne.symm h), if_neg h, Option.none_or]

/-- Of bindings that are set one after the other, each of a name of its own, all count. -/
theorem get?_foldl_set_of_sorted {l : List (String × α)} (h : l.Pairwise fun a b => a.1 < b.1)
    (b : Bindings α) (name : String) :
    (l.foldl (fun b p => b.set p.1 p.2) b).get? name = (l.lookup name).or (b.get? name) := by
  induction l generalizing b with
  | nil => rfl
  | cons p l ih =>
      obtain ⟨hp, hl⟩ := List.pairwise_cons.mp h
      rw [List.foldl_cons, ih hl, get?_set, lookup_cons_eq_ite]
      split
      · next hname => rw [hname, lookup_eq_none_of_lt hp, Option.none_or, Option.some_or]
      · rfl

/-! ## Tables -/

theorem get?_eq_some_iff (b : Bindings α) {name : String} {v : α} :
    b.get? name = some v ↔ (name, v) ∈ b.entries :=
  lookup_eq_some_iff_mem b.sorted

theorem mem_names_iff (b : Bindings α) {name : String} :
    name ∈ b.names ↔ (b.get? name).isSome = true := by
  rw [Option.isSome_iff_exists, names, List.mem_map]
  constructor
  · rintro ⟨p, hp, rfl⟩
    exact ⟨p.2, b.get?_eq_some_iff.mpr hp⟩
  · rintro ⟨v, hv⟩
    exact ⟨(name, v), b.get?_eq_some_iff.mp hv, rfl⟩

theorem names_eq_of_isSome {b : Bindings α} {b' : Bindings β}
    (h : ∀ name, (b.get? name).isSome = (b'.get? name).isSome) : b.names = b'.names := by
  refine b.sorted_names.eq_of_mem_iff b'.sorted_names fun name => ?_
  rw [mem_names_iff, mem_names_iff, h]

theorem get?_filterMap (f : α → Option β) (b : Bindings α) (name : String) :
    (b.filterMap f).get? name = (b.get? name).bind f := by
  have hsorted : (b.entries.filterMap fun p => (f p.2).map (p.1, ·)).Pairwise
      fun a b => a.1 < b.1 := by
    refine b.sorted.filterMap _ ?_
    intro p q hpq p' hp' q' hq'
    obtain ⟨_, -, rfl⟩ := Option.map_eq_some_iff.mp hp'
    obtain ⟨_, -, rfl⟩ := Option.map_eq_some_iff.mp hq'
    exact hpq
  have hempty (name : String) : (empty : Bindings β).get? name = none := rfl
  rw [filterMap, ofList, get?_foldl_set_of_sorted hsorted, lookup_filterMap b.sorted, hempty,
    Option.or_none]
  rfl

/-- The bindings of the names that pass a test. -/
def restrict (p : String → Bool) (b : Bindings α) : Bindings α :=
  ⟨b.entries.filter fun e => p e.1, b.sorted.filter _⟩

theorem get?_restrict (p : String → Bool) (b : Bindings α) (name : String) :
    (b.restrict p).get? name = if p name then b.get? name else none := by
  rw [Option.ext_iff]
  intro v
  rw [get?_eq_some_iff, restrict, List.mem_filter, ← get?_eq_some_iff]
  split
  · next hp => simp [hp]
  · next hp => simp [hp]

end IntScript.Bindings
