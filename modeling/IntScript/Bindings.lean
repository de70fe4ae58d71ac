/-!
# Bindings

A table of named values in strictly increasing order of name. Names are compared character by
character by code point, which for UTF-8 is the order of their bytes. Setting a name binds it anew
and leaves every other name as it was (`Bindings.get?_set`).
-/

namespace IntScript

/-- Named values, each name once, in increasing order. -/
structure Bindings (α : Type) where
  entries : List (String × α)
  sorted : entries.Pairwise fun a b => a.1 < b.1

namespace Bindings

variable {α β : Type}

def empty : Bindings α := ⟨[], .nil⟩

instance : EmptyCollection (Bindings α) := ⟨empty⟩

instance : Inhabited (Bindings α) := ⟨empty⟩

/-- Puts a binding in its place in an ordered list, instead of an earlier one of the same name. -/
def place (name : String) (v : α) : List (String × α) → List (String × α)
  | [] => [(name, v)]
  | (n, w) :: rest =>
    if name < n then (name, v) :: (n, w) :: rest
    else if name = n then (name, v) :: rest
    else (n, w) :: place name v rest

theorem fst_mem_of_mem_place {name : String} {v : α} {l : List (String × α)} {p : String × α}
    (h : p ∈ place name v l) : p.1 = name ∨ p ∈ l := by
  induction l with
  | nil =>
    simp only [place, List.mem_singleton] at h
    exact .inl (by rw [h])
  | cons q rest ih =>
    obtain ⟨n, w⟩ := q
    simp only [place] at h
    split at h
    · rcases List.mem_cons.1 h with rfl | h
      · exact .inl rfl
      · exact .inr h
    · split at h
      · rcases List.mem_cons.1 h with rfl | h
        · exact .inl rfl
        · exact .inr (List.mem_cons_of_mem _ h)
      · rcases List.mem_cons.1 h with rfl | h
        · exact .inr List.mem_cons_self
        · rcases ih h with h | h
          · exact .inl h
          · exact .inr (List.mem_cons_of_mem _ h)

theorem name_lt_of_not {a b : String} (h : ¬ a < b) (h' : a ≠ b) : b < a := by
  rcases String.le_total a b with hle | hle
  · exact absurd (String.le_antisymm hle (String.not_lt.1 h)) h'
  · exact String.not_le.1 fun hab => h' (String.le_antisymm hab hle)

theorem sorted_place (name : String) (v : α) {l : List (String × α)}
    (h : l.Pairwise fun a b => a.1 < b.1) : (place name v l).Pairwise fun a b => a.1 < b.1 := by
  induction l with
  | nil => simp [place]
  | cons q rest ih =>
    obtain ⟨n, w⟩ := q
    obtain ⟨hn, hrest⟩ := List.pairwise_cons.1 h
    simp only [place]
    split
    · rename_i hlt
      refine List.pairwise_cons.2 ⟨fun p hp => ?_, h⟩
      rcases List.mem_cons.1 hp with rfl | hp
      · exact hlt
      · exact String.lt_trans hlt (hn p hp)
    · split
      · rename_i _ heq
        subst heq
        exact List.pairwise_cons.2 ⟨hn, hrest⟩
      · rename_i hlt hne
        refine List.pairwise_cons.2 ⟨fun p hp => ?_, ih hrest⟩
        rcases fst_mem_of_mem_place hp with hp | hp
        · exact hp ▸ name_lt_of_not hlt hne
        · exact hn p hp

/-- Binds `name` to `v`, replacing an earlier binding of the name. -/
def set (b : Bindings α) (name : String) (v : α) : Bindings α :=
  ⟨place name v b.entries, sorted_place name v b.sorted⟩

def get? (b : Bindings α) (name : String) : Option α := b.entries.lookup name

def names (b : Bindings α) : List String := b.entries.map (·.1)

/-- The table of a list of bindings; of two bindings of one name the later counts. -/
def ofList (l : List (String × α)) : Bindings α := l.foldl (fun b p => b.set p.1 p.2) empty

@[simp] theorem get?_empty (name : String) : (∅ : Bindings α).get? name = none := rfl

theorem lookup_cons_eq_ite (p : String × α) (l : List (String × α)) (n : String) :
    (p :: l).lookup n = if n = p.1 then some p.2 else l.lookup n := by
  obtain ⟨m, w⟩ := p
  rw [List.lookup_cons]
  by_cases h : n = m
  · simp [h]
  · simp [h, beq_false_of_ne h]

theorem lookup_place (name : String) (v : α) (l : List (String × α)) (n : String) :
    (place name v l).lookup n = if n = name then some v else l.lookup n := by
  induction l with
  | nil => exact lookup_cons_eq_ite _ _ _
  | cons q rest ih =>
    simp only [place]
    split
    · exact lookup_cons_eq_ite _ _ _
    · split
      · rename_i hq
        simp only [lookup_cons_eq_ite, ← hq]
        split
        · rfl
        · rfl
      · rename_i hq
        simp only [lookup_cons_eq_ite, ih]
        by_cases h : n = name
        · simp [h, hq]
        · simp [h]

theorem get?_set (b : Bindings α) (name : String) (v : α) (n : String) :
    (b.set name v).get? n = if n = name then some v else b.get? n :=
  lookup_place name v b.entries n

theorem sorted_names (b : Bindings α) : b.names.Pairwise (· < ·) :=
  List.pairwise_map.2 b.sorted

/-- Replaces each value by its image, and drops those without one. -/
def filterMap (f : α → Option β) (b : Bindings α) : Bindings β :=
  ofList (b.entries.filterMap fun p => (f p.2).map (p.1, ·))

end Bindings

end IntScript
