import IntScript.Machine.Sink

/-!
# Lines of output

Output is made of whole lines.  What is written later stands behind what is written earlier, in the
list of lines and in the text alike (`Sink.text_of_append`), and lines that are written in two goes
are written in one (`Sink.writeAll_append`).
-/

namespace IntScript.Sink

/-! ## Text -/

theorem foldl_lines (l : List String) (text : String) :
    l.foldl (fun text line => text ++ line ++ "\n") text =
      text ++ String.join (l.map (· ++ "\n")) := by
  induction l generalizing text with
  | nil => simp
  | cons line l ih =>
      rw [List.foldl_cons, ih, List.map_cons, String.join_cons]
      simp only [String.append_assoc]

theorem textFrom_of_append {s s' : Sink} {l : List String}
    (h : s'.lines.toList = s.lines.toList ++ l) :
    s'.textFrom s.lines.size = String.join (l.map (· ++ "\n")) := by
  unfold textFrom
  rw [h, ← Array.length_toList, List.drop_left, foldl_lines, String.empty_append]

/-- What is written after two runs is what is written after the one and then after the other. -/
theorem textFrom_trans {a b c : Sink} (hab : a.lines.toList <+: b.lines.toList)
    (hbc : b.lines.toList <+: c.lines.toList) :
    c.textFrom a.lines.size = b.textFrom a.lines.size ++ c.textFrom b.lines.size := by
  obtain ⟨x, hx⟩ := hab
  obtain ⟨y, hy⟩ := hbc
  have hxy : c.lines.toList = a.lines.toList ++ (x ++ y) := by rw [← List.append_assoc, hx, hy]
  rw [textFrom_of_append hxy, textFrom_of_append hx.symm, textFrom_of_append hy.symm,
    List.map_append, String.join_append]

theorem textFrom_size (s : Sink) : s.textFrom s.lines.size = "" :=
  textFrom_of_append (s := s) (l := []) (List.append_nil _).symm

theorem text_of_append {s s' : Sink} {l : List String}
    (h : s'.lines.toList = s.lines.toList ++ l) :
    s'.text = s.text ++ String.join (l.map (· ++ "\n")) := by
  unfold text textFrom
  rw [List.drop_zero, List.drop_zero, h, List.foldl_append, foldl_lines l]

/-! ## Lines one after the other -/

theorem lines_of_write {s s' : Sink} {line : String} (h : s.write line = .ok s') :
    s'.lines.toList = s.lines.toList ++ [line] := by
  unfold write at h
  split at h
  · cases h
    exact Array.toList_push
  · cases h
  · cases h
    exact Array.toList_push

theorem writeAll_append {s s' : Sink} {l : List String} (h : s.writeAll l = (.ok (), s'))
    (l' : List String) : s.writeAll (l ++ l') = s'.writeAll l' := by
  induction l generalizing s with
  | nil =>
      cases h
      rfl
  | cons line l ih =>
      rw [List.cons_append, writeAll]
      unfold writeAll at h
      split at h
      · exact ih h
      · cases h

theorem lines_of_writeAll {s s' : Sink} {l : List String} (h : s.writeAll l = (.ok (), s')) :
    s'.lines.toList = s.lines.toList ++ l := by
  induction l generalizing s with
  | nil =>
      cases h
      exact (List.append_nil _).symm
  | cons line l ih =>
      unfold writeAll at h
      split at h
      · next s₁ hw =>
          rw [ih h, lines_of_write hw, List.append_assoc, List.singleton_append]
      · cases h

end IntScript.Sink
