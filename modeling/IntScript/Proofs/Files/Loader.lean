import IntScript.Files.Loader
import IntScript.Proofs.Files.Path
import IntScript.Text.Utf8.Lemmas

/-!
# What a loader reads and opens

Two questions about loaders, and the exact answer to each.

**Which bytes come back.**  To tell a program that just fits from one that does not, a loader asks
for one byte more than its limit.  That number is right as long as it is one: the greatest limit has
no successor among the 64-bit numbers, and the loader then asks for less than nothing.  With any
other limit it gives back all bytes or an error that says what is wrong with them
(`read_all_or_fail`).

**Which files are opened.**  A loader with a root looks at the text of the path it is about to open:
either that is the text of the root, or it starts with it and a slash.  Since both are clean, this
settles where the path leads, part by part (`resolve_ofRoot`).  So nothing outside the root is
opened (`resolve_stays_below`), and nothing inside is refused (`resolve_by_components`), but for one
root: the text of `/` ends in a slash, so no clean path starts with it and another one.
-/

namespace IntScript

/-! ## Reading -/

theorem Feed.take_of_no_failure (bs : List UInt8) (n : Int64) :
    Feed.take ⟨bs, none⟩ n = .ok (bs.take n.toInt.toNat) := by
  unfold Feed.take
  dsimp only
  split
  · rw [List.take_of_length_le (by omega)]
  · rfl

namespace Loader

theorem limit_eq_maxValue_iff (l : Loader) :
    l.limit = Int64.maxValue ↔ l.maxBytes = Int64.maxValue := by
  unfold limit
  split
  · rename_i h
    constructor
    · intro h'
      exact absurd h' (by decide)
    · intro h'
      rw [h'] at h
      exact absurd h (by decide)
  · rfl

theorem limit_pos (l : Loader) : 0 < l.limit.toInt := by
  unfold limit
  split
  · decide
  · rename_i h
    rw [Int64.le_iff_toInt_le] at h
    have : (0 : Int64).toInt = 0 := rfl
    omega

/-- One byte more than the limit can be asked for, unless the limit is the greatest. -/
theorem toInt_limit_add_one {l : Loader} (h : l.maxBytes ≠ Int64.maxValue) :
    (l.limit + 1).toInt = l.limit.toInt + 1 := by
  have hne : l.limit.toInt ≠ Int64.maxValue.toInt := fun heq =>
    h (l.limit_eq_maxValue_iff.mp (Int64.toInt_inj.mp heq))
  have hlt := l.limit.toInt_le
  have hpos := l.limit_pos
  rw [Int64.toInt_maxValue] at hne hlt
  rw [Int64.toInt_add, Int64.toInt_one]
  exact Int.bmod_eq_of_le (by omega) (by omega)

theorem read_of_no_failure (l : Loader) (bs : List UInt8) (name : String) :
    l.read ⟨bs, none⟩ name =
      if l.limit.toInt < (bs.take (l.limit + 1).toInt.toNat).length then
        .error (.tooLarge name l.limit)
      else if Text.Utf8.isValid (bs.take (l.limit + 1).toInt.toNat) then
        .ok (bs.take (l.limit + 1).toInt.toNat)
      else .error (.notUtf8 name) := by
  unfold read
  rw [Feed.take_of_no_failure]

/-- Bytes come back whole or not at all, and an error says what is wrong with them.  With the
greatest limit, whatever the bytes are, none come back. -/
theorem read_all_or_fail (l : Loader) (bs : List UInt8) (name : String) :
    (l.maxBytes ≠ Int64.maxValue →
      (l.limit.toInt < bs.length → l.read ⟨bs, none⟩ name = .error (.tooLarge name l.limit)) ∧
      (bs.length ≤ l.limit.toInt → (∃ text, Text.Utf8.encode text = bs) →
        l.read ⟨bs, none⟩ name = .ok bs) ∧
      (bs.length ≤ l.limit.toInt → (¬ ∃ text, Text.Utf8.encode text = bs) →
        l.read ⟨bs, none⟩ name = .error (.notUtf8 name))) ∧
    (l.maxBytes = Int64.maxValue → l.read ⟨bs, none⟩ name = .ok []) := by
  constructor
  · intro h
    have hasked : (l.limit + 1).toInt.toNat = l.limit.toInt.toNat + 1 := by
      have hpos := l.limit_pos
      rw [toInt_limit_add_one h]
      omega
    rw [← Text.Utf8.isValid_iff_exists_encode, read_of_no_failure, hasked]
    refine ⟨fun hlarge => ?_, fun hfits hvalid => ?_, fun hfits hvalid => ?_⟩
    · rw [if_pos]
      rw [List.length_take]
      omega
    · rw [List.take_of_length_le (by omega), if_neg (by omega), if_pos hvalid]
    · rw [List.take_of_length_le (by omega), if_neg (by omega), if_neg hvalid]
  · intro h
    have hasked : (Int64.maxValue + 1).toInt.toNat = 0 := by decide
    rw [read_of_no_failure, l.limit_eq_maxValue_iff.mpr h, hasked, List.take_zero,
      if_neg (by decide), if_pos Text.Utf8.isValid_nil]

theorem read_all_or_fail_greatest :
    (⟨none, Int64.maxValue⟩ : Loader).read ⟨"print 1".toUTF8.toList, none⟩ "in.fs" = .ok [] ∧
      (⟨none, Int64.maxValue - 1⟩ : Loader).read ⟨"print 1".toUTF8.toList, none⟩ "in.fs" =
        .ok "print 1".toUTF8.toList := by
  refine ⟨(read_all_or_fail _ _ _).2 rfl, ((read_all_or_fail _ _ _).1 (by decide)).2.1 ?_ ?_⟩
  · decide +kernel
  · exact ⟨"print 1".toList, by decide +kernel⟩

/-! ## Opening -/

theorem root?_ofRoot (cwd : String) {root : String} (hroot : root ≠ "") (maxBytes : Int64) :
    (ofRoot cwd root maxBytes).root? = some (Path.absolute cwd root) :=
  if_neg hroot

/-- The test on texts, as one on parts. -/
theorem below_or_eq_iff {ps qs : List Part} (hps : ∀ p ∈ ps, p.Plain) (hqs : ∀ q ∈ qs, q.Plain) :
    (Path.rooted qs = Path.rooted ps ∨
      (Path.rooted ps ++ "/").toList.isPrefixOf (Path.rooted qs).toList) ↔
      ps <+: qs ∧ (ps = [] → qs = []) := by
  rw [Path.rooted_inj hqs hps, List.isPrefixOf_iff_prefix, Path.isPrefix_rooted_iff hps hqs]
  constructor
  · rintro (rfl | ⟨hne, us, -, rfl⟩)
    · exact ⟨List.prefix_refl _, id⟩
    · exact ⟨List.prefix_append _ _, fun hnil => absurd hnil hne⟩
  · rintro ⟨⟨us, rfl⟩, hnil⟩
    by_cases hus : us = []
    · exact .inl (by rw [hus, List.append_nil])
    · refine .inr ⟨fun h => ?_, us, hus, rfl⟩
      exact hus (List.append_eq_nil_iff.mp (hnil h)).2

/-- What a loader with a root makes of a path, by the parts of the root and of the place where the
path leads from there. -/
theorem resolve_ofRoot {cwd root : String} (hcwd : Path.isAbsolute cwd.toList = true)
    (hroot : root ≠ "") (maxBytes : Int64) (path : String) :
    ∃ ps qs, (∀ p ∈ ps, p.Plain) ∧ (∀ q ∈ qs, q.Plain) ∧
      Path.absolute cwd root = Path.rooted ps ∧
      Path.below (Path.rooted ps) (Path.clean path) = Path.rooted qs ∧
      (ofRoot cwd root maxBytes).resolve path =
        if ps <+: qs ∧ (ps = [] → qs = []) then .ok (Path.rooted qs)
        else .error (.escapes path) := by
  obtain ⟨ps, hps, hbase⟩ := Path.exists_rooted_absolute hcwd root
  obtain ⟨qs, hqs, htarget⟩ := Path.exists_rooted_below hps (Path.clean path)
  refine ⟨ps, qs, hps, hqs, hbase, htarget, ?_⟩
  unfold resolve
  rw [root?_ofRoot cwd hroot, hbase]
  simp only [htarget, below_or_eq_iff hps hqs]

/-- A loader with a root opens nothing outside it: the path to open is clean, and it is the root or
leads down from there. -/
theorem resolve_stays_below {cwd root path target : String} {maxBytes : Int64}
    (hcwd : Path.isAbsolute cwd.toList = true) (hroot : root ≠ "")
    (h : (ofRoot cwd root maxBytes).resolve path = .ok target) :
    ∃ base, (ofRoot cwd root maxBytes).root? = some base ∧
      Path.isAbsolute target.toList = true ∧ Path.clean target = target ∧
      (target = base ∨
        ∃ parts : List Part, parts ≠ [] ∧ (∀ p ∈ parts, p.Plain) ∧
          target = base ++ "/" ++ String.ofList (Path.join parts)) := by
  obtain ⟨ps, qs, hps, hqs, hbase, -, hresolve⟩ := resolve_ofRoot hcwd hroot maxBytes path
  rw [hresolve] at h
  split at h
  · rename_i hbelow
    cases h
    refine ⟨Path.rooted ps, hbase ▸ root?_ofRoot cwd hroot maxBytes, Path.isAbsolute_rooted qs,
      Path.clean_rooted hqs, ?_⟩
    obtain ⟨⟨us, rfl⟩, hnil⟩ := hbelow
    by_cases hus : us = []
    · exact .inl (by rw [hus, List.append_nil])
    · have hne : ps ≠ [] := fun h => hus (List.append_eq_nil_iff.mp (hnil h)).2
      exact .inr ⟨us, hus, fun u hu => hqs u (List.mem_append_right ps hu),
        Path.rooted_append hne hus⟩
  · cases h

theorem resolve_stays_below_climbing :
    let loader := ofRoot "/srv/./app" "jail/" 0
    Path.isAbsolute "/srv/./app".toList = true ∧ "jail/" ≠ "" ∧
      loader.resolve "../jail//sub/./..x" = .ok "/srv/app/jail/sub/..x" ∧
      loader.root? = some "/srv/app/jail" ∧
      Path.clean "/srv/app/jail/sub/..x" = "/srv/app/jail/sub/..x" ∧
      ∃ parts : List Part, parts ≠ [] ∧ (∀ p ∈ parts, p.Plain) ∧
        "/srv/app/jail/sub/..x" = "/srv/app/jail" ++ "/" ++ String.ofList (Path.join parts) := by
  intro loader
  have hcwd : Path.isAbsolute "/srv/./app".toList = true := by decide +kernel
  have hroot : "jail/" ≠ "" := by decide
  have h : loader.resolve "../jail//sub/./..x" = .ok "/srv/app/jail/sub/..x" := by
    with_unfolding_all rfl
  have hbase : loader.root? = some "/srv/app/jail" := by with_unfolding_all rfl
  obtain ⟨base, hbase', -, hclean, hbelow⟩ := resolve_stays_below hcwd hroot h
  cases hbase.symm.trans hbase'
  exact ⟨hcwd, hroot, h, hbase, hclean, hbelow.resolve_left (by decide)⟩

-- a directory beside the root whose name starts like the root's
example : (ofRoot "/srv/app" "jail" 0).resolve "../jail2/b.fs" =
    .error (.escapes "../jail2/b.fs") := by with_unfolding_all rfl

/-- A loader with a root refuses nothing inside it.  The one exception is the root of all paths,
below which it refuses everything.  The path is cleaned before it is taken from the root.  That
makes a difference only if it is absolute and climbs: then the parts that would take it out of the
root are gone, and it is never refused. -/
theorem resolve_by_components {cwd root : String} (hcwd : Path.isAbsolute cwd.toList = true)
    (hroot : root ≠ "") (maxBytes : Int64) (path : String) :
    let loader := ofRoot cwd root maxBytes
    let base := Path.absolute cwd root
    let target := Path.below base (Path.clean path)
    loader.root? = some base ∧
      (base ≠ "/" →
        (Path.components base <+: Path.components target → loader.resolve path = .ok target) ∧
        (¬ Path.components base <+: Path.components target →
          loader.resolve path = .error (.escapes path))) ∧
      (base = "/" →
        loader.resolve path = if target = "/" then .ok target else .error (.escapes path)) ∧
      (Path.isAbsolute path.toList = false → target = Path.below base path) ∧
      (Path.isAbsolute path.toList = true →
        Path.components target = Path.components base ++ Path.components (Path.clean path) ∧
        (target = Path.below base path ↔ base = "/" ∨ ¬ Path.Climbs path)) := by
  intro loader base target
  obtain ⟨ps, qs, hps, hqs, hbase, htarget, hresolve⟩ := resolve_ofRoot hcwd hroot maxBytes path
  have hbase : base = Path.rooted ps := hbase
  have htarget : target = Path.rooted qs := by rw [← htarget, ← hbase]
  have hbaseParts : Path.components base = ps := by rw [hbase, Path.components_rooted hps]
  have htargetParts : Path.components target = qs := by rw [htarget, Path.components_rooted hqs]
  have hbaseSlash : base = "/" ↔ ps = [] := by rw [hbase, Path.rooted_eq_slash_iff hps]
  have htargetSlash : target = "/" ↔ qs = [] := by rw [htarget, Path.rooted_eq_slash_iff hqs]
  rw [hbaseParts, htargetParts]
  refine ⟨root?_ofRoot cwd hroot maxBytes, fun hne => ⟨fun hstart => ?_, fun hstart => ?_⟩,
    fun hslash => ?_, ?_, ?_⟩
  · rw [htarget]
    exact hresolve.trans (if_pos ⟨hstart, fun hnil => absurd (hbaseSlash.mpr hnil) hne⟩)
  · exact hresolve.trans (if_neg fun h => hstart h.1)
  · -- without parts of its own, the root is a beginning of everything
    have hnil := hbaseSlash.mp hslash
    have hstart : ps <+: qs := hnil ▸ List.nil_prefix
    by_cases hqnil : qs = []
    · rw [if_pos (htargetSlash.mpr hqnil), htarget]
      exact hresolve.trans (if_pos ⟨hstart, fun _ => hqnil⟩)
    · rw [if_neg fun h => hqnil (htargetSlash.mp h)]
      exact hresolve.trans (if_neg fun h => hqnil (h.2 hnil))
  · intro hrelative
    calc target = Path.below (Path.rooted ps) (Path.clean path) := by rw [← hbase]
      _ = Path.below (Path.rooted ps) path := Path.below_clean hps hrelative
      _ = Path.below base path := by rw [hbase]
  · intro habsolute
    have hdown := Path.below_clean_of_isAbsolute hps habsolute
    rw [← hbase, ← hbaseSlash] at hdown
    exact ⟨htargetParts.symm.trans hdown.1, hdown.2⟩

/-- Nothing can be opened below `/`.  From `/srv/jail`, a path that climbs leads to different places
as it is and cleaned, and the loader goes by the cleaned one. -/
theorem resolve_by_components_slash :
    Path.isAbsolute "/srv".toList = true ∧ "/" ≠ "" ∧ "jail" ≠ "" ∧
      Path.components (Path.absolute "/srv" "/") <+: Path.components "/etc/hosts" ∧
      (ofRoot "/srv" "/" 0).resolve "etc/hosts" = .error (.escapes "etc/hosts") ∧
      (ofRoot "/srv" "jail" 0).resolve "etc/hosts" = .ok "/srv/jail/etc/hosts" ∧
      (ofRoot "/srv" "jail" 0).resolve "/../jail/x" = .ok "/srv/jail/jail/x" ∧
      Path.below "/srv/jail" "/../jail/x" = "/srv/jail/x" := by
  have hcwd : Path.isAbsolute "/srv".toList = true := by decide +kernel
  have hslash : "/" ≠ "" := by decide
  have hjail : "jail" ≠ "" := by decide
  have hrefused := (resolve_by_components hcwd hslash 0 "etc/hosts").2.2.1 (by decide +kernel)
  have hopened := (resolve_by_components hcwd hjail 0 "etc/hosts").2.1 (by decide +kernel)
  have hcleaned := (resolve_by_components hcwd hjail 0 "/../jail/x").2.1 (by decide +kernel)
  refine ⟨hcwd, hslash, hjail, by decide +kernel, hrefused.trans (if_neg (by decide +kernel)), ?_,
    ?_, by decide +kernel⟩
  · exact (hopened.1 (by decide +kernel)).trans (congrArg Except.ok (by decide +kernel))
  · exact (hcleaned.1 (by decide +kernel)).trans (congrArg Except.ok (by decide +kernel))

end Loader

end IntScript
