import NativeWatcher.Glob.ComponentMatch
import NativeWatcher.Ignore.Ancestors

/-!
# Trailing `/**` of the ignore globs

The constructor of a watcher cuts `/**` from the end of a glob, again and again. With
ancestors taken into account this says nothing new: what is below an ignored directory is
ignored.

It cuts `\**` as well, on every platform. Where a backslash is a character of a name this
is another glob: `a\**` ignores the names that start with `a\`, and becomes `a`.
-/

namespace NativeWatcher

open SegmentMatch

/-! ## Components of a longer path -/

theorem components_append {x b : Str} (hx : x ≠ []) (hb : slash ∉ b) :
    components (x ++ slash :: b) = components x ++ [b] := by
  obtain ⟨hjoin, hplain⟩ := components_join hx
  have hcomps := components_ne_nil hx
  have heq : x ++ slash :: b = joinPath (components x ++ [b]) := by
    rw [joinPath_snoc hcomps, ← hjoin]
  rw [heq]
  apply components_joinPath
  · simp
  · intro c hc
    rcases List.mem_append.mp hc with hc | hc
    · exact hplain c hc
    · rw [List.mem_singleton.mp hc]
      exact hb
  · rw [← heq]
    simp

/-- A name goes on without a separator. -/
theorem components_append_plain {x b : Str} (hx : x ≠ []) (hb : slash ∉ b) :
    ∃ cs last, components x = cs ++ [last] ∧ components (x ++ b) = cs ++ [last ++ b] := by
  obtain ⟨hjoin, hplain⟩ := components_join hx
  obtain ⟨cs, last, hcs⟩ : ∃ cs last, components x = cs ++ [last] :=
    ⟨_, _, (List.dropLast_append_getLast (components_ne_nil hx)).symm⟩
  have hlast : slash ∉ last := hplain last (by simp [hcs])
  have hrest : ∀ c ∈ cs, slash ∉ c := fun c hc => hplain c (by simp [hcs, hc])
  refine ⟨cs, last, hcs, ?_⟩
  have heq : x ++ b = joinPath (cs ++ [last ++ b]) := by
    rw [hjoin, hcs]
    by_cases h : cs = []
    · subst h
      rfl
    · rw [joinPath_snoc h, joinPath_snoc h, List.append_assoc, List.cons_append]
  rw [heq]
  apply components_joinPath
  · simp
  · intro c hc
    rcases List.mem_append.mp hc with hc | hc
    · exact hrest c hc
    · rw [List.mem_singleton.mp hc, List.mem_append]
      rintro (h | h)
      · exact hlast h
      · exact hb h
  · rw [← heq]
    simp [hx]

/-! ## The loop -/

/-- The test of the loop, for one of its suffixes. -/
theorem endsWith_iff {raw s : Str} (hs : s.length = 3) :
    3 < raw.length ∧ substr raw (raw.length - 3) 3 = s ↔ ∃ y, y ≠ [] ∧ raw = y ++ s := by
  constructor
  · rintro ⟨hlen, hsub⟩
    refine ⟨raw.take (raw.length - 3), ?_, ?_⟩
    · intro hnil
      have := congrArg List.length hnil
      rw [List.length_take, List.length_nil] at this
      omega
    · have htake : substr raw (raw.length - 3) 3 = raw.drop (raw.length - 3) := by
        apply List.take_of_length_le
        rw [List.length_drop]
        omega
      rw [← hsub, htake, List.take_append_drop]
  · rintro ⟨y, hy, rfl⟩
    have hpos : 0 < y.length := List.length_pos_iff.mpr hy
    rw [List.length_append, hs]
    refine ⟨by omega, ?_⟩
    simp [substr, ← hs]

theorem normalizeGlob_append {y s : Str} (hy : y ≠ []) (hs : s = slashStars ∨ s = backslashStars) :
    normalizeGlob (y ++ s) = normalizeGlob y := by
  have hlen : s.length = 3 := by
    rcases hs with rfl | rfl <;> rfl
  have hend := (endsWith_iff hlen).mpr ⟨y, hy, rfl⟩
  have htake : (y ++ s).take ((y ++ s).length - 3) = y := by
    rw [List.length_append, hlen, Nat.add_sub_cancel, List.take_left]
  rw [normalizeGlob, if_pos, htake]
  refine ⟨hend.1, ?_⟩
  rcases hs with rfl | rfl
  · exact Or.inl hend.2
  · exact Or.inr hend.2

/-- A glob that the loop leaves alone. -/
def Normal (raw : Str) : Prop :=
  ∀ y, y ≠ [] → raw ≠ y ++ slashStars ∧ raw ≠ y ++ backslashStars

theorem normalizeGlob_of_normal {raw : Str} (h : Normal raw) : normalizeGlob raw = raw := by
  rw [normalizeGlob, if_neg]
  rintro ⟨hlen, hsub | hsub⟩
  · obtain ⟨y, hy, heq⟩ := (endsWith_iff rfl).mp ⟨hlen, hsub⟩
    exact (h y hy).1 heq
  · obtain ⟨y, hy, heq⟩ := (endsWith_iff rfl).mp ⟨hlen, hsub⟩
    exact (h y hy).2 heq

/-- Induction along the loop. -/
theorem normalizeGlob_induction {P : Str → Prop}
    (cutSlash : ∀ y, y ≠ [] → P y → P (y ++ slashStars))
    (cutBackslash : ∀ y, y ≠ [] → P y → P (y ++ backslashStars))
    (stop : ∀ raw, Normal raw → P raw) (raw : Str) : P raw := by
  induction hn : raw.length using Nat.strongRecOn generalizing raw with
  | ind n ih =>
      by_cases hnormal : Normal raw
      · exact stop raw hnormal
      · unfold Normal at hnormal
        push Not at hnormal
        obtain ⟨y, hy, hcut⟩ := hnormal
        by_cases hslash : raw = y ++ slashStars
        · subst hslash
          refine cutSlash y hy (ih y.length ?_ y rfl)
          rw [← hn, List.length_append]
          exact Nat.lt_add_of_pos_right (by decide)
        · have hback := hcut hslash
          subst hback
          refine cutBackslash y hy (ih y.length ?_ y rfl)
          rw [← hn, List.length_append]
          exact Nat.lt_add_of_pos_right (by decide)

/-- The loop cuts a `\**` somewhere: `x\**/**/**`. -/
def CutsBackslash (raw : Str) : Prop :=
  ∃ x n, x ≠ [] ∧ raw = x ++ backslashStars ++ (List.replicate n slashStars).flatten

theorem cutsBackslash_slash {y : Str} (hy : y ≠ []) :
    CutsBackslash (y ++ slashStars) ↔ CutsBackslash y := by
  constructor
  · rintro ⟨x, n, hx, heq⟩
    cases n with
    | zero =>
        rw [List.replicate_zero, List.flatten_nil, List.append_nil] at heq
        have hend := (List.append_inj' heq rfl).2
        exact absurd hend (by decide)
    | succ n =>
        rw [List.replicate_succ', List.flatten_append, List.flatten_singleton,
          ← List.append_assoc] at heq
        exact ⟨x, n, hx, (List.append_inj' heq rfl).1⟩
  · rintro ⟨x, n, hx, rfl⟩
    refine ⟨x, n + 1, hx, ?_⟩
    rw [List.replicate_succ', List.flatten_append, List.flatten_singleton, List.append_assoc]

theorem cutsBackslash_backslash {y : Str} (hy : y ≠ []) : CutsBackslash (y ++ backslashStars) :=
  ⟨y, 0, hy, by simp⟩

theorem Normal.not_cutsBackslash {raw : Str} (h : Normal raw) : ¬ CutsBackslash raw := by
  rintro ⟨x, n, hx, rfl⟩
  cases n with
  | zero =>
      apply (h x hx).2
      rw [List.replicate_zero, List.flatten_nil, List.append_nil]
  | succ n =>
      refine (h (x ++ backslashStars ++ (List.replicate n slashStars).flatten) ?_).1 ?_
      · simp [hx]
      · rw [List.replicate_succ', List.flatten_append, List.flatten_singleton]
        simp only [List.append_assoc]

/-! ## A trailing `/**` -/

/-- What `isPathOrAncestorIgnored` decides, on the POSIX build. -/
def Ignores (sensitivity : Str → DirectoryCaseSensitivity) (raw root path : Str) : Prop :=
  (Glob.new .posix raw).isPathOrAncestorIgnored ⟨.posix, sensitivity⟩ path root = true

/-- A relative path all of whose components are names. -/
def WellFormedPath (path : Str) : Prop := path ≠ [] ∧ ∀ c ∈ components path, c ≠ []

section Ignores

variable {sensitivity : Str → DirectoryCaseSensitivity} {raw root path : Str}

theorem ignores_iff (hraw : raw ≠ []) (hpath : WellFormedPath path) :
    Ignores sensitivity raw root path ↔
      ∃ cs, cs ≠ [] ∧ cs <+: components path ∧ Matches childPath (Takes ⟨.posix, sensitivity⟩)
        ((components raw).map (patternSegment .posix)) root cs :=
  Glob.isPathOrAncestorIgnored_new ⟨.posix, sensitivity⟩ hraw root hpath.1 hpath.2

/-- **A trailing `/**` says nothing new.** -/
theorem ignores_slashStars (hraw : raw ≠ []) (hpath : WellFormedPath path) :
    Ignores sensitivity (raw ++ slashStars) root path ↔ Ignores sensitivity raw root path := by
  have hsegments : (components (raw ++ slashStars)).map (patternSegment .posix) =
      (components raw).map (patternSegment .posix) ++ [none] := by
    rw [slashStars, components_append hraw (by decide), List.map_append]
    rfl
  rw [ignores_iff (by simp [hraw]) hpath, ignores_iff hraw hpath, hsegments]
  constructor
  · rintro ⟨cs, hcs, hpre, h⟩
    obtain ⟨ds, hds, hm⟩ := matches_snoc_none.mp h
    by_cases hnil : ds = []
    · -- Then the front of the glob consists of `**` and matches everything.
      subst hnil
      have hne : (components raw).map (patternSegment .posix) ≠ [] := by
        simpa using components_ne_nil hraw
      exact ⟨cs, hcs, hpre, matches_of_nil hne hm cs⟩
    · exact ⟨ds, hnil, hds.trans hpre, hm⟩
  · rintro ⟨cs, hcs, hpre, h⟩
    exact ⟨cs, hcs, hpre, matches_snoc_none.mpr ⟨cs, List.prefix_refl _, h⟩⟩

theorem takes_compile {part dir c : Str} (hpart : part ≠ doubleStar)
    (h : Takes ⟨.posix, sensitivity⟩ (.compile .posix part) dir c) :
    ∃ ignoreCase, CharMatches ignoreCase part c := by
  rcases h with h | ⟨h, -⟩
  · exact ⟨false, (componentMatchesExact_iff c hpart).mp h⟩
  · exact ⟨true, (componentMatchesFolded_iff c hpart).mp h⟩

theorem mem_segments {k : GlobComponent} {parts : List Str}
    (h : some k ∈ parts.map (patternSegment .posix)) :
    ∃ part ∈ parts, part ≠ doubleStar ∧ k = .compile .posix part := by
  obtain ⟨part, hpart, heq⟩ := List.mem_map.mp h
  unfold patternSegment at heq
  split at heq
  next => cases heq
  next hne => exact ⟨part, hpart, hne, (Option.some.inj heq).symm⟩

/-- A glob with an empty component ignores nothing. -/
theorem not_ignores_of_empty (hraw : raw ≠ []) (hpath : WellFormedPath path)
    (hempty : [] ∈ components raw) : ¬ Ignores sensitivity raw root path := by
  rw [ignores_iff hraw hpath]
  rintro ⟨cs, -, hpre, h⟩
  have hk : some (GlobComponent.compile .posix []) ∈
      (components raw).map (patternSegment .posix) :=
    List.mem_map.mpr ⟨[], hempty, if_neg (by decide)⟩
  obtain ⟨dir, c, hc, hsat⟩ := h.exists_sat hk
  obtain ⟨ignoreCase, hm⟩ := takes_compile (by decide) hsat
  have hnil : c = [] := by
    cases ignoreCase with
    | false => exact ((charMatches_literal List.not_mem_nil).mp hm).symm
    | true =>
        have h := (charMatches_literal_folded List.not_mem_nil).mp hm
        exact List.map_eq_nil_iff.mp h.symm
  exact hpath.2 c (hpre.subset hc) hnil

end Ignores

/-- Cutting leaves an empty component where one was. -/
theorem empty_mem_normalizeGlob (raw : Str) :
    [] ∈ components raw → [] ∈ components (normalizeGlob raw) := by
  induction raw using normalizeGlob_induction with
  | cutSlash y hy ih =>
      intro h
      rw [normalizeGlob_append hy (Or.inl rfl)]
      rw [slashStars, components_append hy (by decide)] at h
      exact ih (by simpa using h)
  | cutBackslash y hy ih =>
      intro h
      rw [normalizeGlob_append hy (Or.inr rfl)]
      obtain ⟨cs, last, hcs, hlong⟩ := components_append_plain hy (b := backslashStars) (by decide)
      rw [hlong] at h
      refine ih ?_
      rw [hcs]
      simp [backslashStars] at h
      simp [h]
  | stop raw hnormal =>
      rw [normalizeGlob_of_normal hnormal]
      exact id

/-- **Where no backslash is cut, the glob that is left ignores the same paths**; and so it
does when an empty component keeps both from ignoring any. -/
theorem ignores_normalizeGlob {sensitivity : Str → DirectoryCaseSensitivity}
    {root path : Str} (hpath : WellFormedPath path) (raw : Str) :
    raw ≠ [] → (CutsBackslash raw → [] ∈ components raw) →
      (Ignores sensitivity (normalizeGlob raw) root path ↔
        Ignores sensitivity raw root path) := by
  intro hraw hcut
  by_cases hback : CutsBackslash raw
  · exact iff_of_false
      (not_ignores_of_empty (normalizeGlob_ne_nil hraw) hpath
        (empty_mem_normalizeGlob raw (hcut hback)))
      (not_ignores_of_empty hraw hpath (hcut hback))
  · clear hcut hraw
    induction raw using normalizeGlob_induction with
    | cutSlash y hy ih =>
        rw [normalizeGlob_append hy (Or.inl rfl), ignores_slashStars hy hpath]
        exact ih (fun h => hback ((cutsBackslash_slash hy).mpr h))
    | cutBackslash y hy ih => exact absurd (cutsBackslash_backslash hy) hback
    | stop raw hnormal => rw [normalizeGlob_of_normal hnormal]

/-! ## A backslash that was cut -/

/-- `'\\'`. -/
abbrev backslash : UInt8 := 92

theorem count_map_of_iff {f : UInt8 → UInt8} {b : UInt8} (h : ∀ ch, f ch = b ↔ ch = b)
    (s : Str) : (s.map f).count b = s.count b := by
  induction s with
  | nil => rfl
  | cons ch s ih =>
      rw [List.map_cons, List.count_cons, List.count_cons, ih]
      simp [h]

theorem count_toAsciiLower (s : Str) : (toAsciiLower s).count backslash = s.count backslash := by
  apply count_map_of_iff
  intro ch
  unfold asciiLower
  split
  next h =>
      obtain ⟨h65, h90⟩ := h
      have hback : backslash.toNat = 92 := rfl
      rw [UInt8.le_iff_toNat_le] at h65 h90
      rw [← UInt8.toNat_inj, ← UInt8.toNat_inj, UInt8.toNat_add, hback]
      simp at h65 h90 ⊢
      omega
  next => exact Iff.rfl

theorem count_collapseStars (s : Str) : (collapseStars s).count backslash = s.count backslash := by
  have hfold : ∀ rest acc : Str, (rest.foldl (fun result ch =>
      if ch = star ∧ result ≠ [] ∧ result.getLast? = some star then result
      else result ++ [ch]) acc).count backslash = acc.count backslash + rest.count backslash := by
    intro rest
    induction rest with
    | nil => intro acc; rfl
    | cons ch rest ih =>
        intro acc
        rw [List.foldl_cons, ih]
        split
        next h =>
            rw [h.1, List.count_cons_of_ne (by decide)]
        next =>
            rw [List.count_append, List.count_singleton', List.count_cons]
            simp only [beq_iff_eq]
            omega
  rw [collapseStars, hfold, List.count_nil, Nat.zero_add]

/-- A name holds the backslashes of the pattern that matches it. -/
theorem count_le_of_charMatches {ignoreCase : Bool} {pattern value : Str}
    (h : CharMatches ignoreCase pattern value) :
    pattern.count backslash ≤ value.count backslash := by
  have hsame : ∀ k c, SameChar ignoreCase k c → k.count backslash ≤ c.count backslash := by
    intro k c hkc
    unfold SameChar at hkc
    cases ignoreCase with
    | false => exact Nat.le_of_eq (congrArg _ hkc)
    | true =>
        have heq := congrArg (List.count backslash) hkc
        rw [count_toAsciiLower, count_toAsciiLower] at heq
        exact Nat.le_of_eq heq
  have hweight := SegmentMatch.Matches.weight_le h (List.count backslash) (List.count backslash)
    fun k _ c _ hkc => hsame k c hkc
  have hpattern : ((utf8Characters pattern).map wildcardSegment).map
      (fun p => p.elim 0 (List.count backslash)) =
      (utf8Characters pattern).map (List.count backslash) := by
    rw [List.map_map]
    apply List.map_congr_left
    intro ch _
    show (wildcardSegment ch).elim 0 (List.count backslash) = ch.count backslash
    unfold wildcardSegment
    split
    next hstar =>
        rw [hstar]
        decide
    next => rfl
  rw [hpattern, ← List.count_flatten, ← List.count_flatten, flatten_utf8Characters,
    flatten_utf8Characters] at hweight
  exact hweight

theorem count_joinPath (comps : List Str) :
    (joinPath comps).count backslash = (comps.map (List.count backslash)).sum := by
  induction comps with
  | nil => rfl
  | cons c cs ih =>
      by_cases h : cs = []
      · subst h
        simp [joinPath]
      · rw [joinPath_cons h, List.count_append, List.count_cons_of_ne (by decide), ih,
          List.map_cons, List.sum_cons]

theorem count_components {path : Str} (h : path ≠ []) :
    path.count backslash = ((components path).map (List.count backslash)).sum := by
  rw [← count_joinPath, ← (components_join h).1]

/-- An ignored path holds the backslashes of the glob. -/
theorem count_le_of_ignores {sensitivity : Str → DirectoryCaseSensitivity}
    {raw root path : Str} (hraw : raw ≠ []) (hpath : WellFormedPath path)
    (h : Ignores sensitivity raw root path) : raw.count backslash ≤ path.count backslash := by
  obtain ⟨cs, -, ⟨ds, hds⟩, hm⟩ := (ignores_iff hraw hpath).mp h
  have hraw' : ∀ part, part ≠ doubleStar →
      (GlobComponent.compile .posix part).raw.count backslash = part.count backslash := by
    intro part hpart
    rw [(compile_posix hpart).2.1]
    split
    · exact count_collapseStars part
    · rfl
  have hweight := hm.weight_le (fun k => k.raw.count backslash) (List.count backslash) (by
      intro k dir c hk hsat
      obtain ⟨part, -, hpart, rfl⟩ := mem_segments hk
      obtain ⟨ignoreCase, hchar⟩ := takes_compile hpart hsat
      show (GlobComponent.compile .posix part).raw.count backslash ≤ _
      rw [hraw' part hpart]
      exact count_le_of_charMatches hchar)
  have hpattern : ((components raw).map (patternSegment .posix)).map
      (fun p => p.elim 0 fun k => k.raw.count backslash) =
      (components raw).map (List.count backslash) := by
    rw [List.map_map]
    apply List.map_congr_left
    intro part _
    show (patternSegment .posix part).elim 0 (fun k => k.raw.count backslash) = _
    unfold patternSegment
    split
    next hstar =>
        rw [hstar]
        decide
    next hne => exact hraw' part hne
  rw [hpattern, ← count_components hraw] at hweight
  rw [count_components hpath.1, ← hds, List.map_append, List.sum_append]
  exact hweight.trans (Nat.le_add_right ..)

theorem count_normalizeGlob (raw : Str) :
    (normalizeGlob raw).count backslash ≤ raw.count backslash ∧
      (CutsBackslash raw →
        (normalizeGlob raw).count backslash < raw.count backslash) := by
  induction raw using normalizeGlob_induction with
  | cutSlash y hy ih =>
      rw [normalizeGlob_append hy (Or.inl rfl), cutsBackslash_slash hy, List.count_append]
      exact ih
  | cutBackslash y hy ih =>
      have hone : backslashStars.count backslash = 1 := by decide
      rw [normalizeGlob_append hy (Or.inr rfl), List.count_append, hone]
      exact ⟨Nat.le_succ_of_le ih.1, fun _ => Nat.lt_succ_of_le ih.1⟩
  | stop raw hnormal =>
      rw [normalizeGlob_of_normal hnormal]
      exact ⟨Nat.le_refl _, fun h => absurd h hnormal.not_cutsBackslash⟩

/-! ## A path that a glob ignores -/

/-- An `a` for each star. -/
def sample (s : Str) : Str := s.map fun ch => if ch = star then 97 else ch

theorem count_sample (s : Str) : (sample s).count backslash = s.count backslash := by
  apply count_map_of_iff
  intro ch
  by_cases h : ch = star
  · rw [if_pos h, h]
    decide
  · rw [if_neg h]

theorem sample_of_plain {s : Str} (h : star ∉ s) : sample s = s := by
  have hid : sample s = s.map id := by
    apply List.map_congr_left
    intro ch hch
    apply if_neg
    rintro rfl
    exact h hch
  rw [hid, List.map_id]

theorem sample_append (a b : Str) : sample (a ++ b) = sample a ++ sample b := List.map_append

theorem sample_joinPath (comps : List Str) :
    sample (joinPath comps) = joinPath (comps.map sample) := by
  induction comps with
  | nil => rfl
  | cons c cs ih =>
      by_cases h : cs = []
      · subst h
        rfl
      · rw [joinPath_cons h, List.map_cons, joinPath_cons (by simpa using h), ← ih, sample_append]
        rfl

theorem components_sample {s : Str} (h : s ≠ []) :
    components (sample s) = (components s).map sample := by
  obtain ⟨hjoin, hplain⟩ := components_join h
  have heq : sample s = joinPath ((components s).map sample) := by
    rw [← sample_joinPath, ← hjoin]
  rw [heq]
  apply components_joinPath
  · simpa using components_ne_nil h
  · intro c hc
    obtain ⟨d, hd, rfl⟩ := List.mem_map.mp hc
    intro hslash
    obtain ⟨ch, hch, hval⟩ := List.mem_map.mp hslash
    by_cases hstar : ch = star
    · rw [if_pos hstar] at hval
      exact absurd hval (by decide)
    · rw [if_neg hstar] at hval
      exact hplain d hd (hval ▸ hch)
  · rw [← heq]
    simpa [sample] using h

theorem wellFormedPath_sample {s : Str} (h : s ≠ []) (hempty : [] ∉ components s) :
    WellFormedPath (sample s) := by
  refine ⟨by simpa [sample] using h, ?_⟩
  rw [components_sample h]
  intro c hc
  obtain ⟨d, hd, rfl⟩ := List.mem_map.mp hc
  have hne : d ≠ [] := fun heq => hempty (heq ▸ hd)
  simpa [sample] using hne

/-- Up to its first star a pattern is a name, then the star takes the `a`. -/
theorem charMatches_sample (pattern : Str) : CharMatches false pattern (sample pattern) := by
  induction hn : pattern.length using Nat.strongRecOn generalizing pattern with
  | ind n ih =>
      by_cases hstar : star ∈ pattern
      · obtain ⟨a, b, rfl, hplain⟩ := List.eq_append_cons_of_mem hstar
        have hrest : CharMatches false b (sample b) := by
          apply ih b.length _ b rfl
          rw [← hn, List.length_append, List.length_cons]
          omega
        have hsample : sample (a ++ star :: b) = a ++ 97 :: sample b := by
          rw [sample_append, sample_of_plain hplain]
          rfl
        have hsame : List.Forall₂ (SameChar false) (utf8Characters a) (utf8Characters a) :=
          List.forall₂_same.mpr fun _ _ => rfl
        rw [CharMatches, hsample, utf8Characters_append _ asciiStar,
          utf8Characters_append _ (by decide), List.map_append, map_wildcardSegment hplain,
          Wildcard.matches_literals hsame]
        exact .take (.skip hrest)
      · rw [sample_of_plain hstar]
        exact (charMatches_literal hstar).mpr rfl

/-- Component for component, with one component for each `**`. -/
theorem matches_sample (sensitivity : Str → DirectoryCaseSensitivity) (parts : List Str)
    (root : Str) :
    Matches childPath (Takes ⟨.posix, sensitivity⟩) (parts.map (patternSegment .posix)) root
      (parts.map sample) := by
  induction parts generalizing root with
  | nil => exact .nil root
  | cons part parts ih =>
      rw [List.map_cons, List.map_cons]
      unfold patternSegment
      split
      next => exact .take (.skip (ih _))
      next hne =>
          refine .one (Or.inl ?_) (ih _)
          exact (componentMatchesExact_iff _ hne).mpr (charMatches_sample part)

theorem ignores_sample (sensitivity : Str → DirectoryCaseSensitivity) {raw : Str}
    (hraw : raw ≠ []) (hempty : [] ∉ components raw) (root : Str) :
    Ignores sensitivity raw root (sample raw) := by
  rw [ignores_iff hraw (wellFormedPath_sample hraw hempty)]
  refine ⟨components (sample raw), components_ne_nil (by simpa [sample] using hraw),
    List.prefix_refl _, ?_⟩
  rw [components_sample hraw]
  exact matches_sample sensitivity _ root

/-- **A cut backslash shows**: on some path the two globs differ. -/
theorem exists_ignores_ne {raw : Str} (hraw : raw ≠ []) (hback : CutsBackslash raw)
    (hempty : [] ∉ components raw) (sensitivity : Str → DirectoryCaseSensitivity)
    (root : Str) :
    ∃ path, WellFormedPath path ∧ ¬ (Ignores sensitivity (normalizeGlob raw) root path ↔
      Ignores sensitivity raw root path) := by
  have hnormal := normalizeGlob_ne_nil hraw
  by_cases hcut : [] ∈ components (normalizeGlob raw)
  · have hpath := wellFormedPath_sample hraw hempty
    refine ⟨sample raw, hpath, fun h => ?_⟩
    exact not_ignores_of_empty hnormal hpath hcut
      (h.mpr (ignores_sample sensitivity hraw hempty root))
  · have hpath := wellFormedPath_sample hnormal hcut
    refine ⟨sample (normalizeGlob raw), hpath, fun h => ?_⟩
    have hle := count_le_of_ignores hraw hpath
      (h.mp (ignores_sample sensitivity hnormal hcut root))
    rw [count_sample] at hle
    exact absurd ((count_normalizeGlob raw).2 hback) (Nat.not_lt.mpr hle)

/-! ## The globs of a watcher -/

/-- The compiled globs of every watcher with these ignore globs ignore what the globs
themselves ignore. -/
def NormalisationPreserves (globs : List Str) : Prop :=
  ∀ (sensitivity : Str → DirectoryCaseSensitivity)
    (w : Watcher ⟨.posix, sensitivity⟩), w.mIgnoreGlobs = globs →
    ∀ root path : Str, path ≠ [] → (∀ c ∈ components path, c ≠ []) →
      ((∃ g ∈ w.mCompiledGlobs,
          g.isPathOrAncestorIgnored ⟨.posix, sensitivity⟩ path root = true) ↔
        ∃ raw ∈ globs, (Glob.new .posix raw).isPathOrAncestorIgnored
          ⟨.posix, sensitivity⟩ path root = true)

theorem ignores_compiled_iff {sensitivity : Str → DirectoryCaseSensitivity}
    (w : Watcher ⟨.posix, sensitivity⟩) (root path : Str) :
    (∃ g ∈ w.mCompiledGlobs,
        g.isPathOrAncestorIgnored ⟨.posix, sensitivity⟩ path root = true) ↔
      ∃ raw ∈ w.mIgnoreGlobs, raw ≠ [] ∧
        Ignores sensitivity (normalizeGlob raw) root path := by
  simp only [w.compiled.mem_iff, compiledGlobs, List.mem_map, List.mem_dedup, List.mem_filter]
  constructor
  · rintro ⟨_, ⟨_, ⟨raw, ⟨hraw, hne⟩, rfl⟩, rfl⟩, h⟩
    exact ⟨raw, hraw, by simpa using hne, h⟩
  · rintro ⟨raw, hraw, hne, h⟩
    exact ⟨_, ⟨_, ⟨raw, ⟨hraw, by simpa using hne⟩, rfl⟩, rfl⟩, h⟩

theorem not_ignores_nil {sensitivity : Str → DirectoryCaseSensitivity} {root path : Str} :
    ¬ Ignores sensitivity [] root path := by
  simp [Ignores, Glob.isPathOrAncestorIgnored, Glob.mRaw_new]

theorem normalisationPreserves_of {globs : List Str}
    (h : ∀ raw ∈ globs, CutsBackslash raw → [] ∈ components raw) :
    NormalisationPreserves globs := by
  rintro sensitivity w rfl root path hpath hne
  rw [ignores_compiled_iff]
  constructor
  · rintro ⟨raw, hraw, hnonempty, hm⟩
    exact ⟨raw, hraw, (ignores_normalizeGlob ⟨hpath, hne⟩ raw hnonempty (h raw hraw)).mp hm⟩
  · rintro ⟨raw, hraw, hm⟩
    have hnonempty : raw ≠ [] := by
      rintro rfl
      exact not_ignores_nil hm
    exact ⟨raw, hraw, hnonempty,
      (ignores_normalizeGlob ⟨hpath, hne⟩ raw hnonempty (h raw hraw)).mpr hm⟩

/-- **Normalisation keeps what is ignored, unless a `\**` is cut from a glob that ignores
something.** For a single glob this is exact. -/
theorem normalisation_preserves (globs : List Str) :
    ((∀ raw ∈ globs, CutsBackslash raw → [] ∈ components raw) → NormalisationPreserves globs) ∧
      ∀ raw, globs = [raw] →
        (NormalisationPreserves globs ↔ (CutsBackslash raw → [] ∈ components raw)) := by
  refine ⟨normalisationPreserves_of, ?_⟩
  rintro raw rfl
  refine ⟨fun h hback => ?_, fun h => normalisationPreserves_of (by simpa using h)⟩
  by_contra hempty
  have hraw : raw ≠ [] := by
    obtain ⟨x, n, hx, rfl⟩ := hback
    simp [hx]
  obtain ⟨path, hpath, hdiff⟩ :=
    exists_ignores_ne hraw hback hempty (fun _ => .Sensitive) []
  have hsame := h (fun _ => .Sensitive)
    (Watcher.new 0 [] [] [raw] (compiledGlobs .posix [raw]) (.refl _)) rfl [] path
    hpath.1 hpath.2
  rw [ignores_compiled_iff] at hsame
  apply hdiff
  constructor
  · intro hm
    obtain ⟨raw', hmem, hm'⟩ := hsame.mp ⟨raw, List.mem_singleton_self _, hraw, hm⟩
    rw [List.mem_singleton] at hmem
    exact hmem ▸ hm'
  · intro hm
    obtain ⟨raw', hmem, -, hm'⟩ := hsame.mpr ⟨raw, List.mem_singleton_self _, hm⟩
    have heq : raw' = raw := List.mem_singleton.mp hmem
    exact heq ▸ hm'

/-- Two globs without a backslash. -/
theorem normalisation_preserves_plain :
    NormalisationPreserves [[97, 47, 42, 42, 47, 42, 42], [98, 42]] := by
  apply (normalisation_preserves _).1
  rintro raw hraw ⟨x, n, -, heq⟩
  have hmem : backslash ∈ raw := by
    rw [heq]
    simp [backslashStars]
  have hnone : ∀ raw ∈ ([[97, 47, 42, 42, 47, 42, 42], [98, 42]] : List Str),
      backslash ∉ raw := by decide
  exact absurd hmem (hnone raw hraw)

/-- The glob `a\**` is compiled as `a`, and ignores the file `a`. -/
theorem normalisation_changes_backslash :
    ¬ NormalisationPreserves [[97, 92, 42, 42]] := by
  intro h
  have hsame := h (fun _ => .Sensitive)
    (Watcher.new 0 [] [] [[97, 92, 42, 42]] (compiledGlobs .posix [[97, 92, 42, 42]]) (.refl _))
    rfl [] [97] (by decide) (by decide)
  rw [ignores_compiled_iff] at hsame
  have hnormal : normalizeGlob [97, 92, 42, 42] = [97] := by
    rw [show ([97, 92, 42, 42] : Str) = [97] ++ backslashStars from rfl,
      normalizeGlob_append (by decide) (Or.inr rfl)]
    exact normalizeGlob_of_normal fun y hy => by
      constructor <;> intro heq <;> simpa [slashStars, backslashStars] using congrArg List.length heq
  have hcompiled : ∃ raw ∈ [[97, 92, 42, 42]], raw ≠ [] ∧
      Ignores (fun _ => .Sensitive) (normalizeGlob raw) [] [97] := by
    refine ⟨_, List.mem_singleton_self _, by decide, ?_⟩
    rw [hnormal]
    exact ignores_sample _ (by decide) (by decide) []
  obtain ⟨raw, hraw, hm⟩ := hsame.mp hcompiled
  rw [List.mem_singleton.mp hraw] at hm
  have hle := count_le_of_ignores (by decide) ⟨by decide, by decide⟩ hm
  exact absurd hle (by decide)

end NativeWatcher
