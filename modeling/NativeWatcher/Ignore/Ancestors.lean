import NativeWatcher.Ignore.States

/-!
# A path or one of its ancestors

`isPathOrAncestorIgnored` asks in one pass, or once for every separator, what `isIgnored`
decides for each prefix of the path that ends with a component.
-/

namespace NativeWatcher

open SegmentMatch Hierarchy

variable {platform : Platform}

/-! ## Prefixes of a path -/

/-- A non-empty prefix that ends where a component of the path ends. -/
def ComponentPrefix (pre path : Str) : Prop := pre ≠ [] ∧ Under slash pre path

theorem spells_components {path : Str} (hpath : path ≠ [])
    (hne : ∀ c ∈ components path, c ≠ []) : Spells path (components path) := by
  obtain ⟨hjoin, hplain⟩ := components_join hpath
  exact ⟨components_ne_nil hpath, hne, hplain, hjoin⟩

theorem Spells.of_prefix {path : Str} {comps cs : List Str} (h : Spells path comps)
    (hcs : cs ≠ []) (hpre : cs <+: comps) : Spells (joinPath cs) cs where
  ne_nil := hcs
  nonempty c hc := h.nonempty c (hpre.subset hc)
  plain c hc := h.plain c (hpre.subset hc)
  join := rfl

theorem joinPath_append {cs ds : List Str} (hcs : cs ≠ []) (hds : ds ≠ []) :
    joinPath (cs ++ ds) = joinPath cs ++ slash :: joinPath ds := by
  induction cs with
  | nil => exact absurd rfl hcs
  | cons c cs ih =>
      by_cases h : cs = []
      · subst h
        exact joinPath_cons hds
      · rw [List.cons_append, joinPath_cons (by simp [h]), ih h, joinPath_cons h,
          List.append_assoc, List.cons_append]

theorem under_joinPath {cs comps : List Str} (hcs : cs ≠ []) (hpre : cs <+: comps) :
    Under slash (joinPath cs) (joinPath comps) := by
  obtain ⟨ds, rfl⟩ := hpre
  by_cases hds : ds = []
  · subst hds
    rw [List.append_nil]
    exact Under.refl _
  · rw [joinPath_append hcs hds]
    exact under_child _ _

/-- A separator of a joined path stands behind some of its components. -/
theorem joinPath_split {comps : List Str} {pre t : Str} (hne : ∀ c ∈ comps, c ≠ [])
    (hplain : ∀ c ∈ comps, slash ∉ c) (h : joinPath comps = pre ++ slash :: t) :
    ∃ cs, cs ≠ [] ∧ cs <+: comps ∧ pre = joinPath cs := by
  induction comps generalizing pre with
  | nil => simp [joinPath] at h
  | cons c comps ih =>
      have hc := hplain c List.mem_cons_self
      have hne' : ∀ d ∈ comps, d ≠ [] := fun d hd => hne d (List.mem_cons_of_mem _ hd)
      have hplain' : ∀ d ∈ comps, slash ∉ d := fun d hd => hplain d (List.mem_cons_of_mem _ hd)
      by_cases hcomps : comps = []
      · subst hcomps
        exact absurd (by rw [show c = _ from h]; simp) hc
      · rw [joinPath_cons hcomps] at h
        rcases List.append_eq_append_iff.mp h with ⟨s, rfl, hs⟩ | ⟨s, rfl, hs⟩
        · cases s with
          | nil =>
              refine ⟨[c], by simp, ⟨comps, rfl⟩, ?_⟩
              rw [List.append_nil]
              rfl
          | cons x s =>
              obtain ⟨rfl, hrest⟩ := List.cons.inj hs
              obtain ⟨cs, hcs, hpre, rfl⟩ := ih hne' hplain' hrest
              exact ⟨c :: cs, by simp, List.cons_prefix_cons.mpr ⟨rfl, hpre⟩,
                (joinPath_cons hcs).symm⟩
        · cases s with
          | nil =>
              refine ⟨[pre], by simp, ⟨comps, ?_⟩, rfl⟩
              rw [List.append_nil]
              rfl
          | cons x s =>
              obtain ⟨rfl, -⟩ := List.cons.inj hs
              exact absurd (by simp) hc

/-- The prefixes are what the first components join to. -/
theorem Spells.componentPrefix_iff {path pre : Str} {comps : List Str} (h : Spells path comps) :
    ComponentPrefix pre path ↔ ∃ cs, cs ≠ [] ∧ cs <+: comps ∧ pre = joinPath cs := by
  constructor
  · rintro ⟨hne, hunder⟩
    rcases hunder with rfl | ⟨t, ht⟩
    · exact ⟨comps, h.ne_nil, List.prefix_refl _, h.join⟩
    · apply joinPath_split (t := t) h.nonempty h.plain
      rw [← h.join, ← ht, List.append_assoc]
      rfl
  · rintro ⟨cs, hcs, hpre, rfl⟩
    refine ⟨(h.of_prefix hcs hpre).key_ne_nil, ?_⟩
    rw [h.join]
    exact under_joinPath hcs hpre

/-- The separators that the loop over `find('/')` meets end the proper prefixes. -/
theorem componentPrefix_iff_index {path pre : Str} (hpath : path ≠ [])
    (hne : ∀ c ∈ components path, c ≠ []) :
    ComponentPrefix pre path ↔ pre = path ∨
      ∃ index ∈ List.range path.length, path[index]? = some slash ∧
        pre = substr path 0 index := by
  constructor
  · rintro ⟨_, rfl | ⟨t, rfl⟩⟩
    · exact Or.inl rfl
    · refine Or.inr ⟨pre.length, ?_, ?_, ?_⟩
      · rw [List.mem_range]
        simp
      · simp
      · simp [substr]
  · rintro (rfl | ⟨index, hindex, hsep, rfl⟩)
    · exact ⟨hpath, Under.refl _⟩
    · have hlt : index < path.length := List.mem_range.mp hindex
      have hsplit : path = path.take index ++ slash :: path.drop (index + 1) := by
        obtain ⟨_, hget⟩ := List.getElem?_eq_some_iff.mp hsep
        rw [← hget, ← List.drop_eq_getElem_cons hlt, List.take_append_drop]
      have hspells := spells_components hpath hne
      obtain ⟨cs, hcs, hpre, htake⟩ := joinPath_split hspells.nonempty hspells.plain
        (hspells.join.symm.trans hsplit)
      have hprefix := hspells.componentPrefix_iff.mpr ⟨cs, hcs, hpre, rfl⟩
      rw [substr, List.drop_zero, htake]
      exact hprefix

/-! ## Both engines -/

namespace Glob

variable {g : Glob} {state : Mask} {S : Set ℕ}

theorem Denotes.stepIn (hg : MaskForm g) (h : Denotes g state S) (dir component : Str) :
    Denotes g (g.stepIn platform dir state component)
      (step (Takes platform) g.segments dir component S) :=
  ⟨(bits_stepBitmask platform component dir [] hg h.bits (memoOf_none _ _)).1,
    closed_step hg.squeezed, bounded_step⟩

/-- The states along the components decide acceptance from the current set. -/
theorem accepting_runFrom_iff (hg : MaskForm g) (h : Denotes g state S) (dir : Str)
    (cs : List Str) :
    g.accepting (g.runFrom platform dir state cs) = true ↔
      Accepts childPath (Takes platform) g.segments S dir cs := by
  induction cs generalizing dir state S with
  | nil =>
      rw [accepts_nil h.closed h.bounded]
      exact h.accept_iff hg
  | cons c cs ih =>
      rw [accepts_cons h.closed]
      exact ih (h.stepIn hg dir c) _

/-- In one pass: some non-empty prefix of the components is matched. -/
theorem tailAccepts_initial_iff (hg : MaskForm g) (root : Str) (comps : List Str) :
    g.TailAccepts platform root g.mInitialState comps ↔
      ∃ cs, cs ≠ [] ∧ cs <+: comps ∧ Matches childPath (Takes platform) g.segments root cs := by
  have hrun : ∀ cs, g.accepting (g.runFrom platform root g.mInitialState cs) = true ↔
      Matches childPath (Takes platform) g.segments root cs := by
    intro cs
    rw [accepting_runFrom_iff hg (Denotes.initial hg), accepts_initial]
  cases comps with
  | nil =>
      apply iff_of_false not_false
      rintro ⟨cs, hcs, hpre, _⟩
      exact hcs (List.prefix_nil.mp hpre)
  | cons c comps =>
      constructor
      · rintro ⟨pre, hpre, h⟩
        exact ⟨c :: pre, by simp, List.cons_prefix_cons.mpr ⟨rfl, hpre⟩, (hrun _).mp h⟩
      · rintro ⟨cs, hcs, hpre, h⟩
        obtain ⟨d, ds, rfl⟩ := List.exists_cons_of_ne_nil hcs
        obtain ⟨rfl, hds⟩ := List.cons_prefix_cons.mp hpre
        exact ⟨ds, hds, (hrun _).mpr h⟩

end Glob

/-- What `isIgnored` decides for the first components. -/
theorem Spells.isIgnored_iff {path : Str} {comps : List Str} (h : Spells path comps)
    {raw : Str} (hraw : raw ≠ []) (root : Str) :
    (Glob.new platform.build raw).isIgnored platform path root = true ↔
      Matches childPath (Takes platform)
        ((components raw).map (patternSegment platform.build)) root comps := by
  have hcomp := h.components_eq
  rw [Glob.isIgnored_new platform hraw root (by rw [hcomp]; exact h.nonempty), PatternMatches,
    hcomp]

/-- The pass of the mask engine, and the calls at every separator, look for a prefix of the
components that the pattern matches. -/
theorem Glob.isPathOrAncestorIgnored_new (platform : Platform) {raw : Str} (hraw : raw ≠ [])
    (root : Str) {path : Str} (hpath : path ≠ []) (hne : ∀ c ∈ components path, c ≠ []) :
    (Glob.new platform.build raw).isPathOrAncestorIgnored platform path root = true ↔
      ∃ cs, cs ≠ [] ∧ cs <+: components path ∧ Matches childPath (Takes platform)
        ((components raw).map (patternSegment platform.build)) root cs := by
  have hspells := spells_components hpath hne
  have hguard : ((Glob.new platform.build raw).mRaw.isEmpty || path.isEmpty) = false := by
    rw [Glob.mRaw_new]
    simp [hraw, hpath]
  rw [Glob.isPathOrAncestorIgnored, hguard, if_neg Bool.false_ne_true]
  by_cases hmask : (Glob.new platform.build raw).mUseBitmask = true
  · have hcuts : (cuts path).map (componentAt path) = components path := by
      rw [components, if_neg (by simpa using hpath)]
    have hne' : ∀ cut ∈ cuts path, componentAt path cut ≠ [] := by
      intro cut hcut
      apply hne
      rw [← hcuts]
      exact List.mem_map_of_mem hcut
    rw [if_pos hmask, Glob.ancestorLoop_iff (cuts_spec path) hne' (scanAt_zero root path), hcuts,
      Glob.tailAccepts_initial_iff (Glob.maskForm_new platform hmask), Glob.segments,
      Glob.mParts_new _ hraw]
    simp only [Glob.matches_compileParts]
  · have hprefix : ((Glob.new platform.build raw).isIgnored platform path root ||
        (List.range path.length).any fun index => path[index]? == some slash &&
          (Glob.new platform.build raw).isIgnored platform (substr path 0 index) root) = true ↔
        ∃ pre, ComponentPrefix pre path ∧
          (Glob.new platform.build raw).isIgnored platform pre root = true := by
      simp only [componentPrefix_iff_index hpath hne, Bool.or_eq_true, List.any_eq_true,
        Bool.and_eq_true, beq_iff_eq]
      constructor
      · rintro (h | ⟨index, hindex, hsep, h⟩)
        · exact ⟨path, Or.inl rfl, h⟩
        · exact ⟨_, Or.inr ⟨index, hindex, hsep, rfl⟩, h⟩
      · rintro ⟨pre, rfl | ⟨index, hindex, hsep, rfl⟩, h⟩
        · exact Or.inl h
        · exact Or.inr ⟨index, hindex, hsep, h⟩
    rw [if_neg hmask, hprefix]
    constructor
    · rintro ⟨pre, hpre, h⟩
      obtain ⟨cs, hcs, hcspre, rfl⟩ := hspells.componentPrefix_iff.mp hpre
      exact ⟨cs, hcs, hcspre, ((hspells.of_prefix hcs hcspre).isIgnored_iff hraw root).mp h⟩
    · rintro ⟨cs, hcs, hcspre, h⟩
      exact ⟨joinPath cs, hspells.componentPrefix_iff.mpr ⟨cs, hcs, hcspre, rfl⟩,
        ((hspells.of_prefix hcs hcspre).isIgnored_iff hraw root).mpr h⟩

/-- **A path or ancestor is ignored when one of its prefixes is.** -/
theorem isPathOrAncestorIgnored_iff_prefix (platform : Platform) (raw root path : Str)
    (hpath : path ≠ []) (hne : ∀ c ∈ components path, c ≠ []) :
    (Glob.new platform.build raw).isPathOrAncestorIgnored platform path root = true ↔
      ∃ pre, ComponentPrefix pre path ∧
        (Glob.new platform.build raw).isIgnored platform pre root = true := by
  by_cases hraw : raw = []
  · subst hraw
    apply iff_of_false
    · simp [Glob.isPathOrAncestorIgnored, Glob.mRaw_new]
    · rintro ⟨pre, _, h⟩
      simp [Glob.isIgnored, Glob.mRaw_new] at h
  · have hspells := spells_components hpath hne
    rw [Glob.isPathOrAncestorIgnored_new platform hraw root hpath hne]
    constructor
    · rintro ⟨cs, hcs, hpre, h⟩
      exact ⟨joinPath cs, hspells.componentPrefix_iff.mpr ⟨cs, hcs, hpre, rfl⟩,
        ((hspells.of_prefix hcs hpre).isIgnored_iff hraw root).mpr h⟩
    · rintro ⟨pre, hprefix, h⟩
      obtain ⟨cs, hcs, hpre, rfl⟩ := hspells.componentPrefix_iff.mp hprefix
      exact ⟨cs, hcs, hpre, ((hspells.of_prefix hcs hpre).isIgnored_iff hraw root).mp h⟩

/-- A file below an ignored directory. -/
theorem isPathOrAncestorIgnored_iff_prefix_nested :
    let platform : Platform := ⟨.posix, fun _ => .Sensitive⟩
    (Glob.new platform.build [97]).isPathOrAncestorIgnored platform [97, 47, 98] [] = true ↔
      ∃ pre, ComponentPrefix pre [97, 47, 98] ∧
        (Glob.new platform.build [97]).isIgnored platform pre [] = true :=
  isPathOrAncestorIgnored_iff_prefix _ _ _ _ (by decide) (by decide)

end NativeWatcher
