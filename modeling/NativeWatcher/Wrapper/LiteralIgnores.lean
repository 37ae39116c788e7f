import NativeWatcher.Ignore.Cache
import NativeWatcher.Ignore.Normalisation
import NativeWatcher.Wrapper.NormalizeOptions

/-!
# Ignore entries without a star

An entry becomes a glob of components, an ignore path or the watched directory itself, and
three matchers that share no code see to it. What they ignore together is what lies at or
below the paths that the entries resolve to.
-/

namespace NativeWatcher

open Hierarchy LexicalPath NodePath JsStr SegmentMatch

/-! ## Globs without a star -/

theorem joinPath_eq_join (comps : List Str) : joinPath comps = join slash comps := by
  induction comps with
  | nil => rfl
  | cons c comps ih =>
      by_cases hnil : comps = []
      · subst hnil
        exact (List.intercalate_singleton ..).symm
      · rw [joinPath_cons hnil, join_cons hnil, ih]

theorem normal_of_no_star {raw : Str} (h : star ∉ raw) : Normal raw := by
  rintro y -
  constructor
  · rintro rfl
    exact h (List.mem_append_right y (by decide))
  · rintro rfl
    exact h (List.mem_append_right y (by decide))

/-- Every directory is case-sensitive. -/
def caseSensitive : Str → DirectoryCaseSensitivity := fun _ => .Sensitive

theorem takes_literal {part dir c : Str} (hstar : star ∉ part) :
    Takes ⟨.posix, caseSensitive⟩ (.compile .posix part) dir c ↔ part = c := by
  have hpart : part ≠ doubleStar := by
    rintro rfl
    exact hstar (by decide)
  rw [← charMatches_literal hstar, ← componentMatchesExact_iff c hpart]
  constructor
  · rintro (h | ⟨_, h⟩)
    · exact h
    · cases h
  · exact Or.inl

theorem matches_literal {parts : List Str} (hstar : ∀ part ∈ parts, star ∉ part) (root : Str)
    (cs : List Str) :
    Matches childPath (Takes ⟨.posix, caseSensitive⟩) (parts.map (patternSegment .posix)) root cs ↔
      cs = parts := by
  induction parts generalizing root cs with
  | nil => exact matches_nil_iff
  | cons part parts ih =>
      have hpart : star ∉ part := hstar part List.mem_cons_self
      have hsegment : patternSegment .posix part = some (.compile .posix part) := by
        apply if_neg
        rintro rfl
        exact hpart (by decide)
      rw [List.map_cons, hsegment]
      cases cs with
      | nil => exact iff_of_false not_matches_some_nil (by simp)
      | cons c cs =>
          rw [matches_some_cons, takes_literal hpart,
            ih fun p hp => hstar p (List.mem_cons_of_mem _ hp), List.cons.injEq, eq_comm]

/-- A glob without a star ignores what lies at or below it. -/
theorem ignores_literal {raw root path : Str} (hraw : raw ≠ []) (hstar : star ∉ raw)
    (hpath : WellFormedPath path) :
    Ignores caseSensitive raw root path ↔ Under slash raw path := by
  obtain ⟨hjoin, hplain⟩ := components_join hraw
  have hparts : ∀ part ∈ components raw, star ∉ part := by
    intro part hpart hmem
    apply hstar
    rw [hjoin, joinPath_eq_join]
    exact mem_join_of_mem hpart hmem
  have hspells := spells_components hpath.1 hpath.2
  rw [ignores_iff hraw hpath]
  constructor
  · rintro ⟨cs, hcs, hpre, hm⟩
    rw [matches_literal hparts] at hm
    subst hm
    rw [hspells.join, hjoin]
    exact under_joinPath hcs hpre
  · intro hunder
    obtain ⟨cs, hcs, hpre, hcsjoin⟩ := hspells.componentPrefix_iff.mp ⟨hraw, hunder⟩
    have hcomponents : components raw = cs := by
      have hspell := hspells.of_prefix hcs hpre
      rw [hcsjoin]
      exact hspell.components_eq
    exact ⟨cs, hcs, hpre, (matches_literal hparts root cs).mpr hcomponents.symm⟩

/-! ## Where an entry goes -/

section Routes

variable {cwd e : JsStr} {ds rel : List JsStr}

/-- A relative path inside the directory does not look like one outside. -/
theorem join_names_inside (hrel : ∀ c ∈ rel, Name sep dot c) (hne : rel ≠ []) :
    join sep rel ≠ [] ∧ join sep rel ≠ [dot, dot] ∧ ¬ [dot, dot, sep] <+: join sep rel ∧
      isAbsolute (join sep rel) = false := by
  have hback : split sep (join sep rel) = rel :=
    List.splitOn_intercalate sep (fun c hc => (hrel c hc).plain) hne
  have hfirst : ∀ c rest, split sep (join sep rel) = c :: rest → Name sep dot c := by
    intro c rest h
    rw [hback] at h
    exact hrel c (h ▸ List.mem_cons_self)
  refine ⟨?_, ?_, ?_, ?_⟩
  · intro h
    rw [h] at hfirst
    exact (hfirst [] [] (List.splitOn_nil sep)).ne_nil rfl
  · intro h
    rw [h] at hfirst
    exact (hfirst [dot, dot] [] (List.splitOn_eq_singleton (by decide))).ne_parent rfl
  · rintro ⟨t, ht⟩
    rw [← ht] at hfirst
    have hplain : sep ∉ [dot, dot] := by decide
    have hcut : split sep ([dot, dot, sep] ++ t) = [dot, dot] :: split sep t :=
      List.splitOn_append_cons_self_of_not_mem hplain t
    exact (hfirst [dot, dot] _ hcut).ne_parent rfl
  · cases hjoin : join sep rel with
    | nil => rfl
    | cons x t =>
        apply beq_false_of_ne
        intro hx
        obtain rfl : x = sep := Option.some.inj hx
        rw [hjoin] at hfirst
        have hcut : split sep (sep :: t) = [] :: split sep t :=
          List.splitOn_append_cons_self_of_not_mem List.not_mem_nil t
        exact (hfirst [] _ hcut).ne_nil rfl

/-- An entry without star and NUL is pushed as the path it resolves to, or as the glob that
leads there from the directory. -/
theorem normalizeEntry_routes (hds : ∀ d ∈ ds, Name sep dot d) (hne : ds ≠ []) (hnul : 0 ∉ e)
    (hstar : 42 ∉ e) (o : NativeOptions) :
    normalizeEntry cwd (sep :: join sep ds) (sep :: join sep ds) o (.string e) =
        .ok (o.pushPath (resolve cwd [sep :: join sep ds, e])) ∨
      ∃ g, normalizeEntry cwd (sep :: join sep ds) (sep :: join sep ds) o (.string e) =
          .ok (o.pushGlob g) ∧
        resolve cwd [sep :: join sep ds, e] = (sep :: join sep ds) ++ sep :: g ∧ g ≠ [] ∧
          ∀ x ∈ g, x = sep ∨ x ∈ e := by
  have hrelative : relative cwd (sep :: join sep ds) (resolve cwd [sep :: join sep ds, e]) =
      join sep (LexicalPath.relative dot ds (resolvedComponents cwd [sep :: join sep ds, e])) := by
    rw [NodePath.relative, resolvedComponents_names hds, resolve,
      resolvedComponents_names name_of_mem_resolvedComponents]
  have hnul' : e.contains 0 = false := by simpa using hnul
  have hstar' : e.contains 42 = false := by simpa using hstar
  unfold normalizeEntry
  dsimp only
  rw [hnul', hstar', if_neg Bool.false_ne_true, if_neg Bool.false_ne_true, hrelative]
  by_cases hpre : ds <+: resolvedComponents cwd [sep :: join sep ds, e]
  · -- Inside the directory the relative path is a glob, unless it is empty.
    obtain ⟨rel, hrel⟩ := hpre
    rw [← hrel, relative_append]
    by_cases hnil : rel = []
    · left
      subst hnil
      have hroot : resolve cwd [sep :: join sep ds, e] = sep :: join sep ds := by
        rw [resolve, ← hrel, List.append_nil]
      rw [hroot]
      rfl
    · right
      have hnames : ∀ c ∈ rel, Name sep dot c := fun c hc =>
        name_of_mem_resolvedComponents c (hrel ▸ List.mem_append_right ds hc)
      obtain ⟨hsome, hparent, habove, habsolute⟩ := join_names_inside hnames hnil
      refine ⟨join sep rel, ?_, ?_, hsome, ?_⟩
      · have habove' : [dot, dot, sep].isPrefixOf (join sep rel) = false := by
          rw [Bool.eq_false_iff, Ne, List.isPrefixOf_iff_prefix]
          exact habove
        have hsome' : (join sep rel).isEmpty = false := by simpa using hsome
        rw [hsome', bne_iff_ne.mpr hparent, habove', habsolute]
        rfl
      · rw [resolve, ← hrel, join_append hne hnil]
        rfl
      · intro x hx
        rcases mem_join hx with hx | ⟨c, hc, hxc⟩
        · exact Or.inl hx
        · exact Or.inr (mem_of_mem_entered hds hrel.symm c hc x hxc)
  · -- Outside it the relative path starts with two dots, which the test finds.
    left
    obtain ⟨rest, hrest⟩ := relative_of_not_prefix dot hpre
    rw [hrest]
    by_cases hnil : rest = []
    · subst hnil
      rw [join, List.intercalate_singleton]
      rfl
    · rw [join_cons hnil]
      rfl

end Routes

/-! ## What the options cover -/

namespace NativeOptions

/-- The paths that a watcher is given. -/
def paths (o : NativeOptions) : List Str := (o.ignorePaths.getD []).map utf8Value

/-- The globs that a watcher is given. -/
def globs (o : NativeOptions) : List Str := (o.ignoreGlobs.getD []).map utf8Value

variable (o : NativeOptions) (value : JsStr)

@[simp] theorem paths_pushPath : (o.pushPath value).paths = o.paths ++ [utf8Value value] := by
  simp [paths, pushPath]

@[simp] theorem globs_pushPath : (o.pushPath value).globs = o.globs := rfl

@[simp] theorem paths_pushGlob : (o.pushGlob value).paths = o.paths := rfl

@[simp] theorem globs_pushGlob : (o.pushGlob value).globs = o.globs ++ [utf8Value value] := by
  simp [globs, pushGlob]

/-- `path` lies at or below one of the paths, or where one of the globs leads to from the
directory. -/
def Covers (directory : JsStr) (path : Str) : Prop :=
  (∃ s ∈ o.paths, Under slash s path) ∨
    ∃ s ∈ o.globs, Under slash (utf8Value directory ++ slash :: s) path

/-- The globs name an entry each, and no text is cut short on its way to the watcher. -/
structure Literal (directory : JsStr) : Prop where
  glob_ne_nil : ∀ s ∈ o.globs, s ≠ []
  glob_star : ∀ s ∈ o.globs, star ∉ s
  glob_nul : ∀ s ∈ o.globs, 0 ∉ s
  path_nul : 0 ∉ directory → ∀ s ∈ o.paths, 0 ∉ s

variable {o value} {directory : JsStr} {path : Str}

theorem covers_pushPath : (o.pushPath value).Covers directory path ↔
    o.Covers directory path ∨ Under slash (utf8Value value) path := by
  unfold Covers
  simp only [paths_pushPath, globs_pushPath, List.mem_append, List.mem_singleton, or_and_right,
    exists_or, exists_eq_left]
  exact or_right_comm

theorem covers_pushGlob : (o.pushGlob value).Covers directory path ↔
    o.Covers directory path ∨
      Under slash (utf8Value directory ++ slash :: utf8Value value) path := by
  unfold Covers
  simp only [paths_pushGlob, globs_pushGlob, List.mem_append, List.mem_singleton, or_and_right,
    exists_or, exists_eq_left]
  exact or_assoc.symm

theorem Literal.pushPath (h : o.Literal directory) (hnul : 0 ∉ directory → 0 ∉ utf8Value value) :
    (o.pushPath value).Literal directory := by
  refine ⟨h.glob_ne_nil, h.glob_star, h.glob_nul, ?_⟩
  intro hdir s hs
  rw [paths_pushPath, List.mem_append, List.mem_singleton] at hs
  rcases hs with hs | rfl
  · exact h.path_nul hdir s hs
  · exact hnul hdir

theorem Literal.pushGlob (h : o.Literal directory) (hne : utf8Value value ≠ [])
    (hstar : star ∉ utf8Value value) (hnul : 0 ∉ utf8Value value) :
    (o.pushGlob value).Literal directory := by
  have hcase : ∀ {P : Str → Prop}, (∀ s ∈ o.globs, P s) → P (utf8Value value) →
      ∀ s ∈ (o.pushGlob value).globs, P s := by
    intro P hold hnew s hs
    rw [globs_pushGlob, List.mem_append, List.mem_singleton] at hs
    rcases hs with hs | rfl
    · exact hold s hs
    · exact hnew
  exact ⟨hcase h.glob_ne_nil hne, hcase h.glob_star hstar, hcase h.glob_nul hnul, h.path_nul⟩

end NativeOptions

section Entries

variable (cwd : JsStr) {ds : List JsStr}

/-- One entry adds what lies at or below the path it resolves to. -/
theorem normalizeEntry_covers (hds : ∀ d ∈ ds, Name sep dot d) (hne : ds ≠ []) {e : JsStr}
    (hnul : 0 ∉ e) (hstar : 42 ∉ e) {o : NativeOptions} (ho : o.Literal (sep :: join sep ds)) :
    ∃ o', normalizeEntry cwd (sep :: join sep ds) (sep :: join sep ds) o (.string e) = .ok o' ∧
      o'.Literal (sep :: join sep ds) ∧ ∀ path, o'.Covers (sep :: join sep ds) path ↔
        o.Covers (sep :: join sep ds) path ∨
          Under slash (utf8Value (resolve cwd [sep :: join sep ds, e])) path := by
  rcases normalizeEntry_routes hds hne hnul hstar o with hpath | ⟨g, hglob, hresolve, hg, hsub⟩
  · refine ⟨_, hpath, ho.pushPath ?_, fun path => NativeOptions.covers_pushPath⟩
    intro hdir
    apply not_mem_utf8Value (u := 0) (by decide)
    intro hmem
    rcases mem_resolve hds hmem with hmem | ⟨d, hd, hmem⟩ | hmem
    · cases hmem
    · exact hdir (List.mem_cons_of_mem _ (mem_join_of_mem hd hmem))
    · exact hnul hmem
  · refine ⟨_, hglob, ho.pushGlob (utf8Value_ne_nil hg) ?_ ?_, ?_⟩
    · apply not_mem_utf8Value (u := 42) (by decide)
      intro hmem
      rcases hsub 42 hmem with hmem | hmem
      · cases hmem
      · exact hstar hmem
    · apply not_mem_utf8Value (u := 0) (by decide)
      intro hmem
      rcases hsub 0 hmem with hmem | hmem
      · cases hmem
      · exact hnul hmem
    · intro path
      rw [hresolve, utf8Value_append _ (by decide)]
      exact NativeOptions.covers_pushGlob

/-- The entries one after the other. -/
theorem normalizeEntries_cover (hds : ∀ d ∈ ds, Name sep dot d) (hne : ds ≠ [])
    {entries : List JsStr} (hplain : ∀ e ∈ entries, 42 ∉ e ∧ 0 ∉ e) {o : NativeOptions}
    (ho : o.Literal (sep :: join sep ds)) :
    ∃ o', (entries.map JsValue.string).foldlM
        (normalizeEntry cwd (sep :: join sep ds) (sep :: join sep ds)) o = .ok o' ∧
      o'.Literal (sep :: join sep ds) ∧ ∀ path, o'.Covers (sep :: join sep ds) path ↔
        o.Covers (sep :: join sep ds) path ∨ ∃ e ∈ entries,
          Under slash (utf8Value (resolve cwd [sep :: join sep ds, e])) path := by
  induction entries generalizing o with
  | nil => exact ⟨o, rfl, ho, fun path => by simp⟩
  | cons e entries ih =>
      obtain ⟨hstar, hnul⟩ := hplain e List.mem_cons_self
      obtain ⟨o₁, hentry, ho₁, hcovers₁⟩ := normalizeEntry_covers cwd hds hne hnul hstar ho
      obtain ⟨o₂, hrest, ho₂, hcovers₂⟩ :=
        ih (fun e he => hplain e (List.mem_cons_of_mem _ he)) ho₁
      refine ⟨o₂, ?_, ho₂, ?_⟩
      · rw [List.map_cons, List.foldlM_cons, hentry]
        exact hrest
      · intro path
        rw [hcovers₂, hcovers₁, List.exists_mem_cons_iff, or_assoc]

end Entries

/-! ## Through the binding -/

namespace NativeOptions

variable {o : NativeOptions} {directory : JsStr}

theorem Literal.getIgnorePaths_eq (h : o.Literal directory) (hdir : 0 ∉ directory) :
    getIgnorePaths o = o.paths := by
  apply List.map_congr_left
  intro item hitem
  apply cString_of_no_nul
  rintro b hb rfl
  exact h.path_nul hdir _ (List.mem_map_of_mem hitem) hb

theorem Literal.getIgnoreGlobs_eq (h : o.Literal directory) :
    getIgnoreGlobs o = .ok o.globs := by
  have hmap : ∀ items : List JsStr, (∀ item ∈ items, 0 ∉ utf8Value item) →
      (items.mapM fun item =>
        let key := utf8Value item
        if key.contains 0 then Except.error "ignoreGlobs cannot contain NUL characters"
        else Except.ok key) = .ok (items.map utf8Value) := by
    intro items hitems
    induction items with
    | nil => rfl
    | cons item items ih =>
        have hnul : (utf8Value item).contains 0 = false := by
          simpa using hitems item List.mem_cons_self
        rw [List.mapM_cons, ih fun i hi => hitems i (List.mem_cons_of_mem _ hi)]
        dsimp only
        rw [hnul, if_neg Bool.false_ne_true]
        rfl
  exact hmap _ fun item hitem => h.glob_nul _ (List.mem_map_of_mem hitem)

end NativeOptions

/-! ## In the watcher -/

/-- The watcher has the directory and the options. -/
structure GivenTo {platform : Platform} (directory : JsStr) (options : NativeOptions)
    (w : Watcher platform) : Prop where
  dir : w.mDir = utf8Value directory
  paths : ∀ s, s ∈ w.mIgnorePaths ↔ s ∈ options.paths
  globs : ∀ s, s ∈ w.mIgnoreGlobs ↔ s ∈ options.globs

theorem under_append_iff (root s p : Str) :
    Under slash (root ++ slash :: s) (root ++ slash :: p) ↔ Under slash s p := by
  have hpre : root ++ slash :: s ++ [slash] = root ++ [slash] ++ (s ++ [slash]) := by simp
  have hpath : root ++ slash :: p = root ++ [slash] ++ p := by simp
  unfold Under
  rw [hpre, hpath, List.prefix_append_right_inj]
  simp

theorem ignoredBySpec_iff_covers {directory : JsStr} {options : NativeOptions}
    (hliteral : options.Literal directory) {w : Watcher ⟨.posix, caseSensitive⟩}
    (hw : GivenTo directory options w) {p : Str} (hp : WellFormedPath p) :
    IgnoredBySpec w (w.mDir ++ slash :: p) ↔
      options.Covers directory (w.mDir ++ slash :: p) := by
  have hdrop : (w.mDir ++ slash :: p).drop (w.mDir.length + 1) = p := by
    rw [List.drop_append, List.drop_of_length_le (by omega)]
    simp
  unfold IgnoredBySpec NativeOptions.Covers
  rw [hdrop, ignores_compiled_iff, ← hw.dir]
  apply or_congr
  · exact exists_congr fun s => and_congr_left fun _ => hw.paths s
  · refine exists_congr fun s => ?_
    rw [hw.globs]
    apply and_congr_right
    intro hs
    have hne := hliteral.glob_ne_nil s hs
    have hstar := hliteral.glob_star s hs
    rw [normalizeGlob_of_normal (normal_of_no_star hstar), ignores_literal hne hstar hp,
      under_append_iff]
    exact and_iff_right hne

/-- An absolute and lexically normalised directory other than the root. -/
structure WatchedDirectory (cwd directory : JsStr) : Prop where
  normal : resolve cwd [directory] = directory
  not_root : directory ≠ [sep]

theorem WatchedDirectory.names {cwd directory : JsStr} (h : WatchedDirectory cwd directory) :
    ∃ ds, ds ≠ [] ∧ (∀ d ∈ ds, Name sep dot d) ∧ directory = sep :: join sep ds := by
  refine ⟨resolvedComponents cwd [directory], ?_, name_of_mem_resolvedComponents, h.normal.symm⟩
  intro hnil
  apply h.not_root
  rw [← h.normal, resolve, hnil]
  rfl

/-- **An entry without a star means the path it resolves to and everything below it.** The
entries are accepted, the binding hands their bytes on as they are, and a watcher that was
given them ignores exactly these paths, whatever a thread has asked before. Nothing lies
below `/` in the sense of `Under`, and an entry that resolves to it ignores nothing here. -/
theorem literal_entries_mean_paths {cwd directory : JsStr} (hD : WatchedDirectory cwd directory)
    (entries : List JsStr) (hplain : ∀ e ∈ entries, 42 ∉ e ∧ 0 ∉ e) :
    ∃ options, normalizeOptions cwd directory { ignore := some (entries.map .string) } =
        .ok options ∧
      (0 ∉ directory → getIgnorePaths options = options.paths ∧
        getIgnoreGlobs options = .ok options.globs) ∧
      ∀ calls : List (IgnoreCall ⟨.posix, caseSensitive⟩),
        ∀ w ∈ (IgnoreProcess.run calls).watchers, GivenTo directory options w →
          ∀ p, WellFormedPath p →
            ((w.isIgnored (IgnoreProcess.run calls).cache
                (utf8Value directory ++ slash :: p)).1 = true ↔
              ∃ e ∈ entries, Under slash (utf8Value (resolve cwd [directory, e]))
                (utf8Value directory ++ slash :: p)) := by
  obtain ⟨ds, hne, hds, rfl⟩ := hD.names
  have hnone : NativeOptions.Literal {} (sep :: join sep ds) := by
    constructor <;> simp [NativeOptions.globs, NativeOptions.paths]
  obtain ⟨options, hoptions, hliteral, hcovers⟩ :=
    normalizeEntries_cover cwd hds hne hplain hnone
  refine ⟨options, hoptions, ?_, ?_⟩
  · exact fun hdir => ⟨hliteral.getIgnorePaths_eq hdir, hliteral.getIgnoreGlobs_eq⟩
  · intro calls w hw hgiven p hp
    have hspec := isIgnored_iff_spec ((ignoreInv_run calls).cache w hw)
      (spells_components hp.1 hp.2)
    rw [ignoredBySpec_iff_covers hliteral hgiven hp, hgiven.dir, hcovers] at hspec
    rw [hspec]
    apply or_iff_right
    simp [NativeOptions.Covers, NativeOptions.paths, NativeOptions.globs]

/-- `..n` is a name inside `/d`, and `../x` a path outside. -/
theorem literal_entries_mean_paths_dots :
    let globs := compiledGlobs .posix [[46, 46, 110]]
    let calls : List (IgnoreCall ⟨.posix, caseSensitive⟩) :=
      [.construct [47, 100] [[47, 120]] [[46, 46, 110]] globs (List.Perm.refl _)]
    let w : Watcher ⟨.posix, caseSensitive⟩ :=
      .new 1 [47, 100] [[47, 120]] [[46, 46, 110]] globs (List.Perm.refl _)
    (w.isIgnored (IgnoreProcess.run calls).cache [47, 100, 47, 46, 46, 110]).1 = true ∧
      (w.isIgnored (IgnoreProcess.run calls).cache [47, 100, 47, 120]).1 = false := by
  intro globs calls w
  have hD : WatchedDirectory [47] [47, 100] := ⟨by decide, by decide⟩
  obtain ⟨options, hoptions, -, hignored⟩ :=
    literal_entries_mean_paths hD [[46, 46, 110], [46, 46, 47, 120]] (by decide)
  have hvalue : NativeOptions.mk (some [[47, 120]]) (some [[46, 46, 110]]) = options :=
    Except.ok.inj hoptions
  have hw : GivenTo [47, 100] options w := by
    subst hvalue
    exact ⟨by decide, fun _ => Iff.rfl, fun _ => Iff.rfl⟩
  have hanswer := hignored calls w (List.mem_singleton_self w) hw
  have hdots := hanswer [46, 46, 110] ⟨by decide, by decide⟩
  have hplain := hanswer [120] ⟨by decide, by decide⟩
  refine ⟨hdots.mpr (by decide), ?_⟩
  rw [Bool.eq_false_iff]
  exact fun h => absurd (hplain.mp h) (by decide)

end NativeWatcher
