import NativeWatcher.Ignore.States

/-!
# The cached check equals the uncached one

Every entry of the memo that is filed under a spelled key holds the state of that
directory; other keys are filed too, and hold whatever they hold. The invariant is
kept by every call of the thread, and it makes the answer of each call on a path
below the root that of the stateless matchers.
-/

namespace NativeWatcher

variable {platform : Platform}

/-! ## The memo -/

/-- The state filed under `key`, if `key` is spelled at all. -/
def StateAt (w : Watcher platform) (key : Str) (st : DirGlobState) : Prop :=
  ∀ comps, Spells key comps → StateOf w comps st

def DirsOf (w : Watcher platform) (dirs : FiniteMap Str DirGlobState) : Prop :=
  ∀ key st, dirs.lookup key = some st → StateAt w key st

/-- The memo holds what it should for `w`. -/
structure CacheOf (w : Watcher platform) (cache : ThreadIgnoreCache) : Prop where
  watcherId : cache.watcherId = w.mId
  root : cache.rootState = makeRootGlobState w
  dirs : DirsOf w cache.dirs
  last : cache.hasLast = true → StateAt w cache.lastRelDir cache.lastState

variable {w : Watcher platform} {relDir : Str}

theorem dirsOf_empty (w : Watcher platform) : DirsOf w ∅ := by
  intro key st h
  rw [AList.lookup_empty] at h
  cases h

/-- Filing never overwrites. -/
theorem DirsOf.emplace {dirs : FiniteMap Str DirGlobState} {key : Str} {st : DirGlobState}
    (h : DirsOf w dirs) (hst : StateAt w key st) : DirsOf w (dirs.emplace key st) := by
  intro key' st' h'
  rw [FiniteMap.lookup_emplace] at h'
  split at h'
  next heq =>
      subst heq
      cases hlook : dirs.lookup key' with
      | none =>
          rw [hlook] at h'
          exact Option.some.inj h' ▸ hst
      | some st'' =>
          rw [hlook] at h'
          exact Option.some.inj h' ▸ h key' st'' hlook
  next => exact h key' st' h'

/-- `state` is that of the directory `relDir` has been read up to, at `pos`. -/
def ReadTo (w : Watcher platform) (relDir : Str) (pos : Nat) (state : DirGlobState) : Prop :=
  (pos = 0 ∧ StateOf w [] state) ∨
    (0 < pos ∧ relDir[pos - 1]? = some slash ∧ StateAt w (relDir.take (pos - 1)) state)

theorem nearestAncestor_spec {dirs : FiniteMap Str DirGlobState} (hdirs : DirsOf w dirs)
    {n : Nat} (hn : n ≤ relDir.length) {state : DirGlobState} {pos : Nat}
    (h : nearestAncestor dirs relDir n = some (state, pos)) :
    ReadTo w relDir pos state ∧ pos ≤ relDir.length := by
  induction n with
  | zero => cases h
  | succ n ih =>
      rw [nearestAncestor] at h
      split at h
      next hsep =>
          cases hlook : dirs.lookup (substr relDir 0 n) with
          | none =>
              rw [hlook] at h
              exact ih (by omega) h
          | some st =>
              rw [hlook] at h
              obtain ⟨rfl, rfl⟩ := Prod.mk.inj (Option.some.inj h)
              exact ⟨Or.inr ⟨by omega, hsep, hdirs _ _ hlook⟩, hn⟩
      next => exact ih (by omega) h

/-- Stepping over one component files the state of the directory it ends. -/
theorem ReadTo.step {start index : Nat} {state : DirGlobState}
    (h : ReadTo w relDir start state) (hle : start ≤ index)
    (hplain : slash ∉ componentAt relDir (start, index)) :
    StateAt w (relDir.take index)
      (stepDirGlobState w state (componentAt relDir (start, index))
        (relParentAt relDir start)) := by
  intro comps hcomps
  rcases h with ⟨rfl, hroot⟩ | ⟨hpos, hsep, hstate⟩
  · have htake : componentAt relDir (0, index) = relDir.take index := by
      simp [componentAt, substr]
    rw [htake] at hplain ⊢
    obtain rfl := hcomps.of_plain hplain
    exact hroot.step _ rfl
  · obtain ⟨hlt, hget⟩ := List.getElem?_eq_some_iff.mp hsep
    have hsplit : relDir.take index =
        relDir.take (start - 1) ++ slash :: componentAt relDir (start, index) :=
      take_eq_append_componentAt hpos hle hsep
    rw [hsplit] at hcomps
    obtain ⟨init, rfl, hinit, -⟩ := hcomps.split hplain
    have hrel : relParentAt relDir start = relDir.take (start - 1) := by
      rw [relParentAt, if_neg (by omega)]
      simp [substr]
    rw [hrel]
    exact (hstate init hinit).step _ (hinit.parent w.mDir)

/-- The loop over the components files every directory on the way. -/
theorem fillDirs_spec {pathCuts : List (Nat × Nat)} :
    ∀ {start : Nat} {state : DirGlobState} {dirs : FiniteMap Str DirGlobState},
      CutsOf relDir start pathCuts → ReadTo w relDir start state → DirsOf w dirs →
      StateAt w relDir (fillDirs w relDir pathCuts state dirs).1 ∧
        DirsOf w (fillDirs w relDir pathCuts state dirs).2 := by
  induction pathCuts with
  | nil =>
      intro start state dirs hcuts
      cases hcuts
  | cons cut rest ih =>
      intro start state dirs hcuts hread hdirs
      obtain ⟨first, index⟩ := cut
      obtain rfl : first = start := hcuts.head
      rw [fillDirs]
      by_cases hlt : first < relDir.length
      · simp only [if_pos hlt]
        have htake : ∀ i, substr relDir 0 i = relDir.take i := fun i => by simp [substr]
        rw [htake]
        cases hcuts with
        | last hle hplain =>
            have hst := hread.step hle hplain
            rw [List.take_length] at hst ⊢
            exact ⟨hst, hdirs.emplace hst⟩
        | cons hle hplain hsep hcuts =>
            have hst := hread.step hle hplain
            exact ih hcuts (Or.inr ⟨by omega, hsep, hst⟩) (hdirs.emplace hst)
      · rw [if_neg hlt]
        refine ⟨fun comps hcomps => ?_, hdirs⟩
        -- The key is empty or ends in a separator, so nothing spells it.
        rcases hread with ⟨rfl, -⟩ | ⟨hpos, hsep, -⟩
        · have hnil : relDir = [] := List.length_eq_zero_iff.mp (by omega)
          exact absurd hnil hcomps.key_ne_nil
        · obtain ⟨hlt', -⟩ := List.getElem?_eq_some_iff.mp hsep
          have hend : relDir = relDir.take (first - 1) ++ slash :: [] := by
            have hsplit : relDir.take first = _ ++ slash :: componentAt relDir (first, first) :=
              take_eq_append_componentAt hpos (Nat.le_refl _) hsep
            have hcomp : componentAt relDir (first, first) = [] := by
              simp [componentAt, substr]
            rw [hcomp, List.take_of_length_le (by omega)] at hsplit
            exact hsplit
          rw [hend] at hcomps
          obtain ⟨_, _, _, hne⟩ := hcomps.split (by simp)
          exact absurd rfl hne

/-- Entering with a watcher whose memo it is not starts over. -/
theorem cacheOf_enter {cache : ThreadIgnoreCache}
    (h : cache.watcherId = w.mId → CacheOf w cache) : CacheOf w (cache.enter w) := by
  unfold ThreadIgnoreCache.enter
  split
  next hne => exact ⟨rfl, rfl, dirsOf_empty w, fun hl => by cases hl⟩
  next heq => exact h (not_not.mp heq)

/-- `resolveDirGlobState` keeps the memo and returns the state of the directory. -/
theorem resolveDirGlobState_spec {cache : ThreadIgnoreCache}
    (h : cache.watcherId = w.mId → CacheOf w cache) (relDir : Str) :
    CacheOf w (resolveDirGlobState w cache relDir).2 ∧
      (relDir = [] → StateOf w [] (resolveDirGlobState w cache relDir).1) ∧
      StateAt w relDir (resolveDirGlobState w cache relDir).1 := by
  have hc := cacheOf_enter h
  unfold resolveDirGlobState
  generalize cache.enter w = cache at hc
  by_cases hempty : relDir = []
  · subst hempty
    refine ⟨hc, fun _ => ?_, fun comps hcomps => absurd rfl hcomps.key_ne_nil⟩
    change StateOf w [] cache.rootState
    rw [hc.root]
    exact stateOf_root w
  · have hisEmpty : relDir.isEmpty = false := by simpa using hempty
    simp only [hisEmpty, if_false, Bool.false_eq_true]
    by_cases hlast : (cache.hasLast && cache.lastRelDir == relDir) = true
    · simp only [if_pos hlast]
      obtain ⟨hhas, heq⟩ := Bool.and_eq_true_iff.mp hlast
      exact ⟨hc, fun hnil => absurd hnil hempty, beq_iff_eq.mp heq ▸ hc.last hhas⟩
    · simp only [if_neg hlast]
      cases hlook : cache.dirs.lookup relDir with
      | some state =>
          have hst := hc.dirs _ _ hlook
          exact ⟨⟨hc.watcherId, hc.root, hc.dirs, fun _ => hst⟩,
            fun hnil => absurd hnil hempty, hst⟩
      | none =>
          have hdirs : DirsOf w
              (if 16384 ≤ cache.dirs.entries.length then ∅ else cache.dirs) := by
            split
            · exact dirsOf_empty w
            · exact hc.dirs
          simp only
          generalize (if 16384 ≤ cache.dirs.entries.length then ∅ else cache.dirs) = dirs
            at hdirs
          obtain ⟨state, pos, hstart, hread, hpos⟩ : ∃ state pos,
              (nearestAncestor dirs relDir relDir.length).getD (cache.rootState, 0) =
                (state, pos) ∧ ReadTo w relDir pos state ∧ pos ≤ relDir.length := by
            cases hnear : nearestAncestor dirs relDir relDir.length with
            | none =>
                refine ⟨cache.rootState, 0, rfl, Or.inl ⟨rfl, ?_⟩, Nat.zero_le _⟩
                rw [hc.root]
                exact stateOf_root w
            | some found =>
                obtain ⟨hread, hpos⟩ := nearestAncestor_spec hdirs (Nat.le_refl _) hnear
                exact ⟨found.1, found.2, rfl, hread, hpos⟩
          rw [hstart]
          obtain ⟨hst, hdirs'⟩ := fillDirs_spec (cutsFrom_start hpos) hread hdirs
          exact ⟨⟨hc.watcherId, hc.root, hdirs', fun _ => hst⟩,
            fun hnil => absurd hnil hempty, hst⟩

/-! ## One call -/

/-- What a compiled glob is. -/
theorem Watcher.compiled_new {g : Glob} (hg : g ∈ w.mCompiledGlobs) :
    ∃ raw, raw ≠ [] ∧ g = Glob.new platform.build raw := by
  have hmem := w.compiled.mem_iff.mp hg
  unfold compiledGlobs at hmem
  obtain ⟨raw, hraw, rfl⟩ := List.mem_map.mp hmem
  obtain ⟨raw', hraw', rfl⟩ := List.mem_map.mp (List.mem_dedup.mp hraw)
  refine ⟨_, normalizeGlob_ne_nil ?_, rfl⟩
  simpa using (List.mem_filter.mp hraw').2

/-- The uncached check of one mask glob, over the spelled components. -/
theorem isPathOrAncestorIgnored_iff {g : Glob} (hg : g ∈ w.mCompiledGlobs)
    (hmask : g.mUseBitmask = true) {path : Str} {comps : List Str}
    (hpath : Spells path comps) :
    g.isPathOrAncestorIgnored platform path w.mDir = true ↔
      g.PrefixAccepts platform w.mDir g.mInitialState comps := by
  obtain ⟨raw, hraw, rfl⟩ := w.compiled_new hg
  have hcomp : (cuts path).map (componentAt path) = comps := by
    rw [← hpath.components_eq, components, if_neg (by simpa using hpath.key_ne_nil)]
  have hne : ∀ cut ∈ cuts path, componentAt path cut ≠ [] := fun cut hcut =>
    hpath.nonempty _ (hcomp ▸ List.mem_map_of_mem hcut)
  have hraw' : ((Glob.new platform.build raw).mRaw.isEmpty || path.isEmpty) = false := by
    rw [Glob.mRaw_new]
    simp [hraw, hpath.key_ne_nil]
  rw [Glob.isPathOrAncestorIgnored, hraw', if_neg Bool.false_ne_true, if_pos hmask,
    Glob.ancestorLoop_iff (cuts_spec path) hne (scanAt_zero w.mDir path), hcomp,
    Glob.prefixAccepts_iff_tail]
  constructor
  · exact Or.inr
  · rintro (hacc | h)
    · obtain ⟨c, cs, rfl⟩ := List.exists_cons_of_ne_nil hpath.ne_nil
      exact ⟨[], List.nil_prefix, Glob.accepting_initial_step hraw hmask _ _ hacc⟩
    · exact h

theorem rfindSep_eq_none {s : Str} (h : slash ∉ s) (n : Nat) : rfindSep s n = none := by
  induction n with
  | zero => rfl
  | succ n ih =>
      rw [rfindSep, if_neg ?_]
      · exact ih
      · exact fun hget => h (List.mem_of_getElem? hget)

theorem rfindSep_append {a b : Str} (h : slash ∉ b) :
    ∀ m ≤ b.length, rfindSep (a ++ slash :: b) (a.length + 1 + m) = some a.length
  | 0, _ => by
      rw [Nat.add_zero, rfindSep, if_pos (by simp)]
  | m + 1, hm => by
      have hget : (a ++ slash :: b)[a.length + 1 + m]? ≠ some slash := by
        rw [List.getElem?_append_right (by omega),
          show a.length + 1 + m - a.length = m + 1 by omega, List.getElem?_cons_succ]
        exact fun hget => h (List.mem_of_getElem? hget)
      rw [← Nat.add_assoc, rfindSep, if_neg hget]
      exact rfindSep_append h m (by omega)

/-- The cached answer for a path spelled by `comps`. -/
theorem resolve_leaf_iff {cache : ThreadIgnoreCache}
    (h : cache.watcherId = w.mId → CacheOf w cache) {path : Str} {comps : List Str}
    (hpath : Spells path comps) :
    isComponentIgnored w
        (resolveDirGlobState w cache (match rfindSep path path.length with
          | none => []
          | some sep => substr path 0 sep)).1
        (match rfindSep path path.length with
          | none => path
          | some sep => path.drop (sep + 1))
        (match rfindSep path path.length with
          | none => []
          | some sep => substr path 0 sep) = true ↔ w.AnyPrefix comps := by
  obtain ⟨init, c, rfl⟩ : ∃ init c, comps = init ++ [c] :=
    ⟨_, _, (List.dropLast_append_getLast hpath.ne_nil).symm⟩
  have hc : slash ∉ c := hpath.plain c (by simp)
  by_cases hinit : init = []
  · subst hinit
    obtain rfl : path = c := hpath.join
    rw [rfindSep_eq_none hc]
    exact isComponentIgnored_iff ((resolveDirGlobState_spec h []).2.1 rfl) _ rfl
  · obtain ⟨rfl, hspells⟩ := hpath.split_snoc hinit
    have hsep : rfindSep (joinPath init ++ slash :: c)
        (joinPath init ++ slash :: c).length = some (joinPath init).length := by
      have := rfindSep_append (a := joinPath init) hc c.length (Nat.le_refl _)
      rwa [show (joinPath init).length + 1 + c.length =
        (joinPath init ++ slash :: c).length by simp; omega] at this
    have hdir : substr (joinPath init ++ slash :: c) 0 (joinPath init).length =
        joinPath init := by simp [substr]
    have hleaf : (joinPath init ++ slash :: c).drop ((joinPath init).length + 1) = c := by
      rw [List.drop_append, List.drop_of_length_le (by omega)]
      simp
    simp only [hsep, hdir, hleaf]
    exact isComponentIgnored_iff ((resolveDirGlobState_spec h _).2.2 init hspells) c
      (hspells.parent w.mDir)

/-- What `isIgnored` is specified to answer. -/
def IgnoredBySpec (w : Watcher platform) (path : Str) : Prop :=
  (∃ ignored ∈ w.mIgnorePaths, Hierarchy.Under slash ignored path) ∨
    ∃ g ∈ w.mCompiledGlobs,
      g.isPathOrAncestorIgnored platform (path.drop (w.mDir.length + 1)) w.mDir = true

theorem relativeTo_append (mDir rel : Str) :
    relativeTo mDir (mDir ++ slash :: rel) = some rel := by
  simp [relativeTo, substr]

/-- One call on a path below the root, with a memo in order. -/
theorem isIgnored_iff_spec {cache : ThreadIgnoreCache}
    (h : cache.watcherId = w.mId → CacheOf w cache) {rel : Str} {comps : List Str}
    (hrel : Spells rel comps) :
    (w.isIgnored cache (w.mDir ++ slash :: rel)).1 = true ↔
      IgnoredBySpec w (w.mDir ++ slash :: rel) := by
  have hdrop : (w.mDir ++ slash :: rel).drop (w.mDir.length + 1) = rel := by
    rw [List.drop_append, List.drop_of_length_le (by omega)]
    simp
  have hpaths : (w.mIgnorePaths.any (isPathOrDescendant (w.mDir ++ slash :: rel))) = true ↔
      ∃ ignored ∈ w.mIgnorePaths, Hierarchy.Under slash ignored (w.mDir ++ slash :: rel) := by
    simp [isPathOrDescendant_iff]
  unfold Watcher.isIgnored IgnoredBySpec
  rw [hdrop, ← hpaths]
  by_cases hany : (w.mIgnorePaths.any
      (isPathOrDescendant (w.mDir ++ slash :: rel))) = true
  · rw [if_pos hany]
    exact iff_of_true rfl (Or.inl hany)
  · rw [if_neg hany, or_iff_right hany, w.noAliases]
    simp only [Bool.and_false, Bool.false_and, Bool.false_eq_true, if_false]
    by_cases hglobs : w.mCompiledGlobs = []
    · simp [hglobs]
    · have hne : w.mCompiledGlobs.isEmpty = false := by simpa using hglobs
      have hrelne : rel.isEmpty = false := by simpa using hrel.key_ne_nil
      simp only [hne, Bool.false_eq_true, if_false, relativeTo_append, hrelne]
      by_cases hmask : (w.mAllGlobsUseBitmask && w.mId != 0) = true
      · rw [if_pos hmask]
        have hall : ∀ g ∈ w.mCompiledGlobs, g.mUseBitmask = true := by
          have := (Bool.and_eq_true_iff.mp hmask).1
          rw [w.allBitmask] at this
          exact List.all_eq_true.mp this
        refine (resolve_leaf_iff h hrel).trans ?_
        refine exists_congr fun g => and_congr_right fun hg => ?_
        exact (isPathOrAncestorIgnored_iff hg (hall g hg) hrel).symm
      · rw [if_neg hmask]
        simp

/-- A call leaves the memo as it is, or in order for its watcher. -/
theorem isIgnored_cache {cache : ThreadIgnoreCache}
    (h : cache.watcherId = w.mId → CacheOf w cache) (path : Str) :
    (w.isIgnored cache path).2 = cache ∨ CacheOf w (w.isIgnored cache path).2 := by
  unfold Watcher.isIgnored
  split
  · exact Or.inl rfl
  · split
    · exact Or.inl rfl
    · split
      · exact Or.inl rfl
      · split
        · exact Or.inl rfl
        · split
          · exact Or.inl rfl
          · split
            · exact Or.inr (resolveDirGlobState_spec h _).1
            · exact Or.inl rfl

/-! ## Every call of a thread -/

/-- Ids are handed out once, and the memo is in order for the watcher it names. -/
structure IgnoreInv (p : IgnoreProcess platform) : Prop where
  idLt : ∀ w ∈ p.watchers, w.mId < p.nextId
  idInj : ∀ w ∈ p.watchers, ∀ w' ∈ p.watchers, w.mId = w'.mId → w = w'
  cacheLt : p.cache.watcherId < p.nextId
  cache : ∀ w ∈ p.watchers, p.cache.watcherId = w.mId → CacheOf w p.cache

theorem ignoreInv_step {p : IgnoreProcess platform} (h : IgnoreInv p)
    (call : IgnoreCall platform) : IgnoreInv (p.step call) := by
  cases call with
  | construct dir ignorePaths ignoreGlobs globs compiled =>
      refine ⟨?_, ?_, Nat.lt_succ_of_lt h.cacheLt, ?_⟩
      · intro w hw
        rcases List.mem_append.mp hw with hw | hw
        · exact Nat.lt_succ_of_lt (h.idLt w hw)
        · rw [List.mem_singleton.mp hw]
          exact Nat.lt_succ_self _
      · intro w hw w' hw' hid
        rcases List.mem_append.mp hw with hw | hw <;> rcases List.mem_append.mp hw' with hw' | hw'
        · exact h.idInj w hw w' hw' hid
        · rw [List.mem_singleton.mp hw'] at hid
          exact absurd hid (Nat.ne_of_lt (h.idLt w hw))
        · rw [List.mem_singleton.mp hw] at hid
          exact absurd hid.symm (Nat.ne_of_lt (h.idLt w' hw'))
        · rw [List.mem_singleton.mp hw, List.mem_singleton.mp hw']
      · intro w hw hid
        rcases List.mem_append.mp hw with hw | hw
        · exact h.cache w hw hid
        · rw [List.mem_singleton.mp hw] at hid
          exact absurd hid (Nat.ne_of_lt h.cacheLt)
  | isIgnored watcher path =>
      cases hget : p.watchers[watcher]? with
      | none =>
          have hstep : p.step (.isIgnored watcher path) = p := by
            simp [IgnoreProcess.step, hget]
          rw [hstep]
          exact h
      | some w =>
          have hstep : p.step (.isIgnored watcher path) =
              { p with cache := (w.isIgnored p.cache path).2 } := by
            simp [IgnoreProcess.step, hget]
          rw [hstep]
          have hw : w ∈ p.watchers := List.mem_of_getElem? hget
          rcases isIgnored_cache (h.cache w hw) path with heq | hcache
          · rw [heq]
            exact h
          · refine ⟨h.idLt, h.idInj, ?_, fun w' hw' hid => ?_⟩
            · change (w.isIgnored p.cache path).2.watcherId < p.nextId
              rw [hcache.watcherId]
              exact h.idLt w hw
            · obtain rfl := h.idInj w hw w' hw' (hcache.watcherId.symm.trans hid)
              exact hcache

theorem ignoreInv_run (calls : List (IgnoreCall platform)) :
    IgnoreInv (IgnoreProcess.run calls) := by
  induction calls using List.reverseRecOn with
  | nil =>
      refine ⟨?_, ?_, Nat.zero_lt_one, ?_⟩ <;> intro w hw <;> cases hw
  | append_singleton calls call ih =>
      rw [IgnoreProcess.run, List.foldl_append]
      exact ignoreInv_step ih call

/-- **The cached check equals the uncached one.** After any calls of a thread, each
watcher answers for a path below its root as the stateless matchers do. -/
theorem isIgnored_cached_eq_uncached (sensitivity : Str → DirectoryCaseSensitivity)
    (calls : List (IgnoreCall ⟨.posix, sensitivity⟩)) :
    ∀ w ∈ (IgnoreProcess.run calls).watchers, ∀ comps : List Str, comps ≠ [] →
      (∀ c ∈ comps, c ≠ [] ∧ slash ∉ c) →
        ((w.isIgnored (IgnoreProcess.run calls).cache
            (w.mDir ++ comps.flatMap fun c => slash :: c)).1 = true ↔
          IgnoredBySpec w (w.mDir ++ comps.flatMap fun c => slash :: c)) := by
  intro w hw comps hne hcomps
  have hspells : Spells (joinPath comps) comps :=
    ⟨hne, fun c hc => (hcomps c hc).1, fun c hc => (hcomps c hc).2, rfl⟩
  rw [flatMap_eq_joinPath hne]
  exact isIgnored_iff_spec ((ignoreInv_run calls).cache w hw) hspells

/-- One watcher that ignores every file name at its root, asked twice. -/
theorem isIgnored_cached_eq_uncached_twice :
    let globs := compiledGlobs .posix [[star]]
    let calls : List (IgnoreCall ⟨.posix, fun _ => .Sensitive⟩) :=
      [.construct [97] [] [[star]] globs (List.Perm.refl _), .isIgnored 0 [97, 47, 98]]
    let w : Watcher ⟨.posix, fun _ => .Sensitive⟩ :=
      .new 1 [97] [] [[star]] globs (List.Perm.refl _)
    (w.isIgnored (IgnoreProcess.run calls).cache
        (w.mDir ++ [[98]].flatMap fun c => slash :: c)).1 = true ↔
      IgnoredBySpec w (w.mDir ++ [[98]].flatMap fun c => slash :: c) :=
  isIgnored_cached_eq_uncached _ _ _ (List.mem_singleton.mpr rfl) [[98]] (by decide)
    (by decide)

end NativeWatcher
