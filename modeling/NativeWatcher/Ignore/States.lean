import NativeWatcher.Glob.Language
import NativeWatcher.Ignore.IsIgnored
import NativeWatcher.Ignore.Spelling

/-!
# The states of a directory

`StateOf w comps st` says what a `DirGlobState` must hold for the directory that
the components `comps` lead to: whether a glob of `w` accepts one of its ancestors,
and else the state of every glob. The root state satisfies it, and one component
preserves it.
-/

namespace NativeWatcher

variable {platform : Platform}

/-! ## One glob along a path -/

namespace Glob

variable {g : Glob}

/-- The state after one component in the directory `dir`. -/
def stepIn (g : Glob) (platform : Platform) (dir : Str) (state : Mask) (component : Str) :
    Mask :=
  (g.stepBitmask platform state component dir [] none).1

/-- A step depends on the parent directory only, not on how it is written or on
what the memo already knows about it. -/
theorem stepBitmask_eq_stepIn {dir root relativeParent : Str}
    (hdir : buildParentDirectory root relativeParent = dir)
    {memo : Option DirectoryCaseSensitivity} (hmemo : MemoOf platform dir memo)
    (state : Mask) (component : Str) :
    (g.stepBitmask platform state component root relativeParent memo).1 =
        g.stepIn platform dir state component ∧
      MemoOf platform dir
        (g.stepBitmask platform state component root relativeParent memo).2 := by
  subst hdir
  obtain ⟨hbits, hmemo'⟩ := getLsbD_stepCandidates g platform component root
    relativeParent (state &&& g.mActiveMask) (state &&& g.mDoubleStarMask) memo hmemo
  obtain ⟨hbits', -⟩ := getLsbD_stepCandidates g platform component
    (buildParentDirectory root relativeParent) [] (state &&& g.mActiveMask)
    (state &&& g.mDoubleStarMask) none (memoOf_none _ _)
  refine ⟨?_, hmemo'⟩
  have hnext : (g.stepCandidates platform component root relativeParent
      (state &&& g.mActiveMask) (state &&& g.mDoubleStarMask) memo).1 =
      (g.stepCandidates platform component (buildParentDirectory root relativeParent) []
        (state &&& g.mActiveMask) (state &&& g.mDoubleStarMask) none).1 := by
    apply BitVec.eq_of_getLsbD_eq
    intro j _
    rw [Bool.eq_iff_iff, hbits j, hbits' j]
    rfl
  simp only [stepIn, stepBitmask, hnext]

theorem stepIn_zero (g : Glob) (platform : Platform) (dir component : Str) :
    g.stepIn platform dir 0 component = 0 := by
  have hcand : (0 : Mask) &&& g.mActiveMask = 0 := BitVec.zero_and
  have hnext : (0 : Mask) &&& g.mDoubleStarMask = 0 := BitVec.zero_and
  rw [stepIn, stepBitmask, hcand, hnext, stepCandidates, if_pos rfl]
  simp [BitVec.zero_and]

/-- The state after the components, from `dir` and `state` on. -/
def runFrom (g : Glob) (platform : Platform) : Str → Mask → List Str → Mask
  | _, state, [] => state
  | dir, state, c :: cs =>
      runFrom g platform (childPath dir c) (g.stepIn platform dir state c) cs

theorem runFrom_snoc (dir : Str) (state : Mask) (cs : List Str) (c : Str) :
    g.runFrom platform dir state (cs ++ [c]) =
      g.stepIn platform (dirOf dir cs) (g.runFrom platform dir state cs) c := by
  induction cs generalizing dir state with
  | nil => rfl
  | cons c' cs ih => exact ih _ _

theorem runFrom_zero (dir : Str) (cs : List Str) : g.runFrom platform dir 0 cs = 0 := by
  induction cs generalizing dir with
  | nil => rfl
  | cons c cs ih =>
      rw [runFrom, stepIn_zero]
      exact ih _

/-- `(state & mAcceptBit) != 0`. -/
def accepting (g : Glob) (state : Mask) : Bool := state &&& g.mAcceptBit != 0

theorem not_accepting_zero (g : Glob) : g.accepting 0 = false := by
  have hzero : (0 : Mask) &&& g.mAcceptBit = 0 := BitVec.zero_and
  rw [accepting, hzero]
  rfl

/-- Some prefix of the components is accepted. -/
def PrefixAccepts (g : Glob) (platform : Platform) (dir : Str) (state : Mask)
    (comps : List Str) : Prop :=
  ∃ pre, pre <+: comps ∧ g.accepting (g.runFrom platform dir state pre) = true

theorem prefixAccepts_nil {dir : Str} {state : Mask} :
    g.PrefixAccepts platform dir state [] ↔ g.accepting state = true := by
  constructor
  · rintro ⟨pre, hpre, h⟩
    obtain rfl := List.prefix_nil.mp hpre
    exact h
  · exact fun h => ⟨[], List.prefix_refl _, h⟩

theorem prefixAccepts_snoc {dir : Str} {state : Mask} {comps : List Str} {c : Str} :
    g.PrefixAccepts platform dir state (comps ++ [c]) ↔
      g.PrefixAccepts platform dir state comps ∨
        g.accepting (g.runFrom platform dir state (comps ++ [c])) = true := by
  constructor
  · rintro ⟨pre, hpre, h⟩
    rcases List.prefix_concat_iff.mp hpre with rfl | hpre
    · exact Or.inr h
    · exact Or.inl ⟨pre, hpre, h⟩
  · rintro (⟨pre, hpre, h⟩ | h)
    · exact ⟨pre, hpre.trans (List.prefix_append ..), h⟩
    · exact ⟨_, List.prefix_refl _, h⟩

/-- Some prefix behind the first component is accepted. -/
def TailAccepts (g : Glob) (platform : Platform) (dir : Str) (state : Mask) :
    List Str → Prop
  | [] => False
  | c :: cs => g.PrefixAccepts platform (childPath dir c) (g.stepIn platform dir state c) cs

theorem prefixAccepts_iff_tail {dir : Str} {state : Mask} {comps : List Str} :
    g.PrefixAccepts platform dir state comps ↔
      g.accepting state = true ∨ g.TailAccepts platform dir state comps := by
  cases comps with
  | nil =>
      rw [prefixAccepts_nil]
      exact (or_iff_left not_false).symm
  | cons c comps =>
      constructor
      · rintro ⟨pre, hpre, h⟩
        cases pre with
        | nil => exact Or.inl h
        | cons c' pre =>
            obtain ⟨rfl, hpre'⟩ := List.cons_prefix_cons.mp hpre
            exact Or.inr ⟨pre, hpre', h⟩
      · rintro (h | ⟨pre, hpre, h⟩)
        · exact ⟨[], List.nil_prefix, h⟩
        · exact ⟨c :: pre, List.cons_prefix_cons.mpr ⟨rfl, hpre⟩, h⟩

theorem not_prefixAccepts_zero {dir : Str} {comps : List Str} :
    ¬ g.PrefixAccepts platform dir 0 comps := by
  rintro ⟨pre, -, h⟩
  rw [runFrom_zero, not_accepting_zero] at h
  cases h

/-- The uncached loop looks for an accepted prefix behind the first component. -/
theorem ancestorLoop_iff {root path : Str} {pathCuts : List (Nat × Nat)} :
    ∀ {start : Nat} {state : Mask} {dir : Str}, CutsOf path start pathCuts →
      (∀ cut ∈ pathCuts, componentAt path cut ≠ []) → ScanAt root path start dir →
      (g.ancestorLoop platform root path pathCuts state = true ↔
        g.TailAccepts platform dir state (pathCuts.map (componentAt path))) := by
  induction pathCuts with
  | nil =>
      intro start state dir hcuts
      cases hcuts
  | cons cut rest ih =>
      intro start state dir hcuts hne hscan
      obtain ⟨first, index⟩ := cut
      obtain rfl : first = start := hcuts.head
      have hstep : g.stepCut platform root path state (first, index) =
          g.stepIn platform dir state (componentAt path (first, index)) :=
        (stepBitmask_eq_stepIn hscan.parent (memoOf_none _ _) _ _).1
      have hne' : ∀ cut ∈ rest, componentAt path cut ≠ [] :=
        fun cut hcut => hne cut (List.mem_cons_of_mem _ hcut)
      rw [List.map_cons, TailAccepts, ancestorLoop]
      simp only [hstep]
      generalize g.stepIn platform dir state (componentAt path (first, index)) = next
      change (if g.accepting next = true then true else _) = true ↔ _
      by_cases hacc : g.accepting next = true
      · rw [if_pos hacc]
        exact iff_of_true rfl ⟨[], List.nil_prefix, hacc⟩
      · rw [if_neg hacc, prefixAccepts_iff_tail, or_iff_right hacc]
        by_cases hzero : next = 0
        · subst hzero
          rw [if_pos rfl]
          refine iff_of_false Bool.false_ne_true fun h => ?_
          exact not_prefixAccepts_zero (prefixAccepts_iff_tail.mpr (Or.inr h))
        · rw [if_neg hzero]
          cases hcuts with
          | last hle hplain => exact iff_of_false Bool.false_ne_true not_false
          | cons hle hplain hsep hcuts =>
              exact ih hcuts hne' (hscan.next hle hsep (hne _ (List.mem_cons_self ..)))

/-- A pattern that accepts the empty path accepts its continuations. -/
theorem accepting_initial_step {raw : Str} (hraw : raw ≠ [])
    (hmask : (new platform.build raw).mUseBitmask = true) (dir component : Str)
    (h : (new platform.build raw).accepting (new platform.build raw).mInitialState = true) :
    (new platform.build raw).accepting ((new platform.build raw).stepIn platform dir
      (new platform.build raw).mInitialState component) = true := by
  have hg := maskForm_new platform hmask
  have hinit := Denotes.initial hg
  have hne : (new platform.build raw).segments.length ≠ 0 := by
    rw [segments, List.length_map, mParts_new _ hraw]
    simpa using compileParts_ne_nil platform.build (components_ne_nil hraw)
  have hstep : Denotes (new platform.build raw) _ _ :=
    ⟨(bits_stepBitmask platform component dir [] hg hinit.bits (memoOf_none _ _)).1,
      SegmentMatch.closed_step hg.squeezed, SegmentMatch.bounded_step⟩
  rw [accepting, hinit.accept_iff hg] at h
  rw [accepting, stepIn, hstep.accept_iff hg]
  -- Only a lone `**` puts the last position into the initial set.
  rcases h with h0 | ⟨i, hi, hstar, hlen⟩
  · exact absurd h0 hne
  · obtain rfl : i = 0 := hi
    exact Or.inr ⟨0, Or.inl ⟨Or.inl rfl, hstar⟩, hstar, hlen⟩

end Glob

/-! ## Every glob of a watcher -/

namespace Watcher

variable {w : Watcher platform} {comps : List Str} {c : Str}

/-- The state of one glob in the directory of the components. -/
def stateAfter (w : Watcher platform) (comps : List Str) (g : Glob) : Mask :=
  g.runFrom platform w.mDir g.mInitialState comps

theorem stateAfter_snoc (w : Watcher platform) (comps : List Str) (c : Str) (g : Glob) :
    w.stateAfter (comps ++ [c]) g =
      g.stepIn platform (dirOf w.mDir comps) (w.stateAfter comps g) c :=
  Glob.runFrom_snoc ..

/-- Some glob accepts a prefix of the components. -/
def AnyPrefix (w : Watcher platform) (comps : List Str) : Prop :=
  ∃ g ∈ w.mCompiledGlobs, g.PrefixAccepts platform w.mDir g.mInitialState comps

theorem anyPrefix_snoc :
    w.AnyPrefix (comps ++ [c]) ↔ w.AnyPrefix comps ∨
      ∃ g ∈ w.mCompiledGlobs, g.accepting (w.stateAfter (comps ++ [c]) g) = true := by
  unfold AnyPrefix
  simp only [Glob.prefixAccepts_snoc, and_or_left, exists_or]
  rfl

end Watcher

structure StateOf (w : Watcher platform) (comps : List Str) (st : DirGlobState) : Prop where
  ignored : st.ignored = true ↔ w.AnyPrefix comps
  dead : st.ignored = false → st.allDead = true →
    ∀ g ∈ w.mCompiledGlobs, w.stateAfter comps g = 0
  states : st.ignored = false → st.allDead = false →
    ∀ (i : Nat) (g : Glob), w.mCompiledGlobs[i]? = some g →
      (st.data w.mCompiledGlobs.length)[i]? = some (w.stateAfter comps g)

namespace DirGlobState

theorem data_write (s : DirGlobState) (count i : Nat) (value : Mask) :
    (s.write count i value).data count = (s.data count).set i value := by
  unfold write data
  split <;> rfl

@[simp] theorem ignored_write (s : DirGlobState) (count i : Nat) (value : Mask) :
    (s.write count i value).ignored = s.ignored := by
  unfold write
  split <;> rfl

theorem le_length_data_init (count : Nat) :
    count ≤ ((init {} count).data count).length := by
  unfold data init
  by_cases h : count ≤ kInlineGlobs
  · simp [h]
  · simp [h, Nat.lt_of_not_le h]

end DirGlobState

/-- The loop over the globs: `done` are written, `rest` are to come. -/
theorem fillStates_spec
    (value : Nat → Glob → Option DirectoryCaseSensitivity →
      Mask × Option DirectoryCaseSensitivity)
    (M : Option DirectoryCaseSensitivity → Prop) (v : Glob → Mask) {globs : List Glob}
    (hvalue : ∀ i g memo, globs[i]? = some g → M memo →
      (value i g memo).1 = v g ∧ M (value i g memo).2) (rest : List Glob) :
    ∀ (done : List Glob) (next : DirGlobState) (anyAlive : Bool)
      (memo : Option DirectoryCaseSensitivity),
      globs = done ++ rest → globs.length ≤ (next.data globs.length).length →
      next.ignored = false → (anyAlive = true ↔ ∃ g ∈ done, v g ≠ 0) → M memo →
      (∀ (i : Nat) (g : Glob), done[i]? = some g →
        (next.data globs.length)[i]? = some (v g)) →
      ((fillStates value globs.length rest done.length next anyAlive memo).ignored = true ↔
        ∃ g ∈ rest, g.accepting (v g) = true) ∧
      ((fillStates value globs.length rest done.length next anyAlive memo).ignored = false →
        ((fillStates value globs.length rest done.length next anyAlive memo).allDead = true →
          ∀ g ∈ globs, v g = 0) ∧
        ∀ (i : Nat) (g : Glob), globs[i]? = some g →
          ((fillStates value globs.length rest done.length next anyAlive memo).data
            globs.length)[i]? = some (v g)) := by
  induction rest with
  | nil =>
      intro done next anyAlive memo hglobs hlen hign halive hmemo hdone
      rw [List.append_nil] at hglobs
      subst hglobs
      refine ⟨by simp [fillStates, hign], fun _ => ⟨fun hdead g hg => ?_, hdone⟩⟩
      by_contra hne
      have : anyAlive = true := halive.mpr ⟨g, hg, hne⟩
      simp [fillStates, this] at hdead
  | cons g rest ih =>
      intro done next anyAlive memo hglobs hlen hign halive hmemo hdone
      have hget : globs[done.length]? = some g := by simp [hglobs]
      have hlt : done.length < globs.length := (List.getElem?_eq_some_iff.mp hget).1
      obtain ⟨hv, hmemo'⟩ := hvalue _ g memo hget hmemo
      rw [fillStates]
      generalize value done.length g memo = r at hv hmemo'
      obtain ⟨stepped, memo'⟩ := r
      obtain rfl : stepped = v g := hv
      by_cases hacc : g.accepting (v g) = true
      · -- An accepting glob ends the loop.
        have hbit : (v g &&& g.mAcceptBit != 0) = true := hacc
        simp only [hbit, if_true]
        exact ⟨iff_of_true trivial ⟨g, List.mem_cons_self .., hacc⟩, fun h => by cases h⟩
      · have hbit : ¬ (v g &&& g.mAcceptBit != 0) = true := hacc
        simp only [if_neg hbit]
        -- The mask is written at `done.length`, which leaves those before it alone.
        have hih := ih (done ++ [g]) (next.write globs.length done.length (v g))
          (anyAlive || v g != 0) memo' (by simp [hglobs])
          (by rw [DirGlobState.data_write, List.length_set]; exact hlen)
          (by rw [DirGlobState.ignored_write, hign])
          (by simp [halive, or_and_right, exists_or]) hmemo'
          (by
            intro i g' hg'
            rw [DirGlobState.data_write]
            by_cases hi : i = done.length
            · subst hi
              rw [List.getElem?_concat_length] at hg'
              obtain rfl := Option.some.inj hg'
              exact List.getElem?_set_self (by omega)
            · have hi' : i < done.length := by
                have := (List.getElem?_eq_some_iff.mp hg').1
                rw [List.length_append, List.length_singleton] at this
                omega
              rw [List.getElem?_append_left hi'] at hg'
              rw [List.getElem?_set_ne (Ne.symm hi)]
              exact hdone i g' hg')
        rw [List.length_append, List.length_singleton] at hih
        refine ⟨?_, hih.2⟩
        rw [hih.1]
        simp [hacc]

/-- The root state. -/
theorem stateOf_root (w : Watcher platform) : StateOf w [] (makeRootGlobState w) := by
  have h := fillStates_spec (fun _ glob sensitivity => (glob.mInitialState, sensitivity))
    (fun _ => True) Glob.mInitialState (fun _ _ _ _ _ => ⟨rfl, trivial⟩) w.mCompiledGlobs []
    (DirGlobState.init {} w.mCompiledGlobs.length) false none rfl
    (DirGlobState.le_length_data_init _) rfl (by simp) trivial (by simp)
  refine ⟨?_, fun hi hd => (h.2 hi).1 hd, fun hi _ => (h.2 hi).2⟩
  simp only [Watcher.AnyPrefix, Glob.prefixAccepts_nil]
  exact h.1

/-- What `stepState` computes in a live directory. -/
theorem stepState_spec {w : Watcher platform} {comps : List Str} {st : DirGlobState}
    (h : StateOf w comps st) (hign : st.ignored = false) (hdead : st.allDead = false)
    (component : Str) {relParent : Str}
    (hparent : buildParentDirectory w.mDir relParent = dirOf w.mDir comps) (i : Nat)
    (g : Glob) (memo : Option DirectoryCaseSensitivity) (hg : w.mCompiledGlobs[i]? = some g)
    (hmemo : Glob.MemoOf platform (dirOf w.mDir comps) memo) :
    (stepState w (st.data w.mCompiledGlobs.length) component relParent i g memo).1 =
        w.stateAfter (comps ++ [component]) g ∧
      Glob.MemoOf platform (dirOf w.mDir comps)
        (stepState w (st.data w.mCompiledGlobs.length) component relParent i g memo).2 := by
  have hs : (st.data w.mCompiledGlobs.length).getD i 0 = w.stateAfter comps g := by
    rw [List.getD_eq_getElem?_getD, h.states hign hdead i g hg]
    rfl
  rw [Watcher.stateAfter_snoc]
  unfold stepState
  simp only [hs]
  by_cases hzero : w.stateAfter comps g = 0
  · rw [if_pos hzero, hzero, Glob.stepIn_zero]
    exact ⟨rfl, hmemo⟩
  · rw [if_neg hzero]
    exact Glob.stepBitmask_eq_stepIn hparent hmemo _ _

/-- One component takes the state of a directory to that of its child. -/
theorem StateOf.step {w : Watcher platform} {comps : List Str} {st : DirGlobState}
    (h : StateOf w comps st) (component : Str) {relParent : Str}
    (hparent : buildParentDirectory w.mDir relParent = dirOf w.mDir comps) :
    StateOf w (comps ++ [component]) (stepDirGlobState w st component relParent) := by
  unfold stepDirGlobState
  by_cases hign : st.ignored = true
  · rw [if_pos hign]
    refine ⟨iff_of_true rfl (Watcher.anyPrefix_snoc.mpr (Or.inl (h.ignored.mp hign))), ?_, ?_⟩
    · exact fun hi => by cases hi
    · exact fun hi => by cases hi
  · have hnone : ¬ w.AnyPrefix comps := fun hany => hign (h.ignored.mpr hany)
    rw [if_neg hign]
    rw [Bool.not_eq_true] at hign
    by_cases hdead : st.allDead = true
    · have hzero : ∀ g ∈ w.mCompiledGlobs, w.stateAfter (comps ++ [component]) g = 0 := by
        intro g hg
        rw [Watcher.stateAfter_snoc, h.dead hign hdead g hg, Glob.stepIn_zero]
      rw [if_pos hdead]
      refine ⟨iff_of_false Bool.false_ne_true ?_, fun _ _ => hzero, fun _ hd => by cases hd⟩
      rw [Watcher.anyPrefix_snoc]
      rintro (hany | ⟨g, hg, hacc⟩)
      · exact hnone hany
      · rw [hzero g hg, Glob.not_accepting_zero] at hacc
        cases hacc
    · rw [if_neg hdead]
      rw [Bool.not_eq_true] at hdead
      have hfill := fillStates_spec _ _ _
        (fun i g memo hg hmemo => stepState_spec h hign hdead component hparent i g memo hg hmemo)
        w.mCompiledGlobs [] (DirGlobState.init {} w.mCompiledGlobs.length) false none rfl
        (DirGlobState.le_length_data_init _) rfl (by simp) (Glob.memoOf_none _ _) (by simp)
      refine ⟨?_, fun hi hd => (hfill.2 hi).1 hd, fun hi _ => (hfill.2 hi).2⟩
      rw [Watcher.anyPrefix_snoc, or_iff_right hnone]
      exact hfill.1

/-- The loop that only asks whether some glob accepts. -/
theorem anyAccepts_iff {value : Nat → Glob → Option DirectoryCaseSensitivity →
      Mask × Option DirectoryCaseSensitivity}
    {M : Option DirectoryCaseSensitivity → Prop} {v : Glob → Mask} {globs : List Glob}
    (hvalue : ∀ i g memo, globs[i]? = some g → M memo →
      (value i g memo).1 = v g ∧ M (value i g memo).2) (rest : List Glob) :
    ∀ (done : List Glob) (memo : Option DirectoryCaseSensitivity), globs = done ++ rest →
      M memo →
      (anyAccepts value rest done.length memo = true ↔
        ∃ g ∈ rest, g.accepting (v g) = true) := by
  induction rest with
  | nil =>
      intro done memo _ _
      simp [anyAccepts]
  | cons g rest ih =>
      intro done memo hglobs hmemo
      have hget : globs[done.length]? = some g := by simp [hglobs]
      obtain ⟨hv, hmemo'⟩ := hvalue _ g memo hget hmemo
      have hih := ih (done ++ [g]) (value done.length g memo).2 (by simp [hglobs]) hmemo'
      rw [List.length_append, List.length_singleton] at hih
      rw [anyAccepts]
      simp only [hv]
      change (if g.accepting (v g) = true then true else _) = true ↔ _
      by_cases hacc : g.accepting (v g) = true
      · simp [hacc]
      · rw [if_neg hacc, hih]
        simp [hacc]

theorem isComponentIgnored_iff {w : Watcher platform} {comps : List Str}
    {st : DirGlobState} (h : StateOf w comps st) (component : Str) {relParent : Str}
    (hparent : buildParentDirectory w.mDir relParent = dirOf w.mDir comps) :
    isComponentIgnored w st component relParent = true ↔ w.AnyPrefix (comps ++ [component]) := by
  rw [Watcher.anyPrefix_snoc]
  unfold isComponentIgnored
  by_cases hign : st.ignored = true
  · rw [if_pos hign]
    exact iff_of_true rfl (Or.inl (h.ignored.mp hign))
  · have hnone : ¬ w.AnyPrefix comps := fun hany => hign (h.ignored.mpr hany)
    rw [if_neg hign, or_iff_right hnone]
    rw [Bool.not_eq_true] at hign
    by_cases hdead : st.allDead = true
    · rw [if_pos hdead]
      refine iff_of_false Bool.false_ne_true ?_
      rintro ⟨g, hg, hacc⟩
      rw [Watcher.stateAfter_snoc, h.dead hign hdead g hg, Glob.stepIn_zero,
        Glob.not_accepting_zero] at hacc
      cases hacc
    · rw [if_neg hdead]
      rw [Bool.not_eq_true] at hdead
      exact anyAccepts_iff
        (fun i g memo hg hmemo => stepState_spec h hign hdead component hparent i g memo hg hmemo)
        w.mCompiledGlobs [] none rfl (Glob.memoOf_none _ _)

end NativeWatcher
