import NativeWatcher.Glob.Mask
import NativeWatcher.Glob.Cuts
import NativeWatcher.Glob.Table

/-!
# Both engines accept the pattern language

The documented language: the component list of a pattern against the component
list of a path, where `**` takes any number of components and any other component
takes one. A component takes a name exactly, or folded when the directory holding
the name is case-insensitive.
-/

namespace NativeWatcher

open SegmentMatch

/-! ## The language -/

/-- A component of a pattern: `**`, or one name to test. -/
def patternSegment (build : Build) (part : Str) : Option GlobComponent :=
  if part = doubleStar then none else some (.compile build part)

/-- The components of `pattern` match those of `path`, read below `root`. -/
def PatternMatches (platform : Platform) (pattern root path : Str) : Prop :=
  Matches childPath (Takes platform)
    ((components pattern).map (patternSegment platform.build)) root (components path)

/-! ## Compilation keeps the language -/

theorem segment_compile (build : Build) (part : Str) :
    (GlobComponent.compile build part).segment = patternSegment build part := by
  unfold GlobComponent.segment patternSegment
  by_cases h : part = doubleStar <;> simp [GlobComponent.compile, h]

namespace Glob

/-- The parts so far, with the components to come. -/
theorem compileParts_from (platform : Platform) (mComponents : List Str) :
    ∀ acc : List GlobComponent, Squeezed (acc.map GlobComponent.segment) →
      Squeezed ((mComponents.foldl (fun mParts part =>
          if part == doubleStar && mParts.getLast?.any (·.isDoubleStar) then mParts
          else mParts ++ [GlobComponent.compile platform.build part]) acc).map GlobComponent.segment) ∧
        ∀ s cs, Matches childPath (Takes platform)
            ((mComponents.foldl (fun mParts part =>
              if part == doubleStar && mParts.getLast?.any (·.isDoubleStar) then mParts
              else mParts ++ [GlobComponent.compile platform.build part]) acc).map
                GlobComponent.segment) s cs ↔
          Matches childPath (Takes platform)
            (acc.map GlobComponent.segment ++
              mComponents.map (patternSegment platform.build)) s cs := by
  induction mComponents with
  | nil =>
      intro acc hacc
      exact ⟨hacc, fun s cs => by simp⟩
  | cons part mComponents ih =>
      intro acc hacc
      have hlast : (acc.map GlobComponent.segment).getLast? = some none ↔
          acc.getLast?.any (·.isDoubleStar) = true := by
        rw [List.getLast?_map]
        cases acc.getLast? <;> simp [segment_eq_none]
      rw [List.foldl_cons]
      by_cases hstar : part = doubleStar ∧ acc.getLast?.any (·.isDoubleStar) = true
      · obtain ⟨rfl, hany⟩ := hstar
        rw [if_pos (by simp [hany])]
        obtain ⟨hsq, hmatch⟩ := ih acc hacc
        refine ⟨hsq, fun s cs => ?_⟩
        rw [hmatch, List.map_cons, patternSegment, if_pos rfl,
          matches_append_none (hlast.mpr hany)]
      · rw [if_neg (by simpa using hstar)]
        have hsnoc : Squeezed ((acc ++ [GlobComponent.compile platform.build part]).map
            GlobComponent.segment) := by
          rw [List.map_append]
          refine hacc.snoc (o := (GlobComponent.compile platform.build part).segment)
            fun hnone hl => hstar ⟨?_, hlast.mp hl⟩
          rw [segment_compile] at hnone
          by_contra hne
          rw [patternSegment, if_neg hne] at hnone
          cases hnone
        obtain ⟨hsq, hmatch⟩ := ih _ hsnoc
        refine ⟨hsq, fun s cs => ?_⟩
        rw [hmatch, List.map_append, List.map_cons, List.map_nil, segment_compile,
          List.append_assoc]
        rfl

theorem squeezed_compileParts (platform : Platform) (mComponents : List Str) :
    Squeezed ((compileParts platform.build mComponents).map GlobComponent.segment) :=
  (compileParts_from platform mComponents [] squeezed_nil).1

theorem matches_compileParts (platform : Platform) (mComponents : List Str) (s : Str)
    (cs : List Str) :
    Matches childPath (Takes platform)
        ((compileParts platform.build mComponents).map GlobComponent.segment) s cs ↔
      Matches childPath (Takes platform)
        (mComponents.map (patternSegment platform.build)) s cs :=
  (compileParts_from platform mComponents [] squeezed_nil).2 s cs

theorem mParts_new (build : Build) {raw : Str} (hraw : raw ≠ []) :
    (new build raw).mParts = compileParts build (components raw) := by
  unfold new
  rw [if_neg (by simpa using hraw)]
  dsimp only
  split <;> rfl

theorem compileParts_ne_nil (build : Build) {mComponents : List Str}
    (h : mComponents ≠ []) : compileParts build mComponents ≠ [] := by
  have hgrow : ∀ (mComponents : List Str) (acc : List GlobComponent), acc ≠ [] →
      mComponents.foldl (fun mParts part =>
        if part == doubleStar && mParts.getLast?.any (·.isDoubleStar) then mParts
        else mParts ++ [GlobComponent.compile build part]) acc ≠ [] := by
    intro mComponents
    induction mComponents with
    | nil => exact fun acc hacc => hacc
    | cons part mComponents ih =>
        intro acc hacc
        rw [List.foldl_cons]
        refine ih _ ?_
        split
        · exact hacc
        · simp
  cases mComponents with
  | nil => exact absurd rfl h
  | cons part mComponents =>
      rw [compileParts, List.foldl_cons]
      exact hgrow _ _ (by simp)

theorem mRaw_new (build : Build) (raw : Str) : (new build raw).mRaw = raw := by
  unfold new
  dsimp only
  split
  · rfl
  · split <;> rfl

theorem matches_segments (platform : Platform) {raw : Str} (hraw : raw ≠ [])
    (root path : Str) :
    Matches childPath (Takes platform) (new platform.build raw).segments root
        (components path) ↔ PatternMatches platform raw root path := by
  rw [segments, mParts_new _ hraw, matches_compileParts]
  rfl

/-- The mask engine runs on fewer than 63 parts. -/
theorem mUseBitmask_new (build : Build) (raw : Str) :
    (new build raw).mUseBitmask = true ↔
      (new build raw).mParts ≠ [] ∧ (new build raw).mParts.length < 63 := by
  unfold new
  dsimp only
  split
  · simp
  · split
    next h => simpa using h
    next h => simpa using h

theorem maskForm_new (platform : Platform) {raw : Str}
    (h : (new platform.build raw).mUseBitmask = true) :
    MaskForm (new platform.build raw) := by
  have hlt := ((mUseBitmask_new _ _).mp h).2
  have hsq : Squeezed (new platform.build raw).segments := by
    by_cases hraw : raw = []
    · subst hraw
      exact squeezed_nil
    · rw [segments, mParts_new _ hraw]
      exact squeezed_compileParts platform _
  unfold new at h hlt hsq ⊢
  dsimp only at h hlt hsq ⊢
  split at h
  · cases h
  · split at h
    next hparts =>
        simp only [hparts, if_true] at hlt hsq ⊢
        rename_i hraw
        simp only [hraw] at hlt hsq ⊢
        exact ⟨hlt, rfl, rfl, rfl, rfl, hsq⟩
    next => cases h

end Glob

/-! ## The mask engine -/

namespace Glob

/-- The state of the mask engine denotes a closed set of positions. -/
structure Denotes (g : Glob) (state : Mask) (S : Set ℕ) : Prop where
  bits : Bits state S
  closed : Closed g.segments S
  bounded : Bounded g.segments S

variable {g : Glob} {platform : Platform} {root path dir : Str} {state : Mask}
  {S : Set ℕ}

theorem Denotes.initial (hg : MaskForm g) :
    Denotes g g.mInitialState (SegmentMatch.initial g.segments) := by
  refine ⟨?_, closed_initial hg.squeezed, bounded_initial⟩
  have hzero : Bits (bit 0) {0} := fun j => by
    rw [getLsbD_bit]
    simp only [Set.mem_singleton_iff, and_iff_left_iff_imp]
    rintro rfl
    decide
  rw [hg.initial]
  exact bits_shiftClosure hg hzero

theorem Denotes.stepCut (hg : MaskForm g) {cut : Nat × Nat}
    (hscan : ScanAt root path cut.1 dir) (h : Denotes g state S) :
    Denotes g (g.stepCut platform root path state cut)
      (step (Takes platform) g.segments dir (componentAt path cut) S) := by
  obtain ⟨hbits, -⟩ := bits_stepBitmask platform (componentAt path cut) root
    (relParentAt path cut.1) hg h.bits (memoOf_none _ _)
  rw [hscan.parent] at hbits
  exact ⟨hbits, closed_step hg.squeezed, bounded_step⟩

theorem Denotes.accept_iff (hg : MaskForm g) (h : Denotes g state S) :
    (state &&& g.mAcceptBit != 0) = true ↔ g.segments.length ∈ S := by
  have hlt := hg.length_lt
  have hlen : g.segments.length = g.mParts.length := List.length_map _
  rw [hlen, ← h.bits, hg.accept, bne_iff_ne]
  have hself : (bit g.mParts.length).getLsbD g.mParts.length = true :=
    getLsbD_bit.mpr ⟨rfl, by omega⟩
  constructor
  · intro hne
    by_contra hbit
    rw [Bool.not_eq_true] at hbit
    refine hne (BitVec.eq_of_getLsbD_eq fun j _ => ?_)
    by_cases hj : j = g.mParts.length
    · subst hj
      simp [hbit]
    · have hnot : (bit g.mParts.length).getLsbD j = false := by
        rw [← Bool.not_eq_true, getLsbD_bit]
        exact fun h => hj h.1
      simp [hnot]
  · intro hbit hzero
    have hget := congrArg (fun m : Mask => m.getLsbD g.mParts.length) hzero
    simp [hbit, hself] at hget

/-- The loop over the cuts decides acceptance from the current set. -/
theorem maskLoop_iff (hg : MaskForm g) {pathCuts : List (Nat × Nat)} :
    ∀ {start : Nat} {state : Mask} {S : Set ℕ} {dir : Str},
      CutsOf path start pathCuts →
      (∀ cut ∈ pathCuts, componentAt path cut ≠ []) →
      ScanAt root path start dir → Denotes g state S →
      (g.maskLoop platform root path pathCuts state = true ↔
        Accepts childPath (Takes platform) g.segments S dir
          (pathCuts.map (componentAt path))) := by
  induction pathCuts with
  | nil =>
      intro start state S dir _ _ _ hden
      rw [List.map_nil, accepts_nil hden.closed hden.bounded, maskLoop]
      exact hden.accept_iff hg
  | cons cut rest ih =>
      intro start state S dir hcuts hne hscan hden
      obtain ⟨first, index⟩ := cut
      obtain rfl : first = start := by cases hcuts <;> rfl
      have hden' : Denotes g (g.stepCut platform root path state (first, index)) _ :=
        hden.stepCut hg hscan
      rw [List.map_cons, accepts_cons hden.closed, maskLoop]
      by_cases hzero : g.stepCut platform root path state (first, index) = 0
      · rw [hden'.bits.eq_zero_iff.mp hzero]
        simp [hzero, not_accepts_empty]
      · simp only [if_neg hzero]
        have hne' : ∀ cut ∈ rest, componentAt path cut ≠ [] :=
          fun cut hcut => hne cut (List.mem_cons_of_mem _ hcut)
        cases hcuts with
        | last _ _ =>
            rw [List.map_nil, accepts_nil hden'.closed hden'.bounded, maskLoop]
            exact hden'.accept_iff hg
        | cons hle _ hsep hcuts =>
            exact ih hcuts hne'
              (hscan.next hle hsep (hne _ (List.mem_cons_self ..))) hden'

theorem isIgnoredMask_iff (hg : MaskForm g) (platform : Platform) (root path : Str)
    (hpath : ∀ c ∈ components path, c ≠ []) :
    g.isIgnoredMask platform path root = true ↔
      Matches childPath (Takes platform) g.segments root (components path) := by
  have hinit := Denotes.initial hg
  rw [← accepts_initial, isIgnoredMask]
  by_cases hempty : path = []
  · subst hempty
    have hcomp : components [] = [] := rfl
    rw [hcomp, accepts_nil hinit.closed hinit.bounded]
    exact hinit.accept_iff hg
  · have hcomp : components path = (cuts path).map (componentAt path) := by
      rw [components, if_neg (by simpa using hempty)]
    rw [if_neg (by simpa using hempty), hcomp]
    refine maskLoop_iff hg (cuts_spec path) (fun cut hcut => hpath _ ?_)
      (scanAt_zero root path) hinit
    rw [hcomp]
    exact List.mem_map_of_mem hcut

/-! ## The table engine -/

theorem parentDirectory_succ {pathParts : List Str} {j : Nat} (hj : j < pathParts.length) :
    parentDirectory root pathParts (j + 1) =
      childPath (parentDirectory root pathParts j) pathParts[j] := by
  unfold parentDirectory
  rw [List.take_succ_eq_append_getElem hj, List.foldl_append]
  rfl

/-- The memo of one call holds sensitivities only. -/
def MemoSound (platform : Platform) (sensitivity : SensitivityMemo) : Prop :=
  ∀ dir value, sensitivity.lookup dir = some value →
    value = platform.directoryCaseSensitivity dir

theorem tableCell_spec (platform : Platform) (root : Str) (pathParts : List Str)
    (part : GlobComponent) (j : Nat) (sensitivity : SensitivityMemo)
    (hmemo : MemoSound platform sensitivity) :
    (tableCell platform root pathParts part j sensitivity).1 =
        decide (Takes platform part (parentDirectory root pathParts j)
          (pathParts.getD j [])) ∧
      MemoSound platform (tableCell platform root pathParts part j sensitivity).2 := by
  unfold tableCell Takes
  generalize pathParts.getD j [] = pathPart
  by_cases hexact : componentMatchesExact platform.build part pathPart = true
  · simp [hexact, hmemo]
  · by_cases hfolded : componentMatchesFolded platform.build part pathPart = true
    · simp only [hexact, hfolded]
      cases hlook : sensitivity.lookup (parentDirectory root pathParts j) with
      | some value =>
          have hvalue := hmemo _ _ hlook
          refine ⟨?_, hmemo⟩
          subst hvalue
          simp [Bool.beq_eq_decide_eq]
      | none =>
          refine ⟨by simp [Bool.beq_eq_decide_eq], fun dir value hdir => ?_⟩
          by_cases heq : dir = parentDirectory root pathParts j
          · subst heq
            simpa using hdir.symm
          · exact hmemo dir value (by simpa [heq] using hdir)
    · simp [hexact, hfolded, hmemo]

/-- What a finished row says about the rest of the pattern. -/
def RowOf (platform : Platform) (root : Str) (pathParts : List Str)
    (rest : List (Option GlobComponent)) (row : List Bool) : Prop :=
  row.length = pathParts.length + 1 ∧ ∀ j ≤ pathParts.length,
    (row.getD j false = true ↔ Matches childPath (Takes platform) rest
      (parentDirectory root pathParts j) (pathParts.drop j))

theorem rowOf_last (platform : Platform) (root : Str) (pathParts : List Str) :
    RowOf platform root pathParts [] (lastRow pathParts.length) := rowDenotes_last

/-- One part turns the row of the rest into its own. -/
theorem rowOf_cons (platform : Platform) {pathParts : List Str}
    (part : GlobComponent) {rest : List (Option GlobComponent)} {next : List Bool}
    {current : List Bool} (hnext : RowOf platform root pathParts rest next)
    (hcurrent : RowOver part.isDoubleStar
      (fun j => decide (Takes platform part (parentDirectory root pathParts j)
        (pathParts.getD j []))) 0 next current) :
    RowOf platform root pathParts (part.segment :: rest) current := by
  have hposition : ∀ j (hj : j < pathParts.length), parentDirectory root pathParts (j + 1) =
      childPath (parentDirectory root pathParts j) pathParts[j] :=
    fun j hj => parentDirectory_succ hj
  cases hstar : part.isDoubleStar with
  | true =>
      rw [segment_eq_none.mpr hstar]
      rw [hstar] at hcurrent
      exact RowDenotes.star hposition hnext hcurrent
  | false =>
      rw [segment_eq_some.mpr ⟨hstar, rfl⟩]
      rw [hstar] at hcurrent
      apply RowDenotes.one hposition hnext hcurrent
      intro j hj
      rw [decide_eq_true_eq, List.getD_eq_getElem?_getD, List.getElem?_eq_getElem hj,
        Option.getD_some]

theorem rowOf_tableFrom (platform : Platform) (root : Str) (pathParts : List Str)
    (parts : List GlobComponent) :
    RowOf platform root pathParts (parts.map GlobComponent.segment)
        (tableFrom platform root pathParts parts).1 ∧
      MemoSound platform (tableFrom platform root pathParts parts).2 := by
  induction parts with
  | nil =>
      refine ⟨rowOf_last platform root _, fun dir value h => ?_⟩
      rw [tableFrom, List.foldr_nil, AList.lookup_empty] at h
      cases h
  | cons part parts ih =>
      obtain ⟨hrow, hmemo⟩ := ih
      obtain ⟨hover, hmemo'⟩ := tableRow_spec part.isDoubleStar
        (fun j m hm => tableCell_spec platform root pathParts part j m hm) 0 _ _ hmemo
      exact ⟨rowOf_cons platform part hrow hover, hmemo'⟩

theorem isIgnoredTable_iff (g : Glob) (platform : Platform) (root path : Str) :
    g.isIgnoredTable platform path root = true ↔
      Matches childPath (Takes platform) g.segments root (components path) := by
  obtain ⟨⟨_, hrow⟩, -⟩ := rowOf_tableFrom platform root (components path) g.mParts
  have h := hrow 0 (Nat.zero_le _)
  have hhead : ∀ row : List Bool, row.headD false = row.getD 0 false := by
    intro row
    cases row <;> rfl
  rw [List.drop_zero] at h
  rw [isIgnoredTable, hhead]
  exact h

end Glob

/-! ## Both engines -/

theorem Glob.isIgnoredTable_new (platform : Platform) {raw : Str} (hraw : raw ≠ [])
    (root path : Str) :
    (Glob.new platform.build raw).isIgnoredTable platform path root = true ↔
      PatternMatches platform raw root path := by
  rw [Glob.isIgnoredTable_iff, Glob.matches_segments platform hraw]

theorem Glob.isIgnoredMask_new (platform : Platform) {raw : Str} (hraw : raw ≠ [])
    (root : Str) {path : Str} (hpath : ∀ c ∈ components path, c ≠ [])
    (hmask : (Glob.new platform.build raw).mUseBitmask = true) :
    (Glob.new platform.build raw).isIgnoredMask platform path root = true ↔
      PatternMatches platform raw root path := by
  rw [Glob.isIgnoredMask_iff (Glob.maskForm_new platform hmask) platform root path hpath,
    Glob.matches_segments platform hraw]

/-- Whichever engine runs, the language is the same. -/
theorem Glob.isIgnored_new (platform : Platform) {raw : Str} (hraw : raw ≠ [])
    (root : Str) {path : Str} (hpath : ∀ c ∈ components path, c ≠ []) :
    (Glob.new platform.build raw).isIgnored platform path root = true ↔
      PatternMatches platform raw root path := by
  rw [Glob.isIgnored, Glob.mRaw_new, if_neg (by simpa using hraw)]
  by_cases h : (Glob.new platform.build raw).mUseBitmask = true
  · rw [if_pos h]
    exact Glob.isIgnoredMask_new platform hraw root hpath h
  · rw [if_neg h]
    exact Glob.isIgnoredTable_new platform hraw root path

/-- **Both engines accept exactly the pattern language.** -/
theorem isIgnored_iff_patternMatches (platform : Platform) (raw root path : Str)
    (hraw : raw ≠ []) (hpath : ∀ c ∈ components path, c ≠ []) :
    ((Glob.new platform.build raw).isIgnored platform path root = true ↔
        PatternMatches platform raw root path) ∧
      ((Glob.new platform.build raw).mParts.length < 63 →
        ((Glob.new platform.build raw).isIgnoredMask platform path root = true ↔
          PatternMatches platform raw root path)) ∧
      ((Glob.new platform.build raw).isIgnoredTable platform path root = true ↔
        PatternMatches platform raw root path) := by
  refine ⟨Glob.isIgnored_new platform hraw root hpath, fun hlen => ?_,
    Glob.isIgnoredTable_new platform hraw root path⟩
  apply Glob.isIgnoredMask_new platform hraw root hpath
  refine (Glob.mUseBitmask_new _ _).mpr ⟨?_, hlen⟩
  rw [Glob.mParts_new _ hraw]
  exact Glob.compileParts_ne_nil platform.build (components_ne_nil hraw)

/-- A nested file below `**`. -/
theorem isIgnored_iff_patternMatches_nested :
    let platform : Platform := ⟨.posix, fun _ => .Sensitive⟩
    let raw : Str := [42, 42, 47, 97]
    let path : Str := [98, 47, 97]
    ((Glob.new platform.build raw).isIgnored platform path [] = true ↔
        PatternMatches platform raw [] path) ∧
      ((Glob.new platform.build raw).mParts.length < 63 →
        ((Glob.new platform.build raw).isIgnoredMask platform path [] = true ↔
          PatternMatches platform raw [] path)) ∧
      ((Glob.new platform.build raw).isIgnoredTable platform path [] = true ↔
        PatternMatches platform raw [] path) :=
  isIgnored_iff_patternMatches _ _ _ _ (by decide) (by decide)

end NativeWatcher
