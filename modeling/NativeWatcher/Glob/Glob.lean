import NativeWatcher.Glob.Component

/-!
# Globs

The compiled pattern and its two engines: a 64-bit mask of pattern positions,
stepped over the components of a path, and a table over both component lists.
Only the mask engine has a limit, on the number of compiled parts.
-/

namespace NativeWatcher

/-! ## Cutting a path -/

/-- The loop `for (index = …; index <= path.size(); index++)` that three functions
share: `(start, index)` at each separator and at the end of the path. -/
def cutsFrom (path : Str) (start : Nat) : List Nat → List (Nat × Nat)
  | [] => []
  | index :: indices =>
      if index = path.length ∨ path[index]? = some slash then
        (start, index) :: cutsFrom path (index + 1) indices
      else cutsFrom path start indices

def cuts (path : Str) : List (Nat × Nat) := cutsFrom path 0 (List.range (path.length + 1))

/-- `path.substr(start, index - start)`. -/
def componentAt (path : Str) (cut : Nat × Nat) : Str := substr path cut.1 (cut.2 - cut.1)

/-- `start == 0 ? "" : path.substr(0, start - 1)`. -/
def relParentAt (path : Str) (start : Nat) : Str :=
  if start = 0 then [] else substr path 0 (start - 1)

def components (path : Str) : List Str :=
  if path.isEmpty then [] else (cuts path).map (componentAt path)

def buildParentDirectory (root relativeParent : Str) : Str :=
  if relativeParent.isEmpty then root else root ++ [slash] ++ relativeParent

def parentDirectory (root : Str) (path : List Str) (component : Nat) : Str :=
  (path.take component).foldl (fun result part => result ++ [slash] ++ part) root

/-! ## The constructor -/

/-- `uint64_t`. -/
abbrev Mask := BitVec 64

structure Glob where
  mRaw : Str
  mComponents : List Str := []
  mParts : List GlobComponent := []
  mDoubleStarMask : Mask := 0
  mActiveMask : Mask := 0
  mInitialState : Mask := 0
  mAcceptBit : Mask := 0
  mUseBitmask : Bool := false

namespace Glob

/-- `uint64_t(1) << i`. -/
def bit (i : Nat) : Mask := (1 : Mask) <<< i

/-- The loop that compiles the components; a run of `**` is one part. -/
def compileParts (build : Build) (mComponents : List Str) : List GlobComponent :=
  mComponents.foldl (fun mParts part =>
    if part == doubleStar && mParts.getLast?.any (·.isDoubleStar) then mParts
    else mParts ++ [.compile build part]) []

def setBits (mParts : List GlobComponent) (test : GlobComponent → Bool) : Mask :=
  mParts.zipIdx.foldl (fun mask (part, i) => if test part then mask ||| bit i else mask) 0

/-- `Glob(raw)`. -/
def new (build : Build) (raw : Str) : Glob :=
  if raw.isEmpty then { mRaw := raw }
  else
    let mComponents := components raw
    let mParts := compileParts build mComponents
    if !mParts.isEmpty && decide (mParts.length < 63) then
      let mDoubleStarMask := setBits mParts (·.isDoubleStar)
      { mRaw := raw, mComponents, mParts, mDoubleStarMask
        mActiveMask := setBits mParts (!·.isDoubleStar)
        mInitialState := bit 0 ||| ((bit 0 &&& mDoubleStarMask) <<< 1)
        mAcceptBit := bit mParts.length
        mUseBitmask := true }
    else { mRaw := raw, mComponents, mParts }

/-! ## The mask engine -/

theorem toNat_clearLowest_lt {x : Mask} (h : x ≠ 0) :
    (x &&& (x - 1)).toNat < x.toNat := by
  have hpos : 0 < x.toNat := by
    apply Nat.pos_of_ne_zero
    intro h0
    exact h (BitVec.eq_of_toNat_eq h0)
  have hle : (x &&& (x - 1)).toNat ≤ (x - 1).toNat := by
    rw [BitVec.toNat_and]
    exact Nat.and_le_right
  have hsub : (x - 1).toNat = x.toNat - 1 := by
    have hle : (1 : Mask) ≤ x := BitVec.le_def.mpr hpos
    exact BitVec.toNat_sub_of_le hle
  omega

/-- The loop over the set bits of `candidates`. `cachedSensitivity` is filled by
the first component that only matches folded. -/
def stepCandidates (g : Glob) (platform : Platform) (component root relativeParent : Str)
    (candidates next : Mask) (cachedSensitivity : Option DirectoryCaseSensitivity) :
    Mask × Option DirectoryCaseSensitivity :=
  if candidates = 0 then (next, cachedSensitivity)
  else
    let p := candidates.ctz.toNat
    let rest := candidates &&& (candidates - 1)
    let part := g.mParts.getD p {}
    if componentMatchesExact platform.build part component then
      stepCandidates g platform component root relativeParent rest
        (next ||| bit (p + 1)) cachedSensitivity
    else if !componentMatchesFolded platform.build part component then
      stepCandidates g platform component root relativeParent rest next cachedSensitivity
    else
      let sensitivity := cachedSensitivity.getD
        (platform.directoryCaseSensitivity (buildParentDirectory root relativeParent))
      stepCandidates g platform component root relativeParent rest
        (if sensitivity = .Insensitive then next ||| bit (p + 1) else next)
        (some sensitivity)
termination_by candidates.toNat
decreasing_by all_goals exact toNat_clearLowest_lt ‹_›

def stepBitmask (g : Glob) (platform : Platform) (state : Mask)
    (component root relativeParent : Str)
    (cachedSensitivity : Option DirectoryCaseSensitivity) :
    Mask × Option DirectoryCaseSensitivity :=
  let (next, cachedSensitivity) :=
    stepCandidates g platform component root relativeParent (state &&& g.mActiveMask)
      (state &&& g.mDoubleStarMask) cachedSensitivity
  (next ||| ((next &&& g.mDoubleStarMask) <<< 1), cachedSensitivity)

/-- The state after the component of one cut, with a sensitivity of its own. -/
def stepCut (g : Glob) (platform : Platform) (root path : Str) (state : Mask)
    (cut : Nat × Nat) : Mask :=
  (g.stepBitmask platform state (componentAt path cut) root (relParentAt path cut.1)
    none).1

/-- The loop of `isIgnored` over the components. -/
def maskLoop (g : Glob) (platform : Platform) (root path : Str) :
    List (Nat × Nat) → Mask → Bool
  | [], state => state &&& g.mAcceptBit != 0
  | cut :: rest, state =>
      let state := g.stepCut platform root path state cut
      if state = 0 then false else maskLoop g platform root path rest state

/-- `isIgnored` for `mUseBitmask`. -/
def isIgnoredMask (g : Glob) (platform : Platform) (path root : Str) : Bool :=
  if path.isEmpty then g.mInitialState &&& g.mAcceptBit != 0
  else maskLoop g platform root path (cuts path) g.mInitialState

/-! ## The table engine -/

/-- The map `sensitivity` of one call. -/
abbrev SensitivityMemo := AList (fun _ : Str => DirectoryCaseSensitivity)

/-- The test of one column for one part. -/
def tableCell (platform : Platform) (root : Str) (pathParts : List Str)
    (part : GlobComponent) (pathIndex : Nat) (sensitivity : SensitivityMemo) :
    Bool × SensitivityMemo :=
  let pathPart := pathParts.getD pathIndex []
  if componentMatchesExact platform.build part pathPart then (true, sensitivity)
  else if !componentMatchesFolded platform.build part pathPart then (false, sensitivity)
  else
    let parent := parentDirectory root pathParts pathIndex
    match sensitivity.lookup parent with
    | some value => (value == .Insensitive, sensitivity)
    | none =>
        let value := platform.directoryCaseSensitivity parent
        (value == .Insensitive, AList.insert parent value sensitivity)

/-- The rows of `patternParts`, from the last part up. -/
def tableFrom (platform : Platform) (root : Str) (pathParts : List Str)
    (patternParts : List GlobComponent) : List Bool × SensitivityMemo :=
  patternParts.foldr (fun part (next, sensitivity) =>
    tableRow part.isDoubleStar (tableCell platform root pathParts part) 0 next
      sensitivity) (lastRow pathParts.length, ∅)

/-- `isIgnored` without `mUseBitmask`. -/
def isIgnoredTable (g : Glob) (platform : Platform) (path root : Str) : Bool :=
  (tableFrom platform root (components path) g.mParts).1.headD false

/-! ## The public functions -/

def isIgnored (g : Glob) (platform : Platform) (relativePath root : Str) : Bool :=
  if g.mRaw.isEmpty then false
  else if g.mUseBitmask then g.isIgnoredMask platform relativePath root
  else g.isIgnoredTable platform relativePath root

/-- The loop of `isPathOrAncestorIgnored` over the components. -/
def ancestorLoop (g : Glob) (platform : Platform) (root path : Str) :
    List (Nat × Nat) → Mask → Bool
  | [], _ => false
  | cut :: rest, state =>
      let state := g.stepCut platform root path state cut
      if state &&& g.mAcceptBit != 0 then true
      else if state = 0 then false
      else ancestorLoop g platform root path rest state

def isPathOrAncestorIgnored (g : Glob) (platform : Platform) (relativePath root : Str) :
    Bool :=
  if g.mRaw.isEmpty || relativePath.isEmpty then false
  else if g.mUseBitmask then
    ancestorLoop g platform root relativePath (cuts relativePath) g.mInitialState
  else
    g.isIgnored platform relativePath root ||
      (List.range relativePath.length).any fun index =>
        relativePath[index]? == some slash &&
          g.isIgnored platform (substr relativePath 0 index) root

end Glob

end NativeWatcher
