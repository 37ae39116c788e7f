import NativeWatcher.Glob.Glob
import NativeWatcher.Lib.FiniteMap
import Mathlib.Data.List.Dedup

/-!
# `Watcher::isIgnored`

The ignore check of a watcher, with the memo of automaton states that each thread
keeps per directory. The memo belongs to one watcher at a time and starts over when
another one asks.
-/

namespace NativeWatcher

/-! ## Watchers -/

/-- `"/**"`. -/
def slashStars : Str := [slash, star, star]

/-- `"\**"`. -/
def backslashStars : Str := [92, star, star]

/-- The loop of the constructor that cuts a trailing `/**`. -/
def normalizeGlob (raw : Str) : Str :=
  if 3 < raw.length ∧ (substr raw (raw.length - 3) 3 = slashStars ∨
      substr raw (raw.length - 3) 3 = backslashStars) then
    normalizeGlob (raw.take (raw.length - 3))
  else raw
termination_by raw.length
decreasing_by
  rw [List.length_take]
  omega

theorem normalizeGlob_ne_nil {raw : Str} (h : raw ≠ []) : normalizeGlob raw ≠ [] := by
  fun_induction normalizeGlob raw with
  | case1 raw hcut ih =>
      refine ih fun hnil => ?_
      have hlen := congrArg List.length hnil
      rw [List.length_take, List.length_nil] at hlen
      omega
  | case2 raw _ => exact h

/-- The globs a watcher compiles, in some order. -/
def compiledGlobs (build : Build) (mIgnoreGlobs : List Str) : List Glob :=
  ((mIgnoreGlobs.filter fun raw => !raw.isEmpty).map normalizeGlob).dedup.map (.new build)

/-- What `isIgnored` reads of a watcher. The order of `mCompiledGlobs` is that of an
unordered set. Only the builds that compare names through the file system ever fill
the aliases. -/
structure Watcher (platform : Platform) where
  mId : Nat
  mDir : Str
  mIgnorePaths : List Str
  mIgnoreGlobs : List Str
  mCompiledGlobs : List Glob
  mAllGlobsUseBitmask : Bool
  mHasIgnoreAliases : Bool
  mIgnoreAliases : List Str
  compiled : mCompiledGlobs.Perm (compiledGlobs platform.build mIgnoreGlobs)
  allBitmask : mAllGlobsUseBitmask = mCompiledGlobs.all (·.mUseBitmask)
  noAliases : mHasIgnoreAliases = false

variable {platform : Platform}

/-- `Watcher(dir, ignorePaths, ignoreGlobs)`. -/
def Watcher.new (mId : Nat) (dir : Str) (ignorePaths ignoreGlobs : List Str)
    (mCompiledGlobs : List Glob)
    (compiled : mCompiledGlobs.Perm (compiledGlobs platform.build ignoreGlobs)) :
    Watcher platform where
  mId := mId
  mDir := dir
  mIgnorePaths := ignorePaths
  mIgnoreGlobs := ignoreGlobs
  mCompiledGlobs := mCompiledGlobs
  mAllGlobsUseBitmask := mCompiledGlobs.all (·.mUseBitmask)
  mHasIgnoreAliases := false
  mIgnoreAliases := []
  compiled := compiled
  allBitmask := rfl
  noAliases := rfl

/-! ## The states of one directory -/

/-- `DirGlobState::kInlineGlobs`. -/
def kInlineGlobs : Nat := 8

structure DirGlobState where
  ignored : Bool := false
  allDead : Bool := false
  inlineStates : List Mask := List.replicate kInlineGlobs 0
  overflowStates : List Mask := []

namespace DirGlobState

def init (s : DirGlobState) (count : Nat) : DirGlobState :=
  { s with
    ignored := false
    allDead := false
    overflowStates :=
      if count > kInlineGlobs then List.replicate count 0 else s.overflowStates }

def data (s : DirGlobState) (count : Nat) : List Mask :=
  if count ≤ kInlineGlobs then s.inlineStates else s.overflowStates

/-- `data(count)[i] = value`. -/
def write (s : DirGlobState) (count i : Nat) (value : Mask) : DirGlobState :=
  if count ≤ kInlineGlobs then { s with inlineStates := s.inlineStates.set i value }
  else { s with overflowStates := s.overflowStates.set i value }

end DirGlobState

/-- The loop over the globs that `makeRootGlobState` and `stepDirGlobState` share:
`value` gives the state of glob `i`, and an accepting one ends it. -/
def fillStates (value : Nat → Glob → Option DirectoryCaseSensitivity →
      Mask × Option DirectoryCaseSensitivity) (count : Nat) :
    List Glob → Nat → DirGlobState → Bool → Option DirectoryCaseSensitivity → DirGlobState
  | [], _, next, anyAlive, _ => { next with allDead := !anyAlive }
  | glob :: globs, i, next, anyAlive, sensitivity =>
      let (stepped, sensitivity) := value i glob sensitivity
      if stepped &&& glob.mAcceptBit != 0 then { next with ignored := true }
      else fillStates value count globs (i + 1) (next.write count i stepped)
        (anyAlive || stepped != 0) sensitivity

def makeRootGlobState (watcher : Watcher platform) : DirGlobState :=
  let count := watcher.mCompiledGlobs.length
  fillStates (fun _ glob sensitivity => (glob.mInitialState, sensitivity)) count
    watcher.mCompiledGlobs 0 (DirGlobState.init {} count) false none

/-- The new state of glob `i`: a dead one stays dead. -/
def stepState (watcher : Watcher platform) (inStates : List Mask)
    (component relParent : Str) (i : Nat) (glob : Glob)
    (sensitivity : Option DirectoryCaseSensitivity) :
    Mask × Option DirectoryCaseSensitivity :=
  let s := inStates.getD i 0
  if s = 0 then (0, sensitivity)
  else glob.stepBitmask platform s component watcher.mDir relParent sensitivity

def stepDirGlobState (watcher : Watcher platform) (parentState : DirGlobState)
    (component relParent : Str) : DirGlobState :=
  if parentState.ignored then { ignored := true }
  else if parentState.allDead then { allDead := true }
  else
    let count := watcher.mCompiledGlobs.length
    fillStates (stepState watcher (parentState.data count) component relParent) count
      watcher.mCompiledGlobs 0 (DirGlobState.init {} count) false none

/-- The loop of `isComponentIgnored`. -/
def anyAccepts (value : Nat → Glob → Option DirectoryCaseSensitivity →
      Mask × Option DirectoryCaseSensitivity) :
    List Glob → Nat → Option DirectoryCaseSensitivity → Bool
  | [], _, _ => false
  | glob :: globs, i, sensitivity =>
      let (stepped, sensitivity) := value i glob sensitivity
      if stepped &&& glob.mAcceptBit != 0 then true
      else anyAccepts value globs (i + 1) sensitivity

def isComponentIgnored (watcher : Watcher platform) (parentState : DirGlobState)
    (component relParent : Str) : Bool :=
  if parentState.ignored then true
  else if parentState.allDead then false
  else
    let count := watcher.mCompiledGlobs.length
    anyAccepts (stepState watcher (parentState.data count) component relParent)
      watcher.mCompiledGlobs 0 none

/-! ## The memo of a thread -/

structure ThreadIgnoreCache where
  watcherId : Nat := 0
  rootState : DirGlobState := {}
  lastRelDir : Str := []
  lastState : DirGlobState := {}
  hasLast : Bool := false
  dirs : FiniteMap Str DirGlobState := ∅

/-- The nearest cached ancestor: the loop over `rfind`, from the separators below
`n` down to the first. -/
def nearestAncestor (dirs : FiniteMap Str DirGlobState) (relDir : Str) :
    Nat → Option (DirGlobState × Nat)
  | 0 => none
  | n + 1 =>
      if relDir[n]? = some slash then
        match dirs.lookup (substr relDir 0 n) with
        | some state => some (state, n + 1)
        | none => nearestAncestor dirs relDir n
      else nearestAncestor dirs relDir n

/-- The loop `while (pos < relDir.size())` over the components behind `pos`. -/
def fillDirs (watcher : Watcher platform) (relDir : Str) :
    List (Nat × Nat) → DirGlobState → FiniteMap Str DirGlobState →
      DirGlobState × FiniteMap Str DirGlobState
  | [], state, dirs => (state, dirs)
  | cut :: rest, state, dirs =>
      if cut.1 < relDir.length then
        let state := stepDirGlobState watcher state (componentAt relDir cut)
          (relParentAt relDir cut.1)
        fillDirs watcher relDir rest state (dirs.emplace (substr relDir 0 cut.2) state)
      else (state, dirs)

/-- The change of the watcher at the head of `resolveDirGlobState`. -/
def ThreadIgnoreCache.enter (cache : ThreadIgnoreCache) (watcher : Watcher platform) :
    ThreadIgnoreCache :=
  if cache.watcherId ≠ watcher.mId then
    { cache with
      watcherId := watcher.mId
      rootState := makeRootGlobState watcher
      lastRelDir := []
      hasLast := false
      dirs := ∅ }
  else cache

def resolveDirGlobState (watcher : Watcher platform) (cache : ThreadIgnoreCache)
    (relDir : Str) : DirGlobState × ThreadIgnoreCache :=
  let cache := cache.enter watcher
  if relDir.isEmpty then (cache.rootState, cache)
  else if cache.hasLast && cache.lastRelDir == relDir then (cache.lastState, cache)
  else
    match cache.dirs.lookup relDir with
    | some state =>
        (state, { cache with lastRelDir := relDir, lastState := state, hasLast := true })
    | none =>
        let dirs := if 16384 ≤ cache.dirs.entries.length then ∅ else cache.dirs
        let (state, pos) :=
          (nearestAncestor dirs relDir relDir.length).getD (cache.rootState, 0)
        let (state, dirs) := fillDirs watcher relDir
          (cutsFrom relDir pos (List.range' pos (relDir.length - pos + 1))) state dirs
        (state, { cache with
          dirs, lastRelDir := relDir, lastState := state, hasLast := true })

/-- `rfind(DIR_SEP[0])`, searched from the end. -/
def rfindSep (s : Str) : Nat → Option Nat
  | 0 => none
  | n + 1 => if s[n]? = some slash then some n else rfindSep s n

/-! ## The check -/

/-- The path lies strictly below `mDir`: the part behind the separator. -/
def relativeTo (mDir path : Str) : Option Str :=
  if path.length ≤ mDir.length ∨ substr path 0 mDir.length ≠ mDir ∨
      path[mDir.length]? ≠ some slash then none
  else some (path.drop (mDir.length + 1))

def Watcher.isIgnored (watcher : Watcher platform) (cache : ThreadIgnoreCache)
    (path : Str) : Bool × ThreadIgnoreCache :=
  if watcher.mIgnorePaths.any (isPathOrDescendant path) then (true, cache)
  else if !watcher.mIgnorePaths.isEmpty && watcher.mHasIgnoreAliases &&
      watcher.mIgnoreAliases.any (isPathOrDescendant path) then (true, cache)
  else if watcher.mCompiledGlobs.isEmpty then (false, cache)
  else
    match relativeTo watcher.mDir path with
    | none => (false, cache)
    | some relativePath =>
        if relativePath.isEmpty then (false, cache)
        else if watcher.mAllGlobsUseBitmask && watcher.mId != 0 then
          let relSep := rfindSep relativePath relativePath.length
          let relDir := match relSep with
            | none => []
            | some sep => substr relativePath 0 sep
          let leafName := match relSep with
            | none => relativePath
            | some sep => relativePath.drop (sep + 1)
          let (parentState, cache) := resolveDirGlobState watcher cache relDir
          (isComponentIgnored watcher parentState leafName relDir, cache)
        else
          (watcher.mCompiledGlobs.any fun glob =>
            glob.isPathOrAncestorIgnored platform relativePath watcher.mDir, cache)

/-! ## The calls of one thread -/

/-- What happens in a process, seen from one thread: a watcher is constructed, by
whichever thread, or this thread asks one of the watchers. -/
inductive IgnoreCall (platform : Platform) where
  | construct (dir : Str) (ignorePaths ignoreGlobs : List Str) (mCompiledGlobs : List Glob)
      (compiled : mCompiledGlobs.Perm (compiledGlobs platform.build ignoreGlobs))
  | isIgnored (watcher : Nat) (path : Str)

structure IgnoreProcess (platform : Platform) where
  nextId : Nat := 1
  watchers : List (Watcher platform) := []
  cache : ThreadIgnoreCache := {}

def IgnoreProcess.step (p : IgnoreProcess platform) :
    IgnoreCall platform → IgnoreProcess platform
  | .construct dir ignorePaths ignoreGlobs globs compiled =>
      { p with
        nextId := p.nextId + 1
        watchers := p.watchers ++ [.new p.nextId dir ignorePaths ignoreGlobs globs compiled] }
  | .isIgnored watcher path =>
      match p.watchers[watcher]? with
      | none => p
      | some w => { p with cache := (w.isIgnored p.cache path).2 }

def IgnoreProcess.run (calls : List (IgnoreCall platform)) : IgnoreProcess platform :=
  calls.foldl IgnoreProcess.step {}

end NativeWatcher
