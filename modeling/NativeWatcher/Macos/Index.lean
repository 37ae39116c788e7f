import NativeWatcher.Macos.Scan
import NativeWatcher.Event.EventList

/-!
# The two indexes of an FSEvents watcher

`State` holds the same tree twice: as a `DirTree` and as an `IdentityIndex`. The
functions below write to both. `mEvents` and `mNeedsResubscribe` are members of
the watcher; they are kept with the state that the callback changes.
-/

namespace NativeWatcher

/-- The members of the watcher, and what the platform fixes, that the callback
only reads. -/
structure MacWatcher where
  mDir : Str
  isIgnored : Str → Bool
  strerror : Nat → String
  /-- `__builtin_available(macOS 10.13, *)`. -/
  clonedFlagAvailable : Bool

structure MacState where
  tree : DirTree
  identities : IdentityIndex
  renameSequence : Nat
  /-- `stream != nullptr`. -/
  stream : Bool
  mEvents : EventList
  mNeedsResubscribe : Bool

namespace MacState

/-! ## Removal -/

def removeIndexedPath (s : MacState) (path : Str) : MacState :=
  match s.identities.find path with
  | none => s
  | some indexed =>
      if !indexed.isDirectory then
        { s with
          mEvents := s.mEvents.remove path .File
          identities := s.identities.remove path
          tree := s.tree.remove path }
      else
        let covered := s.identities.entries.filter fun entry =>
          entry.1 == path || isDescendantPath entry.1 path
        { s with
          mEvents := covered.foldl
            (fun l entry => l.remove entry.1 (entryKind entry.2.isDirectory)) s.mEvents
          identities := s.identities.remove path
          tree := s.tree.remove path }

/-! ## Creation -/

/-- `identities.add`, and `tree->update` or `tree->add`. -/
def writeBoth (s : MacState) (path : Str) (entry : IndexedPath) : MacState :=
  { s with
    identities := s.identities.add path entry
    tree := s.tree.updateOrAdd path entry.mtime entry.isDirectory }

/-- What `recordCreatedPath` removes before it writes. -/
def dropPrevious (s : MacState) (path : Str) (typeChanged sameIdentity : Bool) : MacState :=
  if typeChanged then s.removeIndexedPath path
  else if !sameIdentity then { s with tree := s.tree.remove path }
  else s

def recordCreatedPath (s : MacState) (path : Str) (entry : IndexedPath) : MacState :=
  let previous := s.identities.find path
  let sameIdentity := previous.any fun p =>
    p.identity == entry.identity && p.isDirectory == entry.isDirectory
  let modified := sameIdentity && !entry.isDirectory &&
    previous.any fun p => p.mtime != entry.mtime
  let replacedFile := (previous.any fun p => !p.isDirectory) &&
    !entry.isDirectory && !sameIdentity
  let typeChanged := previous.any fun p => p.isDirectory != entry.isDirectory
  let s := (s.dropPrevious path typeChanged sameIdentity).writeBoth path entry
  if modified || replacedFile then { s with mEvents := s.mEvents.update path .File }
  else if !sameIdentity then
    { s with mEvents := s.mEvents.create path (entryKind entry.isDirectory) }
  else s

/-- The `onEntry` calls of a scan. -/
def recordAll (s : MacState) (recorded : List (Str × IndexedPath)) : MacState :=
  recorded.foldl (fun s b => s.recordCreatedPath b.1 b.2) s

def recordError (s : MacState) (w : MacWatcher) : ScanOutcome → MacState
  | .throws error => { s with mEvents := s.mEvents.error (w.strerror error) }
  | _ => s

/-- `addCreatedPath` inside the `try` block that all its callers have. -/
def addCreatedPath (w : MacWatcher) (s : MacState) (answer : PathAnswer)
    (walk : FtsWalk) (path : Str) : MacState :=
  match readIndexedPath answer path with
  | none => s
  | some entry =>
      if !entry.isDirectory then s.recordCreatedPath path entry
      else
        let scan := scanIdentityIndex path w.isIgnored walk
        (s.recordAll scan.recorded).recordError w scan.outcome

end MacState

/-! ## Renames within one batch of events -/

/-- `"fsevents:" + std::to_string(sequence)`. -/
def fseventsId (sequence : Nat) : Str :=
  [102, 115, 101, 118, 101, 110, 116, 115, 58] ++ toDecimal sequence

/-- `RenameCandidates`: for every identity, the paths that had or have it. -/
abbrev RenameCandidates := FiniteMap FileIdentity (FiniteMap Str IndexedPath)

namespace RenameCandidates

def paths (c : RenameCandidates) (i : FileIdentity) : FiniteMap Str IndexedPath :=
  (c.lookup i).getD ∅

/-- `candidates[identity].insert_or_assign(path, entry)`. -/
def put (c : RenameCandidates) (path : Str) (entry : IndexedPath) : RenameCandidates :=
  AList.insert entry.identity (AList.insert path entry (c.paths entry.identity)) c

/-- The two nested loops over all candidates. -/
def toList (c : RenameCandidates) : List (Str × IndexedPath) :=
  c.pairs.flatMap fun b => b.2.pairs

theorem lookup_paths_put (c : RenameCandidates) (path : Str) (entry : IndexedPath)
    (i : FileIdentity) (p : Str) :
    ((c.put path entry).paths i).lookup p =
      if i = entry.identity ∧ p = path then some entry else (c.paths i).lookup p := by
  rw [put, paths, FiniteMap.lookup_insert_eq]
  by_cases hi : i = entry.identity
  · subst hi
    rw [if_pos rfl]
    show (AList.insert path entry (c.paths entry.identity)).lookup p = _
    rw [FiniteMap.lookup_insert_eq, paths]
    by_cases hp : p = path <;> simp [hp]
  · simp [hi, paths]

theorem paths_of_mem_pairs {c : RenameCandidates} {i : FileIdentity}
    {ps : FiniteMap Str IndexedPath} (h : (i, ps) ∈ c.pairs) : c.paths i = ps := by
  rw [paths, FiniteMap.mem_pairs.mp h]
  rfl

end RenameCandidates

/-- A `PendingEvent` reported with the flags of `FSEventStreamEventFlags`, and
what the file system answers while it is handled. -/
structure PendingEvent where
  path : Str
  flags : UInt32
  /-- `readIndexedPath` in the search for renamed directories. -/
  rescanAnswer : PathAnswer
  /-- `readIndexedPath` in `correlateRenames`. -/
  correlateAnswer : PathAnswer
  /-- `readIndexedPath` in the loop of `processEvents`. -/
  entryAnswer : PathAnswer
  /-- `readIndexedPath` in `addCreatedPath`. -/
  createdAnswer : PathAnswer
  /-- The scan in `addCreatedPath`. -/
  walk : FtsWalk

def hasFlag (flags flag : UInt32) : Bool := flags &&& flag == flag

namespace FSEventStreamEventFlag

def MustScanSubDirs : UInt32 := 0x1
def HistoryDone : UInt32 := 0x10
def RootChanged : UInt32 := 0x20
def ItemCreated : UInt32 := 0x100
def ItemRemoved : UInt32 := 0x200
def ItemInodeMetaMod : UInt32 := 0x400
def ItemRenamed : UInt32 := 0x800
def ItemModified : UInt32 := 0x1000
def ItemFinderInfoMod : UInt32 := 0x2000
def ItemChangeOwner : UInt32 := 0x4000
def ItemXattrMod : UInt32 := 0x8000
def ItemIsFile : UInt32 := 0x10000
def ItemIsDir : UInt32 := 0x20000
def ItemIsSymlink : UInt32 := 0x40000
def ItemIsHardlink : UInt32 := 0x100000
def ItemIsLastHardlink : UInt32 := 0x200000
def ItemCloned : UInt32 := 0x400000

end FSEventStreamEventFlag

namespace MacState

/-- One turn of the first loop of `correlateRenames`. -/
def collectCandidates (w : MacWatcher) (s : MacState)
    (c : RenameCandidates × RenameCandidates) (event : PendingEvent) :
    RenameCandidates × RenameCandidates :=
  if !hasFlag event.flags FSEventStreamEventFlag.ItemRenamed || w.isIgnored event.path then c
  else
    let (removed, created) := c
    let before := s.identities.find event.path
    let after := readIndexedPath event.correlateAnswer event.path
    let removed := match before with
      | none => removed
      | some b =>
          if after.any fun a => b.identity == a.identity then removed
          else removed.put event.path b
    let created := match after with
      | none => created
      | some a =>
          if before.any fun b => b.identity == a.identity then created
          else created.put event.path a
    (removed, created)

/-- One turn of the second loop of `correlateRenames`. -/
def correlateIdentity (created : RenameCandidates) (r : MacState × List Str)
    (removedIdentity : FileIdentity × FiniteMap Str IndexedPath) : MacState × List Str :=
  let (s, handled) := r
  match removedIdentity.2.pairs, (created.paths removedIdentity.1).pairs with
  | [(oldPath, oldEntry)], [(newPath, newEntry)] =>
      if s.identities.pathCount removedIdentity.1 != 1 ||
          (s.identities.find newPath).isSome ||
          oldEntry.isDirectory || newEntry.isDirectory ||
          oldEntry.linkCount != 1 || newEntry.linkCount != 1 then r
      else
        let sequence := s.renameSequence + 1
        ({ s with
            renameSequence := sequence
            mEvents := s.mEvents.rename oldPath newPath (fseventsId sequence)
              (entryKind oldEntry.isDirectory)
            identities := (s.identities.rename oldPath newPath).add newPath newEntry
            tree := (s.tree.remove oldPath).add newPath newEntry.mtime newEntry.isDirectory },
          oldPath :: newPath :: handled)
  | _, _ => r

/-- The state after the renames, and the paths they account for. -/
def correlateRenames (w : MacWatcher) (s : MacState) (events : List PendingEvent) :
    MacState × List Str :=
  let (removed, created) := events.foldl (s.collectCandidates w) (∅, ∅)
  removed.pairs.foldl (correlateIdentity created) (s, [])

end MacState

/-! ## Names for examples -/

def exampleWatcher : MacWatcher where
  mDir := [47, 114]
  isIgnored := fun _ => false
  strerror := fun _ => ""
  clonedFlagAvailable := true

def exampleStat (inode : UInt64) (mode : FileMode) : Stat :=
  ⟨1, inode, ⟨1, 1⟩, 1, mode⟩

def exampleNode (path : Str) (inode : UInt64) (mode : FileMode) : FtsNode :=
  ⟨path, if mode = .directory then .FTS_D else .other, 0, some (exampleStat inode mode), false⟩

end NativeWatcher
