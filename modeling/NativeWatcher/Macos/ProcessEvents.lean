import NativeWatcher.Macos.Reconcile
import NativeWatcher.Lib.Machine

/-!
# `processEvents`

The callback of the event stream: a torn down root, a full rescan, or the renames
of the batch and then its events one by one.
-/

namespace NativeWatcher

open FSEventStreamEventFlag

def METADATA_FLAGS : UInt32 :=
  ItemInodeMetaMod ||| ItemFinderInfoMod ||| ItemChangeOwner ||| ItemXattrMod

def IGNORED_FLAGS : UInt32 :=
  ItemIsHardlink ||| ItemIsLastHardlink ||| ItemIsSymlink ||| ItemIsDir ||| ItemIsFile

namespace MacState

/-- `stream.exchange(nullptr)` and what depends on it. -/
def stopStream (s : MacState) : MacState :=
  { s with stream := false, mNeedsResubscribe := s.mNeedsResubscribe || s.stream }

/-- Whether a renamed path is or was a directory. -/
def renamesDirectory (s : MacState) (event : PendingEvent) : Bool :=
  hasFlag event.flags ItemRenamed &&
    (hasFlag event.flags ItemIsDir ||
      ((s.identities.find event.path).any fun before => before.isDirectory) ||
      ((readIndexedPath event.rescanAnswer event.path).any fun after => after.isDirectory))

/-- Metadata flags of the paths still indexed after a full rescan. -/
def reportMetadata (s : MacState) (events : List PendingEvent) : MacState :=
  let flagged := events.filter fun event => event.flags &&& METADATA_FLAGS != 0
  { s with
    mEvents := flagged.foldl (fun l event =>
      match s.identities.find event.path with
      | none => l
      | some entry => l.update event.path (entryKind entry.isDirectory)) s.mEvents }

/-- The branch that rescans the whole tree. -/
def rescan (w : MacWatcher) (s : MacState) (events : List PendingEvent)
    (full : FullScan) : MacState :=
  match reconcileFullTree w s full with
  | .ok s => s.reportMetadata events
  | .error error => { s with mEvents := s.mEvents.error (w.strerror error) }

/-- What the loop knows of one event once the file is read. -/
structure Observed where
  indexed : IndexedPath
  previousIdentity : Option IndexedPath
  sameIdentity : Bool
  entry : Option DirEntry
  typeChanged : Bool
  hasMetadataChange : Bool

def observe (s : MacState) (event : PendingEvent) (indexed : IndexedPath) : Observed where
  indexed := indexed
  previousIdentity := s.identities.find event.path
  sameIdentity :=
    (s.identities.find event.path).any fun p => p.identity == indexed.identity
  entry := s.tree.find event.path
  typeChanged :=
    (s.identities.find event.path).any fun p => p.isDirectory != indexed.isDirectory
  hasMetadataChange := event.flags &&& METADATA_FLAGS != 0

/-- The test that skips an event because nothing changed. -/
def Observed.unchanged (o : Observed) : Bool :=
  !o.hasMetadataChange && o.sameIdentity &&
    (o.entry.any fun entry => entry.mtime == o.indexed.mtime) &&
    o.indexed.mtime % 1000000000 != 0

/-- Where the body of the loop ends up. -/
inductive EventBranch where
  | addCreatedPath
  | removeIndexedPath
  | unchanged
  /-- Write to both indexes in place and report an update. -/
  | overwrite (indexed : IndexedPath)
  /-- Add to both indexes and report a creation. -/
  | addNew (indexed : IndexedPath)
deriving DecidableEq

/-- The branch for events that are modified only. -/
def modifiedBranch (s : MacState) (event : PendingEvent) : EventBranch :=
  match readIndexedPath event.entryAnswer event.path with
  | none => .removeIndexedPath
  | some indexed =>
      let o := s.observe event indexed
      if o.previousIdentity.isNone || o.entry.isNone || o.typeChanged then .addCreatedPath
      else if o.unchanged then .unchanged
      else .overwrite indexed

/-- The branch for every other combination of flags. -/
def mixedBranch (s : MacState) (event : PendingEvent) (isModified : Bool) : EventBranch :=
  match readIndexedPath event.entryAnswer event.path with
  | none => .removeIndexedPath
  | some indexed =>
      let o := s.observe event indexed
      if o.typeChanged then .addCreatedPath
      else if o.unchanged then .unchanged
      else if (isModified || o.sameIdentity ||
          ((o.previousIdentity.any fun p => !p.isDirectory) && !indexed.isDirectory)) &&
          o.entry.isSome then
        .overwrite indexed
      else if !o.sameIdentity && indexed.isDirectory then .addCreatedPath
      else .addNew indexed

def branchOf (s : MacState) (event : PendingEvent) : EventBranch :=
  let isCreated := hasFlag event.flags ItemCreated
  let isRemoved := hasFlag event.flags ItemRemoved
  let isModified := hasFlag event.flags ItemModified || event.flags &&& METADATA_FLAGS != 0
  let isRenamed := hasFlag event.flags ItemRenamed
  if isCreated && !(isRemoved || isModified || isRenamed) then .addCreatedPath
  else if isRemoved && !(isCreated || isModified || isRenamed) then .removeIndexedPath
  else if isModified && !(isCreated || isRemoved || isRenamed) then s.modifiedBranch event
  else s.mixedBranch event isModified

def perform (w : MacWatcher) (s : MacState) (event : PendingEvent) :
    EventBranch → MacState
  | .addCreatedPath => s.addCreatedPath w event.createdAnswer event.walk event.path
  | .removeIndexedPath => s.removeIndexedPath event.path
  | .unchanged => s
  | .overwrite indexed =>
      { s.writeBoth event.path indexed with
        mEvents := s.mEvents.update event.path (entryKind indexed.isDirectory) }
  | .addNew indexed =>
      { s with
        identities := s.identities.add event.path indexed
        tree := s.tree.add event.path indexed.mtime indexed.isDirectory
        mEvents := s.mEvents.create event.path (entryKind indexed.isDirectory) }

def EventBranch.removes : EventBranch → Bool
  | .removeIndexedPath => true
  | _ => false

/-- The `continue` at the head of the loop. -/
def skips (w : MacWatcher) (correlatedPaths : List Str) (event : PendingEvent) : Bool :=
  let ignoredFlags := if w.clonedFlagAvailable then IGNORED_FLAGS ||| ItemCloned
    else IGNORED_FLAGS
  event.flags &&& ~~~ignoredFlags == 0 || w.isIgnored event.path ||
    correlatedPaths.contains event.path

/-- The loop over the events, and `deletedRoot`. -/
def handleEvents (w : MacWatcher) (correlatedPaths : List Str) :
    MacState → Bool → List PendingEvent → MacState × Bool
  | s, deletedRoot, [] => (s, deletedRoot)
  | s, deletedRoot, event :: events =>
      if hasFlag event.flags HistoryDone then (s, deletedRoot)
      else if skips w correlatedPaths event then
        handleEvents w correlatedPaths s deletedRoot events
      else
        let branch := s.branchOf event
        handleEvents w correlatedPaths (s.perform w event branch)
          (deletedRoot || (branch.removes && event.path == w.mDir)) events

def processEvents (w : MacWatcher) (s : MacState) (events : List PendingEvent)
    (full : FullScan) : MacState :=
  if events.any fun event => hasFlag event.flags RootChanged then
    (s.removeIndexedPath w.mDir).stopStream
  else if (events.any fun event => hasFlag event.flags MustScanSubDirs) ||
      events.any s.renamesDirectory then
    s.rescan w events full
  else
    let (s, correlatedPaths) := s.correlateRenames w events
    let (s, deletedRoot) := handleEvents w correlatedPaths s false events
    if deletedRoot then s.stopStream else s

end MacState

/-! ## Runs -/

inductive MacAction where
  /-- One delivery of the stream. -/
  | processEvents (events : List PendingEvent) (full : FullScan)
  /-- The consumer drains the event list. -/
  | drain

def MacState.step (w : MacWatcher) (s : MacState) : MacAction → MacState
  | .processEvents events full => s.processEvents w events full
  | .drain => { s with mEvents := s.mEvents.drain.2 }

/-- The runs from a state that `init` admits. -/
def macMachine (w : MacWatcher) (init : MacState → Prop) : Machine MacState MacAction where
  init := init
  step s a s' := s' = s.step w a

end NativeWatcher
