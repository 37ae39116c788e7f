import NativeWatcher.Macos.Index
import Mathlib.Data.List.Sort

/-!
# `reconcileFullTree`

A complete scan is compared with the index of identities. Renames are looked for
first, directories before files and short paths before long ones; whatever they do
not account for is reported as removed, created or modified.
-/

namespace NativeWatcher

open Hierarchy

/-! ## Candidates -/

/-- No entry at `path`, or one of another identity. -/
def IdentityIndex.differsAt (x : IdentityIndex) (path : Str) (entry : IndexedPath) : Bool :=
  !(x.find path).any fun other => other.identity == entry.identity

def changedEntries (x other : IdentityIndex) : List (Str × IndexedPath) :=
  x.entries.filter fun b => other.differsAt b.1 b.2

def removedCandidates (before current : IdentityIndex) : RenameCandidates :=
  (changedEntries before current).foldl (fun c b => c.put b.1 b.2) ∅

def createdCandidates (before current : IdentityIndex) : RenameCandidates :=
  (changedEntries current before).foldl (fun c b => c.put b.1 b.2) ∅

structure ReconciledRename where
  oldPath : Str
  newPath : Str
  entry : IndexedPath

/-- The rename of one removed identity, if the two indexes leave no doubt. -/
def possibleRename (before current : IdentityIndex) (created : RenameCandidates)
    (removedIdentity : FileIdentity × FiniteMap Str IndexedPath) : Option ReconciledRename :=
  match removedIdentity.2.pairs, (created.paths removedIdentity.1).pairs with
  | [(oldPath, oldEntry)], [(newPath, newEntry)] =>
      if before.pathCount removedIdentity.1 != 1 ||
          current.pathCount removedIdentity.1 != 1 then none
      else if (before.find newPath).isSome ||
          oldEntry.isDirectory != newEntry.isDirectory ||
          (!oldEntry.isDirectory &&
            (oldEntry.linkCount != 1 || newEntry.linkCount != 1)) then none
      else some ⟨oldPath, newPath, newEntry⟩
  | _, _ => none

def possibleRenames (before current : IdentityIndex) : List ReconciledRename :=
  (removedCandidates before current).pairs.filterMap
    (possibleRename before current (createdCandidates before current))

/-- The order of `std::sort`: not greater. -/
def sortedBefore (left right : ReconciledRename) : Prop :=
  if left.entry.isDirectory != right.entry.isDirectory then left.entry.isDirectory = true
  else left.oldPath.length ≤ right.oldPath.length

instance : DecidableRel sortedBefore := fun left right => by
  unfold sortedBefore
  infer_instance

/-! ## Reporting -/

structure Reconciliation where
  acceptedRenames : List ReconciledRename
  handledRemoved : List Str
  handledCreated : List Str
  mEvents : EventList
  renameSequence : Nat

namespace Reconciliation

/-- `rename` under the next id, and the two `insert` calls. -/
def rename (r : Reconciliation) (oldPath newPath : Str) (isDirectory : Bool) :
    Reconciliation :=
  { r with
    mEvents := r.mEvents.rename oldPath newPath (fseventsId (r.renameSequence + 1))
      (entryKind isDirectory)
    renameSequence := r.renameSequence + 1
    handledRemoved := oldPath :: r.handledRemoved
    handledCreated := newPath :: r.handledCreated }

def coveredByDirectory (acceptedRenames : List ReconciledRename)
    (candidate : ReconciledRename) : Bool :=
  acceptedRenames.any fun accepted =>
    accepted.entry.isDirectory &&
      isDescendantPath candidate.oldPath accepted.oldPath &&
      candidate.newPath == relocate accepted.oldPath accepted.newPath candidate.oldPath

/-- One turn of the loop over `possibleRenames`. -/
def accept (r : Reconciliation) (candidate : ReconciledRename) : Reconciliation :=
  if coveredByDirectory r.acceptedRenames candidate then r
  else
    { r with acceptedRenames := r.acceptedRenames ++ [candidate] }.rename
      candidate.oldPath candidate.newPath candidate.entry.isDirectory

/-- The removed entry `path` moved along with the directory `accepted`. -/
def movedAlong (current : IdentityIndex) (accepted : ReconciledRename)
    (path : Str × IndexedPath) : Bool :=
  isDescendantPath path.1 accepted.oldPath &&
    (current.find (relocate accepted.oldPath accepted.newPath path.1)).any fun newEntry =>
      newEntry.identity == path.2.identity && newEntry.isDirectory == path.2.isDirectory

def cover (current : IdentityIndex) (accepted : ReconciledRename) (r : Reconciliation)
    (path : Str × IndexedPath) : Reconciliation :=
  if movedAlong current accepted path then
    r.rename path.1 (relocate accepted.oldPath accepted.newPath path.1) path.2.isDirectory
  else r

/-- The descendants of one accepted rename. -/
def coverDescendants (current : IdentityIndex) (removed : List (Str × IndexedPath))
    (r : Reconciliation) (accepted : ReconciledRename) : Reconciliation :=
  if !accepted.entry.isDirectory then r
  else removed.foldl (cover current accepted) r

def reportRemoved (current : IdentityIndex) (handledRemoved : List Str) (l : EventList)
    (path : Str × IndexedPath) : EventList :=
  if !handledRemoved.contains path.1 &&
      (path.2.isDirectory || (current.find path.1).all fun d => d.isDirectory) then
    l.remove path.1 (entryKind path.2.isDirectory)
  else l

def reportCreated (before : IdentityIndex) (handledCreated : List Str) (l : EventList)
    (path : Str × IndexedPath) : EventList :=
  if handledCreated.contains path.1 then l
  else if ((before.find path.1).any fun previous => !previous.isDirectory) &&
      !path.2.isDirectory then
    l.update path.1 .File
  else l.create path.1 (entryKind path.2.isDirectory)

def reportModified (before : IdentityIndex) (l : EventList)
    (after : Str × IndexedPath) : EventList :=
  if (before.find after.1).any fun b => b.identity == after.2.identity &&
      !after.2.isDirectory && b.mtime != after.2.mtime then
    l.update after.1 .File
  else l

end Reconciliation

open Reconciliation

/-- The loops over renames: the accepted ones, then what they cover. -/
def reconcileRenames (before current : IdentityIndex) (mEvents : EventList)
    (renameSequence : Nat) : Reconciliation :=
  let r := ((possibleRenames before current).insertionSort sortedBefore).foldl accept
    ⟨[], [], [], mEvents, renameSequence⟩
  r.acceptedRenames.foldl
    (coverDescendants current (removedCandidates before current).toList) r

/-- What follows the scan. -/
def reconcile (before current : IdentityIndex) (mEvents : EventList)
    (renameSequence : Nat) : EventList × Nat :=
  let r := reconcileRenames before current mEvents renameSequence
  let l := (removedCandidates before current).toList.foldl
    (reportRemoved current r.handledRemoved) r.mEvents
  let l := (createdCandidates before current).toList.foldl
    (reportCreated before r.handledCreated) l
  let l := current.entries.foldl (reportModified before) l
  (l, r.renameSequence)

/-- The answers a call of `reconcileFullTree` meets. -/
structure FullScan where
  walk : FtsWalk
  /-- `isCancelled()` after the scan. -/
  cancelled : Bool

/-- The state, or the error the scan throws. -/
def reconcileFullTree (w : MacWatcher) (s : MacState) (full : FullScan) :
    Except Nat MacState :=
  let scan := scanIdentityIndex w.mDir w.isIgnored full.walk
  match scan.outcome with
  | .throws error => .error error
  | _ =>
      if full.cancelled then .ok s
      else
        let newTree := scan.recorded.foldl
          (fun t b => t.add b.1 b.2.mtime b.2.isDirectory) (DirTree.new w.mDir)
        let current := scan.result
        let (mEvents, renameSequence) :=
          reconcile s.identities current s.mEvents s.renameSequence
        .ok { s with
          identities := current
          tree := newTree
          mEvents := mEvents
          renameSequence := renameSequence }

end NativeWatcher
