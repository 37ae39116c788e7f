import NativeWatcher.Linux.Scan
import Mathlib.Logic.Function.Basic

/-!
# `handleSubscription`

One inotify event, handled for one subscription. Entries of a path that was moved away
wait in a pending move until the other half of the move arrives or the grace period is
over. The function works on the tree of the watcher, on the table of the subscriptions
and on the pending moves; what it tells the event list is collected as in the scans.
-/

namespace NativeWatcher

open Hierarchy

/-- `PendingInotifyMove`, with the pointers of its subscriptions and the time in
nanoseconds. What was extracted lies at or below one path, each entry under a path of
its own; only a directory has subscriptions to carry. Its `tree` is that of the subscription
the event came for, and is read as the watcher's. -/
structure PendingInotifyMove where
  path : Str
  isDirectory : Bool
  entries : List DirEntry
  subscriptions : List Nat
  createdAt : Nat
  suppressedEvents : Bool
  below : ∀ e ∈ entries, Under slash path e.path
  distinct : (entries.map DirEntry.path).Nodup
  carried : isDirectory = false → subscriptions = []

/-- What belongs to one watcher. -/
structure WatcherState where
  tree : DirTree
  mEvents : EventList
  invalidated : Bool

/-- The backend; `mPendingMoves` is keyed by the watcher and the cookie. -/
structure InotifyState (W : Type) where
  table : SubscriptionTable W
  watchers : W → WatcherState
  mPendingMoves : FiniteMap (W × UInt32) PendingInotifyMove

/-- `struct inotify_event`; there is a name if `len > 0`. -/
structure InotifyEvent where
  wd : Nat
  mask : UInt32
  cookie : UInt32
  name : Option Str
deriving DecidableEq, Repr

/-- `event->mask & bits`. -/
def InotifyEvent.has (event : InotifyEvent) (bits : UInt32) : Bool := event.mask &&& bits != 0

/-- The answers to the calls that one event leads to, and the clock. -/
structure EventAnswers where
  lstat : Option FileStat
  watch : WatchAnswer
  scan : DirScan
  faults : RmFaults
  now : Nat

/-- `"inotify:" + std::to_string(cookie) + suffix`. -/
def inotifyId (cookie : UInt32) (suffix : Str) : Str :=
  [105, 110, 111, 116, 105, 102, 121, 58] ++ toDecimal cookie.toNat ++ suffix

variable {W : Type} [DecidableEq W]

namespace InotifyState

/-- What the routines on one watcher work on. -/
def scanState (s : InotifyState W) (id : W) : ScanState W :=
  ⟨(s.watchers id).tree, s.table, []⟩

/-- The calls that were collected are made. -/
def commit (s : InotifyState W) (id : W) (r : ScanState W) : InotifyState W :=
  { s with
    table := r.table
    watchers := Function.update s.watchers id
      { s.watchers id with tree := r.tree, mEvents := (s.watchers id).mEvents.run r.calls } }

/-- The moves of a watcher are erased. -/
def dropMoves (s : InotifyState W) (id : W) : InotifyState W :=
  { s with mPendingMoves := s.mPendingMoves.filterKeys fun k => k.1 != id }

/-- `invalidate(watcher)`. -/
def invalidate (s : InotifyState W) (id : W) : InotifyState W :=
  { s with watchers := Function.update s.watchers id { s.watchers id with invalidated := true } }

/-- `watcher->mEvents.error(err)`. -/
def error (s : InotifyState W) (id : W) (err : String) : InotifyState W :=
  { s with
    watchers := Function.update s.watchers id
      { s.watchers id with mEvents := (s.watchers id).mEvents.error err } }

/-- `removeSubscriptions(watcher.get(), path)`. -/
def removeSubscriptions (s : InotifyState W) (w : InotifyWatcher W) (faults : RmFaults)
    (path : Str) : InotifyState W :=
  { s with table := s.table.removeSubscriptions faults w.id w.mDir path }

@[simp] theorem watchers_commit (s : InotifyState W) (id : W) (r : ScanState W) :
    (s.commit id r).watchers id =
      { s.watchers id with tree := r.tree, mEvents := (s.watchers id).mEvents.run r.calls } :=
  Function.update_self ..

@[simp] theorem watchers_invalidate (s : InotifyState W) (id : W) :
    (s.invalidate id).watchers id = { s.watchers id with invalidated := true } :=
  Function.update_self ..

@[simp] theorem watchers_error (s : InotifyState W) (id : W) (err : String) :
    (s.error id err).watchers id =
      { s.watchers id with mEvents := (s.watchers id).mEvents.error err } :=
  Function.update_self ..

/-! ## The root is gone -/

/-- The watcher's pending moves, in the order of the map. -/
def movesOf (s : InotifyState W) (id : W) : List PendingInotifyMove :=
  (s.mPendingMoves.pairs.filter fun b => b.1.1 == id).map Prod.snd

def rootGone (s : InotifyState W) (w : InotifyWatcher W) (faults : RmFaults) : InotifyState W :=
  let (removed, tree) := (s.watchers w.id).tree.extract w.mDir
  let parked := (s.movesOf w.id).flatMap PendingInotifyMove.entries
  let s := s.commit w.id ⟨tree, s.table, (removed ++ parked).map DirEntry.removal⟩
  ((s.dropMoves w.id).invalidate w.id).removeSubscriptions w faults w.mDir

/-! ## Events of a directory in flight -/

/-- The first move of a directory that holds the subscription. -/
def capturing (s : InotifyState W) (w : InotifyWatcher W) (pointer : Nat) :
    Option (W × UInt32) :=
  (s.mPendingMoves.pairs.find? fun b =>
    b.1.1 == w.id && b.2.isDirectory && decide (pointer ∈ b.2.subscriptions)).map Prod.fst

/-- `move.suppressedEvents = true`. -/
def suppress (s : InotifyState W) (key : W × UInt32) : InotifyState W :=
  { s with mPendingMoves := s.mPendingMoves.adjust key fun m => { m with suppressedEvents := true } }

end InotifyState

/-! ## `IN_CREATE` and `IN_MOVED_TO` -/

/-- What is said of one entry of a move to `path`. -/
def movedEntry (w : InotifyWatcher W) (tree : DirTree) (cookie : UInt32) (oldPath path : Str)
    (e : DirEntry) : List EventOp :=
  let newEntryPath := relocate oldPath path e.path
  let kind := entryKind e.isDir
  if (tree.find path).isSome || w.isIgnored newEntryPath then
    .remove (e.path, kind) ::
      if w.isIgnored newEntryPath then []
      else if (tree.find newEntryPath).isSome then [.update (newEntryPath, kind)]
      else [.create (newEntryPath, kind)]
  else
    [.rename e.path newEntryPath (inotifyId cookie (58 :: e.path.drop oldPath.length)) kind]

/-- The entries and the subscriptions of a move arrive. A source that was not indexed
leaves the target as it is. -/
def carryMove (w : InotifyWatcher W) (cookie : UInt32) (path : Str) (m : PendingInotifyMove)
    (s : ScanState W) : ScanState W where
  tree :=
    let tree := if !m.entries.isEmpty && (s.tree.find path).isSome then s.tree.remove path
      else s.tree
    tree.restore m.entries m.path path
  table := s.table.moveSubscriptions m.subscriptions m.path path
  calls := s.calls ++ m.entries.flatMap (movedEntry w s.tree cookie m.path path)

/-- What is neither a file nor a directory is not indexed. -/
def dropSpecial (w : InotifyWatcher W) (faults : RmFaults) (path : Str) (s : ScanState W) :
    Bool × ScanState W :=
  let (removed, tree) := s.tree.extract path
  (!removed.isEmpty,
    removed.foldl
      (fun s e =>
        let s := s.emit [e.removal]
        if e.isDir then s.removeSubscriptions w faults e.path else s)
      { s with tree := tree })

/-- A file or directory that no pending move leads to. -/
def appear (w : InotifyWatcher W) (path : Str) (answers : EventAnswers) (st : FileStat)
    (s : ScanState W) : Option Nat × ScanState W :=
  let key : EventKey := (path, entryKind st.isDirectory)
  let s := s.emit [if (s.tree.find path).isSome then .update key else .create key]
  let s := { s with tree := s.tree.add path (convertTime st.st_mtim) st.isDirectory }
  if st.isDirectory then
    match watchThen w answers.faults answers.watch path (addCreatedTree w true path answers.scan) s with
    | (some errno, s) => (some errno, { s with tree := s.tree.remove path })
    | (none, s) => (none, s)
  else (none, s)

/-- The target of a move whose source was not indexed. -/
def arriveUnindexed (cookie : UInt32) (oldPath path : Str) (st : FileStat) (s : ScanState W) :
    ScanState W :=
  let kind := entryKind st.isDirectory
  let s := s.emit (if (s.tree.find path).isSome then [.remove (oldPath, kind), .update (path, kind)]
    else [.rename oldPath path (inotifyId cookie []) kind])
  { s with tree := s.tree.remove path }

/-- The watches and the scan below a directory that was moved within the root. A move
queued during the initial scan may have no indexed source or directory watch to carry. -/
def settleDirectory (w : InotifyWatcher W) (path : Str) (suppressedEvents missingSource : Bool)
    (answers : EventAnswers) (s : ScanState W) : Option Nat × ScanState W :=
  let rescanMovedTree := missingSource || !w.mIgnorePaths.isEmpty || !w.mIgnoreGlobs.isEmpty
  let rescan (s : ScanState W) :=
    if suppressedEvents || rescanMovedTree then
      reconcileMovedTree w answers.faults path answers.scan s
    else (none, s)
  if missingSource then watchThen w answers.faults answers.watch path rescan s else rescan s

/-- A file or directory that was moved within the root, after `carryMove`. -/
def settle (w : InotifyWatcher W) (cookie : UInt32) (path : Str) (m : PendingInotifyMove)
    (answers : EventAnswers) (st : FileStat) (s : ScanState W) : Option Nat × ScanState W :=
  let s := if m.entries.isEmpty then arriveUnindexed cookie m.path path st s else s
  let missingSource := m.entries.isEmpty || (s.tree.find path).isNone
  let s := { s with tree := s.tree.updateOrAdd path (convertTime st.st_mtim) st.isDirectory }
  if st.isDirectory then settleDirectory w path m.suppressedEvents missingSource answers s
  else (none, s)

namespace InotifyState

/-- The watches below `path` cannot be completed. -/
def failBelow (s : InotifyState W) (w : InotifyWatcher W) (faults : RmFaults) (path : Str)
    (errno : Nat) : InotifyState W :=
  let s := (s.invalidate w.id).error w.id
    ("inotify_add_watch below '" ++ message path ++ "' failed: " ++ w.strerror errno)
  (s.removeSubscriptions w faults w.mDir).dropMoves w.id

/-- The move that an `IN_MOVED_TO` completes. -/
def pairedMove (s : InotifyState W) (w : InotifyWatcher W) (event : InotifyEvent) :
    Option PendingInotifyMove :=
  if event.has IN_MOVED_TO && event.cookie != 0 then s.mPendingMoves.lookup (w.id, event.cookie)
  else none

/-- What happens at `path` once it is known what is there. -/
def handleFound (s : InotifyState W) (w : InotifyWatcher W) (path : Str) (answers : EventAnswers)
    (r : ScanState W) (found : FileStat → ScanState W → Option Nat × ScanState W) :
    Bool × InotifyState W :=
  match answers.lstat with
  | none => (false, s.commit w.id r)
  | some st =>
      if st.isSpecial then
        let (removed, r) := dropSpecial w answers.faults path r
        (removed, s.commit w.id r)
      else
        match found st r with
        | (none, r) => (true, s.commit w.id r)
        | (some errno, r) => (true, (s.commit w.id r).failBelow w answers.faults path errno)

def handleCreated (s : InotifyState W) (w : InotifyWatcher W) (event : InotifyEvent)
    (path : Str) (answers : EventAnswers) : Bool × InotifyState W :=
  let r := s.scanState w.id
  match s.pairedMove w event with
  | none => s.handleFound w path answers r (appear w path answers)
  | some m =>
      let s := { s with mPendingMoves := s.mPendingMoves.erase (w.id, event.cookie) }
      s.handleFound w path answers (carryMove w event.cookie path m r)
        (settle w event.cookie path m answers)

/-! ## `IN_MODIFY` and `IN_ATTRIB` -/

def handleModified (s : InotifyState W) (w : InotifyWatcher W) (path : Str)
    (answers : EventAnswers) : Bool × InotifyState W :=
  let r := s.scanState w.id
  match answers.lstat with
  | none => (false, s)
  | some st =>
      if st.isSpecial || (r.tree.find path).isNone then (false, s)
      else
        let r := r.emit [.update (path, entryKind st.isDirectory)]
        (true, s.commit w.id { r with tree := (r.tree.update path (convertTime st.st_mtim)).2 })

/-! ## `IN_DELETE` and `IN_MOVED_FROM` -/

/-- The subscriptions of a watcher at or below a path. -/
def subscriptionsBelow (s : InotifyState W) (w : InotifyWatcher W) (path : Str) : List Nat :=
  (s.table.mSubscriptions.filter fun e => s.table.subscriptionAt e.2 fun sub =>
    sub.watcher == w.id && isPathOrDescendant sub.path path).map Prod.snd

/-- The move that an `IN_MOVED_FROM` starts. -/
def parkedMove (s : InotifyState W) (w : InotifyWatcher W) (event : InotifyEvent) (path : Str)
    (now : Nat) : PendingInotifyMove where
  path := path
  isDirectory := event.has IN_ISDIR
  entries := ((s.watchers w.id).tree.extract path).1
  subscriptions := if event.has IN_ISDIR then s.subscriptionsBelow w path else []
  createdAt := now
  suppressedEvents := false
  below _ he := (DirTree.mem_extract.mp he).2
  distinct := DirTree.nodup_extract ..
  carried h := if_neg (by simp [h])

def handleRemoved (s : InotifyState W) (w : InotifyWatcher W) (event : InotifyEvent)
    (path : Str) (answers : EventAnswers) : Bool × InotifyState W :=
  -- Root and ancestor self events were handled above.
  if event.has (IN_DELETE_SELF ||| IN_MOVE_SELF) then (false, s)
  else
    let (removed, tree) := (s.watchers w.id).tree.extract path
    if event.has IN_MOVED_FROM && event.cookie != 0 then
      let m := s.parkedMove w event path answers.now
      let s := s.commit w.id ⟨tree, s.table, []⟩
      (true, { s with mPendingMoves := AList.insert (w.id, event.cookie) m s.mPendingMoves })
    else
      let s := s.commit w.id ⟨tree, s.table, removed.map DirEntry.removal⟩
      (true, if event.has IN_ISDIR then s.removeSubscriptions w answers.faults path else s)

/-! ## The function -/

/-- The subscription stands for an ancestor of the root. -/
def watchesAncestor (w : InotifyWatcher W) (path : Str) : Bool :=
  path != w.mDir && isPathOrDescendant w.mDir path

/-- `IN_MOVE_SELF | IN_DELETE_SELF | IN_IGNORED`. -/
def selfEvents : UInt32 := IN_MOVE_SELF ||| IN_DELETE_SELF ||| IN_IGNORED

/-- The branches on the mask, for a path that is not ignored. -/
def handlePath (s : InotifyState W) (w : InotifyWatcher W) (event : InotifyEvent) (path : Str)
    (answers : EventAnswers) : Bool × InotifyState W :=
  if event.has (IN_CREATE ||| IN_MOVED_TO) then s.handleCreated w event path answers
  else if event.has (IN_MODIFY ||| IN_ATTRIB) then s.handleModified w path answers
  else if event.has (IN_DELETE ||| IN_DELETE_SELF ||| IN_MOVED_FROM ||| IN_MOVE_SELF) then
    s.handleRemoved w event path answers
  else (true, s)

/-- What `handleSubscription` finds before it looks at the path. -/
inductive Dispatch (W : Type) where
  | skipped
  | root
  | suppressed (key : W × UInt32)
  | handled (path : Str)

/-- The tests that come first, for the subscription `sub` behind `pointer`. -/
def dispatch (s : InotifyState W) (w : InotifyWatcher W) (event : InotifyEvent)
    (pointer : Nat) (sub : InotifySubscription W) : Dispatch W :=
  -- Shared ancestor descriptors can also deliver unrelated child events.
  if watchesAncestor w sub.path && !event.has selfEvents then .skipped
  else
    let path := if watchesAncestor w sub.path then w.mDir else sub.path
    if path == w.mDir && event.has selfEvents then .root
    else
      let path := event.name.elim path (child path)
      match s.capturing w pointer with
      | some key => .suppressed key
      | none => if w.isIgnored path then .skipped else .handled path

def handleSubscription (s : InotifyState W) (w : InotifyWatcher W) (event : InotifyEvent)
    (pointer : Nat) (sub : InotifySubscription W) (answers : EventAnswers) :
    Bool × InotifyState W :=
  match s.dispatch w event pointer sub with
  | .skipped => (false, s)
  | .root => (true, s.rootGone w answers.faults)
  | .suppressed key => (false, s.suppress key)
  | .handled path => s.handlePath w event path answers

end InotifyState

end NativeWatcher
