import NativeWatcher.Linux.HandleSubscription

/-!
# The inotify backend

Around `handleSubscription`: the subscription of a watcher with its first scan, the
expiry of the moves that found no pair, the overflow of the queue and the end of a
subscription. Every routine runs under `mMutex`; `handleEvent` calls
`handleSubscription` for each subscription that the descriptor had when it began.
-/

namespace NativeWatcher

open Hierarchy

/-- The watchers by their addresses. -/
structure Watchers (W : Type) where
  watcher : W → InotifyWatcher W
  id_watcher : ∀ id, (watcher id).id = id

variable {W : Type} [DecidableEq W]

/-! ## `subscribe` -/

/-- The answers while a watcher is subscribed: of `inotify_add_watch` on each ancestor and
on the root, of the scan, and of `isCancelled` at the end. -/
structure SubscribeAnswers where
  ancestor : Str → WatchAnswer
  root : WatchAnswer
  scan : DirScan
  cancelled : Bool
  faults : RmFaults

/-- The prefixes of the root that end before a separator other than the first byte. -/
def ancestors (mDir : Str) : List Str :=
  ((List.range mDir.length).filter fun i => decide (0 < i) && mDir[i]? == some slash).map mDir.take

/-- The loop over the ancestors: the message that is thrown, if any. -/
def watchAncestors (w : InotifyWatcher W) (answers : SubscribeAnswers) :
    List Str → SubscriptionTable W → Option String × SubscriptionTable W
  | [], table => (none, table)
  | ancestor :: rest, table =>
      match table.watchDir answers.faults w.id w.mDir ancestor (answers.ancestor ancestor) with
      | .error errno =>
          (some ("Unable to watch ancestor '" ++ message ancestor ++ "': " ++ w.strerror errno), table)
      | .ok table => watchAncestors w answers rest table

/-- The part of `subscribe` that may throw. -/
def watchRoot (w : InotifyWatcher W) (answers : SubscribeAnswers) (table : SubscriptionTable W) :
    Option String × ScanState W :=
  match watchAncestors w answers (ancestors w.mDir) table with
  | (some err, table) => (some err, ⟨.new w.mDir, table, []⟩)
  | (none, table) =>
      let result : Option Nat × ScanState W :=
        match table.watchDir answers.faults w.id w.mDir w.mDir answers.root with
        | .error errno => (some errno, ⟨.new w.mDir, table, []⟩)
        | .ok table => addCreatedTree w false w.mDir answers.scan ⟨.new w.mDir, table, []⟩
      (result.1.map fun errno =>
        "Unable to watch '" ++ message w.mDir ++ "': " ++ w.strerror errno, result.2)

/-- `tree->isComplete = true`. -/
def DirTree.complete (t : DirTree) : DirTree := { t with isComplete := true }

namespace InotifyState

/-- No subscriptions, and nothing to report. -/
def start (ws : Watchers W) : InotifyState W :=
  ⟨.start, fun id => ⟨.new (ws.watcher id).mDir, .empty, false⟩, ∅⟩

/-- The tree of a new subscription. A cancelled subscription is left to a later one, as an
invalidated one is. -/
def adopt (s : InotifyState W) (id : W) (r : ScanState W) (cancelled : Bool) : InotifyState W :=
  { s with
    table := r.table
    watchers := Function.update s.watchers id
      { s.watchers id with
        tree := if cancelled then r.tree else r.tree.complete
        invalidated := cancelled } }

@[simp] theorem watchers_adopt (s : InotifyState W) (id : W) (r : ScanState W) (cancelled : Bool) :
    (s.adopt id r cancelled).watchers id =
      { s.watchers id with
        tree := if cancelled then r.tree else r.tree.complete
        invalidated := cancelled } :=
  Function.update_self ..

/-- `subscribe`: the message it throws, if any. -/
def subscribe (s : InotifyState W) (w : InotifyWatcher W) (answers : SubscribeAnswers) :
    Option String × InotifyState W :=
  match watchRoot w answers s.table with
  | (some err, r) =>
      (some err, ({ s with table := r.table }.removeSubscriptions w answers.faults w.mDir))
  | (none, r) =>
      let s := s.adopt w.id r answers.cancelled
      (none, if answers.cancelled then s.removeSubscriptions w answers.faults w.mDir else s)

/-! ## `flushExpiredMoves` -/

/-- `MOVE_PAIR_GRACE_MS`. -/
def MOVE_PAIR_GRACE_MS : Nat := 100

/-- `age.count() >= MOVE_PAIR_GRACE_MS`. -/
def expired (now : Nat) (m : PendingInotifyMove) : Bool :=
  decide (MOVE_PAIR_GRACE_MS ≤ (now - m.createdAt) / 1000000)

/-- The deletions of an expired move. A new entry of the same kind that reused a path
suppresses the deletion there. -/
def expiredRemovals (tree : DirTree) (m : PendingInotifyMove) : List EventOp :=
  (m.entries.filter fun e =>
    (tree.find e.path).all fun replacement => replacement.isDir != e.isDir).map DirEntry.removal

/-- The body of the loop for an expired move. -/
def expire (faults : RmFaults) (s : InotifyState W) (b : (W × UInt32) × PendingInotifyMove) :
    InotifyState W :=
  let tree := (s.watchers b.1.1).tree
  let table := if b.2.isDirectory then s.table.removeMovedSubscriptions faults b.2.subscriptions
    else s.table
  { s.commit b.1.1 ⟨tree, table, expiredRemovals tree b.2⟩ with
    mPendingMoves := s.mPendingMoves.erase b.1 }

def flushExpiredMoves (s : InotifyState W) (now : Nat) (faults : RmFaults) : InotifyState W :=
  (s.mPendingMoves.pairs.filter fun b => expired now b.2).foldl (expire faults) s

/-! ## `handleOverflow` and `unsubscribe` -/

/-- The body of the loop over the watchers that have a subscription. -/
def overflow (faults : RmFaults) (s : InotifyState W) (w : InotifyWatcher W) : InotifyState W :=
  let s := (s.invalidate w.id).error w.id
    ("inotify queue overflow. The subscription can no longer guarantee " ++
      "complete filesystem events.")
  (s.removeSubscriptions w faults w.mDir).dropMoves w.id

def handleOverflow (s : InotifyState W) (ws : Watchers W) (faults : RmFaults) : InotifyState W :=
  s.table.watchers.foldl (fun s id => s.overflow faults (ws.watcher id)) s

/-- `unsubscribe`: the value of `errno` it throws, if any. -/
def unsubscribe (s : InotifyState W) (id : W) (faults : RmFaults) :
    Option Nat × InotifyState W :=
  let s := s.dropMoves id
  let (errno, table) := s.table.unsubscribe faults id
  (errno, { s with table := table })

/-- The consumer drains the event list. -/
def drain (s : InotifyState W) (id : W) : InotifyState W :=
  { s with
    watchers := Function.update s.watchers id
      { s.watchers id with mEvents := (s.watchers id).mEvents.drain.2 } }

@[simp] theorem watchers_drain (s : InotifyState W) (id : W) :
    (s.drain id).watchers id =
      { s.watchers id with mEvents := (s.watchers id).mEvents.drain.2 } :=
  Function.update_self ..

/-- The kernel drops the watch of an inode. -/
def dropInode (s : InotifyState W) (inode : Nat) : InotifyState W :=
  { s with table := { s.table with kernel := s.table.kernel.dropInode inode } }

end InotifyState

/-! ## Runs -/

/-- The backend and the calls of `handleSubscription` that `handleEvent` still has to
make before it gives up `mMutex`. -/
structure InotifyBackend (W : Type) where
  state : InotifyState W
  remaining : List (InotifyEvent × Nat)

/-- What can happen. The pointers of an event are taken in any order. -/
inductive InotifyAction (W : Type) where
  | subscribe (id : W) (answers : SubscribeAnswers)
  | handleEvent (event : InotifyEvent)
  | handleSubscription (event : InotifyEvent) (pointer : Nat) (answers : EventAnswers)
  | flushExpiredMoves (now : Nat) (faults : RmFaults)
  | handleOverflow (faults : RmFaults)
  | unsubscribe (id : W) (faults : RmFaults)
  | drain (id : W)
  | dropInode (inode : Nat)

namespace InotifyBackend

/-- `handleEvent`: the subscriptions of the descriptor. -/
def subscriptionsOf (s : InotifyState W) (event : InotifyEvent) : List (InotifyEvent × Nat) :=
  (s.table.mSubscriptions.filter fun e => e.1 == event.wd).map fun e => (event, e.2)

/-- A routine that takes `mMutex`. -/
def locked (b : InotifyBackend W) (s : InotifyState W) : Option (InotifyBackend W) :=
  if b.remaining = [] then some { b with state := s } else none

def step (ws : Watchers W) (b : InotifyBackend W) : InotifyAction W → Option (InotifyBackend W)
  | .subscribe id answers => b.locked (b.state.subscribe (ws.watcher id) answers).2
  | .handleEvent event =>
      if b.remaining = [] then some { b with remaining := subscriptionsOf b.state event } else none
  | .handleSubscription event pointer answers =>
      if (event, pointer) ∈ b.remaining then
        b.state.table.heap[pointer]?.map fun sub =>
          { state := (b.state.handleSubscription (ws.watcher sub.watcher) event pointer sub answers).2
            remaining := b.remaining.erase (event, pointer) }
      else none
  | .flushExpiredMoves now faults => b.locked (b.state.flushExpiredMoves now faults)
  | .handleOverflow faults => b.locked (b.state.handleOverflow ws faults)
  | .unsubscribe id faults => b.locked (b.state.unsubscribe id faults).2
  -- The event lists have a mutex of their own, and so does the kernel.
  | .drain id => some { b with state := b.state.drain id }
  | .dropInode inode => some { b with state := b.state.dropInode inode }

variable {ws : Watchers W} {b b' : InotifyBackend W} {s : InotifyState W}

omit [DecidableEq W] in
/-- A routine that gets the lock leaves the state it has computed. -/
theorem holds_of_locked {P : InotifyState W → Prop} (hp : P s) (h : b.locked s = some b') :
    P b'.state := by
  unfold locked at h
  split at h
  · cases h
    exact hp
  · cases h

theorem state_of_handleEvent {event : InotifyEvent}
    (h : b.step ws (.handleEvent event) = some b') : b'.state = b.state := by
  simp only [step] at h
  split at h
  · cases h
    rfl
  · cases h

/-- `handleSubscription` runs on a subscription that the heap still has. -/
theorem of_step_handleSubscription {event : InotifyEvent} {pointer : Nat} {answers : EventAnswers}
    (h : b.step ws (.handleSubscription event pointer answers) = some b') :
    ∃ sub, b.state.table.heap[pointer]? = some sub ∧ b'.state =
      (b.state.handleSubscription (ws.watcher sub.watcher) event pointer sub answers).2 := by
  simp only [step] at h
  split at h
  · obtain ⟨sub, hsub, rfl⟩ := Option.map_eq_some_iff.mp h
    exact ⟨sub, hsub, rfl⟩
  · cases h

end InotifyBackend

/-- The runs of the backend, from no subscriptions on. -/
def inotifyMachine (ws : Watchers W) : Machine (InotifyBackend W) (InotifyAction W) :=
  .ofStep ⟨.start ws, []⟩ (InotifyBackend.step ws)

/-! ## Small histories -/

def directoryStat : FileStat := ⟨.directory, ⟨0, 0⟩⟩

def emptyDirectory : DirScan := .opened (.ok directoryStat) .nil

/-- A directory with one subdirectory. -/
def listing (name : Str) (watch : WatchAnswer) (below : DirScan) : DirScan :=
  .opened (.ok directoryStat)
    (.cons ⟨name, false, some directoryStat, false, watch, fun _ => none⟩ below .nil)

/-- The answers when the path is a directory. -/
def directoryAnswers (watch : WatchAnswer) (scan : DirScan) : EventAnswers :=
  ⟨some directoryStat, watch, scan, fun _ => none, 0⟩

/-- `a` is moved away from the root. -/
def movedFromA : InotifyEvent := ⟨1, IN_MOVED_FROM ||| IN_ISDIR, 7, some [97]⟩

end NativeWatcher
