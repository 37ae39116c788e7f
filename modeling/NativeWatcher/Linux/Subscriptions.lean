import NativeWatcher.Lib.Machine
import NativeWatcher.Lib.FiniteMap
import NativeWatcher.Lib.SharedHandles
import NativeWatcher.Path
import NativeWatcher.Posix

/-!
# The subscriptions of the inotify backend

`mSubscriptions` is a multimap from watch descriptors to shared subscriptions.
Watchers with overlapping roots share descriptors: the kernel has one per inode. The
state holds the multimap, the subscriptions the pointers lead to and the kernel's side:
its watches, the descriptors it dropped by itself, and the calls of
`inotify_rm_watch` that were made.
-/

namespace NativeWatcher

open SharedHandles

/-! ## Event bits -/

def IN_MODIFY : UInt32 := 0x2
def IN_ATTRIB : UInt32 := 0x4
def IN_MOVED_FROM : UInt32 := 0x40
def IN_MOVED_TO : UInt32 := 0x80
def IN_CREATE : UInt32 := 0x100
def IN_DELETE : UInt32 := 0x200
def IN_DELETE_SELF : UInt32 := 0x400
def IN_MOVE_SELF : UInt32 := 0x800
def IN_IGNORED : UInt32 := 0x8000
def IN_ONLYDIR : UInt32 := 0x1000000
def IN_DONT_FOLLOW : UInt32 := 0x2000000
def IN_EXCL_UNLINK : UInt32 := 0x4000000
def IN_ISDIR : UInt32 := 0x40000000

def INOTIFY_MASK : UInt32 :=
  IN_ATTRIB ||| IN_CREATE ||| IN_DELETE ||| IN_DELETE_SELF ||| IN_MODIFY |||
    IN_MOVE_SELF ||| IN_MOVED_FROM ||| IN_MOVED_TO ||| IN_DONT_FOLLOW ||| IN_ONLYDIR |||
    IN_EXCL_UNLINK

/-! ## The kernel's side -/

structure InotifyWatch where
  descriptor : Nat
  mask : UInt32
deriving DecidableEq, Repr

/-- A call of `inotify_rm_watch`, with the descriptors of the entries that remain
once the erasure it belongs to is done. -/
structure RmCall where
  descriptor : Nat
  remaining : List Nat
deriving DecidableEq, Repr

/-- The watches by inode, the descriptors dropped with their inode, and the calls of
`inotify_rm_watch`, oldest first. -/
structure InotifyKernel where
  watches : FiniteMap Nat InotifyWatch
  dropped : List Nat
  rmCalls : List RmCall

/-- What `inotify_add_watch` finds at a path: an error, or an inode, with the
descriptor that a new watch would get. -/
inductive WatchAnswer where
  | fails (errno : Nat)
  | resolves (inode fresh : Nat)

/-- The errors of `inotify_rm_watch` by descriptor, except the `EINVAL` of a
descriptor that the kernel does not have. -/
abbrev RmFaults := Nat → Option Nat

namespace InotifyKernel

def start : InotifyKernel := ⟨∅, [], []⟩

/-- Some watch has the descriptor. -/
def Holds (k : InotifyKernel) (wd : Nat) : Prop :=
  ∃ inode w, k.watches.lookup inode = some w ∧ w.descriptor = wd

/-- `inotify_add_watch` on an inode, with `IN_MASK_ADD`. -/
def addWatch (k : InotifyKernel) (inode fresh : Nat) (mask : UInt32) :
    Nat × InotifyKernel :=
  match k.watches.lookup inode with
  | some w =>
      (w.descriptor,
        { k with watches := AList.insert inode { w with mask := w.mask ||| mask } k.watches })
  | none => (fresh, { k with watches := AList.insert inode ⟨fresh, mask⟩ k.watches })

/-- The watches without those of a descriptor. -/
def without (k : InotifyKernel) (wd : Nat) : FiniteMap Nat InotifyWatch :=
  k.watches.filterKeys fun inode => !(k.watches.lookup inode).any (·.descriptor == wd)

/-- `inotify_rm_watch`: the value of `errno` if it failed. -/
def rmWatch (k : InotifyKernel) (faults : RmFaults) (remaining : List Nat) (wd : Nat) :
    Option Nat × InotifyKernel :=
  let calls := k.rmCalls ++ [⟨wd, remaining⟩]
  match faults wd with
  | some errno => (some errno, { k with rmCalls := calls })
  | none =>
      if k.watches.pairs.any fun b => b.2.descriptor == wd then
        (none, { k with watches := k.without wd, rmCalls := calls })
      else (some EINVAL, { k with rmCalls := calls })

/-- The inode goes away and its watch with it. -/
def dropInode (k : InotifyKernel) (inode : Nat) : InotifyKernel :=
  match k.watches.lookup inode with
  | some w => { k with watches := k.watches.erase inode, dropped := w.descriptor :: k.dropped }
  | none => k

end InotifyKernel

/-! ## The table -/

/-- `InotifySubscription`, with the address of its watcher. Its `tree` is read as the
watcher's: the two differ for a subscription that outlives the next `subscribe`. -/
structure InotifySubscription (W : Type) where
  path : Str
  watcher : W
deriving DecidableEq

/-- `mSubscriptions` binds descriptors to pointers, which are positions in `heap`. -/
structure SubscriptionTable (W : Type) where
  mSubscriptions : List (Nat × Nat)
  heap : List (InotifySubscription W)
  kernel : InotifyKernel
  allocated : ∀ e ∈ mSubscriptions, e.2 < heap.length

namespace SubscriptionTable

variable {W : Type}

def start : SubscriptionTable W where
  mSubscriptions := []
  heap := []
  kernel := .start
  allocated _ he := absurd he List.not_mem_nil

def descriptors (t : SubscriptionTable W) : List Nat := t.mSubscriptions.map Prod.fst

/-- `mSubscriptions.emplace(wd, sub)` for a new subscription. -/
def emplace (t : SubscriptionTable W) (wd : Nat) (sub : InotifySubscription W) :
    SubscriptionTable W where
  mSubscriptions := t.mSubscriptions ++ [(wd, t.heap.length)]
  heap := t.heap ++ [sub]
  kernel := t.kernel
  allocated := by
    intro e he
    rw [List.length_append]
    rcases List.mem_append.mp he with he | he
    · exact Nat.lt_succ_of_lt (t.allocated e he)
    · rw [List.mem_singleton.mp he]
      exact Nat.lt_succ_self _

/-- The erasure loops: drop the entries that pass the test, then remove each of their
descriptors that no entry is left for. -/
def eraseSubscriptions (t : SubscriptionTable W) (faults : RmFaults)
    (test : Nat × Nat → Bool) : SubscriptionTable W where
  mSubscriptions := t.mSubscriptions.filter fun e => !test e
  heap := t.heap
  kernel :=
    let kept := t.mSubscriptions.filter fun e => !test e
    (released (t.mSubscriptions.filter test) kept).foldl
      (fun k wd => (k.rmWatch faults (kept.map Prod.fst) wd).2) t.kernel
  allocated e he := t.allocated e (List.mem_of_mem_filter he)

/-- `subscription->path = newPath + subscription->path.substr(move.path.size())` for
the subscriptions of a move. Where the path is shorter than the move's `substr` throws, and
here nothing follows the new path; that takes a subscription which a second move has carried. -/
def moveSubscriptions (t : SubscriptionTable W) (subscriptions : List Nat)
    (oldPath newPath : Str) : SubscriptionTable W where
  mSubscriptions := t.mSubscriptions
  heap := t.heap.mapIdx fun pointer sub =>
    if pointer ∈ subscriptions then
      { sub with path := newPath ++ sub.path.drop oldPath.length }
    else sub
  kernel := t.kernel
  allocated := by
    intro e he
    rw [List.length_mapIdx]
    exact t.allocated e he

variable [DecidableEq W]

/-- The subscription behind a pointer passes the test. -/
def subscriptionAt (t : SubscriptionTable W) (pointer : Nat)
    (test : InotifySubscription W → Bool) : Bool :=
  t.heap[pointer]?.any test

/-- The mask of a watch. Ancestors of the root are only watched for their own moves
and deletion. -/
def watchMask (mDir path : Str) : UInt32 :=
  if path != mDir && isPathOrDescendant mDir path then
    IN_MOVE_SELF ||| IN_DELETE_SELF ||| IN_ONLYDIR
  else INOTIFY_MASK

/-- What `watchDir` does with the descriptor it got. -/
def track (t : SubscriptionTable W) (faults : RmFaults) (watcher : W) (path : Str)
    (wd : Nat) : SubscriptionTable W :=
  let own (e : Nat × Nat) := t.subscriptionAt e.2 fun sub =>
    sub.watcher == watcher && sub.path == path
  let alreadyTracked := t.mSubscriptions.any fun e => own e && e.1 == wd
  let t := t.eraseSubscriptions faults fun e => own e && e.1 != wd
  if alreadyTracked then t else t.emplace wd ⟨path, watcher⟩

/-- `watchDir`: the table, or the value of `errno`. -/
def watchDir (t : SubscriptionTable W) (faults : RmFaults) (watcher : W) (mDir path : Str) :
    WatchAnswer → Except Nat (SubscriptionTable W)
  | .fails errno => .error errno
  | .resolves inode fresh =>
      let added := t.kernel.addWatch inode fresh (watchMask mDir path)
      .ok ({ t with kernel := added.2 }.track faults watcher path added.1)

/-- `removeSubscriptions(const PendingInotifyMove &)`, given the pointers of the move. -/
def removeMovedSubscriptions (t : SubscriptionTable W) (faults : RmFaults)
    (subscriptions : List Nat) : SubscriptionTable W :=
  t.eraseSubscriptions faults fun e => decide (e.2 ∈ subscriptions)

/-- `removeSubscriptions(Watcher *, const std::string &)`. -/
def removeSubscriptions (t : SubscriptionTable W) (faults : RmFaults) (watcher : W)
    (mDir path : Str) : SubscriptionTable W :=
  t.eraseSubscriptions faults fun e => t.subscriptionAt e.2 fun sub =>
    sub.watcher == watcher && (path == mDir || isPathOrDescendant sub.path path)

/-- The watchers that have a subscription, each once. -/
def watchers (t : SubscriptionTable W) : List W :=
  (t.mSubscriptions.filterMap fun e => t.heap[e.2]?.map (·.watcher)).dedup

/-- What `handleOverflow` does to the table. -/
def handleOverflow (t : SubscriptionTable W) (faults : RmFaults) (mDir : W → Str) :
    SubscriptionTable W :=
  t.watchers.foldl (fun t w => t.removeSubscriptions faults w (mDir w) (mDir w)) t

/-- The loop of `unsubscribe`: `before` is what it has passed and kept. It ends with
the value of `errno` it throws, if any, and with what is left. -/
def unsubscribeLoop (faults : RmFaults) (own : Nat × Nat → Bool) (before : List (Nat × Nat)) :
    List (Nat × Nat) → InotifyKernel → Option Nat × List (Nat × Nat) × InotifyKernel
  | [], k => (none, before, k)
  | e :: rest, k =>
      if own e then
        if count (before ++ e :: rest) e.1 == 1 then
          match k.rmWatch faults ((before ++ rest).map Prod.fst) e.1 with
          | (none, k) => unsubscribeLoop faults own before rest k
          | (some errno, k) =>
              if errno != EINVAL then (some errno, before ++ e :: rest, k)
              else unsubscribeLoop faults own before rest k
        else unsubscribeLoop faults own before rest k
      else unsubscribeLoop faults own (before ++ [e]) rest k

theorem mem_unsubscribeLoop {faults : RmFaults} {own : Nat × Nat → Bool}
    {before rest : List (Nat × Nat)} {k : InotifyKernel} {e : Nat × Nat}
    (h : e ∈ (unsubscribeLoop faults own before rest k).2.1) : e ∈ before ++ rest := by
  have hmid : ∀ {before rest : List (Nat × Nat)} (e' : Nat × Nat), e ∈ before ++ rest →
      e ∈ before ++ e' :: rest := fun e' h =>
    List.mem_append.mpr ((List.mem_append.mp h).imp_right (List.mem_cons_of_mem e'))
  fun_induction unsubscribeLoop faults own before rest k with
  | case1 => exact List.mem_append_left _ h
  | case2 _ _ _ _ _ _ _ _ ih => exact hmid _ (ih h)
  | case3 => exact h
  | case4 _ _ _ _ _ _ _ _ _ _ ih => exact hmid _ (ih h)
  | case5 _ _ _ _ _ _ ih => exact hmid _ (ih h)
  | case6 _ _ _ _ _ ih => exact List.append_cons .. ▸ ih h

/-- `unsubscribe`: the value of `errno` it throws, if any, and the table. -/
def unsubscribe (t : SubscriptionTable W) (faults : RmFaults) (watcher : W) :
    Option Nat × SubscriptionTable W :=
  let own (e : Nat × Nat) := t.subscriptionAt e.2 fun sub => sub.watcher == watcher
  let result := unsubscribeLoop faults own [] t.mSubscriptions t.kernel
  (result.1,
    { mSubscriptions := result.2.1
      heap := t.heap
      kernel := result.2.2
      allocated := fun e he => t.allocated e (mem_unsubscribeLoop he) })

end SubscriptionTable

end NativeWatcher
