import NativeWatcher.Ignore.Cache
import NativeWatcher.Linux.Subscriptions
import NativeWatcher.Tree.Keys

/-!
# Reading directories on Linux

`addCreatedTree` and `reconcileMovedTree`. What the system answers to `opendir`,
`fstat`, `readdir`, `lstat` and `inotify_add_watch` is data, nested as the recursion
is. The calls made on `mEvents` are collected in order; none of the functions here
reads the event list.
-/

namespace NativeWatcher

open Hierarchy

/-- What the backend reads of a watcher. -/
structure InotifyWatcher (W : Type) where
  id : W
  mDir : Str
  isIgnored : Str → Bool
  mIgnorePaths : List Str
  mIgnoreGlobs : List Str
  /-- Without entries and globs nothing is ignored. -/
  ignores : mIgnorePaths = [] → mIgnoreGlobs = [] → ∀ p, isIgnored p = false
  strerror : Nat → String

section Watcher

variable {W : Type} {platform : Platform} (w : Watcher platform) (id : W)
  (strerror : Nat → String)

theorem Watcher.isIgnored_of_nil (hpaths : w.mIgnorePaths = []) (hglobs : w.mIgnoreGlobs = [])
    (cache : ThreadIgnoreCache) (p : Str) : (w.isIgnored cache p).1 = false := by
  have hcompiled : w.mCompiledGlobs = [] := by
    have hperm := w.compiled
    rw [hglobs] at hperm
    exact hperm.eq_nil
  simp [Watcher.isIgnored, hpaths, hcompiled]

/-- The watcher that `Watcher::isIgnored` answers for, asked with an empty memo. -/
def Watcher.toInotifyWatcher : InotifyWatcher W where
  id := id
  mDir := w.mDir
  isIgnored p := (w.isIgnored {} p).1
  mIgnorePaths := w.mIgnorePaths
  mIgnoreGlobs := w.mIgnoreGlobs
  ignores hpaths hglobs p := w.isIgnored_of_nil hpaths hglobs {} p
  strerror := strerror

/-- The memo of the thread that asks makes no difference. -/
theorem Watcher.isIgnored_toInotifyWatcher (hid : w.mId ≠ 0) {cache : ThreadIgnoreCache}
    (hcache : cache.watcherId = w.mId → CacheOf w cache) {rel : Str} {comps : List Str}
    (hrel : Spells rel comps) :
    (w.toInotifyWatcher id strerror).isIgnored (w.mDir ++ slash :: rel) =
      (w.isIgnored cache (w.mDir ++ slash :: rel)).1 := by
  have hempty : ({} : ThreadIgnoreCache).watcherId = w.mId → CacheOf w {} :=
    fun heq => absurd heq.symm hid
  exact Bool.eq_iff_iff.mpr
    ((isIgnored_iff_spec hempty hrel).trans (isIgnored_iff_spec hcache hrel).symm)

end Watcher

/-- `struct stat`. -/
structure FileStat where
  st_mode : FileMode
  st_mtim : Timespec
deriving DecidableEq, Repr

namespace FileStat

/-- `S_ISDIR(st.st_mode)`. -/
def isDirectory (st : FileStat) : Bool := decide (st.st_mode = .directory)

/-- `!S_ISREG(st.st_mode) && !S_ISDIR(st.st_mode)`. -/
def isSpecial (st : FileStat) : Bool :=
  decide (st.st_mode ≠ .regular) && decide (st.st_mode ≠ .directory)

end FileStat

/-- The answers about one item that `readdir` returns: whether the watcher is cancelled
when it is read and when it is entered, its `lstat`, and what is found when it is
watched. -/
structure DirItem where
  name : Str
  cancelled : Bool
  lstat : Option FileStat
  cancelledBelow : Bool
  watch : WatchAnswer
  faults : RmFaults

mutual

/-- The answers to one call of `addCreatedTree`. -/
inductive DirScan where
  | opendirFails (errno : Nat)
  | opened (fstat : Except Nat FileStat) (items : DirItems)

/-- The items of one directory, each with the scan below it. -/
inductive DirItems where
  | nil
  | cons (item : DirItem) (below : DirScan) (rest : DirItems)

end

/-- What a scan works on. -/
structure ScanState (W : Type) where
  tree : DirTree
  table : SubscriptionTable W
  calls : List EventOp

variable {W : Type} [DecidableEq W]

namespace ScanState

def emit (s : ScanState W) (ops : List EventOp) : ScanState W :=
  { s with calls := s.calls ++ ops }

def removeSubscriptions (s : ScanState W) (w : InotifyWatcher W) (faults : RmFaults)
    (path : Str) : ScanState W :=
  { s with table := s.table.removeSubscriptions faults w.id w.mDir path }

end ScanState

/-- `watchDir(…) && scan(…)`, with the value of `errno` if that is false. -/
def watchThen (w : InotifyWatcher W) (faults : RmFaults) (answer : WatchAnswer) (path : Str)
    (scan : ScanState W → Option Nat × ScanState W) (s : ScanState W) :
    Option Nat × ScanState W :=
  match s.table.watchDir faults w.id w.mDir path answer with
  | .error errno => (some errno, s)
  | .ok table => scan { s with table := table }

/-! ## `addCreatedTree` -/

/-- The item passes the tests of the `readdir` loop: it is neither `.` nor `..`, it is
not ignored, and it is a regular file or a directory. -/
def DirItem.listed (w : InotifyWatcher W) (path : Str) (item : DirItem) : Option FileStat :=
  if item.name == [46] || item.name == [46, 46] || w.isIgnored (child path item.name) then none
  else item.lstat.filter fun attributes => !attributes.isSpecial

/-- The body of the `readdir` loop. -/
def addItem (w : InotifyWatcher W) (reportEvents : Bool) (path : Str) (item : DirItem)
    (s : ScanState W) : ScanState W :=
  let candidate := child path item.name
  match item.listed w path with
  | none => s
  | some attributes =>
      if (s.tree.find candidate).isSome then s
      else
        { s with
          tree := s.tree.add candidate (convertTime attributes.st_mtim) attributes.isDirectory
          calls := if reportEvents then
              s.calls ++ [.create (candidate, entryKind attributes.isDirectory)]
            else s.calls }

/-- The `readdir` loop; the flag tells that it returned because of a cancellation. -/
def readItems (w : InotifyWatcher W) (reportEvents : Bool) (path : Str) :
    DirItems → ScanState W → Bool × ScanState W
  | .nil, s => (false, s)
  | .cons item _ rest, s =>
      if !reportEvents && item.cancelled then (true, s)
      else readItems w reportEvents path rest (addItem w reportEvents path item s)

/-- The entry of the directory itself, if the tree has none. -/
def addDirectory (path : Str) (fstat : Except Nat FileStat) (s : ScanState W) :
    Except Nat (ScanState W) :=
  if (s.tree.find path).isSome then .ok s
  else
    match fstat with
    | .error errno => .error errno
    | .ok attributes =>
        .ok { s with tree := s.tree.add path (convertTime attributes.st_mtim) true }

mutual

/-- `addCreatedTree`: the value of `errno` if it returns false. -/
def addCreatedTree (w : InotifyWatcher W) (reportEvents : Bool) (path : Str) :
    DirScan → ScanState W → Option Nat × ScanState W
  | .opendirFails errno, s => (some errno, s)
  | .opened fstat items, s =>
      match addDirectory path fstat s with
      | .error errno => (some errno, s)
      | .ok s =>
          match readItems w reportEvents path items s with
          | (true, s) => (none, s)
          | (false, s) => addSubdirectories w reportEvents path items s

/-- The loop over the subdirectories that the `readdir` loop found. -/
def addSubdirectories (w : InotifyWatcher W) (reportEvents : Bool) (path : Str) :
    DirItems → ScanState W → Option Nat × ScanState W
  | .nil, s => (none, s)
  | .cons item below rest, s =>
      if (item.listed w path).any FileStat.isDirectory then
        if !reportEvents && item.cancelledBelow then (none, s)
        else
          let candidate := child path item.name
          match watchThen w item.faults item.watch candidate
            (addCreatedTree w reportEvents candidate below) s with
          | (none, s) => addSubdirectories w reportEvents path rest s
          | (some error, s) =>
              if error == ENOENT || error == ENOTDIR then
                let s := s.removeSubscriptions w item.faults candidate
                addSubdirectories w reportEvents path rest
                  { s with tree := s.tree.remove candidate }
              else (some error, s)
      else addSubdirectories w reportEvents path rest s

end

/-! ## `reconcileMovedTree` -/

/-- The loops of `reconcileMovedTree` that compare: `before` is what the tree had. -/
structure Comparison (W : Type) where
  before : FiniteMap Str DirEntry
  table : SubscriptionTable W
  calls : List EventOp

namespace Comparison

/-- The body of the loop over the current entries. -/
def current (w : InotifyWatcher W) (faults : RmFaults) (c : Comparison W) (e : DirEntry) :
    Comparison W :=
  match c.before.lookup e.path with
  | none => { c with calls := c.calls ++ [.create e.key] }
  | some old =>
      let c :=
        if old.isDir != e.isDir then
          { c with
            table := if old.isDir then
                c.table.removeSubscriptions faults w.id w.mDir old.path
              else c.table
            calls := c.calls ++ [.update e.key] }
        else if !e.isDir && old.mtime != e.mtime then
          { c with calls := c.calls ++ [.update (e.path, .File)] }
        else c
      { c with before := c.before.erase e.path }

/-- The body of the loop over what is left of `before`. -/
def vanished (w : InotifyWatcher W) (faults : RmFaults) (c : Comparison W) (old : DirEntry) :
    Comparison W :=
  { c with
    calls := if w.isIgnored old.path then c.calls else c.calls ++ [old.removal]
    table := if old.isDir then
        c.table.removeSubscriptions faults w.id w.mDir old.path
      else c.table }

end Comparison

/-- `before.emplace(entry.path, entry)` for every entry. -/
def entryMap (entries : List DirEntry) : FiniteMap Str DirEntry :=
  entries.foldl (fun m e => m.emplace e.path e) ∅

/-- The part of `reconcileMovedTree` after the scan. -/
def compareMovedTree (w : InotifyWatcher W) (faults : RmFaults) (path : Str)
    (previous : List DirEntry) (s : ScanState W) : ScanState W :=
  let present := (s.tree.entries.pairs.map Prod.snd).filter fun e =>
    isPathOrDescendant e.path path
  let c := present.foldl (Comparison.current w faults)
    ⟨entryMap previous, s.table, s.calls⟩
  let c := (c.before.pairs.map Prod.snd).foldl (Comparison.vanished w faults) c
  { s with table := c.table, calls := c.calls }

/-- `reconcileMovedTree`: the value of `errno` if it returns false. -/
def reconcileMovedTree (w : InotifyWatcher W) (faults : RmFaults) (path : Str)
    (scan : DirScan) (s : ScanState W) : Option Nat × ScanState W :=
  let (previous, tree) := s.tree.extract path
  match addCreatedTree w false path scan { s with tree := tree } with
  | (some errno, s) => (some errno, s)
  | (none, s) => (none, compareMovedTree w faults path previous s)

end NativeWatcher
