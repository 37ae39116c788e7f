import NativeWatcher.Macos.IdentityIndex
import NativeWatcher.Posix
import NativeWatcher.Tree.DirTree

/-!
# Reading the file system on macOS

`readIndexedPath` and `scanIdentityIndex`. What the system calls answer is data:
the record `lstat` fills, the name `getattrlist` finds under a prefix, the nodes
`fts_read` returns one after another and the cancellation flag as each of them is
reached.
-/

namespace NativeWatcher

open Hierarchy

/-- `struct stat`. -/
structure Stat where
  st_dev : Int32
  st_ino : UInt64
  st_mtimespec : Timespec
  st_nlink : UInt16
  st_mode : FileMode
deriving DecidableEq, Repr

def fromStat (file : Stat) : IndexedPath where
  identity := ⟨file.st_dev, file.st_ino⟩
  mtime := convertTime file.st_mtimespec
  linkCount := file.st_nlink
  isDirectory := decide (file.st_mode = .directory)

/-! ## One path -/

/-- What the system answers about one path: `lstat`, and for every prefix of it
the name `getattrlist` finds there. -/
structure PathAnswer where
  lstat : Option Stat
  actualName : Str → Option Str

/-- The loop of `pathHasExactCase`: `before` is the text up to `componentStart`,
`component` the part of the current component already read. -/
def componentsHaveExactCase (actualName : Str → Option Str) (before component : Str) :
    Str → Bool
  | [] => component == [] || actualName (before ++ component) == some component
  | c :: rest =>
      if c == slash then
        (component == [] || actualName (before ++ component) == some component) &&
          componentsHaveExactCase actualName (before ++ component ++ [c]) [] rest
      else componentsHaveExactCase actualName before (component ++ [c]) rest

def pathHasExactCase (actualName : Str → Option Str) (path : Str) : Bool :=
  match path with
  | [] => false
  | c :: rest => c == slash && componentsHaveExactCase actualName [c] [] rest

def readIndexedPath (answer : PathAnswer) (path : Str) : Option IndexedPath :=
  match answer.lstat with
  | none => none
  | some file =>
      if (file.st_mode != .regular && file.st_mode != .directory) ||
          !pathHasExactCase answer.actualName path then none
      else some (fromStat file)

/-! ## A whole tree -/

inductive FtsInfo where
  | FTS_D
  | FTS_DP
  | other
deriving DecidableEq, Repr

/-- `FTSENT`, with the answer of `shouldCancel` when it is reached. -/
structure FtsNode where
  fts_path : Str
  fts_info : FtsInfo
  fts_errno : Nat
  fts_statp : Option Stat
  cancelled : Bool
deriving DecidableEq, Repr

/-- A node that `fts_read` returns on the way down and without an error. -/
def FtsNode.visited (node : FtsNode) : Bool :=
  node.fts_info != .FTS_DP && node.fts_errno == 0

/-- What one walk returns. Directories come before what they hold and no path
comes twice; `FTS_SKIP` shows in what is missing. -/
structure FtsWalk where
  cancelledAtStart : Bool
  /-- `errno` when `fts_open` returns `nullptr`. -/
  openError : Option Nat
  nodes : List FtsNode
  preorder : (nodes.filter FtsNode.visited).Pairwise fun earlier later =>
    ¬ Under slash later.fts_path earlier.fts_path

/-- How `scanIdentityIndex` ends: with the whole tree, early because it was
cancelled, or by the exception `strerror(error)`. -/
inductive ScanOutcome where
  | complete
  | cancelled
  | throws (error : Nat)
deriving DecidableEq, Repr

structure Scan where
  /-- The calls of `onEntry`, in order. -/
  recorded : List (Str × IndexedPath)
  outcome : ScanOutcome
deriving DecidableEq, Repr

/-- The loop over `fts_read`. -/
def scanNodes (root : Str) (isIgnored : Str → Bool) : List FtsNode → Scan
  | [] => ⟨[], .complete⟩
  | node :: rest =>
      if node.cancelled then ⟨[], .cancelled⟩
      else if node.fts_info == .FTS_DP then scanNodes root isIgnored rest
      else if node.fts_errno != 0 then
        if node.fts_path != root &&
            (node.fts_errno == ENOENT || node.fts_errno == ENOTDIR) then
          scanNodes root isIgnored rest
        else ⟨[], .throws node.fts_errno⟩
      else if node.fts_path != root && isIgnored node.fts_path then
        scanNodes root isIgnored rest
      else
        match node.fts_statp with
        | none => scanNodes root isIgnored rest
        | some file =>
            if file.st_mode != .regular && file.st_mode != .directory then
              scanNodes root isIgnored rest
            else
              let scan := scanNodes root isIgnored rest
              { scan with recorded := (node.fts_path, fromStat file) :: scan.recorded }

def scanIdentityIndex (root : Str) (isIgnored : Str → Bool) (walk : FtsWalk) : Scan :=
  if walk.cancelledAtStart then ⟨[], .cancelled⟩
  else
    match walk.openError with
    | some error => ⟨[], .throws error⟩
    | none => scanNodes root isIgnored walk.nodes

/-- The index `scanIdentityIndex` returns. -/
def Scan.result (scan : Scan) : IdentityIndex :=
  scan.recorded.foldl (fun x b => x.add b.1 b.2) .empty

/-- The paths recorded are among the visited ones, in their order. -/
theorem recorded_sublist (root : Str) (isIgnored : Str → Bool) (nodes : List FtsNode) :
    ((scanNodes root isIgnored nodes).recorded.map Prod.fst).Sublist
      ((nodes.filter FtsNode.visited).map FtsNode.fts_path) := by
  induction nodes with
  | nil => exact List.Sublist.refl _
  | cons node rest ih =>
      have hskip : ((scanNodes root isIgnored rest).recorded.map Prod.fst).Sublist
          (((node :: rest).filter FtsNode.visited).map FtsNode.fts_path) :=
        ih.trans ((List.Sublist.filter _ (List.sublist_cons_self node rest)).map _)
      unfold scanNodes
      split
      next => exact List.nil_sublist _
      next =>
        split
        next => exact hskip
        next hinfo =>
          split
          next =>
            split
            · exact hskip
            · exact List.nil_sublist _
          next herrno =>
            have hvisited : node.visited = true := by
              simp only [FtsNode.visited, Bool.and_eq_true, bne_iff_ne, beq_iff_eq]
              exact ⟨by simpa using hinfo, by simpa using herrno⟩
            split
            next => exact hskip
            next =>
              split
              next => exact hskip
              next =>
                split
                next => exact hskip
                next =>
                  rw [List.filter_cons_of_pos hvisited]
                  exact ih.cons_cons _

/-- No recorded path lies at or below a later one. -/
theorem recorded_preorder (root : Str) (isIgnored : Str → Bool) (walk : FtsWalk) :
    (scanIdentityIndex root isIgnored walk).recorded.Pairwise fun earlier later =>
      ¬ Under slash later.1 earlier.1 := by
  unfold scanIdentityIndex
  split
  · exact List.Pairwise.nil
  · split
    · exact List.Pairwise.nil
    · have hpaths : ((walk.nodes.filter FtsNode.visited).map FtsNode.fts_path).Pairwise
          fun earlier later => ¬ Under slash later earlier :=
        List.pairwise_map.mpr walk.preorder
      exact List.pairwise_map.mp
        (hpaths.sublist (recorded_sublist root isIgnored walk.nodes))

/-- The paths of a preorder listing are distinct. -/
theorem nodup_of_preorder {entries : List (Str × IndexedPath)}
    (h : entries.Pairwise fun earlier later => ¬ Under slash later.1 earlier.1) :
    (entries.map Prod.fst).Nodup :=
  List.pairwise_map.mpr (h.imp fun hnot heq => hnot (Or.inl heq))

end NativeWatcher
