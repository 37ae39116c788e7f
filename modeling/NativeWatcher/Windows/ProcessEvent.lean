import NativeWatcher.Tree.Keys
import NativeWatcher.Windows.Records

/-!
# `processEvent`

What the records of a completed read do to the tree and the event list of a
subscription. What the system answers about a path is data, nested as the search below a
directory is.
-/

namespace NativeWatcher

open Hierarchy

/-- `'\\'`, which is `DIR_SEP[0]` on Windows. -/
abbrev dirSep : UInt8 := 92

def FILE_ACTION_ADDED : Nat := 1
def FILE_ACTION_REMOVED : Nat := 2
def FILE_ACTION_MODIFIED : Nat := 3
def FILE_ACTION_RENAMED_OLD_NAME : Nat := 4
def FILE_ACTION_RENAMED_NEW_NAME : Nat := 5

def FILE_ATTRIBUTE_DIRECTORY : UInt32 := 0x10
def FILE_ATTRIBUTE_DEVICE : UInt32 := 0x40
def FILE_ATTRIBUTE_REPARSE_POINT : UInt32 := 0x400

/-- `FILETIME`. -/
structure FileTime where
  dwLowDateTime : UInt32
  dwHighDateTime : UInt32
deriving DecidableEq, Repr

/-- `CONVERT_TIME(ft)`. -/
def FileTime.convert (ft : FileTime) : UInt64 :=
  ft.dwHighDateTime.toUInt64 <<< 32 ||| ft.dwLowDateTime.toUInt64

/-- What is read of `WIN32_FILE_ATTRIBUTE_DATA`. -/
structure FileAttributeData where
  dwFileAttributes : UInt32
  ftLastWriteTime : FileTime
deriving DecidableEq, Repr

namespace FileAttributeData

/-- `data.dwFileAttributes & FILE_ATTRIBUTE_DIRECTORY`. -/
def isDirectory (data : FileAttributeData) : Bool :=
  data.dwFileAttributes &&& FILE_ATTRIBUTE_DIRECTORY != 0

/-- `data.dwFileAttributes & (FILE_ATTRIBUTE_REPARSE_POINT | FILE_ATTRIBUTE_DEVICE)`. -/
def isSpecial (data : FileAttributeData) : Bool :=
  data.dwFileAttributes &&& (FILE_ATTRIBUTE_REPARSE_POINT ||| FILE_ATTRIBUTE_DEVICE) != 0

end FileAttributeData

mutual

/-- What is found at a path: nothing, or something with its attributes and the names in
it. -/
inductive PathScan where
  | absent
  | present (data : FileAttributeData) (listing : PathScans)

/-- What `FindFirstFileW` and `FindNextFileW` list, each name with what is found there. -/
inductive PathScans where
  | nil
  | cons (name : Str) (scan : PathScan) (rest : PathScans)

end

/-- What `FindFirstFileW` finds at a removed path: its name, and whether
`CompareStringOrdinal` takes it for the removed one. -/
structure FoundFile where
  cFileName : Str
  equal : Bool

/-- The answers about the path of one record, and about the path that is added. -/
structure RecordAnswers where
  attributes : Option FileAttributeData
  found : Option FoundFile
  scan : PathScan

/-- `!hasAttributes || !(data.dwFileAttributes & …)`. -/
def RecordAnswers.supported (answers : RecordAnswers) : Bool :=
  !(answers.attributes.any FileAttributeData.isSpecial)

/-- What a subscription reads of its watcher, and the conversion of names. -/
structure WinWatcher where
  mDir : Str
  isIgnored : Str → Bool
  mIgnorePaths : List Str
  mIgnoreGlobs : List Str
  utf16ToUtf8 : Str → Str

/-- The fields of `Subscription` that `processEvent` works on, with the event list of the
watcher. -/
structure WinState where
  mTree : DirTree
  mEvents : EventList
  mPendingRenamePath : Option Str
  mRemovedPaths : Finset Str
  mPreviousRemovedPaths : Finset Str
  mRenameSequence : Nat
  mOverflowed : Bool

/-- `"windows:" + std::to_string(sequence) + ":" + suffix`. -/
def windowsId (sequence : Nat) (suffix : Str) : Str :=
  [119, 105, 110, 100, 111, 119, 115, 58] ++ toDecimal sequence ++ 58 :: suffix

namespace WinState

def emit (s : WinState) (ops : List EventOp) : WinState :=
  { s with mEvents := s.mEvents.run ops }

def removePath (s : WinState) (path : Str) : WinState :=
  let (removed, tree) := s.mTree.extract path dirSep
  { s with mTree := tree }.emit (removed.map DirEntry.removal)

def flushPendingRename (s : WinState) : WinState :=
  match s.mPendingRenamePath with
  | none => s
  | some path => { s.removePath path with mPendingRenamePath := none }

/-! ## `addPath` -/

/-- An entry of the tree for a candidate, if there is none. -/
def addCandidate (s : WinState) (candidate : Str) (data : FileAttributeData) : WinState :=
  if (s.mTree.find candidate).isSome then s
  else
    { s.emit [.create (candidate, entryKind data.isDirectory)] with
      mTree := s.mTree.add candidate data.ftLastWriteTime.convert data.isDirectory }

mutual

/-- `addPath`. The stack hands out the names of a directory from the last one on, each
with all that is below it. -/
def addPath (w : WinWatcher) (candidate : Str) : PathScan → WinState → WinState
  | .absent, s => s
  | .present data listing, s =>
      if w.isIgnored candidate then s
      else if data.isSpecial then s
      else
        let s := s.addCandidate candidate data
        if data.isDirectory then addListing w candidate listing s else s

def addListing (w : WinWatcher) (candidate : Str) : PathScans → WinState → WinState
  | .nil, s => s
  | .cons name scan rest, s =>
      let s := addListing w candidate rest s
      if name == [46] || name == [46, 46] then s
      else addPath w (candidate ++ dirSep :: name) scan s

end

/-! ## The second half of a rename -/

/-- `mTree->find(path) || mRemovedPaths.erase(path) > 0 ||
mPreviousRemovedPaths.erase(path) > 0`. -/
def targetExisted (s : WinState) (path : Str) : Bool × WinState :=
  if (s.mTree.find path).isSome then (true, s)
  else if path ∈ s.mRemovedPaths then
    (true, { s with mRemovedPaths := s.mRemovedPaths.erase path })
  else if path ∈ s.mPreviousRemovedPaths then
    (true, { s with mPreviousRemovedPaths := s.mPreviousRemovedPaths.erase path })
  else (false, s)

/-- What is said of one entry of the source. -/
def renamedEntry (w : WinWatcher) (supported existed : Bool) (sequence : Nat)
    (oldPath path : Str) (e : DirEntry) : List EventOp :=
  let newPath := relocate oldPath path e.path
  let kind := entryKind e.isDir
  if existed || !supported || w.isIgnored newPath then
    .remove (e.path, kind) ::
      if supported && !w.isIgnored newPath then [.create (newPath, kind)] else []
  else [.rename e.path newPath (windowsId sequence (e.path.drop oldPath.length)) kind]

/-- The entries of the source that are restored. -/
def visibleEntries (w : WinWatcher) (oldPath path : Str) (moved : List DirEntry) :
    List DirEntry :=
  moved.filter fun e => !w.isIgnored (relocate oldPath path e.path)

/-- The attributes refresh the entry of the target, or make one. -/
def refreshTarget (s : WinState) (path : Str) (data : FileAttributeData) (sourceEmpty : Bool) :
    WinState :=
  let (found, tree) := s.mTree.update path data.ftLastWriteTime.convert
  let s := { s with mTree := tree }
  if found then s
  else
    let s := if sourceEmpty then s.emit [.create (path, entryKind data.isDirectory)] else s
    { s with mTree := s.mTree.add path data.ftLastWriteTime.convert data.isDirectory }

/-- A rename whose first half is pending. -/
def renamePath (w : WinWatcher) (oldPath path : Str) (answers : RecordAnswers) (s : WinState) :
    WinState :=
  let supported := answers.supported
  let (existed, s) := s.targetExisted path
  let (moved, tree) := s.mTree.extract oldPath dirSep
  let tree := if existed then tree.remove path dirSep else tree
  let sequence := s.mRenameSequence + 1
  let s := { s with mRenameSequence := sequence }.emit
    (moved.flatMap (renamedEntry w supported existed sequence oldPath path))
  let s := { s with
    mTree := if supported then tree.restore (visibleEntries w oldPath path moved) oldPath path
      else tree }
  let s := match answers.attributes with
    | none => s
    | some data =>
        if data.isSpecial then s
        else
          let s := s.refreshTarget path data moved.isEmpty
          if data.isDirectory &&
              (moved.isEmpty || !w.mIgnorePaths.isEmpty || !w.mIgnoreGlobs.isEmpty) then
            addPath w path answers.scan s
          else s
  { s with mPendingRenamePath := none }

/-! ## The records -/

/-- `path.substr(path.find_last_of('\\') + 1)`. -/
def fileName (path : Str) : Str := (path.reverse.takeWhile (· != dirSep)).reverse

/-- `path.substr(0, path.find_last_of('\\') + 1) + name`. -/
def siblingPath (path name : Str) : Str :=
  path.take (path.length - (fileName path).length) ++ name

/-- The spelling on disk of a removed path. -/
def recoverSpelling (w : WinWatcher) (path : Str) (answers : RecordAnswers) (s : WinState) :
    WinState :=
  match answers.found with
  | none => s
  | some found =>
      if found.cFileName != fileName path && found.equal then
        addPath w (siblingPath path found.cFileName) answers.scan s
      else s

/-- `mWatcher->mDir + "\\" + utf16ToUtf8(info->FileName, …)`. -/
def recordPath (w : WinWatcher) (info : NotifyRecord) : Str :=
  w.mDir ++ dirSep :: w.utf16ToUtf8 info.fileName

def processEvent (w : WinWatcher) (answers : RecordAnswers) (info : NotifyRecord)
    (s : WinState) : WinState :=
  let path := recordPath w info
  if w.isIgnored path then s.flushPendingRename
  else if info.action = FILE_ACTION_ADDED then
    let s := s.flushPendingRename
    addPath w path answers.scan
      { s with
        mRemovedPaths := s.mRemovedPaths.erase path
        mPreviousRemovedPaths := s.mPreviousRemovedPaths.erase path }
  else if info.action = FILE_ACTION_RENAMED_NEW_NAME then
    match s.mPendingRenamePath with
    | some oldPath => renamePath w oldPath path answers s
    | none =>
        if answers.attributes.any fun data => !data.isSpecial then addPath w path answers.scan s
        else s
  else if info.action = FILE_ACTION_MODIFIED then
    let s := s.flushPendingRename
    match answers.attributes with
    | none => s
    | some data =>
        if !data.isSpecial && (s.mTree.find path).isSome then
          let s := { s with mTree := (s.mTree.update path data.ftLastWriteTime.convert).2 }
          if data.isDirectory then s else s.emit [.update (path, .File)]
        else s
  else if info.action = FILE_ACTION_REMOVED then
    let s := s.flushPendingRename
    let s := { s with mRemovedPaths := insert path s.mRemovedPaths }
    recoverSpelling w path answers (s.removePath path)
  else if info.action = FILE_ACTION_RENAMED_OLD_NAME then
    { s.flushPendingRename with mPendingRenamePath := some path }
  else s

/-! ## A completed read -/

/-- The loop over the records, each with the answers at its offset. -/
def processAll (w : WinWatcher) (answers : Nat → RecordAnswers) (records : List NotifyRecord)
    (s : WinState) : WinState :=
  records.foldl (fun s info => processEvent w (answers info.offset) info s) s

/-- The error of `failOverflow`. -/
def overflowError : String :=
  "ReadDirectoryChangesW buffer overflow. The subscription can no " ++
    "longer guarantee complete filesystem events."

/-- From the check of `numBytes` on. A read without a valid size rotates nothing; after an
overflow the rest of the buffer, the pending rename and the removed paths stay as they are. -/
def processEvents (w : WinWatcher) (answers : Nat → RecordAnswers) (buffer : Str)
    (numBytes : Nat) (s : WinState) : Option WinState :=
  if numBytes = 0 ∨ numBytes > buffer.length then
    some { s with mOverflowed := true, mEvents := s.mEvents.error overflowError }
  else
    (processRecords numBytes buffer numBytes).map fun loop =>
      let s := { s with mPreviousRemovedPaths := s.mRemovedPaths, mRemovedPaths := ∅ }
      let s := processAll w answers loop.processed s
      if loop.overflowed then
        { s with mOverflowed := true, mEvents := s.mEvents.error overflowError }
      else { s.flushPendingRename with mPreviousRemovedPaths := ∅ }

end WinState

end NativeWatcher
