import NativeWatcher.Lib.Machine
import NativeWatcher.Windows.RenamePath

/-!
# The index and the batches on Windows

Between two buffers the consumer will hold, once the list is drained, the keys of the
tree. Every record keeps this but for two slips of the code. A creation for a key that
the consumer holds counts as a creation, so that a removal in the same batch is lost; and
a rename that replaces its target takes entries out of the tree, or puts its target in,
without a word.
-/

namespace NativeWatcher

open Hierarchy EventList

namespace WinState

variable {w : WinWatcher} {s : WinState} {V : Finset EventKey} {path : Str}

/-! ## A record -/

/-- A record that gives up a pending rename. -/
def Flushes (w : WinWatcher) (info : NotifyRecord) : Prop :=
  w.isIgnored (recordPath w info) = true ∨
    info.action ∈ [FILE_ACTION_ADDED, FILE_ACTION_REMOVED, FILE_ACTION_MODIFIED,
      FILE_ACTION_RENAMED_OLD_NAME]

/-- What a record has to meet. -/
structure RecordTold (w : WinWatcher) (answers : RecordAnswers) (V : Finset EventKey)
    (info : NotifyRecord) (s : WinState) : Prop where
  flushed : Flushes w info → s.FlushTold V
  removed : w.isIgnored (recordPath w info) = false → info.action = FILE_ACTION_REMOVED →
    s.RemovalsTold V (recordPath w info)
  renamed : w.isIgnored (recordPath w info) = false →
    info.action = FILE_ACTION_RENAMED_NEW_NAME → ∀ oldPath, s.mPendingRenamePath = some oldPath →
      RenameTold w s V answers oldPath (recordPath w info)

theorem staleCreate_removals {l : EventList} {k : EventKey} (es : List DirEntry) :
    (l.run (es.map DirEntry.removal)).StaleCreate V k ↔ l.StaleCreate V k := by
  induction es generalizing l with
  | nil => exact Iff.rfl
  | cons e es ih => exact (ih (l := l.apply e.removal)).trans staleCreate_remove

/-- The end of a pending rename leaves fewer entries, and none that was created. -/
theorem RemovalsTold.flush (h : s.RemovalsTold V path) :
    s.flushPendingRename.RemovalsTold V path := by
  unfold flushPendingRename
  split
  · exact h
  next oldPath _ =>
      intro e he
      obtain ⟨hfind, hunder⟩ := DirTree.mem_extract.mp he
      have hkept : (s.mTree.extract oldPath dirSep).2.find e.path = some e := hfind
      rw [DirTree.find_extract] at hkept
      split at hkept
      · cases hkept
      · rw [show ((s.removePath oldPath).mEvents = s.mEvents.run
          ((s.mTree.extract oldPath dirSep).1.map DirEntry.removal)) from rfl,
          staleCreate_removals]
        exact h e (DirTree.mem_extract.mpr ⟨hkept, hunder⟩)

theorem Agrees.recoverSpelling {answers : RecordAnswers} (h : s.Agrees V) :
    (recoverSpelling w path answers s).Agrees V := by
  unfold WinState.recoverSpelling
  split
  · exact h
  · split
    · exact h.addPath ..
    · exact h

theorem Agrees.touch (h : s.Agrees V) (path : Str) (mtime : UInt64) :
    { s with mTree := (s.mTree.update path mtime).2 }.Agrees V := by
  apply h.congr
  intro k
  exact DirTree.mem_keys_update.symm

/-- Every record keeps the agreement under its condition. -/
theorem Agrees.processEvent {answers : RecordAnswers} {info : NotifyRecord} (h : s.Agrees V)
    (hok : RecordTold w answers V info s) : (processEvent w answers info s).Agrees V := by
  have hflush : Flushes w info → s.flushPendingRename.Agrees V :=
    fun hf => h.flushPendingRename (hok.flushed hf)
  unfold WinState.processEvent
  dsimp only
  split
  next hignored => exact hflush (Or.inl hignored)
  next hvisible =>
      rw [Bool.not_eq_true] at hvisible
      split
      next haction =>
          apply Agrees.addPath
          exact hflush (Or.inr (by simp [haction]))
      · split
        next haction =>
            split
            next oldPath hpending =>
                exact h.renamePath (hok.renamed hvisible haction oldPath hpending) hvisible
            next =>
                split
                · exact h.addPath ..
                · exact h
        · split
          next haction =>
              have hf := hflush (Or.inr (by simp [haction]))
              split
              · exact hf
              · split
                · split
                  · exact hf.touch ..
                  · exact Announces.update (hf.touch ..) _
                · exact hf
          · split
            next haction =>
                have hf := hflush (Or.inr (by simp [haction]))
                apply Agrees.recoverSpelling
                have hinsert : { s.flushPendingRename with
                    mRemovedPaths := insert (recordPath w info)
                      s.flushPendingRename.mRemovedPaths }.Agrees V := hf
                exact hinsert.removePath (hok.removed hvisible haction).flush
            · split
              next haction => exact hflush (Or.inr (by simp [haction]))
              next => exact h

/-! ## A buffer -/

/-- The records of a buffer, each where the ones before it lead, and the end of a pending
rename. -/
def RecordsTold (w : WinWatcher) (answers : Nat → RecordAnswers) (V : Finset EventKey) :
    List NotifyRecord → WinState → Prop
  | [], s => s.FlushTold V
  | info :: records, s =>
      RecordTold w (answers info.offset) V info s ∧
        RecordsTold w answers V records (processEvent w (answers info.offset) info s)

theorem Agrees.processAll {answers : Nat → RecordAnswers} {records : List NotifyRecord}
    (h : s.Agrees V) (hok : RecordsTold w answers V records s) :
    (processAll w answers records s).flushPendingRename.Agrees V := by
  induction records generalizing s with
  | nil => exact h.flushPendingRename hok
  | cons info records ih => exact ih (h.processEvent hok.1) hok.2

/-- The removed paths of the read before are kept for one read. -/
def rotated (s : WinState) : WinState :=
  { s with mPreviousRemovedPaths := s.mRemovedPaths, mRemovedPaths := ∅ }

/-- What a buffer whose chain of records is sound has to meet. -/
def BufferTold (w : WinWatcher) (answers : Nat → RecordAnswers) (buffer : Str) (numBytes : Nat)
    (V : Finset EventKey) (s : WinState) : Prop :=
  ∀ loop, processRecords numBytes buffer numBytes = some loop → loop.overflowed = false →
    RecordsTold w answers V loop.processed s.rotated

/-- A buffer keeps the agreement under its condition, unless it overflows. -/
theorem Agrees.processEvents {answers : Nat → RecordAnswers} {buffer : Str} {numBytes : Nat}
    {s' : WinState} (h : s.Agrees V) (hok : BufferTold w answers buffer numBytes V s)
    (hs : processEvents w answers buffer numBytes s = some s') (hover : s'.mOverflowed = false) :
    s'.Agrees V := by
  unfold WinState.processEvents at hs
  split at hs
  · cases hs
    cases hover
  · obtain ⟨loop, hloop, rfl⟩ := Option.map_eq_some_iff.mp hs
    dsimp only at hover ⊢
    split at hover
    · cases hover
    next hsound =>
        rw [if_neg hsound]
        have hrotated : s.rotated.Agrees V := h
        exact hrotated.processAll (hok loop hloop (Bool.eq_false_iff.mpr hsound))

/-! ## An overflow is for good -/

theorem mOverflowed_flushPendingRename (s : WinState) :
    s.flushPendingRename.mOverflowed = s.mOverflowed := by
  unfold flushPendingRename
  split
  · rfl
  · rfl

theorem mOverflowed_addPath (w : WinWatcher) (candidate : Str) (scan : PathScan) (s : WinState) :
    (addPath w candidate scan s).mOverflowed = s.mOverflowed := by
  rw [addPath_eq]
  exact (foldl_addFound_frame ..).2

theorem mOverflowed_refreshTarget (s : WinState) (path : Str) (data : FileAttributeData)
    (sourceEmpty : Bool) :
    (s.refreshTarget path data sourceEmpty).mOverflowed = s.mOverflowed := by
  unfold refreshTarget
  dsimp only
  split
  · rfl
  · cases sourceEmpty with
    | true => rfl
    | false => rfl

theorem mOverflowed_renamePath (w : WinWatcher) (oldPath path : Str) (answers : RecordAnswers)
    (s : WinState) : (renamePath w oldPath path answers s).mOverflowed = s.mOverflowed := by
  have harrived : (arrived w s answers oldPath path).mOverflowed = s.mOverflowed :=
    (targetExisted_frame s path).2.2.2
  rw [renamePath_eq]
  show (settled w s answers oldPath path).mOverflowed = _
  unfold settled
  split
  · exact harrived
  · split
    · exact harrived
    · split
      · rw [mOverflowed_addPath, mOverflowed_refreshTarget, harrived]
      · rw [mOverflowed_refreshTarget, harrived]

theorem mOverflowed_recoverSpelling (w : WinWatcher) (path : Str) (answers : RecordAnswers)
    (s : WinState) : (recoverSpelling w path answers s).mOverflowed = s.mOverflowed := by
  unfold recoverSpelling
  split
  · rfl
  · split
    · exact mOverflowed_addPath ..
    · rfl

theorem mOverflowed_processEvent (w : WinWatcher) (answers : RecordAnswers) (info : NotifyRecord)
    (s : WinState) : (processEvent w answers info s).mOverflowed = s.mOverflowed := by
  have hflush := mOverflowed_flushPendingRename s
  unfold processEvent
  dsimp only
  split
  · exact hflush
  · split
    · exact (mOverflowed_addPath ..).trans hflush
    · split
      · split
        · exact mOverflowed_renamePath ..
        · split
          · exact mOverflowed_addPath ..
          · rfl
      · split
        · split
          · exact hflush
          · split
            · split
              · exact hflush
              · exact hflush
            · exact hflush
        · split
          · exact (mOverflowed_recoverSpelling ..).trans hflush
          · split
            · exact hflush
            · rfl

theorem mOverflowed_processAll (w : WinWatcher) (answers : Nat → RecordAnswers)
    (records : List NotifyRecord) (s : WinState) :
    (processAll w answers records s).mOverflowed = s.mOverflowed := by
  induction records generalizing s with
  | nil => rfl
  | cons info records ih => exact (ih _).trans (mOverflowed_processEvent ..)

theorem mOverflowed_of_processEvents {answers : Nat → RecordAnswers} {buffer : Str}
    {numBytes : Nat} {s' : WinState} (hs : processEvents w answers buffer numBytes s = some s')
    (hover : s.mOverflowed = true) : s'.mOverflowed = true := by
  unfold processEvents at hs
  split at hs
  · cases hs
    rfl
  · obtain ⟨loop, _, rfl⟩ := Option.map_eq_some_iff.mp hs
    dsimp only
    split
    · rfl
    · exact (mOverflowed_flushPendingRename _).trans ((mOverflowed_processAll ..).trans hover)

end WinState

/-! ## Runs -/

/-- A completed read, or a batch for the consumer. -/
inductive WinAction where
  | buffer (answers : Nat → RecordAnswers) (bytes : Str) (numBytes : Nat)
  | drain

/-- A subscription with the set that its consumer holds. -/
structure WinSession where
  subscription : WinState
  view : Finset EventKey

namespace WinSession

def step (w : WinWatcher) (c : WinSession) : WinAction → Option WinSession
  | .buffer answers bytes numBytes =>
      (c.subscription.processEvents w answers bytes numBytes).map fun s => { c with subscription := s }
  | .drain =>
      let (batch, rest) := c.subscription.mEvents.drain
      some ⟨{ c.subscription with mEvents := rest }, deliver c.view batch.events⟩

/-- The loop over the records ends, so that every action can be taken. -/
theorem step_isSome (w : WinWatcher) (c : WinSession) (action : WinAction) :
    (step w c action).isSome = true := by
  cases action with
  | drain => rfl
  | buffer answers bytes numBytes =>
      show ((c.subscription.processEvents w answers bytes numBytes).map _).isSome = true
      rw [Option.isSome_map]
      unfold WinState.processEvents
      split
      · rfl
      next hsize =>
          obtain ⟨hpos, hlength⟩ := not_or.mp hsize
          have hspec : ∃ loop, recordLoop numBytes bytes numBytes 0 RecordLoop.start = some loop ∧
              LoopSpec bytes numBytes 0 RecordLoop.start loop :=
            recordLoop_spec (Nat.pos_of_ne_zero hpos) (Nat.sub_le ..) _
          obtain ⟨loop, hloop, _⟩ := hspec
          rw [Option.isSome_map, processRecords, if_neg hpos, if_neg hlength, hloop]
          rfl

/-- After startup the consumer holds the tree. -/
def started (tree : DirTree) : WinSession where
  subscription :=
    { mTree := tree
      mEvents := EventList.empty
      mPendingRenamePath := none
      mRemovedPaths := ∅
      mPreviousRemovedPaths := ∅
      mRenameSequence := 0
      mOverflowed := false }
  view := tree.keys

/-- The condition on the steps of a run. -/
def Sound (w : WinWatcher) (c : WinSession) : WinAction → Prop
  | .buffer answers bytes numBytes =>
      c.subscription.BufferTold w answers bytes numBytes c.view
  | .drain => True

/-- Up to an overflow the consumer will hold the keys of the tree. -/
def Agrees (c : WinSession) : Prop :=
  c.subscription.mOverflowed = false → c.subscription.Agrees c.view

theorem agrees_of_reach {w : WinWatcher} {tree : DirTree} {c : WinSession}
    (h : (Machine.ofStep (started tree) (step w)).Reach (Sound w) c) : c.Agrees := by
  apply Machine.Reach.invariant _ _ h
  · rintro c rfl _
    exact Announces.empty _
  · intro c action c' ih hok hstep hover
    cases action with
    | buffer answers bytes numBytes =>
        obtain ⟨s', hs, rfl⟩ := Option.map_eq_some_iff.mp hstep
        have hbefore : c.subscription.mOverflowed = false := by
          by_contra hne
          rw [WinState.mOverflowed_of_processEvents hs (Bool.not_eq_false _ ▸ hne)] at hover
          cases hover
        exact (ih hbefore).processEvents hok hs hover
    | drain =>
        cases hstep
        exact Announces.drain (ih hover)

/-- Along a run whose buffers meet the condition the consumer holds the keys of the tree
whenever the list has been drained, unless a read overflowed. -/
theorem view_eq_keys (w : WinWatcher) (tree : DirTree) (c : WinSession)
    (h : (Machine.ofStep (started tree) (step w)).Reach (Sound w) c)
    (hover : c.subscription.mOverflowed = false) :
    deliver c.view c.subscription.mEvents.drain.1.events = c.subscription.mTree.keys := by
  ext k
  rw [mem_deliver_drain, (agrees_of_reach h hover).told, Finset.mem_coe]

/-! ### Buffers -/

/-- The names of a watcher of `r` that ignores nothing. -/
def asciiName : Str → Str
  | low :: _ :: rest => low :: asciiName rest
  | _ => []

def plainWatcher : WinWatcher where
  mDir := [114]
  isIgnored _ := false
  mIgnorePaths := []
  mIgnoreGlobs := []
  utf16ToUtf8 := asciiName

/-- The file `r\\b`. -/
def fileTree : DirTree := (DirTree.new [114]).add [114, 92, 98] 0 false

/-- `r\\a` is there as a file, and nothing else. -/
def fileAnswers (offset : Nat) : RecordAnswers :=
  if offset = 0 then
    { attributes := some ⟨0x80, ⟨0, 0⟩⟩
      found := none
      scan := .present ⟨0x80, ⟨0, 0⟩⟩ .nil }
  else ⟨none, none, .absent⟩

theorem twoRecords_told : (started fileTree).subscription.BufferTold plainWatcher fileAnswers
    twoRecords 30 (started fileTree).view := by
  intro loop hloop _
  have hprocessed : loop.processed = [⟨0, 1, [97, 0]⟩, ⟨16, 2, [98, 0]⟩] := by
    have hmap : (processRecords 30 twoRecords 30).map RecordLoop.processed =
        some [⟨0, 1, [97, 0]⟩, ⟨16, 2, [98, 0]⟩] := by decide
    rw [hloop] at hmap
    exact Option.some.inj hmap
  rw [hprocessed]
  refine ⟨⟨?_, ?_, ?_⟩, ⟨?_, ?_, ?_⟩, ?_⟩
  · rintro _ path hpending
    cases hpending
  · rintro _ haction
    cases haction
  · rintro _ haction
    cases haction
  · rintro _ path hpending
    cases hpending
  · rintro _ _
    show ∀ e ∈ _, ¬ _
    decide
  · rintro _ haction
    cases haction
  · rintro path hpending
    cases hpending

/-- `r\\b` becomes `r\\a`. -/
def renamePair : Str :=
  [16, 0, 0, 0, 4, 0, 0, 0, 2, 0, 0, 0, 98, 0, 0, 0,
    0, 0, 0, 0, 5, 0, 0, 0, 2, 0, 0, 0, 97, 0]

/-- The second half of a rename finds a file. -/
def replaceAnswers (offset : Nat) : RecordAnswers :=
  if offset = 16 then ⟨some ⟨0x80, ⟨0, 0⟩⟩, none, .absent⟩ else ⟨none, none, .absent⟩

theorem renamePair_told : (started fileTree).subscription.BufferTold plainWatcher replaceAnswers
    renamePair 30 (started fileTree).view := by
  intro loop hloop _
  have hprocessed : loop.processed = [⟨0, 4, [98, 0]⟩, ⟨16, 5, [97, 0]⟩] := by
    have hmap : (processRecords 30 renamePair 30).map RecordLoop.processed =
        some [⟨0, 4, [98, 0]⟩, ⟨16, 5, [97, 0]⟩] := by decide
    rw [hloop] at hmap
    exact Option.some.inj hmap
  rw [hprocessed]
  refine ⟨⟨?_, ?_, ?_⟩, ⟨?_, ?_, ?_⟩, ?_⟩
  · rintro _ path hpending
    cases hpending
  · rintro _ haction
    cases haction
  · rintro _ haction
    cases haction
  · rintro (hignored | hflushes) path hpending
    · cases hignored
    · exact absurd hflushes (by decide)
  · rintro _ haction
    cases haction
  · rintro _ _ oldPath hpending
    cases hpending
    -- the source is the file, and nothing else is indexed
    refine ⟨?_, by decide, fun e hfind => ?_, fun _ hnone => absurd hnone (by decide)⟩
    · show ∀ e ∈ _, ¬ _
      decide
    · have hothers : ((WinState.processEvent plainWatcher (replaceAnswers 0) ⟨0, 4, [98, 0]⟩
          (started fileTree).subscription.rotated).others [114, 92, 98]).keys = ∅ := by decide
      have hkey := DirTree.mem_keys.mpr ⟨e, hfind, rfl⟩
      exact absurd (hothers ▸ hkey : e.key ∈ (∅ : Finset EventKey)) (Finset.notMem_empty _)
  · rintro path hpending
    cases hpending

/-- A rename. -/
theorem view_eq_keys_rename :
    ∃ c, (started fileTree).step plainWatcher (.buffer replaceAnswers renamePair 30) = some c ∧
      deliver c.view c.subscription.mEvents.drain.1.events = c.subscription.mTree.keys := by
  have htaken : ((started fileTree).step plainWatcher (.buffer replaceAnswers renamePair 30)).map
      (fun c => c.subscription.mOverflowed) = some false := by decide
  obtain ⟨c, hc, hover⟩ := Option.map_eq_some_iff.mp htaken
  have hreach : (Machine.ofStep (started fileTree) (step plainWatcher)).Reach
      (Sound plainWatcher) c :=
    .step (a := .buffer replaceAnswers renamePair 30) (.init rfl) renamePair_told hc
  exact ⟨c, hc, view_eq_keys plainWatcher fileTree c hreach hover⟩

/-! ### A target that is still there -/

/-- The files `r\\a` and `r\\b`. -/
def twoFiles : DirTree := fileTree.add [114, 92, 97] 0 false

/-- `r\\a` becomes `r\\b`, and `r\\b` is removed. -/
def replaceThenRemove : Str :=
  [16, 0, 0, 0, 4, 0, 0, 0, 2, 0, 0, 0, 97, 0, 0, 0,
    16, 0, 0, 0, 5, 0, 0, 0, 2, 0, 0, 0, 98, 0, 0, 0,
    0, 0, 0, 0, 2, 0, 0, 0, 2, 0, 0, 0, 98, 0]

/-- The consumer is told of the removal of `r\\a` only, and the tree is empty. -/
theorem replaced_target_stays :
    ¬ ∀ (w : WinWatcher) (tree : DirTree) (c : WinSession),
      (Machine.ofStep (started tree) (step w)).Reachable c →
        c.subscription.mOverflowed = false →
          deliver c.view c.subscription.mEvents.drain.1.events = c.subscription.mTree.keys := by
  intro h
  have htaken : ((started twoFiles).step plainWatcher
      (.buffer replaceAnswers replaceThenRemove 46)).map (fun c =>
        (c.subscription.mOverflowed,
          decide (([114, 92, 98], EntryKind.File) ∈
            deliver c.view c.subscription.mEvents.drain.1.events),
          decide (([114, 92, 98], EntryKind.File) ∈ c.subscription.mTree.keys))) =
      some (false, true, false) := by decide
  obtain ⟨c, hc, hresult⟩ := Option.map_eq_some_iff.mp htaken
  simp only [Prod.mk.injEq, decide_eq_true_eq, decide_eq_false_iff_not] at hresult
  obtain ⟨hover, hheld, hgone⟩ := hresult
  have hreach : (Machine.ofStep (started twoFiles) (step plainWatcher)).Reachable c :=
    .step (a := .buffer replaceAnswers replaceThenRemove 46) (.init rfl) trivial hc
  exact hgone (h plainWatcher twoFiles c hreach hover ▸ hheld)

end WinSession

end NativeWatcher
