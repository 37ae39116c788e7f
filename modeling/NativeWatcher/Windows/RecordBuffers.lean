import NativeWatcher.Lib.Words
import NativeWatcher.Windows.ViewAgreement

/-!
# The buffers of `ReadDirectoryChangesW`

A read leaves a chain of `FILE_NOTIFY_INFORMATION`: each record gives the offset of the next
one behind its name and the bytes that align it, the last gives 0. The buffer is used again,
so that behind `numBytes` there is what earlier reads have left.
-/

namespace NativeWatcher

open Words

/-- A change as the system writes it. -/
structure ChangeRecord where
  action : UInt32
  fileName : Str
  /-- Up to the next record. -/
  padding : Str
  even : fileName.length % 2 = 0
  short : fileNameOffset + fileName.length + padding.length < 256 ^ 4

namespace ChangeRecord

def size (r : ChangeRecord) : Nat := fileNameOffset + r.fileName.length + r.padding.length

/-- The record with its `NextEntryOffset`. -/
def record (r : ChangeRecord) (next : Nat) : Str :=
  Words.bytes 4 next ++ (Words.bytes 4 r.action.toNat ++
    (Words.bytes 4 r.fileName.length ++ (r.fileName ++ r.padding)))

def chain : List ChangeRecord → Str
  | [] => []
  | [r] => r.record 0
  | r :: r' :: rs => r.record r.size ++ chain (r' :: rs)

/-- What `processEvent` is to read of them, from an offset on. -/
def located : Nat → List ChangeRecord → List NotifyRecord
  | _, [] => []
  | base, r :: rs => ⟨base, r.action.toNat, r.fileName⟩ :: located (base + r.size) rs

theorem length_record (r : ChangeRecord) (next : Nat) : (r.record next).length = r.size := by
  simp only [record, List.length_append, Words.length_bytes, size, fileNameOffset]
  omega

end ChangeRecord

/-! ## One record -/

/-- A `DWORD` behind whatever is in front of it. -/
theorem dwordAt_bytes {n : Nat} (h : n < 256 ^ 4) (before rest : Str) :
    dwordAt (before ++ (Words.bytes 4 n ++ rest)) before.length = n := by
  have hget : ∀ i, (before ++ (Words.bytes 4 n ++ rest)).getD (before.length + i) 0 =
      (Words.bytes 4 n ++ rest).getD i 0 := by
    intro i
    rw [List.getD_eq_getElem?_getD, List.getElem?_append_right (Nat.le_add_right ..),
      Nat.add_sub_cancel_left, List.getD_eq_getElem?_getD]
  have hfirst := hget 0
  have hvalue := value_bytes h
  rw [Nat.add_zero] at hfirst
  rw [dwordAt, hfirst, hget, hget, hget]
  simp only [Words.bytes, List.cons_append, List.nil_append, List.getD_cons_zero,
    List.getD_cons_succ, value_cons] at hvalue ⊢
  have hnil : value [] = 0 := rfl
  omega

namespace ChangeRecord

variable (r : ChangeRecord) {next : Nat} (before rest : Str)

theorem nextEntryOffset_record (hnext : next < 256 ^ 4) :
    nextEntryOffset (before ++ (r.record next ++ rest)) before.length = next := by
  rw [nextEntryOffset, record, List.append_assoc, dwordAt_bytes hnext]

theorem fileNameLength_record :
    fileNameLength (before ++ (r.record next ++ rest)) before.length = r.fileName.length := by
  have hshort : r.fileName.length < 256 ^ 4 := by
    have := r.short
    omega
  have hbefore : before ++ (r.record next ++ rest) =
      (before ++ Words.bytes 4 next ++ Words.bytes 4 r.action.toNat) ++
        (Words.bytes 4 r.fileName.length ++ (r.fileName ++ r.padding ++ rest)) := by
    simp only [record, List.append_assoc]
  have hlength : (before ++ Words.bytes 4 next ++ Words.bytes 4 r.action.toNat).length =
      before.length + 8 := by
    simp only [List.length_append, Words.length_bytes]
  rw [fileNameLength, hbefore, ← hlength, dwordAt_bytes hshort]

theorem recordAt_record :
    recordAt (before ++ (r.record next ++ rest)) before.length =
      ⟨before.length, r.action.toNat, r.fileName⟩ := by
  have haction : dwordAt (before ++ (r.record next ++ rest)) (before.length + 4) =
      r.action.toNat := by
    have hbefore : before ++ (r.record next ++ rest) = (before ++ Words.bytes 4 next) ++
        (Words.bytes 4 r.action.toNat ++
          (Words.bytes 4 r.fileName.length ++ (r.fileName ++ r.padding ++ rest))) := by
      simp only [record, List.append_assoc]
    have hlength : (before ++ Words.bytes 4 next).length = before.length + 4 := by
      rw [List.length_append, Words.length_bytes]
    rw [hbefore, ← hlength, dwordAt_bytes r.action.toNat_lt]
  have hname : substr (before ++ (r.record next ++ rest)) (before.length + fileNameOffset)
      r.fileName.length = r.fileName := by
    have hbefore : before ++ (r.record next ++ rest) =
        (before ++ Words.bytes 4 next ++ Words.bytes 4 r.action.toNat ++
          Words.bytes 4 r.fileName.length) ++ (r.fileName ++ (r.padding ++ rest)) := by
      simp only [record, List.append_assoc]
    have hlength : (before ++ Words.bytes 4 next ++ Words.bytes 4 r.action.toNat ++
        Words.bytes 4 r.fileName.length).length = before.length + fileNameOffset := by
      simp only [List.length_append, Words.length_bytes, fileNameOffset]
    rw [substr, hbefore, List.drop_left' hlength, List.take_left]
  rw [recordAt, fileNameLength_record, haction, hname]

theorem size_pos : 0 < r.size := by
  unfold size fileNameOffset
  omega

theorem length_chain_pos {rs : List ChangeRecord} (hrs : rs ≠ []) : 0 < (chain rs).length := by
  cases rs with
  | nil => exact absurd rfl hrs
  | cons r rs =>
      cases rs with
      | nil =>
          rw [chain, length_record]
          exact r.size_pos
      | cons r' rs =>
          rw [chain, List.length_append, length_record]
          exact Nat.lt_of_lt_of_le r.size_pos (Nat.le_add_right ..)

end ChangeRecord

/-! ## The loop -/

/-- One turn of the loop over a record that fits. -/
theorem recordLoop_record (r : ChangeRecord) (next numBytes : Nat) (before rest : Str)
    (hnext : next < 256 ^ 4) (hfits : before.length + r.size ≤ numBytes) (fuel : Nat)
    (out : RecordLoop) :
    ∃ mid : RecordLoop,
      mid.processed = out.processed ++ [⟨before.length, r.action.toNat, r.fileName⟩] ∧
      mid.overflowed = out.overflowed ∧
      recordLoop (fuel + 1) (before ++ (r.record next ++ rest)) numBytes before.length out =
        if next = 0 then some mid
        else if next < fileNameOffset + r.fileName.length ∨ next ≥ numBytes - before.length then
          some mid.failOverflow
        else recordLoop fuel (before ++ (r.record next ++ rest)) numBytes (before.length + next)
          mid := by
  have hsize : r.size = fileNameOffset + r.fileName.length + r.padding.length := rfl
  have heven := r.even
  have hlt : before.length < numBytes :=
    Nat.lt_of_lt_of_le (Nat.lt_add_of_pos_right r.size_pos) hfits
  have hheader : ¬ numBytes - before.length < fileNameOffset := by omega
  have hname : ¬ (r.fileName.length % 2 ≠ 0 ∨
      fileNameOffset + r.fileName.length > numBytes - before.length) := by omega
  rw [recordLoop, if_pos hlt]
  dsimp only
  rw [if_neg hheader, recordSize, r.fileNameLength_record, if_neg hname,
    r.nextEntryOffset_record before rest hnext]
  refine ⟨((out.read (before.length + 8) 4).processEvent (before ++ (r.record next ++ rest))
    before.length).read before.length 4, ?_, rfl, rfl⟩
  show out.processed ++ [recordAt _ _] = _
  rw [r.recordAt_record]

/-- The loop hands on every record of the chain. -/
theorem recordLoop_chain {rs : List ChangeRecord} (hrs : rs ≠ []) (before stale : Str) {fuel : Nat}
    (hfuel : (ChangeRecord.chain rs).length ≤ fuel) (out : RecordLoop) :
    ∃ result, recordLoop fuel (before ++ (ChangeRecord.chain rs ++ stale))
        (before.length + (ChangeRecord.chain rs).length) before.length out = some result ∧
      result.processed = out.processed ++ ChangeRecord.located before.length rs ∧
      result.overflowed = out.overflowed := by
  induction rs generalizing before fuel out with
  | nil => exact absurd rfl hrs
  | cons r rs ih =>
      have hpos := ChangeRecord.length_chain_pos hrs
      obtain ⟨fuel, rfl⟩ := Nat.exists_eq_succ_of_ne_zero (Nat.ne_of_gt (hpos.trans_le hfuel))
      cases rs with
      | nil =>
          obtain ⟨mid, hprocessed, hover, hrun⟩ := recordLoop_record r 0 _ before stale
            (by decide) (Nat.le_refl _) fuel out
          rw [if_pos rfl] at hrun
          refine ⟨mid, ?_, hprocessed, hover⟩
          rw [ChangeRecord.chain, ChangeRecord.length_record]
          exact hrun
      | cons r' rs =>
          have hrest := ChangeRecord.length_chain_pos (List.cons_ne_nil r' rs)
          have hshort : r.size < 256 ^ 4 := r.short
          have hlength : (ChangeRecord.chain (r :: r' :: rs)).length =
              r.size + (ChangeRecord.chain (r' :: rs)).length := by
            rw [ChangeRecord.chain, List.length_append, ChangeRecord.length_record]
          rw [hlength] at hfuel ⊢
          obtain ⟨mid, hprocessed, hover, hrun⟩ := recordLoop_record r r.size
            (before.length + (r.size + (ChangeRecord.chain (r' :: rs)).length)) before
            (ChangeRecord.chain (r' :: rs) ++ stale) hshort (by omega) fuel out
          have hnotlast : r.size ≠ 0 := Nat.ne_of_gt r.size_pos
          have hlink : ¬ (r.size < fileNameOffset + r.fileName.length ∨
              r.size ≥ before.length + (r.size + (ChangeRecord.chain (r' :: rs)).length) -
                before.length) := by
            have hsize : r.size = fileNameOffset + r.fileName.length + r.padding.length := rfl
            omega
          rw [if_neg hnotlast, if_neg hlink] at hrun
          have hsize : (before ++ r.record r.size).length = before.length + r.size := by
            rw [List.length_append, ChangeRecord.length_record]
          have hfuel' : (ChangeRecord.chain (r' :: rs)).length ≤ fuel := by
            have hpositive := r.size_pos
            omega
          obtain ⟨result, hresult, hprocessed', hover'⟩ :=
            ih (List.cons_ne_nil r' rs) (before ++ r.record r.size) hfuel' mid
          rw [hsize, Nat.add_assoc, List.append_assoc] at hresult
          refine ⟨result, ?_, ?_, hover'.trans hover⟩
          · rw [ChangeRecord.chain, List.append_assoc]
            exact hrun.trans hresult
          · rw [hprocessed', hprocessed, hsize, List.append_assoc]
            rfl

/-- Of what the system has written nothing is lost: every change is processed once and in
order, and nothing is taken for an overflow. -/
theorem WinState.processEvents_chain (w : WinWatcher) (answers : Nat → RecordAnswers)
    (rs : List ChangeRecord) (stale : Str) (s : WinState) (hrs : rs ≠ []) :
    s.processEvents w answers (ChangeRecord.chain rs ++ stale) (ChangeRecord.chain rs).length =
      some { (processAll w answers (ChangeRecord.located 0 rs) s.rotated).flushPendingRename with
        mPreviousRemovedPaths := ∅ } := by
  obtain ⟨result, hrun, hprocessed, hover⟩ :=
    recordLoop_chain hrs [] stale (Nat.le_refl _) RecordLoop.start
  have hpos : (ChangeRecord.chain rs).length ≠ 0 :=
    Nat.ne_of_gt (ChangeRecord.length_chain_pos hrs)
  have hsize : ¬ (ChangeRecord.chain rs).length > (ChangeRecord.chain rs ++ stale).length := by
    rw [List.length_append]
    omega
  have hloop : processRecords (ChangeRecord.chain rs).length (ChangeRecord.chain rs ++ stale)
      (ChangeRecord.chain rs).length = some result := by
    rw [processRecords, if_neg hpos, if_neg hsize]
    simpa using hrun
  rw [WinState.processEvents, if_neg (not_or.mpr ⟨hpos, hsize⟩), hloop, Option.map_some]
  have hnone : result.overflowed = false := hover
  dsimp only
  rw [hnone, hprocessed]
  rfl

/-- `b` is removed, and `a` is added. -/
def removeThenAdd : List ChangeRecord :=
  [⟨2, [98, 0], [0, 0], by decide, by decide⟩, ⟨1, [97, 0], [], by decide, by decide⟩]

theorem WinState.processEvents_chain_two :
    (ChangeRecord.chain removeThenAdd).length = 30 ∧
      ChangeRecord.located 0 removeThenAdd = [⟨0, 2, [98, 0]⟩, ⟨16, 1, [97, 0]⟩] ∧
      (WinSession.started WinSession.fileTree).subscription.processEvents WinSession.plainWatcher
          WinSession.fileAnswers (ChangeRecord.chain removeThenAdd ++ [255])
          (ChangeRecord.chain removeThenAdd).length =
        some { (processAll WinSession.plainWatcher WinSession.fileAnswers
          (ChangeRecord.located 0 removeThenAdd)
          (WinSession.started WinSession.fileTree).subscription.rotated).flushPendingRename with
            mPreviousRemovedPaths := ∅ } :=
  ⟨rfl, rfl, processEvents_chain _ _ _ _ _ (List.cons_ne_nil _ _)⟩

end NativeWatcher
