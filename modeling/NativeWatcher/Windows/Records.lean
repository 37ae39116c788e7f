import NativeWatcher.Path
import Mathlib.Logic.Relation
import Mathlib.Data.List.Pairwise

/-!
# The record loop of `processEvents`

A completed read leaves records that are chained by `NextEntryOffset`. The loop
notes every offset of the buffer it looks at, the records it hands to
`processEvent` and whether it reported an overflow.
-/

namespace NativeWatcher

/-! ## Records in a buffer -/

/-- `offsetof(FILE_NOTIFY_INFORMATION, FileName)`: three `DWORD`s come first. -/
def fileNameOffset : Nat := 12

/-- The little-endian `DWORD` at an offset. -/
def dwordAt (buffer : Str) (offset : Nat) : Nat :=
  (buffer.getD offset 0).toNat + 2 ^ 8 * (buffer.getD (offset + 1) 0).toNat +
    2 ^ 16 * (buffer.getD (offset + 2) 0).toNat +
    2 ^ 24 * (buffer.getD (offset + 3) 0).toNat

/-- The offsets of `size` bytes. -/
def offsets (base size : Nat) : List Nat := List.range' base size

/-- `info->NextEntryOffset`. -/
def nextEntryOffset (buffer : Str) (base : Nat) : Nat := dwordAt buffer base

/-- `info->FileNameLength`. -/
def fileNameLength (buffer : Str) (base : Nat) : Nat := dwordAt buffer (base + 8)

/-- `offsetof(FILE_NOTIFY_INFORMATION, FileName) + info->FileNameLength`; a `DWORD` more
than 12 does not leave a `size_t` of 64 bits. -/
def recordSize (buffer : Str) (base : Nat) : Nat :=
  fileNameOffset + fileNameLength buffer base

/-- What `processEvent` reads of a record. -/
structure NotifyRecord where
  offset : Nat
  action : Nat
  fileName : Str
deriving DecidableEq, Repr

def recordAt (buffer : Str) (base : Nat) : NotifyRecord where
  offset := base
  action := dwordAt buffer (base + 4)
  fileName := substr buffer (base + fileNameOffset) (fileNameLength buffer base)

/-! ## The loop -/

structure RecordLoop where
  /-- The offsets that were read, the latest last. -/
  reads : List Nat
  /-- The records passed to `processEvent`. -/
  processed : List NotifyRecord
  /-- Whether `failOverflow` was called. -/
  overflowed : Bool
deriving DecidableEq, Repr

namespace RecordLoop

def start : RecordLoop := ⟨[], [], false⟩

def read (out : RecordLoop) (base size : Nat) : RecordLoop :=
  { out with reads := out.reads ++ offsets base size }

def failOverflow (out : RecordLoop) : RecordLoop := { out with overflowed := true }

/-- `processEvent(info)`: the length of the name, the name and the action are read. -/
def processEvent (out : RecordLoop) (buffer : Str) (base : Nat) : RecordLoop :=
  { ((out.read (base + 8) 4).read (base + fileNameOffset)
      (fileNameLength buffer base)).read (base + 4) 4 with
    processed := out.processed ++ [recordAt buffer base] }

end RecordLoop

/-- `while (base < end)`, with at most `fuel` turns; `none` when they do not suffice. -/
def recordLoop : Nat → Str → Nat → Nat → RecordLoop → Option RecordLoop
  | 0, _, _, _, _ => none
  | fuel + 1, buffer, numBytes, base, out =>
      if base < numBytes then
        let remaining := numBytes - base
        if remaining < fileNameOffset then some out.failOverflow
        else
          let out := out.read (base + 8) 4
          if fileNameLength buffer base % 2 ≠ 0 ∨ recordSize buffer base > remaining then
            some out.failOverflow
          else
            let out := (out.processEvent buffer base).read base 4
            if nextEntryOffset buffer base = 0 then some out
            else if nextEntryOffset buffer base < recordSize buffer base ∨
                nextEntryOffset buffer base ≥ remaining then
              some out.failOverflow
            else recordLoop fuel buffer numBytes (base + nextEntryOffset buffer base) out
      else some out

/-- From the check of `numBytes` to the end of the loop. -/
def processRecords (fuel : Nat) (buffer : Str) (numBytes : Nat) : Option RecordLoop :=
  if numBytes = 0 then some RecordLoop.start.failOverflow
  else if numBytes > buffer.length then some RecordLoop.start.failOverflow
  else recordLoop fuel buffer numBytes 0 RecordLoop.start

/-! ## The chain of a buffer -/

section Chain

variable (buffer : Str) (numBytes : Nat)

/-- The header and a name of even length fit in the bytes from `base` on. -/
def RecordFits (base : Nat) : Prop :=
  fileNameOffset ≤ numBytes - base ∧ fileNameLength buffer base % 2 = 0 ∧
    recordSize buffer base ≤ numBytes - base

/-- A well-formed link from a record to the next one. -/
def RecordLink (base next : Nat) : Prop :=
  RecordFits buffer numBytes base ∧ nextEntryOffset buffer base ≠ 0 ∧
    recordSize buffer base ≤ nextEntryOffset buffer base ∧
    nextEntryOffset buffer base < numBytes - base ∧
    next = base + nextEntryOffset buffer base

/-- The chain is broken at `base`. -/
def RecordMalformed (base : Nat) : Prop :=
  ¬ RecordFits buffer numBytes base ∨
    (nextEntryOffset buffer base ≠ 0 ∧
      (nextEntryOffset buffer base < recordSize buffer base ∨
        numBytes - base ≤ nextEntryOffset buffer base))

/-- The offsets the chain leads to. -/
def OnChain : Nat → Nat → Prop := Relation.ReflTransGen (RecordLink buffer numBytes)

end Chain

variable {buffer : Str} {numBytes base off : Nat}

/-- Where no link leaves, the chain stays. -/
theorem onChain_iff_of_not_link (h : ∀ next, ¬ RecordLink buffer numBytes base next) :
    OnChain buffer numBytes base off ↔ off = base := by
  rw [OnChain, Relation.ReflTransGen.cases_head_iff]
  constructor
  · rintro (heq | ⟨next, hlink, -⟩)
    · exact heq.symm
    · exact absurd hlink (h next)
  · rintro rfl
    exact Or.inl rfl

/-- A record has one next record. -/
theorem onChain_iff_of_link {next : Nat} (h : RecordLink buffer numBytes base next) :
    OnChain buffer numBytes base off ↔ off = base ∨ OnChain buffer numBytes next off := by
  unfold OnChain
  rw [Relation.ReflTransGen.cases_head_iff]
  constructor
  · rintro (heq | ⟨next', hlink, hrest⟩)
    · exact Or.inl heq.symm
    · have hnext : next' = next := hlink.2.2.2.2.trans h.2.2.2.2.symm
      exact Or.inr (hnext ▸ hrest)
  · rintro (rfl | hrest)
    · exact Or.inl rfl
    · exact Or.inr ⟨next, h, hrest⟩

theorem RecordLink.lt {next : Nat} (h : RecordLink buffer numBytes base next) :
    base < next ∧ next < numBytes := by
  obtain ⟨-, hne, -, hlt, rfl⟩ := h
  omega

/-! ## What the loop does -/

/-- Where the loop stands in the buffer, and what it has done when it ends. -/
structure LoopSpec (buffer : Str) (numBytes base : Nat) (out result : RecordLoop) : Prop where
  reads : ∀ i ∈ result.reads, i ∈ out.reads ∨ i < numBytes
  processed : ∃ os : List Nat, os.Pairwise (· < ·) ∧
    (∀ o, o ∈ os ↔ OnChain buffer numBytes base o ∧ RecordFits buffer numBytes o) ∧
    result.processed = out.processed ++ os.map (recordAt buffer)
  overflowed : result.overflowed = true ↔ out.overflowed = true ∨
    ∃ o, OnChain buffer numBytes base o ∧ RecordMalformed buffer numBytes o

theorem mem_offsets {i size : Nat} : i ∈ offsets base size ↔ base ≤ i ∧ i < base + size := by
  rw [offsets, List.mem_range'_1]

/-- Every offset of a record that fits lies in the buffer. -/
theorem mem_reads_processEvent (hfit : RecordFits buffer numBytes base) {out : RecordLoop}
    {i : Nat} (h : i ∈ ((out.processEvent buffer base).read base 4).reads) :
    i ∈ out.reads ∨ i < numBytes := by
  obtain ⟨hheader, -, hsize⟩ := hfit
  simp only [RecordLoop.processEvent, RecordLoop.read, List.mem_append, mem_offsets,
    recordSize, fileNameOffset] at h hheader hsize
  rcases h with ((((h | h) | h) | h) | h)
  · exact Or.inl h
  all_goals
    right
    omega

/-- The loop ends before it handed on the record at `base`. -/
theorem LoopSpec.unfit {out result : RecordLoop}
    (hfit : ¬ RecordFits buffer numBytes base)
    (hreads : ∀ i ∈ result.reads, i ∈ out.reads ∨ i < numBytes)
    (hprocessed : result.processed = out.processed) (hover : result.overflowed = true) :
    LoopSpec buffer numBytes base out result := by
  have hchain : ∀ o, OnChain buffer numBytes base o ↔ o = base := fun o =>
    onChain_iff_of_not_link fun _ hlink => hfit hlink.1
  refine ⟨hreads, ⟨[], List.Pairwise.nil, ?_, by simp [hprocessed]⟩, ?_⟩
  · intro o
    rw [hchain]
    constructor
    · exact fun h => absurd h List.not_mem_nil
    · rintro ⟨rfl, h⟩
      exact absurd h hfit
  · rw [hover]
    exact iff_of_true rfl (Or.inr ⟨base, (hchain base).mpr rfl, Or.inl hfit⟩)

/-- The record at `base` is the last one: no link leaves it. -/
theorem LoopSpec.last {out result : RecordLoop} (hfit : RecordFits buffer numBytes base)
    (hlink : ∀ next, ¬ RecordLink buffer numBytes base next)
    (hreads : ∀ i ∈ result.reads, i ∈ out.reads ∨ i < numBytes)
    (hprocessed : result.processed = out.processed ++ [recordAt buffer base])
    (hover : result.overflowed = true ↔
      out.overflowed = true ∨ RecordMalformed buffer numBytes base) :
    LoopSpec buffer numBytes base out result := by
  have hchain : ∀ o, OnChain buffer numBytes base o ↔ o = base := fun o =>
    onChain_iff_of_not_link hlink
  refine ⟨hreads, ⟨[base], List.pairwise_singleton _ _, ?_, hprocessed⟩, ?_⟩
  · intro o
    rw [hchain, List.mem_singleton]
    constructor
    · rintro rfl
      exact ⟨rfl, hfit⟩
    · exact And.left
  · rw [hover]
    apply or_congr_right
    constructor
    · exact fun h => ⟨base, (hchain base).mpr rfl, h⟩
    · rintro ⟨o, ho, h⟩
      rwa [(hchain o).mp ho] at h

/-- The record at `base` was handed on and the loop went on at the next one. -/
theorem LoopSpec.link {out mid result : RecordLoop} {next : Nat}
    (hlink : RecordLink buffer numBytes base next)
    (hreads : ∀ i ∈ mid.reads, i ∈ out.reads ∨ i < numBytes)
    (hprocessed : mid.processed = out.processed ++ [recordAt buffer base])
    (hover : mid.overflowed = out.overflowed)
    (hrest : LoopSpec buffer numBytes next mid result) :
    LoopSpec buffer numBytes base out result := by
  obtain ⟨hreads', ⟨os, hsorted, hos, hprocessed'⟩, hover'⟩ := hrest
  have hmal : ¬ RecordMalformed buffer numBytes base := by
    obtain ⟨hfit, -, hsize, hlt, -⟩ := hlink
    rintro (h | ⟨-, h | h⟩)
    · exact h hfit
    · omega
    · omega
  -- Everything the chain leads to from `next` on lies behind `base`.
  have hbehind : ∀ o, OnChain buffer numBytes next o → base < o := by
    intro o ho
    induction ho with
    | refl => exact hlink.lt.1
    | tail _ hl ih => exact ih.trans hl.lt.1
  refine ⟨?_, ⟨base :: os, ?_, ?_, ?_⟩, ?_⟩
  · intro i hi
    rcases hreads' i hi with h | h
    · exact hreads i h
    · exact Or.inr h
  · exact List.pairwise_cons.mpr ⟨fun o ho => hbehind o ((hos o).mp ho).1, hsorted⟩
  · intro o
    rw [List.mem_cons, hos, onChain_iff_of_link hlink]
    constructor
    · rintro (rfl | ⟨hchain, hfit⟩)
      · exact ⟨Or.inl rfl, hlink.1⟩
      · exact ⟨Or.inr hchain, hfit⟩
    · rintro ⟨rfl | hchain, hfit⟩
      · exact Or.inl rfl
      · exact Or.inr ⟨hchain, hfit⟩
  · rw [hprocessed', hprocessed, List.append_assoc]
    rfl
  · rw [hover', hover]
    apply or_congr_right
    constructor
    · rintro ⟨o, hchain, h⟩
      exact ⟨o, (onChain_iff_of_link hlink).mpr (Or.inr hchain), h⟩
    · rintro ⟨o, hchain, h⟩
      rcases (onChain_iff_of_link hlink).mp hchain with rfl | hchain
      · exact absurd h hmal
      · exact ⟨o, hchain, h⟩

/-- **The loop follows the chain.** Every turn moves `base` on, so as many turns as
there are bytes left suffice. -/
theorem recordLoop_spec {fuel : Nat} (hbase : base < numBytes)
    (hfuel : numBytes - base ≤ fuel) (out : RecordLoop) :
    ∃ result, recordLoop fuel buffer numBytes base out = some result ∧
      LoopSpec buffer numBytes base out result := by
  induction fuel generalizing base out with
  | zero => omega
  | succ fuel ih =>
      have hlength : ∀ i ∈ (out.read (base + 8) 4).reads,
          fileNameOffset ≤ numBytes - base → i ∈ out.reads ∨ i < numBytes := by
        intro i hi hheader
        rcases List.mem_append.mp hi with h | h
        · exact Or.inl h
        · rw [mem_offsets] at h
          unfold fileNameOffset at hheader
          omega
      rw [recordLoop, if_pos hbase]
      dsimp only
      -- The header is not in the buffer: nothing of the record is read.
      by_cases hheader : numBytes - base < fileNameOffset
      · rw [if_pos hheader]
        exact ⟨_, rfl, .unfit (fun h => absurd h.1 (by omega)) (fun i hi => Or.inl hi)
          rfl rfl⟩
      rw [if_neg hheader]
      -- The name is not in it: only the header is read.
      by_cases hname : fileNameLength buffer base % 2 ≠ 0 ∨
          recordSize buffer base > numBytes - base
      · rw [if_pos hname]
        refine ⟨_, rfl, .unfit ?_ (fun i hi => hlength i hi (by omega)) rfl rfl⟩
        rintro ⟨-, heven, hsize⟩
        rcases hname with h | h
        · exact h heven
        · omega
      rw [if_neg hname]
      have hfit : RecordFits buffer numBytes base := by
        unfold RecordFits
        omega
      have hreads : ∀ i ∈ (((out.read (base + 8) 4).processEvent buffer base).read base
          4).reads, i ∈ out.reads ∨ i < numBytes := by
        intro i hi
        rcases mem_reads_processEvent hfit hi with h | h
        · exact hlength i h hfit.1
        · exact Or.inr h
      -- The record is handed on, and its link ends the chain, leaves the buffer or is followed.
      by_cases hzero : nextEntryOffset buffer base = 0
      · rw [if_pos hzero]
        refine ⟨_, rfl, .last hfit (fun _ hlink => hlink.2.1 hzero) hreads rfl ?_⟩
        refine (or_iff_left ?_).symm
        rintro (h | h)
        · exact h hfit
        · exact h.1 hzero
      rw [if_neg hzero]
      by_cases hnext : nextEntryOffset buffer base < recordSize buffer base ∨
          nextEntryOffset buffer base ≥ numBytes - base
      · rw [if_pos hnext]
        refine ⟨_, rfl, .last hfit ?_ hreads rfl ?_⟩
        · rintro next ⟨-, -, hsize, hlt, -⟩
          omega
        · exact iff_of_true rfl (Or.inr (Or.inr ⟨hzero, hnext⟩))
      · rw [if_neg hnext]
        have hlink : RecordLink buffer numBytes base (base + nextEntryOffset buffer base) :=
          ⟨hfit, hzero, by omega, by omega, rfl⟩
        have hrecord : fileNameOffset ≤ recordSize buffer base := Nat.le_add_right ..
        obtain ⟨result, hrun, hspec⟩ := ih hlink.lt.2
          (by unfold fileNameOffset at hrecord; omega)
          (((out.read (base + 8) 4).processEvent buffer base).read base 4)
        exact ⟨result, hrun, hspec.link hlink hreads rfl rfl⟩

/-- **Reading a buffer is safe and exact.** With any number of turns from `numBytes` on
the loop ends; it has looked only below `numBytes`, has handed on the records of the
chain that fit, once each and in their order, and has reported an overflow just when the
chain is broken. -/
theorem processRecords_exact (buffer : Str) (numBytes fuel : Nat) (hpos : 0 < numBytes)
    (hsize : numBytes ≤ buffer.length) (hfuel : numBytes ≤ fuel) :
    ∃ result, processRecords fuel buffer numBytes = some result ∧
      (∀ i ∈ result.reads, i < numBytes) ∧
      (∃ os : List Nat, os.Pairwise (· < ·) ∧
        (∀ o, o ∈ os ↔ OnChain buffer numBytes 0 o ∧ RecordFits buffer numBytes o) ∧
        result.processed = os.map (recordAt buffer)) ∧
      (result.overflowed = true ↔
        ∃ o, OnChain buffer numBytes 0 o ∧ RecordMalformed buffer numBytes o) := by
  have hloop : ∃ result, recordLoop fuel buffer numBytes 0 RecordLoop.start = some result ∧
      LoopSpec buffer numBytes 0 RecordLoop.start result := recordLoop_spec hpos (by omega) _
  obtain ⟨result, hrun, hreads, hprocessed, hover⟩ := hloop
  refine ⟨result, ?_, ?_, ?_, ?_⟩
  · rw [processRecords, if_neg (by omega), if_neg (by omega)]
    exact hrun
  · intro i hi
    rcases hreads i hi with h | h
    · exact absurd h List.not_mem_nil
    · exact h
  · exact hprocessed
  · rw [hover]
    exact or_iff_right (by simp [RecordLoop.start])

/-- An addition of `a`, and a removal of `b` after two bytes of padding. -/
def twoRecords : Str :=
  [16, 0, 0, 0, 1, 0, 0, 0, 2, 0, 0, 0, 97, 0, 0, 0,
    0, 0, 0, 0, 2, 0, 0, 0, 2, 0, 0, 0, 98, 0]

theorem processRecords_exact_two :
    ∃ result, processRecords 30 twoRecords 30 = some result ∧
      (∀ i ∈ result.reads, i < 30) ∧
      (∃ os : List Nat, os.Pairwise (· < ·) ∧
        (∀ o, o ∈ os ↔ OnChain twoRecords 30 0 o ∧ RecordFits twoRecords 30 o) ∧
        result.processed = os.map (recordAt twoRecords)) ∧
      (result.overflowed = true ↔
        ∃ o, OnChain twoRecords 30 0 o ∧ RecordMalformed twoRecords 30 o) :=
  processRecords_exact twoRecords 30 30 (by decide) (by decide) (by decide)

example : (processRecords 30 twoRecords 30).map (fun out => (out.processed, out.overflowed)) =
    some ([⟨0, 1, [97, 0]⟩, ⟨16, 2, [98, 0]⟩], false) := by decide

end NativeWatcher
