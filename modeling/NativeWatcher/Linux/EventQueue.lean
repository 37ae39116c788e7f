import NativeWatcher.Lib.Words
import NativeWatcher.Linux.HandleSubscription
import NativeWatcher.Tree.Serialise

/-!
# The queue of the kernel

What `read` puts into the buffer of `handleEvents`: one `struct inotify_event` behind the
other, each with four words of 32 bits and `len` bytes for the name. The loop reads them by
a pointer that goes on by `sizeof(*event) + event->len`.
-/

namespace NativeWatcher

open Words

/-- `name` in memory: a C string and the NUL bytes behind it. -/
structure PaddedName where
  name : Str
  nulls : Nat
  no_nul : ∀ b ∈ name, b ≠ 0
  nulls_pos : 0 < nulls
  short : name.length + nulls < 256 ^ 4

/-- An event as the kernel queues it. A `wd` of -1 is the word `2 ^ 32 - 1`. -/
structure QueuedEvent where
  wd : UInt32
  mask : UInt32
  cookie : UInt32
  name : Option PaddedName

namespace PaddedName

def len (n : PaddedName) : Nat := n.name.length + n.nulls

def bytes (n : PaddedName) : Str := n.name ++ List.replicate n.nulls 0

theorem length_bytes (n : PaddedName) : n.bytes.length = n.len := by
  rw [bytes, List.length_append, List.length_replicate, len]

theorem cString_bytes (n : PaddedName) (rest : Str) : cString (n.bytes ++ rest) = n.name := by
  obtain ⟨k, hk⟩ := Nat.exists_eq_succ_of_ne_zero n.nulls_pos.ne'
  rw [bytes, hk, List.replicate_succ, List.append_assoc, cString, List.takeWhile_append_of_pos]
  · simp
  · intro b hb
    simpa using n.no_nul b hb

end PaddedName

/-- `sizeof(struct inotify_event)`. -/
def headerSize : Nat := 16

namespace QueuedEvent

def len (e : QueuedEvent) : Nat := e.name.elim 0 PaddedName.len

def bytes (e : QueuedEvent) : Str :=
  Words.bytes 4 e.wd.toNat ++ (Words.bytes 4 e.mask.toNat ++
    (Words.bytes 4 e.cookie.toNat ++ (Words.bytes 4 e.len ++ e.name.elim [] PaddedName.bytes)))

/-- What `handleEvents` makes of it. -/
def event (e : QueuedEvent) : InotifyEvent :=
  ⟨e.wd.toNat, e.mask, e.cookie, e.name.map PaddedName.name⟩

end QueuedEvent

/-! ## Reading -/

/-- The event that `ptr` points to, and its `len`. -/
def readEvent (buf : Str) : InotifyEvent × Nat :=
  let (wd, buf) := Words.read 4 buf
  let (mask, buf) := Words.read 4 buf
  let (cookie, buf) := Words.read 4 buf
  let (len, name) := Words.read 4 buf
  (⟨wd, .ofNat mask, .ofNat cookie, if 0 < len then some (cString name) else none⟩, len)

/-- `ptr += sizeof(*event) + event->len`. -/
def nextEvent (buf : Str) : Str := buf.drop (headerSize + (readEvent buf).2)

/-! ## Round trip -/

namespace QueuedEvent

variable (e : QueuedEvent) (rest : Str)

theorem len_lt : e.len < 256 ^ 4 := by
  unfold len
  cases e.name with
  | none => decide
  | some n => exact n.short

theorem length_bytes : e.bytes.length = headerSize + e.len := by
  unfold bytes len headerSize
  cases e.name with
  | none => simp
  | some n => simp [n.length_bytes]; omega

theorem eq_nil_of_flatMap_bytes {es : List QueuedEvent} (h : es.flatMap bytes = []) : es = [] := by
  refine List.eq_nil_iff_forall_not_mem.mpr fun e he => ?_
  have hempty : e.bytes.length = 0 := by rw [List.flatMap_eq_nil_iff.mp h e he, List.length_nil]
  rw [length_bytes, headerSize] at hempty
  omega

theorem read_word (w : UInt32) : Words.read 4 (Words.bytes 4 w.toNat ++ rest) = (w.toNat, rest) :=
  read_bytes_append w.toNat_lt rest

theorem readEvent_bytes : readEvent (e.bytes ++ rest) = (e.event, e.len) := by
  have hname : (if 0 < e.len then some (cString (e.name.elim [] PaddedName.bytes ++ rest))
      else none) = e.name.map PaddedName.name := by
    unfold len
    cases e.name with
    | none => rfl
    | some n =>
        have hlen : 0 < n.len := Nat.lt_of_lt_of_le n.nulls_pos (Nat.le_add_left ..)
        show (if 0 < n.len then some (cString (n.bytes ++ rest)) else none) = some n.name
        rw [if_pos hlen, n.cString_bytes]
  simp only [readEvent, bytes, List.append_assoc, read_word, read_bytes_append e.len_lt]
  rw [hname, UInt32.ofNat_toNat, UInt32.ofNat_toNat, event]

theorem nextEvent_bytes : nextEvent (e.bytes ++ rest) = rest := by
  rw [nextEvent, readEvent_bytes, ← length_bytes, List.drop_left]

end QueuedEvent

end NativeWatcher
