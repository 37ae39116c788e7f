import NativeWatcher.Event.Announced
import NativeWatcher.Windows.ProcessEvent

/-!
# What `addPath` adds

The search below a path finds entries whatever the tree holds, and adds those that the
tree has nothing for. Each is announced as it is added.
-/

namespace NativeWatcher

open Hierarchy EventList

mutual

/-- The entries that the search comes across, in its order. -/
def PathScan.found (w : WinWatcher) (candidate : Str) : PathScan → List DirEntry
  | .absent => []
  | .present data listing =>
      if w.isIgnored candidate then []
      else if data.isSpecial then []
      else
        ⟨candidate, data.ftLastWriteTime.convert, data.isDirectory⟩ ::
          if data.isDirectory then listing.found w candidate else []

def PathScans.found (w : WinWatcher) (candidate : Str) : PathScans → List DirEntry
  | .nil => []
  | .cons name scan rest =>
      rest.found w candidate ++
        if name == [46] || name == [46, 46] then []
        else scan.found w (candidate ++ dirSep :: name)

end

namespace WinState

/-- An entry that was found. -/
def addFound (s : WinState) (e : DirEntry) : WinState :=
  if (s.mTree.find e.path).isSome then s
  else { s.emit [.create e.key] with mTree := s.mTree.add e.path e.mtime e.isDir }

mutual

/-- `addPath` is a loop over what is found. -/
theorem addPath_eq (w : WinWatcher) : ∀ (scan : PathScan) (candidate : Str) (s : WinState),
    addPath w candidate scan s = (scan.found w candidate).foldl addFound s
  | .absent, _, _ => rfl
  | .present data listing, candidate, s => by
      unfold addPath PathScan.found
      split
      · rfl
      · split
        · rfl
        · rw [List.foldl_cons]
          split
          · exact addListing_eq w listing candidate _
          · rfl

theorem addListing_eq (w : WinWatcher) : ∀ (listing : PathScans) (candidate : Str) (s : WinState),
    addListing w candidate listing s = (listing.found w candidate).foldl addFound s
  | .nil, _, _ => rfl
  | .cons name scan rest, candidate, s => by
      unfold addListing PathScans.found
      rw [List.foldl_append, addListing_eq w rest]
      split
      · rfl
      · exact addPath_eq w scan _ _

end

variable {s : WinState} {V : Finset EventKey} {A : Set EventKey}

theorem find_addFound (s : WinState) (e : DirEntry) (p : Str) :
    (s.addFound e).mTree.find p =
      (s.mTree.find p).or (if e.path = p then some e else none) := by
  unfold addFound
  by_cases hp : e.path = p
  · subst hp
    rw [if_pos rfl]
    cases hfind : s.mTree.find e.path with
    | some old =>
        rw [if_pos Option.isSome_some]
        exact hfind
    | none =>
        rw [if_neg (by simp)]
        show (s.mTree.add e.path e.mtime e.isDir).find e.path = _
        rw [DirTree.find_add, if_pos rfl, hfind]
        rfl
  · rw [if_neg hp, Option.or_none]
    split
    · rfl
    · exact (DirTree.find_add ..).trans (if_neg (Ne.symm hp))

/-- What the tree had, or what was found first. -/
theorem find_foldl_addFound (es : List DirEntry) (s : WinState) (p : Str) :
    (es.foldl addFound s).mTree.find p =
      (s.mTree.find p).or (es.find? fun e => e.path = p) := by
  induction es generalizing s with
  | nil => simp
  | cons e es ih =>
      rw [List.foldl_cons, ih, find_addFound, Option.or_assoc, List.find?_cons]
      by_cases hp : e.path = p
      · simp [hp]
      · simp [hp]

/-- Besides what else the consumer is told of, it is told of what is added. -/
theorem announces_foldl_addFound (es : List DirEntry)
    (h : s.mEvents.Announces V (A ∪ s.mTree.keys)) :
    (es.foldl addFound s).mEvents.Announces V (A ∪ (es.foldl addFound s).mTree.keys) := by
  induction es generalizing s with
  | nil => exact h
  | cons e es ih =>
      apply ih
      unfold addFound
      split
      · exact h
      next hnew =>
          rw [Option.not_isSome_iff_eq_none] at hnew
          apply (h.create e.key).congr
          intro k
          rw [Set.mem_insert_iff, Set.mem_union, Set.mem_union, Finset.mem_coe, Finset.mem_coe,
            DirTree.mem_keys_add hnew]
          exact or_left_comm

/-- The rest of the state stays as it is. -/
theorem foldl_addFound_frame (es : List DirEntry) (s : WinState) :
    (es.foldl addFound s).mPendingRenamePath = s.mPendingRenamePath ∧
      (es.foldl addFound s).mOverflowed = s.mOverflowed := by
  induction es generalizing s with
  | nil => exact ⟨rfl, rfl⟩
  | cons e es ih =>
      rw [List.foldl_cons]
      obtain ⟨hpending, hover⟩ := ih (s.addFound e)
      rw [hpending, hover]
      unfold addFound
      split
      · exact ⟨rfl, rfl⟩
      · exact ⟨rfl, rfl⟩

end WinState

end NativeWatcher
