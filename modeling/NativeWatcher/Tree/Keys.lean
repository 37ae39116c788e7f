import NativeWatcher.Event.NetEffect
import NativeWatcher.Tree.DirTree

/-!
# The keys of a tree

An entry of the tree is reported under its path and kind. The set of these keys is what
the tree and the event list have in common; here is what the operations on the tree do
to it.
-/

namespace NativeWatcher

open Hierarchy

/-- The key under which an entry is reported. -/
def DirEntry.key (e : DirEntry) : EventKey := (e.path, entryKind e.isDir)

/-- `mEvents.remove(entry.path, entryKind(entry.isDir))`. -/
def DirEntry.removal (e : DirEntry) : EventOp := .remove e.key

theorem DirEntry.key_eq_iff {e : DirEntry} {p : Str} {d : Bool} :
    e.key = (p, entryKind d) ↔ e.path = p ∧ e.isDir = d := by
  rw [DirEntry.key, Prod.mk.injEq, entryKind_inj]

namespace DirTree

/-- The set of `(entry.path, entryKind(entry.isDir))`. -/
def keys (t : DirTree) : Finset EventKey := (t.entries.pairs.map fun b => b.2.key).toFinset

variable {t : DirTree} {k : EventKey} {p path : Str} {e : DirEntry} {sep : UInt8}

theorem mem_keys : k ∈ t.keys ↔ ∃ e, t.find k.1 = some e ∧ e.key = k := by
  rw [keys, List.mem_toFinset, List.mem_map]
  constructor
  · rintro ⟨⟨p, e⟩, hmem, rfl⟩
    have hfind : t.find p = some e := FiniteMap.mem_pairs.mp hmem
    have hpath : e.key.1 = p := path_of_find hfind
    exact ⟨e, hpath ▸ hfind, rfl⟩
  · rintro ⟨e, hfind, rfl⟩
    exact ⟨(e.path, e), FiniteMap.mem_pairs.mpr hfind, rfl⟩

theorem key_mem_keys (h : t.find p = some e) : e.key ∈ t.keys := by
  apply mem_keys.mpr
  refine ⟨e, ?_, rfl⟩
  rw [DirEntry.key, path_of_find h]
  exact h

theorem mem_keys_of_find (h : t.find k.1 = some e) : k ∈ t.keys ↔ e.key = k := by
  rw [mem_keys, h]
  simp

theorem not_mem_keys_of_find (h : t.find k.1 = none) : k ∉ t.keys := by
  rw [mem_keys, h]
  simp

/-- A tree that has the entry of another at a path has its key. -/
theorem keys_congr {t' : DirTree} (h : t.find k.1 = t'.find k.1) : k ∈ t.keys ↔ k ∈ t'.keys := by
  rw [mem_keys, mem_keys, h]

/-- Two entries at a path have one key if they are of one kind. -/
theorem mem_keys_iff_of_kind {t' : DirTree} {e' : DirEntry} (h : t.find k.1 = some e)
    (h' : t'.find k.1 = some e') (hkind : e.isDir = e'.isDir) : k ∈ t.keys ↔ k ∈ t'.keys := by
  have hkey : e.key = e'.key := by
    rw [DirEntry.key, DirEntry.key, path_of_find h, path_of_find h', hkind]
  rw [mem_keys_of_find h, mem_keys_of_find h', hkey]

theorem mem_keys_add {mtime : UInt64} {isDir : Bool} (h : t.find path = none) :
    k ∈ (t.add path mtime isDir).keys ↔ k = (path, entryKind isDir) ∨ k ∈ t.keys := by
  by_cases hk : k.1 = path
  · have hno : k ∉ t.keys := by
      rw [mem_keys, hk, h]
      simp
    rw [or_iff_left hno, mem_keys, hk, find_add, if_pos rfl, h]
    constructor
    · rintro ⟨e, he, rfl⟩
      rw [← Option.some.inj he]
      rfl
    · rintro rfl
      exact ⟨_, rfl, rfl⟩
  · have hne : k ≠ (path, entryKind isDir) := by
      rintro rfl
      exact hk rfl
    rw [or_iff_right hne]
    apply keys_congr
    rw [find_add, if_neg hk]

@[simp] theorem mem_keys_update {mtime : UInt64} :
    k ∈ (t.update path mtime).2.keys ↔ k ∈ t.keys := by
  rw [mem_keys, mem_keys, find_update]
  by_cases hk : k.1 = path
  · rw [if_pos hk, hk]
    cases t.find path with
    | none => simp
    | some e => simp [DirEntry.key]
  · rw [if_neg hk]

theorem mem_keys_extract : k ∈ (t.extract path sep).2.keys ↔ k ∈ t.keys ∧ ¬ Under sep path k.1 := by
  rw [mem_keys, find_extract]
  by_cases hk : Under sep path k.1
  · rw [if_pos hk]
    simp [hk]
  · rw [if_neg hk, ← mem_keys, and_iff_left hk]

/-- The entries taken out are those whose keys the tree has lost. -/
theorem mem_keys_extracted :
    (∃ e ∈ (t.extract path sep).1, e.key = k) ↔ k ∈ t.keys ∧ Under sep path k.1 := by
  constructor
  · rintro ⟨e, he, rfl⟩
    obtain ⟨hfind, hunder⟩ := mem_extract.mp he
    exact ⟨key_mem_keys hfind, hunder⟩
  · rintro ⟨hk, hunder⟩
    obtain ⟨e, hfind, rfl⟩ := mem_keys.mp hk
    exact ⟨e, mem_extract.mpr ⟨hfind, hunder⟩, rfl⟩

theorem nodup_keys_extract (t : DirTree) (path : Str) (sep : UInt8 := slash) :
    ((t.extract path sep).1.map DirEntry.key).Nodup := by
  apply List.Nodup.of_map Prod.fst
  rw [List.map_map]
  exact nodup_extract t path sep

/-! ## The kind at a path -/

/-- The kind of the entry at a path. -/
def kindAt (t : DirTree) (p : Str) : Option Bool := (t.find p).map DirEntry.isDir

theorem mem_keys_iff_kindAt {t : DirTree} {p : Str} {d : Bool} :
    (p, entryKind d) ∈ t.keys ↔ t.kindAt p = some d := by
  rw [mem_keys, kindAt, Option.map_eq_some_iff]
  apply exists_congr
  intro e
  apply and_congr_right
  intro hfind
  rw [DirEntry.key_eq_iff, and_iff_right (path_of_find hfind)]

theorem kindAt_update (t : DirTree) (path : Str) (mtime : UInt64) (p : Str) :
    (t.update path mtime).2.kindAt p = t.kindAt p := by
  unfold kindAt
  rw [find_update]
  split
  next hp =>
      rw [hp, Option.map_map]
      rfl
  next => rfl

theorem kindAt_add (t : DirTree) (path : Str) (mtime : UInt64) (isDir : Bool) (p : Str) :
    (t.add path mtime isDir).kindAt p =
      (t.kindAt p).or (if p = path then some isDir else none) := by
  unfold kindAt
  rw [find_add]
  by_cases hp : p = path
  · subst hp
    rw [if_pos rfl, if_pos rfl]
    cases t.find p with
    | none => rfl
    | some e => rfl
  · rw [if_neg hp, if_neg hp, Option.or_none]

end DirTree

end NativeWatcher
