import NativeWatcher.Lib.FiniteMap
import NativeWatcher.Path
import Mathlib.Data.List.Induction

/-!
# `DirTree`: the in-memory directory tree

A map from paths to entries, with the bulk operations on whole subtrees. Every
entry is stored under its own path; the structure carries that fact.
-/

namespace NativeWatcher

open Hierarchy

structure DirEntry where
  path : Str
  mtime : UInt64
  isDir : Bool
deriving DecidableEq, Repr

/-- `entry.path = newPath + entry.path.substr(oldPath.size())`. -/
def DirEntry.moved (oldPath newPath : Str) (e : DirEntry) : DirEntry :=
  { e with path := relocate oldPath newPath e.path }

/-- The test of the subtree loops: `first == path || first.rfind(path + DIR_SEP, 0) == 0`.
`DIR_SEP` is a slash but on Windows. -/
def atOrBelow (path key : Str) (sep : UInt8 := slash) : Bool :=
  key == path || (path ++ [sep]).isPrefixOf key

theorem atOrBelow_iff {path key : Str} {sep : UInt8} :
    atOrBelow path key sep = true ↔ Under sep path key := by
  rw [atOrBelow, Bool.or_eq_true, beq_iff_eq, List.isPrefixOf_iff_prefix]
  rfl

structure DirTree where
  root : Str
  isComplete : Bool
  entries : FiniteMap Str DirEntry
  keyed : ∀ p e, entries.lookup p = some e → e.path = p

namespace DirTree

/-- `DirTree(root)`. -/
def new (root : Str) : DirTree where
  root := root
  isComplete := false
  entries := ∅
  keyed := by
    intro p e h
    rw [AList.lookup_empty] at h
    cases h

def find (t : DirTree) (path : Str) : Option DirEntry := t.entries.lookup path

def add (t : DirTree) (path : Str) (mtime : UInt64) (isDir : Bool) : DirTree where
  root := t.root
  isComplete := t.isComplete
  entries := t.entries.emplace path ⟨path, mtime, isDir⟩
  keyed := by
    intro p e h
    rw [FiniteMap.lookup_emplace] at h
    split at h
    next heq =>
        cases hf : t.entries.lookup path with
        | none =>
            rw [hf] at h
            cases h
            exact heq.symm
        | some e' =>
            rw [hf] at h
            rw [← Option.some.inj h, heq]
            exact t.keyed path e' hf
    next => exact t.keyed p e h

/-- The tree after `update`. -/
def setMtime (t : DirTree) (path : Str) (mtime : UInt64) : DirTree where
  root := t.root
  isComplete := t.isComplete
  entries := t.entries.adjust path fun e => { e with mtime := mtime }
  keyed := by
    intro p e h
    rw [FiniteMap.lookup_adjust] at h
    split at h
    next heq =>
        obtain ⟨e', he', rfl⟩ := Option.map_eq_some_iff.mp h
        rw [heq]
        exact t.keyed path e' he'
    next => exact t.keyed p e h

def update (t : DirTree) (path : Str) (mtime : UInt64) : Bool × DirTree :=
  ((t.find path).isSome, t.setMtime path mtime)

/-- `if (!update(path, mtime)) add(path, mtime, isDir)`. -/
def updateOrAdd (t : DirTree) (path : Str) (mtime : UInt64) (isDir : Bool) : DirTree :=
  let (found, t') := t.update path mtime
  if found then t' else t'.add path mtime isDir

/-- `entries.erase` of every key that fails the test. -/
def keep (t : DirTree) (test : Str → Bool) : DirTree where
  root := t.root
  isComplete := t.isComplete
  entries := t.entries.filterKeys test
  keyed := by
    intro p e h
    rw [FiniteMap.lookup_filterKeys] at h
    split at h
    next => exact t.keyed p e h
    next => cases h

def extract (t : DirTree) (path : Str) (sep : UInt8 := slash) : List DirEntry × DirTree :=
  ((t.entries.pairs.filter fun b => atOrBelow path b.1 sep).map Prod.snd,
    t.keep fun p => !atOrBelow path p sep)

/-- `entries.insert_or_assign(entry.path, entry)`. -/
def assign (t : DirTree) (entry : DirEntry) : DirTree where
  root := t.root
  isComplete := t.isComplete
  entries := AList.insert entry.path entry t.entries
  keyed := by
    intro p e h
    rw [FiniteMap.lookup_insert_eq] at h
    split at h
    next heq =>
        rw [← Option.some.inj h]
        exact heq.symm
    next => exact t.keyed p e h

def restore (t : DirTree) (restored : List DirEntry) (oldPath newPath : Str) : DirTree :=
  restored.foldl (fun t e => t.assign (e.moved oldPath newPath)) t

def rename (t : DirTree) (oldPath newPath : Str) (sep : UInt8 := slash) : DirTree :=
  let moved := (t.entries.pairs.filter fun b => atOrBelow oldPath b.1 sep).map fun b =>
    b.2.moved oldPath newPath
  moved.foldl assign (t.keep fun p => !atOrBelow oldPath p sep)

/-- `found && found->isDir`. -/
def isDirAt (t : DirTree) (path : Str) : Bool := (t.find path).any DirEntry.isDir

/-- `erase(path)`, after every entry below a directory. -/
def remove (t : DirTree) (path : Str) (sep : UInt8 := slash) : DirTree :=
  if t.isDirAt path then t.keep fun p => !atOrBelow path p sep
  else t.keep fun p => p != path

/-! ## Lookup after each operation -/

theorem path_of_find {t : DirTree} {p : Str} {e : DirEntry} (h : t.find p = some e) :
    e.path = p :=
  t.keyed p e h

@[simp] theorem find_new (root p : Str) : (new root).find p = none :=
  AList.lookup_empty p

theorem find_add (t : DirTree) (path : Str) (mtime : UInt64) (isDir : Bool) (p : Str) :
    (t.add path mtime isDir).find p =
      if p = path then some ((t.find path).getD ⟨path, mtime, isDir⟩) else t.find p :=
  FiniteMap.lookup_emplace ..

theorem find_update (t : DirTree) (path : Str) (mtime : UInt64) (p : Str) :
    (t.update path mtime).2.find p =
      if p = path then (t.find path).map fun e => { e with mtime := mtime }
      else t.find p :=
  FiniteMap.lookup_adjust ..

theorem find_updateOrAdd (t : DirTree) (path : Str) (mtime : UInt64) (isDir : Bool)
    (p : Str) :
    (t.updateOrAdd path mtime isDir).find p =
      if p = path then
        some ⟨path, mtime, ((t.find path).map DirEntry.isDir).getD isDir⟩
      else t.find p := by
  show (if (t.find path).isSome then (t.update path mtime).2
    else (t.update path mtime).2.add path mtime isDir).find p = _
  cases h : t.find path with
  | none =>
      rw [if_neg (by simp), find_add, find_update, find_update, if_pos rfl, h]
      by_cases hp : p = path <;> simp [hp]
  | some e =>
      rw [if_pos Option.isSome_some, find_update, h]
      have hpath : e.path = path := t.keyed path e h
      by_cases hp : p = path
      · simp [hp, ← hpath]
      · simp [hp]

theorem find_keep (t : DirTree) (test : Str → Bool) (p : Str) :
    (t.keep test).find p = if test p then t.find p else none :=
  FiniteMap.lookup_filterKeys ..

theorem find_assign (t : DirTree) (e : DirEntry) (p : Str) :
    (t.assign e).find p = if p = e.path then some e else t.find p :=
  FiniteMap.lookup_insert_eq ..

theorem find_remove (t : DirTree) (path p : Str) {sep : UInt8} :
    (t.remove path sep).find p =
      if p = path ∨ (t.isDirAt path = true ∧ Under sep path p) then none
      else t.find p := by
  unfold remove
  cases hd : t.isDirAt path with
  | false =>
      rw [if_neg (by simp), find_keep]
      by_cases hp : p = path <;> simp [hp]
  | true =>
      rw [if_pos rfl, find_keep]
      by_cases hp : Under sep path p
      · simp [atOrBelow_iff.mpr hp, hp]
      · have hne : p ≠ path := fun heq => hp (Or.inl heq)
        have hfalse : atOrBelow path p sep = false :=
          Bool.eq_false_iff.mpr fun h => hp (atOrBelow_iff.mp h)
        simp [hfalse, hp, hne]

/-! ## Extraction and restoration -/

theorem find_extract (t : DirTree) (path p : Str) {sep : UInt8} :
    (t.extract path sep).2.find p = if Under sep path p then none else t.find p := by
  show (t.keep fun p => !atOrBelow path p sep).find p = _
  rw [find_keep]
  by_cases hp : Under sep path p
  · rw [if_pos hp, if_neg (by simp [atOrBelow_iff.mpr hp])]
  · have hfalse : atOrBelow path p sep = false :=
      Bool.eq_false_iff.mpr fun h => hp (atOrBelow_iff.mp h)
    rw [if_neg hp, if_pos (by simp [hfalse])]

theorem mem_extract {t : DirTree} {path : Str} {sep : UInt8} {e : DirEntry} :
    e ∈ (t.extract path sep).1 ↔ t.find e.path = some e ∧ Under sep path e.path := by
  show e ∈ (t.entries.pairs.filter fun b => atOrBelow path b.1 sep).map Prod.snd ↔ _
  rw [List.mem_map]
  constructor
  · rintro ⟨⟨p, e'⟩, hmem, rfl⟩
    obtain ⟨hpair, htest⟩ := List.mem_filter.mp hmem
    have hfind : t.find p = some e' := FiniteMap.mem_pairs.mp hpair
    rw [path_of_find hfind]
    exact ⟨hfind, atOrBelow_iff.mp htest⟩
  · rintro ⟨hfind, hunder⟩
    exact ⟨(e.path, e), List.mem_filter.mpr
      ⟨FiniteMap.mem_pairs.mpr hfind, atOrBelow_iff.mpr hunder⟩, rfl⟩

theorem nodup_extract (t : DirTree) (path : Str) (sep : UInt8 := slash) :
    ((t.extract path sep).1.map DirEntry.path).Nodup := by
  show (((t.entries.pairs.filter fun b => atOrBelow path b.1 sep).map Prod.snd).map
    DirEntry.path).Nodup
  rw [List.map_map]
  have hkeys : (t.entries.pairs.filter fun b => atOrBelow path b.1 sep).map
      (DirEntry.path ∘ Prod.snd) =
      (t.entries.pairs.filter fun b => atOrBelow path b.1 sep).map Prod.fst := by
    apply List.map_congr_left
    rintro ⟨p, e⟩ hmem
    exact t.keyed p e (FiniteMap.mem_pairs.mp (List.mem_filter.mp hmem).1)
  rw [hkeys]
  exact (FiniteMap.pairs_keys_nodup _).sublist (List.filter_sublist.map _)

theorem restore_cons (t : DirTree) (e : DirEntry) (es : List DirEntry)
    (oldPath newPath : Str) :
    t.restore (e :: es) oldPath newPath =
      (t.assign (e.moved oldPath newPath)).restore es oldPath newPath := rfl

/-- A path that no restored entry moves to keeps what it had. -/
theorem find_restore_of_forall_ne {es : List DirEntry} {oldPath newPath p : Str}
    (h : ∀ e ∈ es, p ≠ relocate oldPath newPath e.path) (t : DirTree) :
    (t.restore es oldPath newPath).find p = t.find p := by
  induction es generalizing t with
  | nil => rfl
  | cons e es ih =>
      rw [restore_cons, ih (fun e' he' => h e' (List.mem_cons_of_mem _ he')),
        find_assign]
      exact if_neg (h e List.mem_cons_self)

/-- Distinct entries from below one path arrive at distinct places. -/
theorem find_restore_of_mem {es : List DirEntry} {oldPath newPath : Str} {sep : UInt8}
    {e : DirEntry} (hnodup : (es.map DirEntry.path).Nodup)
    (hunder : ∀ e ∈ es, Under sep oldPath e.path) (he : e ∈ es) (t : DirTree) :
    (t.restore es oldPath newPath).find (relocate oldPath newPath e.path) =
      some (e.moved oldPath newPath) := by
  induction es generalizing t with
  | nil => exact absurd he List.not_mem_nil
  | cons e' es ih =>
      rw [List.map_cons, List.nodup_cons] at hnodup
      rw [restore_cons]
      rcases List.mem_cons.mp he with rfl | hmem
      · rw [find_restore_of_forall_ne, find_assign]
        · exact if_pos rfl
        · intro e' he' heq
          have hpath : e.path = e'.path :=
            relocate_inj (hunder e List.mem_cons_self)
              (hunder e' (List.mem_cons_of_mem _ he')) heq
          exact hnodup.1 (hpath ▸ List.mem_map_of_mem he')
      · exact ih hnodup.2 (fun d hd => hunder d (List.mem_cons_of_mem _ hd)) hmem _

end DirTree

end NativeWatcher
