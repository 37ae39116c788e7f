import NativeWatcher.Event.Announced
import NativeWatcher.Event.Reports
import NativeWatcher.Tree.Keys

/-!
# A list that follows a tree

Entries of the tree may wait aside, neither in the tree nor withdrawn. The list follows
the tree if the consumer will hold its keys, and beyond them none but keys that wait. The
key of one that waits may have been created anew and withdrawn since, so that nothing is
said of whether the consumer holds it.
-/

namespace NativeWatcher

open Hierarchy

namespace EventList

variable {l : EventList} {V : Finset EventKey} {K : Set EventKey} {t : DirTree}
  {P P' X : Set EventKey} {k : EventKey} {path : Str}

theorem announces_told (h : ∀ k, ¬ l.StaleDelete V k) : l.Announces V {k | l.Told V k} :=
  ⟨fun _ => Iff.rfl, h⟩

/-- The keys in `P` wait, and those in `X` are hidden from the consumer. -/
structure Follows (l : EventList) (V : Finset EventKey) (t : DirTree) (P X : Set EventKey) :
    Prop where
  grounded : ∀ k, ¬ l.StaleDelete V k
  told : ∀ k ∈ t.keys, k ∉ X → l.Told V k
  sound : ∀ k, l.Told V k → k ∈ t.keys ∨ k ∈ P

namespace Follows

theorem of_announces (h : l.Announces V K) (htold : ∀ k ∈ t.keys, k ∉ X → k ∈ K)
    (hsound : ∀ k ∈ K, k ∈ t.keys ∨ k ∈ P) : l.Follows V t P X where
  grounded := h.grounded
  told k hk hx := (h.told k).mpr (htold k hk hx)
  sound k hk := hsound k ((h.told k).mp hk)

theorem announces (h : l.Follows V t P X) : l.Announces V {k | l.Told V k} :=
  announces_told h.grounded

/-- Nothing waits, and nothing is hidden. -/
theorem told_iff (h : l.Follows V t ∅ ∅) (k : EventKey) : l.Told V k ↔ k ∈ t.keys :=
  ⟨fun hk => (h.sound k hk).resolve_right (Set.notMem_empty k),
    fun hk => h.told k hk (Set.notMem_empty k)⟩

theorem congr {t' : DirTree} (h : l.Follows V t P X) (hk : ∀ k, k ∈ t'.keys ↔ k ∈ t.keys) :
    l.Follows V t' P X where
  grounded := h.grounded
  told k hk' := h.told k ((hk k).mp hk')
  sound k hk' := (h.sound k hk').imp_left (hk k).mpr

theorem mono (h : l.Follows V t P X) (hsub : ∀ k ∈ P, k ∈ t.keys ∨ k ∈ P') :
    l.Follows V t P' X where
  grounded := h.grounded
  told := h.told
  sound k hk := (h.sound k hk).elim Or.inl (hsub k)

/-- Nothing that is hidden is in the tree. -/
theorem reveal (h : l.Follows V t P X) (hclear : ∀ k ∈ t.keys, k ∉ X) : l.Follows V t P ∅ where
  grounded := h.grounded
  told k hk _ := h.told k hk (hclear k hk)
  sound := h.sound

theorem update (h : l.Follows V t P X) (k : EventKey) :
    (l.apply (.update k)).Follows V t P X :=
  of_announces (h.announces.update k) h.told h.sound

/-- A key is announced as its entry is made. -/
theorem create {mtime : UInt64} {isDir : Bool} (h : l.Follows V t P X)
    (hnew : t.find path = none) :
    (l.apply (.create (path, entryKind isDir))).Follows V (t.add path mtime isDir) P X := by
  apply of_announces (h.announces.create _)
  · intro k hk hx
    rcases (DirTree.mem_keys_add hnew).mp hk with rfl | hk
    · exact Set.mem_insert ..
    · exact Set.mem_insert_of_mem _ (h.told k hk hx)
  · rintro k (rfl | hk)
    · exact Or.inl ((DirTree.mem_keys_add hnew).mpr (Or.inl rfl))
    · exact (h.sound k hk).imp_left fun hk => (DirTree.mem_keys_add hnew).mpr (Or.inr hk)

/-- What is at or below a path is taken out and withdrawn. -/
theorem extract (h : l.Follows V t P ∅)
    (hstale : ∀ e ∈ (t.extract path).1, l.StaleCreate V e.key → e.key ∈ P) :
    (l.run ((t.extract path).1.map DirEntry.removal)).Follows V (t.extract path).2 P ∅ := by
  have hremovals : (t.extract path).1.map DirEntry.removal =
      ((t.extract path).1.map DirEntry.key).map .remove := by
    rw [List.map_map]
    rfl
  have hmem : ∀ k, k ∈ (t.extract path).1.map DirEntry.key ↔
      k ∈ t.keys ∧ Under slash path k.1 := fun k => List.mem_map.trans DirTree.mem_keys_extracted
  have hin : ∀ k ∈ (t.extract path).1.map DirEntry.key, l.Known V k := fun k hk =>
    h.announces.known_of_mem (h.told k ((hmem k).mp hk).1 (Set.notMem_empty k))
  rw [hremovals]
  apply of_announces (h.announces.run_removals (t.nodup_keys_extract path) hin)
  · intro k hk _
    obtain ⟨hk, hout⟩ := DirTree.mem_keys_extract.mp hk
    exact ⟨h.told k hk (Set.notMem_empty k), Or.inl fun hk => hout ((hmem k).mp hk).2⟩
  · rintro k ⟨hk, hrest⟩
    rcases h.sound k hk with ht | hp
    · rcases hrest with hrest | hrest
      · exact Or.inl (DirTree.mem_keys_extract.mpr ⟨ht, fun hu => hrest ((hmem k).mpr ⟨ht, hu⟩)⟩)
      · by_cases hunder : Under slash path k.1
        · obtain ⟨e, he, rfl⟩ := DirTree.mem_keys_extracted.mpr ⟨ht, hunder⟩
          exact Or.inr (hstale e he hrest)
        · exact Or.inl (DirTree.mem_keys_extract.mpr ⟨ht, hunder⟩)
    · exact Or.inr hp

/-- Entries stop waiting: those that the tree has nothing in place of are withdrawn. -/
theorem giveUp {es : List DirEntry} {ks : List EventKey} (h : l.Follows V t P ∅)
    (hnodup : ks.Nodup) (hks : ∀ k, k ∈ ks ↔ (∃ e ∈ es, e.key = k) ∧ k ∉ t.keys)
    (hwait : ∀ k ∈ P, k ∈ P' ∨ ∃ e ∈ es, e.key = k) (hknown : ∀ k ∈ ks, l.Known V k)
    (hstale : ∀ k ∈ ks, l.StaleCreate V k → k ∈ P') :
    (l.run (ks.map .remove)).Follows V t P' ∅ := by
  apply of_announces (h.announces.run_removals hnodup hknown)
  · intro k hk hx
    exact ⟨h.told k hk hx, Or.inl fun hmem => ((hks k).mp hmem).2 hk⟩
  · rintro k ⟨hk, hrest⟩
    rcases h.sound k hk with ht | hp
    · exact Or.inl ht
    · rcases hwait k hp with hp | he
      · exact Or.inr hp
      · by_cases ht : k ∈ t.keys
        · exact Or.inl ht
        · have hmem := (hks k).mpr ⟨he, ht⟩
          exact Or.inr (hstale k hmem (hrest.resolve_left fun hn => hn hmem))

end Follows

end EventList

end NativeWatcher
