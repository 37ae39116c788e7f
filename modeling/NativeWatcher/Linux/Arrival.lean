import NativeWatcher.Event.Follows
import NativeWatcher.Linux.HandleSubscription

/-!
# The arrival of a move

The entries of a pending move leave the keys that they waited under and arrive below the
target. What the tree had there is dropped or overwritten without a word, an entry that
arrives at a path of the tree is only said to be updated, and an ignored one is put into the
tree though the consumer is not told.
-/

namespace NativeWatcher

open Hierarchy EventList

variable {W : Type} {w : InotifyWatcher W} {l : EventList} {V : Finset EventKey}
  {P P' : Set EventKey} {t : DirTree} {m : PendingInotifyMove} {path p : Str}

/-- The keys at or below a path that the consumer is not told of. -/
def hiddenBelow (w : InotifyWatcher W) (path : Str) : Set EventKey :=
  {k | w.isIgnored k.1 = true ∧ Under slash path k.1}

/-- The key that is announced for an entry of a move. -/
def movedKey (w : InotifyWatcher W) (t : DirTree) (oldPath path : Str) (e : DirEntry) :
    Option EventKey :=
  if w.isIgnored (relocate oldPath path e.path) then none
  else if (t.find path).isSome && (t.find (relocate oldPath path e.path)).isSome then none
  else some (e.moved oldPath path).key

theorem leaves_movedEntry (w : InotifyWatcher W) (t : DirTree) (cookie : UInt32)
    (oldPath path : Str) (e : DirEntry) :
    Announces.Leaves V e.key (movedKey w t oldPath path e)
      (movedEntry w t cookie oldPath path e) := by
  unfold movedEntry movedKey
  dsimp only
  cases w.isIgnored (relocate oldPath path e.path) with
  | true =>
      simp only [Bool.or_true, if_true]
      exact Announces.leaves_remove e.key
  | false =>
      cases (t.find path).isSome with
      | false =>
          simp only [Bool.or_false, Bool.false_and, Bool.false_eq_true, if_false]
          exact Announces.leaves_rename ..
      | true =>
          simp only [Bool.or_false, Bool.true_and, Bool.false_eq_true, if_true, if_false]
          cases (t.find (relocate oldPath path e.path)).isSome with
          | true =>
              simp only [if_true]
              exact Announces.leaves_remove_update e.key _
          | false =>
              simp only [Bool.false_eq_true, if_false]
              exact Announces.leaves_remove_create e.key _

theorem key_of_movedKey {oldPath : Str} {e : DirEntry} {k : EventKey}
    (h : movedKey w t oldPath path e = some k) : k = (e.moved oldPath path).key := by
  unfold movedKey at h
  split at h
  · cases h
  · split at h
    · cases h
    · exact (Option.some.inj h).symm

/-- The tree when the target has made room. -/
def clearedTarget (t : DirTree) (path : Str) (m : PendingInotifyMove) : DirTree :=
  if !m.entries.isEmpty && (t.find path).isSome then t.remove path else t

/-- What a move has to meet: `t` is the tree without its entries, and the keys in `P'` go on
waiting. -/
structure CarryTold (w : InotifyWatcher W) (l : EventList) (V : Finset EventKey) (t : DirTree)
    (P' : Set EventKey) (path : Str) (m : PendingInotifyMove) : Prop where
  /-- The consumer was told of what is withdrawn. -/
  known : ∀ e ∈ m.entries, l.Known V e.key
  /-- Where a key is in the tree again, its new creation outlives the withdrawal. -/
  reused : ∀ e ∈ m.entries, e.key ∈ t.keys → l.StaleCreate V e.key
  /-- No other was created in this batch though the consumer held it. -/
  fresh : ∀ e ∈ m.entries, l.StaleCreate V e.key → e.key ∈ t.keys ∨ e.key ∈ P'
  /-- None arrives at the key of one that is still to leave. -/
  apart : m.entries.Pairwise fun e e' => movedKey w t m.path path e ≠ some e'.key
  /-- What is only said to be updated was there with its kind. -/
  same : ∀ e ∈ m.entries, w.isIgnored (relocate m.path path e.path) = false →
    (t.find path).isSome → (t.find (relocate m.path path e.path)).isSome →
      (e.moved m.path path).key ∈ t.keys
  /-- What is dropped at the target, or overwritten, is replaced by an entry of its kind. -/
  kept : ∀ e, t.find e.path = some e →
    (clearedTarget t path m).find e.path = none ∨
        (∃ a ∈ m.entries, relocate m.path path a.path = e.path) →
      ∃ a ∈ m.entries, relocate m.path path a.path = e.path ∧ a.isDir = e.isDir

/-- The tree once the move has arrived. -/
def carriedTree (t : DirTree) (path : Str) (m : PendingInotifyMove) : DirTree :=
  (clearedTarget t path m).restore m.entries m.path path

theorem find_carriedTree_of_mem {e : DirEntry} (he : e ∈ m.entries) :
    (carriedTree t path m).find (relocate m.path path e.path) = some (e.moved m.path path) :=
  DirTree.find_restore_of_mem m.distinct m.below he _

theorem key_mem_carriedTree {e : DirEntry} (he : e ∈ m.entries) :
    (e.moved m.path path).key ∈ (carriedTree t path m).keys :=
  DirTree.key_mem_keys (find_carriedTree_of_mem he)

theorem find_of_find_clearedTarget {e : DirEntry} (h : (clearedTarget t path m).find p = some e) :
    t.find p = some e := by
  unfold clearedTarget at h
  split at h
  · rw [DirTree.find_remove] at h
    split at h
    · cases h
    · exact h
  · exact h

/-- An entry that arrived, or one of the tree. -/
theorem mem_keys_carriedTree {k : EventKey} (hk : k ∈ (carriedTree t path m).keys) :
    (∃ e ∈ m.entries, (e.moved m.path path).key = k) ∨ k ∈ t.keys := by
  obtain ⟨e, hfind, rfl⟩ := DirTree.mem_keys.mp hk
  by_cases harrives : ∃ a ∈ m.entries, relocate m.path path a.path = e.path
  · obtain ⟨a, ha, hpath⟩ := harrives
    have hmoved : (carriedTree t path m).find (relocate m.path path a.path) =
        some (a.moved m.path path) := find_carriedTree_of_mem ha
    rw [hpath] at hmoved
    exact Or.inl ⟨a, ha, congrArg DirEntry.key (Option.some.inj (hmoved.symm.trans hfind))⟩
  · right
    have hstays : (carriedTree t path m).find e.path = (clearedTarget t path m).find e.path :=
      DirTree.find_restore_of_forall_ne (fun a ha heq => harrives ⟨a, ha, heq.symm⟩) _
    exact DirTree.key_mem_keys (find_of_find_clearedTarget (hstays.symm.trans hfind))

theorem mem_keys_carriedTree_of_mem (hok : CarryTold w l V t P' path m) {k : EventKey}
    (hk : k ∈ t.keys) : k ∈ (carriedTree t path m).keys := by
  obtain ⟨e, hfind, rfl⟩ := DirTree.mem_keys.mp hk
  by_cases hdropped : (clearedTarget t path m).find e.path = none ∨
      ∃ a ∈ m.entries, relocate m.path path a.path = e.path
  · obtain ⟨a, ha, hpath, hkind⟩ := hok.kept e hfind hdropped
    have hkey : (a.moved m.path path).key = e.key := by
      rw [DirEntry.key, DirEntry.key, ← hpath, ← hkind]
      rfl
    exact hkey ▸ key_mem_carriedTree ha
  · push Not at hdropped
    obtain ⟨hcleared, hfree⟩ := hdropped
    obtain ⟨e', he'⟩ := Option.ne_none_iff_exists'.mp hcleared
    have hsame : e' = e := Option.some.inj ((find_of_find_clearedTarget he').symm.trans hfind)
    have hstays : (carriedTree t path m).find e.path = some e :=
      (DirTree.find_restore_of_forall_ne (fun a ha heq => hfree a ha heq.symm) _).trans
        (hsame ▸ he')
    exact DirTree.key_mem_keys hstays

theorem under_moved {e : DirEntry} (he : e ∈ m.entries) :
    Under slash path (relocate m.path path e.path) := (m.below e he).relocate

/-- A move keeps to the tree under its condition; what is ignored is hidden. -/
theorem follows_carry (cookie : UInt32) (h : l.Follows V t P ∅)
    (hP : ∀ k ∈ P, k ∈ P' ∨ ∃ e ∈ m.entries, e.key = k) (hok : CarryTold w l V t P' path m) :
    (l.run (m.entries.flatMap (movedEntry w t cookie m.path path))).Follows V
      (carriedTree t path m) P' (hiddenBelow w path) := by
  have hnodup : (m.entries.map DirEntry.key).Nodup := by
    apply List.Nodup.of_map Prod.fst
    rw [List.map_map]
    exact m.distinct
  apply Follows.of_announces (h.announces.carry (fun e _ => leaves_movedEntry w t cookie m.path path e)
    hnodup hok.apart hok.known)
  · intro k hk hvisible
    have hold : k ∈ t.keys → k ∈ {k | (l.Told V k ∧ ((∀ e ∈ m.entries, k ≠ e.key) ∨
        l.StaleCreate V k)) ∨ ∃ e ∈ m.entries, movedKey w t m.path path e = some k} := by
      intro hk
      refine Or.inl ⟨h.told k hk (Set.notMem_empty k), ?_⟩
      by_cases hleaves : ∀ e ∈ m.entries, k ≠ e.key
      · exact Or.inl hleaves
      · push Not at hleaves
        obtain ⟨e, he, rfl⟩ := hleaves
        exact Or.inr (hok.reused e he hk)
    rcases mem_keys_carriedTree hk with ⟨e, he, rfl⟩ | hk
    · have hclear : w.isIgnored (relocate m.path path e.path) = false :=
        Bool.eq_false_iff.mpr fun hi => hvisible ⟨hi, under_moved he⟩
      by_cases hthere : ((t.find path).isSome &&
          (t.find (relocate m.path path e.path)).isSome) = true
      · obtain ⟨htarget, hnew⟩ := Bool.and_eq_true_iff.mp hthere
        exact hold (hok.same e he hclear htarget hnew)
      · refine Or.inr ⟨e, he, ?_⟩
        rw [movedKey, hclear, if_neg Bool.false_ne_true, if_neg hthere]
    · exact hold hk
  · rintro k (⟨htold, hrest⟩ | ⟨e, he, hkey⟩)
    · by_cases ht : k ∈ t.keys
      · exact Or.inl (mem_keys_carriedTree_of_mem hok ht)
      · rcases hP k ((h.sound k htold).resolve_left ht) with hp | ⟨e, he, rfl⟩
        · exact Or.inr hp
        · rcases hrest with hrest | hrest
          · exact absurd rfl (hrest e he)
          · exact Or.inr ((hok.fresh e he hrest).resolve_left ht)
    · rw [key_of_movedKey hkey]
      exact Or.inl (key_mem_carriedTree he)

/-! ## A source that was not indexed -/

/-- What the arrival of a source without entries has to meet: `k` is the key that is withdrawn
for it. -/
structure UnindexedTold (l : EventList) (V : Finset EventKey) (t : DirTree) (k : EventKey)
    (path : Str) : Prop where
  /-- The consumer was told of it. -/
  known : l.Known V k
  /-- Where it is in the tree, its creation outlives the withdrawal. -/
  reused : k ∈ t.keys → l.StaleCreate V k
  /-- What is only said to be updated was there with its kind. -/
  same : (t.find path).isSome → (path, k.2) ∈ t.keys
  /-- Nothing below the target is dropped with it. -/
  kept : ∀ e, t.find e.path = some e → (t.remove path).find e.path = none → e.path = path

theorem find_remove_eq (hnew : t.find path = none) : (t.remove path).find p = t.find p := by
  have hdir : t.isDirAt path = false := by
    unfold DirTree.isDirAt
    rw [hnew]
    rfl
  rw [DirTree.find_remove]
  split
  next h =>
      rcases h with rfl | ⟨hd, _⟩
      · exact hnew.symm
      · rw [hdir] at hd
        cases hd
  next => rfl

theorem mem_keys_updateOrAdd_new {mtime : UInt64} {isDir : Bool} {k : EventKey}
    (hnew : t.find path = none) :
    k ∈ (t.updateOrAdd path mtime isDir).keys ↔ k = (path, entryKind isDir) ∨ k ∈ t.keys := by
  have hfind : ∀ p, (t.updateOrAdd path mtime isDir).find p = (t.add path mtime isDir).find p := by
    intro p
    rw [DirTree.find_updateOrAdd, DirTree.find_add, hnew]
    rfl
  exact (DirTree.keys_congr (hfind k.1)).trans (DirTree.mem_keys_add hnew)

theorem mem_keys_updateOrAdd_old {mtime : UInt64} {isDir : Bool} {k : EventKey}
    (hold : (t.find path).isSome) : k ∈ (t.updateOrAdd path mtime isDir).keys ↔ k ∈ t.keys := by
  have heq : t.updateOrAdd path mtime isDir = (t.update path mtime).2 := if_pos hold
  rw [heq]
  exact DirTree.mem_keys_update

/-- What is told of the arrival and what it does to the tree. -/
theorem follows_arriveUnindexed (cookie : UInt32) {oldPath : Str} {st : FileStat}
    {s : ScanState W} (h : (l.run s.calls).Follows V s.tree P ∅)
    (hok : UnindexedTold (l.run s.calls) V s.tree (oldPath, entryKind st.isDirectory) path)
    (mtime : UInt64) :
    (l.run (arriveUnindexed cookie oldPath path st s).calls).Follows V
      ((arriveUnindexed cookie oldPath path st s).tree.updateOrAdd path mtime st.isDirectory) P ∅ := by
  have hgone : (s.tree.remove path).find path = none :=
    (DirTree.find_remove ..).trans (if_pos (Or.inl rfl))
  have hkeys : ∀ k, k ∈ ((arriveUnindexed cookie oldPath path st s).tree.updateOrAdd path mtime
      st.isDirectory).keys ↔ k = (path, entryKind st.isDirectory) ∨ k ∈ (s.tree.remove path).keys :=
    fun k => mem_keys_updateOrAdd_new hgone
  have hstays : ∀ k ∈ s.tree.keys, k ≠ (oldPath, entryKind st.isDirectory) ∨
      (l.run s.calls).StaleCreate V k := by
    intro k hk
    by_cases hne : k = (oldPath, entryKind st.isDirectory)
    · exact Or.inr (hne ▸ hok.reused (hne ▸ hk))
    · exact Or.inl hne
  have hsub : ∀ k ∈ (s.tree.remove path).keys, k ∈ s.tree.keys := by
    intro k hk
    obtain ⟨e, hfind, hek⟩ := DirTree.mem_keys.mp hk
    rw [DirTree.find_remove] at hfind
    split at hfind
    · cases hfind
    · exact DirTree.mem_keys.mpr ⟨e, hfind, hek⟩
  unfold arriveUnindexed at hkeys ⊢
  dsimp only [ScanState.emit] at hkeys ⊢
  cases htarget : s.tree.find path with
  | some old =>
      -- The list is told of a removal and an update: what arrives has the key of what was there.
      have hsome : (s.tree.find path).isSome := by rw [htarget]; rfl
      have hsame := hok.same hsome
      rw [if_pos Option.isSome_some, run_append]
      apply Follows.of_announces ((h.announces.remove hok.known).update _)
      · intro k hk _
        have hin : k ∈ s.tree.keys := by
          rcases (hkeys k).mp hk with rfl | hk
          · exact hsame
          · exact hsub k hk
        exact ⟨h.told k hin (Set.notMem_empty k), hstays k hin⟩
      · rintro k ⟨htold, _⟩
        refine (h.sound k htold).imp_left fun hk => (hkeys k).mpr ?_
        obtain ⟨e, hfind, rfl⟩ := DirTree.mem_keys.mp hk
        by_cases hnone : (s.tree.remove path).find e.path = none
        · left
          have hat := hok.kept e hfind hnone
          obtain ⟨e', hfind', hkey⟩ := DirTree.mem_keys.mp hsame
          have hfindAt : s.tree.find path = some e := hat ▸ hfind
          have hee : e = e' := Option.some.inj (hfindAt.symm.trans hfind')
          rw [hee, hkey]
        · right
          have hkept : (s.tree.remove path).find e.path = s.tree.find e.path := by
            rw [DirTree.find_remove] at hnone ⊢
            split at hnone
            · exact absurd rfl hnone
            next hout => exact if_neg hout
          exact (DirTree.keys_congr hkept).mpr hk
  | none =>
      -- The destination was free: the list is told of a rename.
      rw [if_neg (by simp), run_append]
      apply Follows.of_announces (h.announces.rename _ hok.known)
      · intro k hk _
        rcases (hkeys k).mp hk with rfl | hk
        · exact Or.inr rfl
        · exact Or.inl ⟨h.told k (hsub k hk) (Set.notMem_empty k), hstays k (hsub k hk)⟩
      · rintro k (⟨htold, _⟩ | rfl)
        · refine (h.sound k htold).imp_left fun hk => (hkeys k).mpr (Or.inr ?_)
          exact (DirTree.keys_congr (find_remove_eq htarget)).mpr hk
        · exact Or.inl ((hkeys _).mpr (Or.inl rfl))

end NativeWatcher
