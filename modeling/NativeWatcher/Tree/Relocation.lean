import NativeWatcher.Tree.DirTree

/-!
# Moving a subtree

`extract` takes a subtree out of the tree, and `restore` puts it in elsewhere; `rename` does
both under one lock. Between paths neither of which lies below the other, and onto a place
where nothing is, the two relocate that subtree and nothing else, and a move back undoes it.
-/

namespace NativeWatcher

open Hierarchy

namespace DirTree

variable {t t' : DirTree} {old new p : Str} {sep : UInt8} {e : DirEntry}

/-- `restore(extract(old), old, new)`, with the entries in the order that the hash map
yields. -/
def Relocated (sep : UInt8) (old new : Str) (t t' : DirTree) : Prop :=
  ∃ moved, moved.Perm (t.extract old sep).1 ∧ t' = (t.extract old sep).2.restore moved old new

theorem relocated_rename : Relocated sep old new t (t.rename old new sep) := by
  refine ⟨_, List.Perm.refl _, ?_⟩
  unfold rename restore extract
  dsimp only
  rw [List.foldl_map, List.foldl_map]

/-- The place of a move. -/
structure Movable (sep : UInt8) (old new : Str) (t : DirTree) : Prop where
  not_below : ¬ Under sep old new
  not_above : ¬ Under sep new old
  free : ∀ p, Under sep new p → t.find p = none

/-- Nothing lies both at or below the source and at or below the target. -/
theorem Movable.apart (h : Movable sep old new t) (hold : Under sep old p) : ¬ Under sep new p :=
  fun hnew => (hold.comparable hnew).elim h.not_below h.not_above

/-- **What is where after the move.** -/
theorem Relocated.find_eq (h : Relocated sep old new t t') (hm : Movable sep old new t) (p : Str) :
    t'.find p =
      if Under sep new p then (t.find (relocate new old p)).map (DirEntry.moved old new)
      else if Under sep old p then none
      else t.find p := by
  obtain ⟨moved, hperm, rfl⟩ := h
  have hmem : ∀ e, e ∈ moved ↔ t.find e.path = some e ∧ Under sep old e.path := fun e =>
    hperm.mem_iff.trans mem_extract
  have hunder : ∀ e ∈ moved, Under sep old e.path := fun e he => ((hmem e).mp he).2
  have hnodup : (moved.map DirEntry.path).Nodup :=
    (hperm.map DirEntry.path).nodup_iff.mpr (nodup_extract t old sep)
  by_cases hp : Under sep new p
  · rw [if_pos hp]
    have hback : Under sep old (relocate new old p) := hp.relocate
    cases hfind : t.find (relocate new old p) with
    | some e =>
        have hpath : e.path = relocate new old p := path_of_find hfind
        have he : e ∈ moved := (hmem e).mpr ⟨hpath ▸ hfind, hpath ▸ hback⟩
        have hat : relocate old new e.path = p := by
          rw [hpath]
          exact relocate_back hp
        rw [← hat]
        exact find_restore_of_mem hnodup hunder he _
    | none =>
        rw [find_restore_of_forall_ne, find_extract, hm.free p hp, ite_self, Option.map_none]
        rintro e he rfl
        obtain ⟨hfound, hbelow⟩ := (hmem e).mp he
        rw [relocate_back hbelow, hfound] at hfind
        cases hfind
  · rw [if_neg hp, find_restore_of_forall_ne, find_extract]
    rintro e he rfl
    exact hp (hunder e he).relocate

/-! ## The entries -/

/-- What was at or below the source is at or below the target. -/
theorem Relocated.find_moved (h : Relocated sep old new t t') (hm : Movable sep old new t)
    (hp : Under sep old p) :
    t'.find (relocate old new p) = (t.find p).map (DirEntry.moved old new) := by
  rw [h.find_eq hm, if_pos hp.relocate, relocate_back hp]

theorem Relocated.find_source (h : Relocated sep old new t t') (hm : Movable sep old new t)
    (hp : Under sep old p) : t'.find p = none := by
  rw [h.find_eq hm, if_neg (hm.apart hp), if_pos hp]

/-- The rest of the tree stays. -/
theorem Relocated.find_elsewhere (h : Relocated sep old new t t') (hm : Movable sep old new t)
    (hold : ¬ Under sep old p) (hnew : ¬ Under sep new p) : t'.find p = t.find p := by
  rw [h.find_eq hm, if_neg hnew, if_neg hold]

/-- Where the move takes a path of the tree. -/
def relocatedPath (sep : UInt8) (old new p : Str) : Str :=
  if Under sep old p then relocate old new p else p

theorem mem_entries_iff : p ∈ t.entries ↔ ∃ e, t.find p = some e := FiniteMap.mem_iff_lookup

theorem Relocated.mem_entries (h : Relocated sep old new t t') (hm : Movable sep old new t)
    (q : Str) : q ∈ t'.entries ↔ ∃ p ∈ t.entries, relocatedPath sep old new p = q := by
  unfold relocatedPath
  simp only [mem_entries_iff]
  constructor
  · rintro ⟨e, he⟩
    rw [h.find_eq hm] at he
    split at he
    next hq =>
        obtain ⟨d, hd, -⟩ := Option.map_eq_some_iff.mp he
        refine ⟨relocate new old q, ⟨d, hd⟩, ?_⟩
        rw [if_pos hq.relocate]
        exact relocate_back hq
    next =>
        split at he
        · cases he
        next hold => exact ⟨q, ⟨e, he⟩, if_neg hold⟩
  · rintro ⟨p, ⟨e, he⟩, rfl⟩
    split
    next hp => exact ⟨_, by rw [h.find_moved hm hp, he, Option.map_some]⟩
    next hp =>
        have hnew : ¬ Under sep new p := by
          intro hq
          rw [hm.free p hq] at he
          cases he
        exact ⟨e, by rw [h.find_elsewhere hm hp hnew, he]⟩

/-- No path is taken to the place of another. -/
theorem Movable.relocatedPath_inj (hm : Movable sep old new t) {q : Str} (hp : p ∈ t.entries)
    (hq : q ∈ t.entries) (heq : relocatedPath sep old new p = relocatedPath sep old new q) :
    p = q := by
  have hclear : ∀ r ∈ t.entries, ¬ Under sep new r := by
    intro r hr hunder
    obtain ⟨e, he⟩ := mem_entries_iff.mp hr
    rw [hm.free r hunder] at he
    cases he
  unfold relocatedPath at heq
  split at heq <;> split at heq
  next hp' hq' => exact relocate_inj hp' hq' heq
  next hp' _ => exact absurd (heq ▸ hp'.relocate) (hclear q hq)
  next _ hq' => exact absurd (heq ▸ hq'.relocate) (hclear p hp)
  next => exact heq

theorem Relocated.length_pairs (h : Relocated sep old new t t') (hm : Movable sep old new t) :
    t'.entries.pairs.length = t.entries.pairs.length :=
  FiniteMap.length_pairs_eq (relocatedPath sep old new)
    (fun _ hp _ hq heq => hm.relocatedPath_inj hp hq heq) (h.mem_entries hm)

/-! ## The move back -/

theorem Relocated.movable_back (h : Relocated sep old new t t') (hm : Movable sep old new t) :
    Movable sep new old t' :=
  ⟨hm.not_above, hm.not_below, fun _ hp => h.find_source hm hp⟩

theorem moved_back (he : Under sep old e.path) : (e.moved old new).moved new old = e := by
  unfold DirEntry.moved
  dsimp only
  rw [relocate_back he]

/-- A move back undoes a move. -/
theorem Relocated.find_back {t'' : DirTree} (h : Relocated sep old new t t')
    (hm : Movable sep old new t) (hback : Relocated sep new old t' t'') (p : Str) :
    t''.find p = t.find p := by
  rw [hback.find_eq (h.movable_back hm)]
  by_cases hp : Under sep old p
  · rw [if_pos hp, h.find_moved hm hp]
    cases hfind : t.find p with
    | none => rfl
    | some e =>
        have hunder : Under sep old e.path := path_of_find hfind ▸ hp
        rw [Option.map_some, Option.map_some, moved_back hunder]
  · rw [if_neg hp]
    by_cases hnew : Under sep new p
    · rw [if_pos hnew, hm.free p hnew]
    · rw [if_neg hnew, h.find_elsewhere hm hp hnew]

/-- **A move relocates exactly its subtree.** -/
theorem relocated_exactly {t t' : DirTree} {old new : Str} {sep : UInt8}
    (hold : ¬ Under sep new old) (hnew : ¬ Under sep old new)
    (hfree : ∀ p, Under sep new p → t.find p = none) (h : Relocated sep old new t t') :
    (∀ p e, ¬ Under sep old p → t.find p = some e → t'.find p = some e) ∧
      (∀ s e, Under sep old (old ++ s) → t.find (old ++ s) = some e →
        t'.find (new ++ s) = some ⟨new ++ s, e.mtime, e.isDir⟩ ∧ t'.find (old ++ s) = none) ∧
      (∀ q e', t'.find q = some e' → e'.path = q ∧ ((¬ Under sep old q ∧ t.find q = some e') ∨
        ∃ s, q = new ++ s ∧ Under sep old (old ++ s) ∧ (t.find (old ++ s)).isSome)) ∧
      t'.entries.pairs.length = t.entries.pairs.length ∧
      (∀ p, t'.find p = (t.rename old new sep).find p) ∧
      ∀ t'', Relocated sep new old t' t'' → ∀ p, t''.find p = t.find p := by
  have hm : Movable sep old new t := ⟨hnew, hold, hfree⟩
  refine ⟨?_, ?_, ?_, h.length_pairs hm, ?_, fun t'' hback => h.find_back hm hback⟩
  · intro p e hp he
    have hclear : ¬ Under sep new p := by
      intro hunder
      rw [hfree p hunder] at he
      cases he
    rw [h.find_elsewhere hm hp hclear, he]
  · intro s e hunder he
    have hpath : e.path = old ++ s := path_of_find he
    refine ⟨?_, h.find_source hm hunder⟩
    have hmoved := h.find_moved hm hunder
    rw [relocate_append, he, Option.map_some] at hmoved
    rw [hmoved, DirEntry.moved, hpath, relocate_append]
  · intro q e' hq
    refine ⟨path_of_find hq, ?_⟩
    rw [h.find_eq hm] at hq
    split at hq
    next hunder =>
        right
        obtain ⟨s, rfl, hs⟩ := under_iff_append.mp hunder
        rw [relocate_append] at hq
        obtain ⟨e, he, -⟩ := Option.map_eq_some_iff.mp hq
        exact ⟨s, rfl, under_iff_append.mpr ⟨s, rfl, hs⟩, by rw [he]; rfl⟩
    next =>
        split at hq
        · cases hq
        next hout => exact Or.inl ⟨hout, hq⟩
  · intro p
    rw [h.find_eq hm, relocated_rename.find_eq hm]

/-- `/r` with a directory `a`, a file in it, and a file `ab`. -/
def siblings : DirTree :=
  (((DirTree.new [47, 114]).add [47, 114, 47, 97] 1 true).add [47, 114, 47, 97, 47, 120] 2 false).add
    [47, 114, 47, 97, 98] 3 false

/-- The file `ab` stays when `a` is moved to `b`. -/
theorem relocated_exactly_siblings :
    let t' := siblings.rename [47, 114, 47, 97] [47, 114, 47, 98]
    t'.find [47, 114, 47, 97, 98] = some ⟨[47, 114, 47, 97, 98], 3, false⟩ ∧
      t'.find [47, 114, 47, 98, 47, 120] = some ⟨[47, 114, 47, 98, 47, 120], 2, false⟩ ∧
      t'.entries.pairs.length = 3 := by
  have hfree : ∀ p, Under slash [47, 114, 47, 98] p → siblings.find p = none := by
    intro p hp
    have hnone : ∀ b ∈ siblings.entries.pairs, ¬ Under slash [47, 114, 47, 98] b.1 := by decide
    cases hfind : siblings.find p with
    | none => rfl
    | some e => exact absurd hp (hnone _ (FiniteMap.mem_pairs.mpr hfind))
  have hrenamed : Relocated slash [47, 114, 47, 97] [47, 114, 47, 98] siblings
      (siblings.rename [47, 114, 47, 97] [47, 114, 47, 98]) := relocated_rename
  obtain ⟨hstays, hmoved, -, hlength, -⟩ :=
    relocated_exactly (by decide) (by decide) hfree hrenamed
  have hfile := hmoved [47, 120] ⟨[47, 114, 47, 97, 47, 120], 2, false⟩ (by decide) (by decide)
  exact ⟨hstays _ _ (by decide) (by decide), hfile.1, hlength⟩

end DirTree

end NativeWatcher
