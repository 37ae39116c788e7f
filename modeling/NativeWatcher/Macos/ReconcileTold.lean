import NativeWatcher.Macos.ReconcileDiff
import NativeWatcher.Macos.ToldIndex

/-!
# What a reconciliation tells

On any list that tells the keys of the old index, `reconcileFullTree` makes legal calls that
lead to the keys of the new one: renames, then what is left to remove, to create and to
update. Every rename has a source and a target of its own, unless hard links are about.
-/

namespace NativeWatcher

open Hierarchy

/-- What the legality of the calls takes: closed indexes, one kind for each identity, a single
link of whatever vanished or was replaced, and no file in the place of one that moved. -/
structure Reconcilable (root : Str) (before current : IdentityIndex) : Prop where
  closedBefore : before.ClosedUnder root
  closedCurrent : current.ClosedUnder root
  kinds : SameKinds before current
  links : ∀ b ∈ changedEntries before current,
    before.pathCount b.2.identity = 1 ∧ current.pathCount b.2.identity ≤ 1
  sources : ∀ p, ¬ ReoccupiedSource before current p

section Paths

variable {root : Str} {before current : IdentityIndex} {p p' q q' : Str} {kind kind' : EntryKind}

theorem IdentityIndex.eq_of_pathCount_le {x : IdentityIndex} {d e : IndexedPath}
    (h : x.pathCount e.identity ≤ 1) (hp : x.find p = some d) (hq : x.find q = some e)
    (hid : d.identity = e.identity) : p = q := by
  have hone : x.pathCount e.identity = 1 := by
    apply Nat.le_antisymm h
    rw [Nat.succ_le_iff, pathCount, Finset.card_pos]
    exact ⟨q, (x.agree _ _).mpr ⟨e, hq, rfl⟩⟩
  exact (pathCount_eq_one_iff hq).mp hone p d hp hid

theorem Moves.target_unique (h : Reconcilable root before current) (hp : Moves before current p q kind)
    (hp' : Moves before current p q' kind') : q = q' := by
  obtain ⟨o, n, ho, hn, hid, _, _, _, hdiffers⟩ := hp
  obtain ⟨o', n', ho', hn', hid', _⟩ := hp'
  obtain rfl := Option.some.inj (ho.symm.trans ho')
  have hone := (h.links (p, o) (mem_changedEntries.mpr ⟨ho, hdiffers⟩)).2
  rw [hid'] at hone
  exact IdentityIndex.eq_of_pathCount_le hone hn hn' (hid.symm.trans hid')

theorem Moves.source_unique (h : Reconcilable root before current) (hp : Moves before current p q kind)
    (hp' : Moves before current p' q kind') : p = p' := by
  obtain ⟨o, n, ho, hn, hid, _⟩ := hp
  obtain ⟨o', n', ho', hn', hid', _, _, _, hdiffers'⟩ := hp'
  obtain rfl := Option.some.inj (hn.symm.trans hn')
  have hone := (h.links (p', o') (mem_changedEntries.mpr ⟨ho', hdiffers'⟩)).1
  exact IdentityIndex.eq_of_pathCount_le hone.le ho ho' (hid.trans hid'.symm)

end Paths

/-! ## One rename -/

/-- The keys that the renames so far have led to. -/
structure RenamesTold (before current : IdentityIndex) (V : Finset EventKey)
    (r : Reconciliation) : Prop where
  told : ∃ K, r.mEvents.Tells V K ∧ ∀ k : EventKey, k ∈ K ↔
    (k ∈ before.keys ∧ k.1 ∉ r.handledRemoved) ∨ (k ∈ current.keys ∧ k.1 ∈ r.handledCreated)
  removed : ∀ p ∈ r.handledRemoved, MovedSource before current p ∧
    ∃ q ∈ r.handledCreated, ∃ kind, Moves before current p q kind
  created : ∀ q ∈ r.handledCreated, ∃ p ∈ r.handledRemoved, ∃ kind, Moves before current p q kind

namespace RenamesTold

variable {root : Str} {before current : IdentityIndex} {V : Finset EventKey} {r : Reconciliation}
  {p q : Str}

theorem vacant (h : RenamesTold before current V r) (hq : q ∈ r.handledCreated) :
    before.find q = none := by
  obtain ⟨_, _, _, _, _, _, _, _, _, _, hvacant, _⟩ := h.created q hq
  exact hvacant

/-- One more rename, from a source that was not handled. -/
theorem rename (h : RenamesTold before current V r) (hok : Reconcilable root before current)
    {isDirectory : Bool} (hmoves : Moves before current p q (entryKind isDirectory))
    (hsource : MovedSource before current p) (hp : p ∉ r.handledRemoved) :
    RenamesTold before current V (r.rename p q isDirectory) := by
  have hwas := hmoves
  obtain ⟨o, n, ho, hn, _, hsame, hkind, hvacant, _⟩ := hmoves
  -- the target is as new as the source
  have hq : q ∉ r.handledCreated := by
    intro hq
    obtain ⟨p', hp', kind', hmoves'⟩ := h.created q hq
    exact hp (hwas.source_unique hok hmoves' ▸ hp')
  have hpc : p ∉ r.handledCreated := by
    intro hpc
    rw [h.vacant hpc] at ho
    cases ho
  obtain ⟨K, htells, hK⟩ := h.told
  have hold : (p, entryKind isDirectory) ∈ K := by
    refine (hK _).mpr (.inl ⟨?_, hp⟩)
    exact hkind ▸ IdentityIndex.mem_keys_of_find ho
  have hnew : (q, entryKind isDirectory) ∉ K := by
    rw [hK]
    rintro (⟨hmem, _⟩ | ⟨_, hmem⟩)
    · exact IdentityIndex.not_mem_keys hvacant hmem
    · exact hq hmem
  constructor
  · refine ⟨_, htells.rename hold hnew _, ?_⟩
    rintro ⟨x, kind⟩
    rw [Finset.mem_insert, Finset.mem_erase, hK, Prod.mk.injEq, Ne, Prod.mk.injEq]
    show _ ↔ (_ ∧ x ∉ p :: r.handledRemoved) ∨ (_ ∧ x ∈ q :: r.handledCreated)
    rw [List.mem_cons, List.mem_cons]
    by_cases hxq : x = q
    · subst hxq
      have hgone : (x, kind) ∉ before.keys := IdentityIndex.not_mem_keys hvacant
      have hhere : (x, kind) ∈ current.keys ↔ kind = entryKind isDirectory := by
        rw [IdentityIndex.mem_keys]
        simp [hn, ← hkind, hsame, eq_comm]
      simp [hgone, hhere, hq]
    · by_cases hxp : x = p
      · subst hxp
        have honly : (x, kind) ∈ before.keys ↔ kind = entryKind isDirectory := by
          rw [IdentityIndex.mem_keys]
          simp [ho, ← hkind, eq_comm]
        simp only [hxq, hpc, honly, true_and, and_false, or_false, not_true, true_or]
        tauto
      · simp [hxq, hxp]
  · intro x hx
    rcases List.mem_cons.mp hx with rfl | hx
    · exact ⟨hsource, q, List.mem_cons_self, _, hwas⟩
    · obtain ⟨hmoved, y, hy, hrest⟩ := h.removed x hx
      exact ⟨hmoved, y, List.mem_cons_of_mem _ hy, hrest⟩
  · intro y hy
    rcases List.mem_cons.mp hy with rfl | hy
    · exact ⟨p, List.mem_cons_self, _, hwas⟩
    · obtain ⟨x, hx, hrest⟩ := h.created y hy
      exact ⟨x, List.mem_cons_of_mem _ hx, hrest⟩

end RenamesTold

/-! ## The accepted renames -/

/-- The old path of `b` moved along with the directory `a`. -/
def ReconciledRename.Covers (a b : ReconciledRename) : Prop :=
  a.entry.isDirectory = true ∧ Below slash a.oldPath b.oldPath ∧
    b.newPath = relocate a.oldPath a.newPath b.oldPath

theorem coveredByDirectory_iff {accepted : List ReconciledRename} {b : ReconciledRename} :
    Reconciliation.coveredByDirectory accepted b = true ↔ ∃ a ∈ accepted, a.Covers b := by
  unfold Reconciliation.coveredByDirectory ReconciledRename.Covers
  simp [isDescendantPath_iff, and_assoc]

/-- A rename that covers another one comes before it. -/
theorem sortedBefore_of_covers {a b : ReconciledRename} (h : a.Covers b) :
    ¬ sortedBefore b a := by
  obtain ⟨hdir, hbelow, _⟩ := h
  have hlength := hbelow.length_lt
  unfold sortedBefore
  split
  next hkinds =>
      rw [hdir] at hkinds
      simpa using hkinds
  next => omega

instance : Std.Total sortedBefore where
  total a b := by
    unfold sortedBefore
    cases a.entry.isDirectory <;> cases b.entry.isDirectory <;> simp [Nat.le_total]

instance : IsTrans ReconciledRename sortedBefore where
  trans a b c := by
    unfold sortedBefore
    cases a.entry.isDirectory <;> cases b.entry.isDirectory <;> cases c.entry.isDirectory <;>
      simp
    all_goals exact Nat.le_trans

theorem sorted_sortedBefore (before current : IdentityIndex) :
    ((possibleRenames before current).insertionSort sortedBefore).Pairwise sortedBefore :=
  List.pairwise_insertionSort sortedBefore _

/-- Candidates of different identities have different old paths. -/
theorem nodup_possibleRenames (before current : IdentityIndex) :
    ((possibleRenames before current).map ReconciledRename.oldPath).Nodup := by
  rw [List.Nodup, List.pairwise_map, possibleRenames, removedCandidates_eq,
    List.pairwise_filterMap]
  have hkeys : (candidatesOf before current).pairs.Pairwise fun a b => a.1 ≠ b.1 :=
    List.pairwise_map.mp (candidatesOf before current).pairs_keys_nodup
  -- the identity of the old path is the key of the candidate
  have hidentity : ∀ b ∈ (candidatesOf before current).pairs, ∀ r,
      possibleRename before current (createdCandidates before current) b = some r →
        ∃ o, before.find r.oldPath = some o ∧ o.identity = b.1 := by
    rintro ⟨i, ps⟩ hmem r hr
    have hps := RenameCandidates.paths_of_mem_pairs hmem
    unfold possibleRename at hr
    dsimp only at hr
    split at hr
    next oldPath oldEntry newPath newEntry hold _ =>
        rw [← hps] at hold
        obtain ⟨hfo, _, hid⟩ := pathCount_of_pairs hold
        split_ifs at hr
        cases hr
        exact ⟨oldEntry, hfo, hid⟩
    next => cases hr
  refine hkeys.imp_of_mem ?_
  intro a b ha hb hne r hr r' hr' heq
  obtain ⟨o, ho, hoid⟩ := hidentity a ha r hr
  obtain ⟨o', ho', hoid'⟩ := hidentity b hb r' hr'
  rw [heq, ho'] at ho
  obtain rfl := Option.some.inj ho
  exact hne (hoid.symm.trans hoid')

/-- What the first loop has done with the candidates in `seen`. -/
structure AcceptedTold (before current : IdentityIndex) (V : Finset EventKey)
    (seen : List ReconciledRename) (r : Reconciliation) : Prop where
  told : RenamesTold before current V r
  accepted : r.acceptedRenames.Sublist seen
  handled : ∀ p ∈ r.handledRemoved, ∃ a ∈ r.acceptedRenames, a.oldPath = p
  uncovered : r.acceptedRenames.Pairwise fun a b => ¬ a.Covers b

section Accept

variable {root : Str} {before current : IdentityIndex} {V : Finset EventKey}
  {seen : List ReconciledRename} {r : Reconciliation}

theorem AcceptedTold.accept (h : AcceptedTold before current V seen r)
    (hok : Reconcilable root before current) {a : ReconciledRename}
    (ha : a ∈ possibleRenames before current)
    (hfresh : a.oldPath ∉ seen.map ReconciledRename.oldPath) :
    AcceptedTold before current V (seen ++ [a]) (r.accept a) := by
  unfold Reconciliation.accept
  by_cases hcov : Reconciliation.coveredByDirectory r.acceptedRenames a = true
  · rw [if_pos hcov]
    exact ⟨h.told, h.accepted.trans (List.sublist_append_left ..), h.handled, h.uncovered⟩
  · rw [if_neg hcov]
    obtain ⟨hsure, hentry⟩ := mem_possibleRenames.mp ha
    have hp : a.oldPath ∉ r.handledRemoved := by
      intro hp
      obtain ⟨b, hb, hold⟩ := h.handled _ hp
      exact hfresh (hold ▸ List.mem_map_of_mem (h.accepted.subset hb))
    have htold : RenamesTold before current V
        { r with acceptedRenames := r.acceptedRenames ++ [a] } :=
      ⟨h.told.told, h.told.removed, h.told.created⟩
    constructor
    · exact htold.rename hok (hsure.moves hentry) ⟨_, _, hsure, .inl rfl⟩ hp
    · exact h.accepted.append (List.Sublist.refl _)
    · intro p hp
      rcases List.mem_cons.mp hp with rfl | hp
      · exact ⟨a, List.mem_append_right _ (List.mem_singleton_self a), rfl⟩
      · obtain ⟨b, hb, hold⟩ := h.handled p hp
        exact ⟨b, List.mem_append_left _ hb, hold⟩
    · refine List.pairwise_append.mpr ⟨h.uncovered, List.pairwise_singleton .., ?_⟩
      intro b hb c hc hcovers
      obtain rfl := List.mem_singleton.mp hc
      exact hcov (coveredByDirectory_iff.mpr ⟨b, hb, hcovers⟩)

theorem acceptedTold_foldl (hok : Reconcilable root before current) {l : List ReconciledRename}
    (hl : ∀ a ∈ l, a ∈ possibleRenames before current)
    (hnodup : (l.map ReconciledRename.oldPath).Nodup) (h : AcceptedTold before current V [] r) :
    AcceptedTold before current V l (l.foldl Reconciliation.accept r) := by
  induction l using List.reverseRecOn with
  | nil => exact h
  | append_singleton l a ih =>
      rw [List.map_append, List.map_singleton, List.nodup_append_comm, List.singleton_append,
        List.nodup_cons] at hnodup
      rw [List.foldl_append]
      refine (ih (fun b hb => hl b (List.mem_append_left _ hb)) hnodup.2).accept hok ?_ hnodup.1
      exact hl a (List.mem_append_right _ (List.mem_singleton_self a))

/-- No accepted rename covers another one. -/
theorem not_covers_of_sorted {accepted : List ReconciledRename}
    (hsorted : accepted.Pairwise sortedBefore)
    (huncovered : accepted.Pairwise fun a b => ¬ a.Covers b) {a b : ReconciledRename}
    (ha : a ∈ accepted) (hb : b ∈ accepted) : ¬ a.Covers b := by
  intro hcovers
  have hne : a ≠ b := by
    rintro rfl
    exact hcovers.2.1.ne rfl
  have hboth : accepted.Pairwise fun a b => ¬ a.Covers b ∧ ¬ b.Covers a := by
    refine (huncovered.and hsorted).imp ?_
    rintro a b ⟨hnot, hsort⟩
    exact ⟨hnot, fun hc => sortedBefore_of_covers hc hsort⟩
  have : Std.Symm fun a b : ReconciledRename => ¬ a.Covers b ∧ ¬ b.Covers a := ⟨fun _ _ h => h.symm⟩
  exact (hboth.forall ha hb hne).1 hcovers

end Accept

/-! ## What moved along -/

/-- The entry at `p` moved along with the directory `a`. -/
def ReconciledRename.Carries (before current : IdentityIndex) (a : ReconciledRename) (p : Str) :
    Prop :=
  a.entry.isDirectory = true ∧ Below slash a.oldPath p ∧
    ∃ kind, Moves before current p (relocate a.oldPath a.newPath p) kind

/-- The accepted renames, in the order of the second loop. -/
structure Accepted (before current : IdentityIndex) (accepted : List ReconciledRename) : Prop where
  possible : ∀ a ∈ accepted, a ∈ possibleRenames before current
  nodup : (accepted.map ReconciledRename.oldPath).Nodup
  uncovered : ∀ a ∈ accepted, ∀ b ∈ accepted, ¬ a.Covers b

section Carry

variable {root : Str} {before current : IdentityIndex} {V : Finset EventKey}
  {accepted : List ReconciledRename} {r : Reconciliation} {a a' : ReconciledRename} {p : Str}

/-- An accepted rename did not move along with another one. -/
theorem Accepted.not_carries (h : Accepted before current accepted)
    (hok : Reconcilable root before current) (ha : a ∈ accepted) (hb : a' ∈ accepted) :
    ¬ a.Carries before current a'.oldPath := by
  rintro ⟨hdir, hbelow, kind, hmoves⟩
  obtain ⟨hsure, hentry⟩ := mem_possibleRenames.mp (h.possible a' hb)
  exact h.uncovered a ha a' hb ⟨hdir, hbelow, (hsure.moves hentry).target_unique hok hmoves⟩

/-- Nothing moved along with two of them. -/
theorem Accepted.carries_unique (h : Accepted before current accepted)
    (hok : Reconcilable root before current) (ha : a ∈ accepted) (ha' : a' ∈ accepted)
    (hp : a.Carries before current p) (hp' : a'.Carries before current p) :
    a.oldPath = a'.oldPath := by
  obtain ⟨hdir, hbelow, kind, hmoves⟩ := hp
  obtain ⟨hdir', hbelow', kind', hmoves'⟩ := hp'
  have hsame := hmoves.target_unique hok hmoves'
  by_contra hne
  -- the directory further up would cover the other one
  rcases hbelow.under.comparable hbelow'.under with hunder | hunder
  · refine h.uncovered a ha a' ha' ⟨hdir, hunder.below (Ne.symm hne), ?_⟩
    exact relocate_base_of_agree hunder hbelow'.under hsame
  · refine h.uncovered a' ha' a ha ⟨hdir', hunder.below hne, ?_⟩
    exact relocate_base_of_agree hunder hbelow.under hsame.symm

theorem Accepted.disjoint (h : Accepted before current accepted)
    (hok : Reconcilable root before current) :
    accepted.Pairwise fun a a' =>
      ∀ p, a.Carries before current p → ¬ a'.Carries before current p := by
  refine (List.pairwise_map.mp h.nodup).imp_of_mem ?_
  intro a a' ha ha' hne p hp hp'
  exact hne (h.carries_unique hok ha ha' hp hp')

theorem carries_of_movedAlong (hok : Reconcilable root before current)
    (ha : a ∈ possibleRenames before current) (hdir : a.entry.isDirectory = true)
    {b : Str × IndexedPath} (hb : b ∈ (candidatesOf before current).toList)
    (hmoved : Reconciliation.movedAlong current a b = true) :
    Moves before current b.1 (relocate a.oldPath a.newPath b.1) (entryKind b.2.isDirectory) ∧
      a.Carries before current b.1 ∧ MovedSource before current b.1 := by
  obtain ⟨hbelow, n, hfn, hid, hkind⟩ := movedAlong_iff.mp hmoved
  obtain ⟨hsure, hentry⟩ := mem_possibleRenames.mp ha
  obtain ⟨hfo, hdiffers⟩ := mem_toList_candidatesOf.mp hb
  obtain ⟨o, n', ho, hn', _, _, _, hvacant, hk, _⟩ := id hsure
  have hnone : before.find (relocate a.oldPath a.newPath b.1) = none :=
    find_relocate_eq_none hok.closedBefore hok.closedCurrent hentry hvacant hbelow
  have hold : before.isDirectoryAt a.oldPath = true := by
    obtain rfl := Option.some.inj (hentry.symm.trans hn')
    rw [IdentityIndex.isDirectoryAt, ho]
    exact hk.trans hdir
  have hmoves : Moves before current b.1 (relocate a.oldPath a.newPath b.1)
      (entryKind b.2.isDirectory) :=
    ⟨b.2, n, hfo, hfn, hid.symm, hkind.symm, rfl, hnone, hdiffers⟩
  refine ⟨hmoves, ⟨hdir, hbelow, _, hmoves⟩, _, _, hsure, .inr ?_⟩
  exact ⟨hold, hbelow, b.2, n, hfo, hdiffers, hfn, hid, hkind⟩

/-- The inner loop, if it meets no source twice. -/
theorem RenamesTold.foldl_cover (h : RenamesTold before current V r)
    (hok : Reconcilable root before current) (ha : a ∈ possibleRenames before current)
    (hdir : a.entry.isDirectory = true) {bs : List (Str × IndexedPath)}
    (hbs : ∀ b ∈ bs, b ∈ (candidatesOf before current).toList)
    (hnodup : (bs.map Prod.fst).Nodup)
    (hfresh : ∀ b ∈ bs, a.Carries before current b.1 → b.1 ∉ r.handledRemoved) :
    RenamesTold before current V (bs.foldl (Reconciliation.cover current a) r) ∧
      ∀ p ∈ (bs.foldl (Reconciliation.cover current a) r).handledRemoved,
        p ∈ r.handledRemoved ∨ a.Carries before current p := by
  induction bs generalizing r with
  | nil => exact ⟨h, fun p hp => .inl hp⟩
  | cons b bs ih =>
      rw [List.map_cons, List.nodup_cons] at hnodup
      rw [List.forall_mem_cons] at hbs hfresh
      rw [List.foldl_cons]
      unfold Reconciliation.cover
      by_cases hmoved : Reconciliation.movedAlong current a b = true
      · rw [if_pos hmoved]
        obtain ⟨hmoves, hcarries, hsource⟩ := carries_of_movedAlong hok ha hdir hbs.1 hmoved
        have hnext := h.rename hok hmoves hsource (hfresh.1 hcarries)
        have hrest : ∀ c ∈ bs, a.Carries before current c.1 →
            c.1 ∉ (r.rename b.1 (relocate a.oldPath a.newPath b.1) b.2.isDirectory).handledRemoved := by
          intro c hc hcarried hmem
          rcases List.mem_cons.mp hmem with heq | hmem
          · exact hnodup.1 (heq ▸ List.mem_map_of_mem hc)
          · exact hfresh.2 c hc hcarried hmem
        obtain ⟨htold, hhandled⟩ := ih hnext hbs.2 hnodup.2 hrest
        refine ⟨htold, fun p hp => ?_⟩
        rcases hhandled p hp with hp | hp
        · rcases List.mem_cons.mp hp with rfl | hp
          · exact .inr hcarries
          · exact .inl hp
        · exact .inr hp
      · rw [if_neg hmoved]
        exact ih h hbs.2 hnodup.2 hfresh.2

theorem RenamesTold.foldl_coverDescendants (h : RenamesTold before current V r)
    (hok : Reconcilable root before current)
    (hpossible : ∀ a ∈ accepted, a ∈ possibleRenames before current)
    (hdisjoint : accepted.Pairwise fun a a' =>
      ∀ p, a.Carries before current p → ¬ a'.Carries before current p)
    (hfresh : ∀ a ∈ accepted, ∀ p, a.Carries before current p → p ∉ r.handledRemoved) :
    RenamesTold before current V (accepted.foldl (Reconciliation.coverDescendants current
      (candidatesOf before current).toList) r) := by
  induction accepted generalizing r with
  | nil => exact h
  | cons a accepted ih =>
      rw [List.pairwise_cons] at hdisjoint
      rw [List.forall_mem_cons] at hpossible hfresh
      rw [List.foldl_cons]
      unfold Reconciliation.coverDescendants
      cases hdir : a.entry.isDirectory with
      | false => exact ih h hpossible.2 hdisjoint.2 hfresh.2
      | true =>
          obtain ⟨htold, hhandled⟩ := h.foldl_cover hok hpossible.1 hdir (fun _ hb => hb)
            (nodup_toList_candidatesOf before current) fun b _ => hfresh.1 b.1
          refine ih htold hpossible.2 hdisjoint.2 ?_
          intro a' ha' p hp hmem
          rcases hhandled p hmem with hmem | hcarries
          · exact hfresh.2 a' ha' p hp hmem
          · exact hdisjoint.1 a' ha' p hcarries hp

/-- All renames. -/
theorem renamesTold_reconcileRenames (hok : Reconcilable root before current) {l : EventList}
    (h : l.Tells V before.keys) (renameSequence : Nat) :
    RenamesTold before current V (reconcileRenames before current l renameSequence) := by
  have hstart : AcceptedTold before current V [] ⟨[], [], [], l, renameSequence⟩ := by
    constructor
    · exact ⟨⟨before.keys, h, by simp⟩, by simp, by simp⟩
    · exact List.Sublist.refl _
    · simp
    · exact List.Pairwise.nil
  have hperm := List.perm_insertionSort sortedBefore (possibleRenames before current)
  have hpossible : ∀ a ∈ (possibleRenames before current).insertionSort sortedBefore,
      a ∈ possibleRenames before current := fun a => hperm.mem_iff.mp
  have hnodup : (((possibleRenames before current).insertionSort sortedBefore).map
      ReconciledRename.oldPath).Nodup :=
    ((hperm.map _).nodup_iff).mpr (nodup_possibleRenames before current)
  have hdone := acceptedTold_foldl hok hpossible hnodup hstart
  unfold reconcileRenames
  rw [removedCandidates_eq]
  dsimp only
  generalize ((possibleRenames before current).insertionSort sortedBefore).foldl
    Reconciliation.accept ⟨[], [], [], l, renameSequence⟩ = r at hdone
  have haccepted : Accepted before current r.acceptedRenames := by
    refine ⟨fun a ha => hpossible a (hdone.accepted.subset ha), ?_, ?_⟩
    · exact hnodup.sublist (hdone.accepted.map _)
    · intro a ha b hb
      exact not_covers_of_sorted ((sorted_sortedBefore before current).sublist hdone.accepted)
        hdone.uncovered ha hb
  refine hdone.told.foldl_coverDescendants hok haccepted.possible (haccepted.disjoint hok) ?_
  intro a ha p hp hmem
  obtain ⟨b, hb, rfl⟩ := hdone.handled p hmem
  exact haccepted.not_carries hok ha hb hp

end Carry

/-! ## What the renames leave -/

section Reports

variable {root : Str} {before current : IdentityIndex} {V K : Finset EventKey} {l : EventList}
  {handled : List Str}

def Reconciliation.withdraws (current : IdentityIndex) (handledRemoved : List Str)
    (b : Str × IndexedPath) : Bool :=
  !handledRemoved.contains b.1 &&
    (b.2.isDirectory || (current.find b.1).all fun d => d.isDirectory)

/-- A file in the place of another one. -/
def Reconciliation.replacesFile (before : IdentityIndex) (b : Str × IndexedPath) : Bool :=
  ((before.find b.1).any fun previous => !previous.isDirectory) && !b.2.isDirectory

theorem EventList.Tells.reportRemoved (h : l.Tells V K)
    (hin : ∀ b ∈ (candidatesOf before current).toList,
      Reconciliation.withdraws current handled b = true →
        (b.1, entryKind b.2.isDirectory) ∈ K) :
    ∃ K', ((candidatesOf before current).toList.foldl
        (Reconciliation.reportRemoved current handled) l).Tells V K' ∧
      ∀ k, k ∈ K' ↔ k ∈ K ∧ k ∉ ((candidatesOf before current).toList.filter
        (Reconciliation.withdraws current handled)).map
          fun b => ((b.1, entryKind b.2.isDirectory) : EventKey) := by
  have hfilter : (candidatesOf before current).toList.foldl
      (Reconciliation.reportRemoved current handled) l =
      ((candidatesOf before current).toList.filter
        (Reconciliation.withdraws current handled)).foldl
          (fun l b => l.remove b.1 (entryKind b.2.isDirectory)) l := by
    rw [List.foldl_filter]
    rfl
  rw [hfilter]
  refine ⟨_, @removeAll _ _ _ _ (fun b : Str × IndexedPath => (b.1, entryKind b.2.isDirectory))
    _ h ?_ ?_, fun k => Finset.mem_filter⟩
  · apply List.Nodup.of_map Prod.fst
    rw [List.map_map]
    exact (nodup_toList_candidatesOf before current).sublist (List.filter_sublist.map _)
  · intro b hb
    obtain ⟨hmem, hwithdraws⟩ := List.mem_filter.mp hb
    exact hin b hmem hwithdraws

theorem Reconciliation.reportCreated_eq (l : EventList) (b : Str × IndexedPath) :
    reportCreated before handled l b =
      if b.1 ∈ handled then l
      else if replacesFile before b = true then l.update b.1 .File
      else l.create b.1 (entryKind b.2.isDirectory) := by
  unfold reportCreated replacesFile
  simp only [List.contains_iff_mem]

/-- The entries of the second loop have paths of their own. -/
theorem EventList.Tells.reportCreated {es : List (Str × IndexedPath)} (h : l.Tells V K)
    (hnodup : (es.map Prod.fst).Nodup)
    (hkept : ∀ b ∈ es, b.1 ∉ handled → Reconciliation.replacesFile before b = true →
      (b.1, EntryKind.File) ∈ K)
    (hnew : ∀ b ∈ es, b.1 ∉ handled → Reconciliation.replacesFile before b = false →
      (b.1, entryKind b.2.isDirectory) ∉ K) :
    ∃ K', (es.foldl (Reconciliation.reportCreated before handled) l).Tells V K' ∧
      ∀ k, k ∈ K' ↔ k ∈ K ∨ ∃ b ∈ es, b.1 ∉ handled ∧
        Reconciliation.replacesFile before b = false ∧
          k = (b.1, entryKind b.2.isDirectory) := by
  induction es generalizing l K with
  | nil => exact ⟨K, h, by simp⟩
  | cons b es ih =>
      rw [List.map_cons, List.nodup_cons] at hnodup
      rw [List.forall_mem_cons] at hkept hnew
      rw [List.foldl_cons, Reconciliation.reportCreated_eq]
      by_cases hb : b.1 ∈ handled
      · rw [if_pos hb]
        obtain ⟨K', htells, hK'⟩ := ih h hnodup.2 hkept.2 hnew.2
        exact ⟨K', htells, fun k => by simp [hK', hb]⟩
      · rw [if_neg hb]
        cases hfile : Reconciliation.replacesFile before b with
        | true =>
            rw [if_pos rfl]
            obtain ⟨K', htells, hK'⟩ :=
              ih (h.update (hkept.1 hb hfile)) hnodup.2 hkept.2 hnew.2
            exact ⟨K', htells, fun k => by simp [hK', hfile]⟩
        | false =>
            rw [if_neg (by decide)]
            have hother : ∀ c ∈ es, ∀ kind, (c.1, kind) ∈
                insert (b.1, entryKind b.2.isDirectory) K ↔ (c.1, kind) ∈ K := by
              intro c hc kind
              rw [Finset.mem_insert, or_iff_right]
              intro heq
              exact hnodup.1 ((congrArg Prod.fst heq) ▸ List.mem_map_of_mem hc)
            obtain ⟨K', htells, hK'⟩ := ih (h.create (hnew.1 hb hfile)) hnodup.2
              (fun c hc hout hrep => (hother c hc _).mpr (hkept.2 c hc hout hrep))
              fun c hc hout hrep hmem => hnew.2 c hc hout hrep ((hother c hc _).mp hmem)
            refine ⟨K', htells, fun k => ?_⟩
            rw [hK', Finset.mem_insert, List.exists_mem_cons_iff]
            simp only [hb, hfile, not_false_eq_true, true_and]
            tauto

theorem EventList.Tells.reportModified (h : l.Tells V current.keys) :
    (current.entries.foldl (Reconciliation.reportModified before) l).Tells V current.keys := by
  refine List.foldlRecOn (motive := fun l => EventList.Tells l V current.keys) _ _ h ?_
  intro l hl b hb
  unfold Reconciliation.reportModified
  split
  next hcond =>
      obtain ⟨o, _, hany⟩ := (Option.any_eq_true _ _).mp hcond
      simp only [Bool.and_eq_true, Bool.not_eq_true'] at hany
      have hkey := IdentityIndex.mem_keys_of_find (IdentityIndex.mem_entries.mp hb)
      rw [hany.1.2] at hkey
      exact hl.update hkey
  next => exact hl

end Reports

/-! ## The whole reconciliation -/

section Reconcile

variable {root : Str} {before current : IdentityIndex} {V : Finset EventKey} {l : EventList}
  {r : Reconciliation} {p : Str} {o n : IndexedPath} {k : EventKey}

/-- A path whose key is neither withdrawn nor created: the same entry, or a file for a file. -/
def StaysAt (before current : IdentityIndex) (p : Str) : Prop :=
  ∃ o n, before.find p = some o ∧ current.find p = some n ∧
    (o.identity = n.identity ∨ (o.isDirectory = false ∧ n.isDirectory = false))

theorem StaysAt.mem_keys_iff (hok : Reconcilable root before current)
    (h : StaysAt before current k.1) : k ∈ before.keys ↔ k ∈ current.keys := by
  obtain ⟨o, n, ho, hn, hcase⟩ := h
  have hkind : o.isDirectory = n.isDirectory := by
    rcases hcase with hid | ⟨hod, hnd⟩
    · exact hok.kinds _ (IdentityIndex.mem_entries.mpr ho) _ (IdentityIndex.mem_entries.mpr hn) hid
    · rw [hod, hnd]
  rw [IdentityIndex.mem_keys, IdentityIndex.mem_keys, ho, hn]
  simp [hkind]

/-- What stays is not the source of a rename. -/
theorem StaysAt.not_mem_handledRemoved (hok : Reconcilable root before current)
    (hr : RenamesTold before current V r) (h : StaysAt before current p) :
    p ∉ r.handledRemoved := by
  intro hp
  obtain ⟨o, n, ho, hn, hcase⟩ := h
  obtain ⟨hsource, q, _, kind, o', _, ho', _, _, _, _, _, hdiffers⟩ := hr.removed p hp
  obtain rfl := Option.some.inj (ho.symm.trans ho')
  rcases hcase with hid | ⟨hod, hnd⟩
  · exact differsAt_iff.mp hdiffers n hn hid.symm
  · exact hok.sources p ⟨hsource, ⟨o, ho, hod⟩, n, hn, hnd⟩

theorem withdraws_iff {handled : List Str} (hdiffers : current.differsAt p o = true)
    (ho : before.find p = some o) :
    Reconciliation.withdraws current handled (p, o) = true ↔
      p ∉ handled ∧ ¬ StaysAt before current p := by
  unfold Reconciliation.withdraws
  rw [Bool.and_eq_true, Bool.not_eq_true', ← Bool.not_eq_true, List.contains_iff_mem]
  apply and_congr_right
  intro _
  constructor
  · rintro h ⟨o', n, ho', hn, hcase⟩
    obtain rfl := Option.some.inj (ho.symm.trans ho')
    rcases hcase with hid | ⟨hod, hnd⟩
    · exact differsAt_iff.mp hdiffers n hn hid.symm
    · simp [hn, hod, hnd] at h
  · intro h
    cases hn : current.find p with
    | none => simp
    | some n =>
        rw [Option.all_some, Bool.or_eq_true]
        by_contra hcase
        rw [not_or, Bool.not_eq_true, Bool.not_eq_true] at hcase
        exact h ⟨o, n, ho, hn, .inr hcase⟩

/-- After the loop over what was removed. -/
theorem mem_afterRemoved (hok : Reconcilable root before current)
    (hr : RenamesTold before current V r) :
    ((k ∈ before.keys ∧ k.1 ∉ r.handledRemoved) ∨ (k ∈ current.keys ∧ k.1 ∈ r.handledCreated)) ∧
        k ∉ ((candidatesOf before current).toList.filter
          (Reconciliation.withdraws current r.handledRemoved)).map
            (fun b => ((b.1, entryKind b.2.isDirectory) : EventKey)) ↔
      k ∈ current.keys ∧ (StaysAt before current k.1 ∨ k.1 ∈ r.handledCreated) := by
  -- a withdrawn key is one of the old index
  have hwithdrawn : ∀ k : EventKey, k ∈ ((candidatesOf before current).toList.filter
      (Reconciliation.withdraws current r.handledRemoved)).map
        (fun b => ((b.1, entryKind b.2.isDirectory) : EventKey)) ↔
      k ∈ before.keys ∧ k.1 ∉ r.handledRemoved ∧ ¬ StaysAt before current k.1 := by
    rintro ⟨x, kind⟩
    rw [List.mem_map, IdentityIndex.mem_keys]
    constructor
    · rintro ⟨⟨y, o⟩, hmem, heq⟩
      cases heq
      obtain ⟨hcandidate, hwithdraws⟩ := List.mem_filter.mp hmem
      obtain ⟨ho, hdiffers⟩ := mem_toList_candidatesOf.mp hcandidate
      exact ⟨⟨o, ho, rfl⟩, (withdraws_iff hdiffers ho).mp hwithdraws⟩
    · rintro ⟨⟨o, ho, rfl⟩, hout, hstays⟩
      have hdiffers : current.differsAt x o = true := by
        refine differsAt_iff.mpr fun n hn hid => hstays ⟨o, n, ho, hn, .inl hid.symm⟩
      refine ⟨(x, o), List.mem_filter.mpr ⟨mem_toList_candidatesOf.mpr ⟨ho, hdiffers⟩, ?_⟩, rfl⟩
      exact (withdraws_iff hdiffers ho).mpr ⟨hout, hstays⟩
  rw [hwithdrawn]
  constructor
  · rintro ⟨⟨hk, hout⟩ | ⟨hk, hin⟩, hnot⟩
    · have hstays : StaysAt before current k.1 := by
        by_contra hstays
        exact hnot ⟨hk, hout, hstays⟩
      exact ⟨(hstays.mem_keys_iff hok).mp hk, .inl hstays⟩
    · exact ⟨hk, .inr hin⟩
  · rintro ⟨hk, hstays | hin⟩
    · have hout := hstays.not_mem_handledRemoved hok hr
      exact ⟨.inl ⟨(hstays.mem_keys_iff hok).mpr hk, hout⟩, fun hnot => hnot.2.2 hstays⟩
    · refine ⟨.inr ⟨hk, hin⟩, fun hnot => ?_⟩
      exact IdentityIndex.not_mem_keys (hr.vacant hin) hnot.1

theorem replacesFile_iff (hn : current.find p = some n) (hdiffers : before.differsAt p n = true) :
    Reconciliation.replacesFile before (p, n) = true ↔ StaysAt before current p := by
  unfold Reconciliation.replacesFile
  rw [Bool.and_eq_true, Option.any_eq_true]
  simp only [Bool.not_eq_true']
  constructor
  · rintro ⟨⟨o, ho, hod⟩, hnd⟩
    exact ⟨o, n, ho, hn, .inr ⟨hod, hnd⟩⟩
  · rintro ⟨o, n', ho, hn', hcase⟩
    obtain rfl := Option.some.inj (hn.symm.trans hn')
    rcases hcase with hid | ⟨hod, hnd⟩
    · exact absurd hid (differsAt_iff.mp hdiffers o ho)
    · exact ⟨⟨o, ho, hod⟩, hnd⟩

/-- From the keys of the old index to those of the new one. -/
theorem tells_reconcile (hok : Reconcilable root before current) (h : l.Tells V before.keys)
    (renameSequence : Nat) :
    (reconcile before current l renameSequence).1.Tells V current.keys := by
  have hr := renamesTold_reconcileRenames hok h renameSequence
  unfold reconcile
  rw [removedCandidates_eq, createdCandidates_eq]
  dsimp only
  generalize reconcileRenames before current l renameSequence = r at hr
  obtain ⟨K, htells, hK⟩ := hr.told
  have hwithdrawn : ∀ b ∈ (candidatesOf before current).toList,
      Reconciliation.withdraws current r.handledRemoved b = true →
        (b.1, entryKind b.2.isDirectory) ∈ K := by
    rintro ⟨x, o⟩ hb hwithdraws
    obtain ⟨ho, hdiffers⟩ := mem_toList_candidatesOf.mp hb
    refine (hK _).mpr (.inl ⟨IdentityIndex.mem_keys_of_find ho, ?_⟩)
    exact ((withdraws_iff hdiffers ho).mp hwithdraws).1
  obtain ⟨K₁, htells₁, hK₁⟩ := htells.reportRemoved hwithdrawn
  have hafter : ∀ k : EventKey, k ∈ K₁ ↔
      k ∈ current.keys ∧ (StaysAt before current k.1 ∨ k.1 ∈ r.handledCreated) := by
    intro k
    rw [hK₁, hK, mem_afterRemoved hok hr]
  have hkept : ∀ b ∈ (candidatesOf current before).toList, b.1 ∉ r.handledCreated →
      Reconciliation.replacesFile before b = true → (b.1, EntryKind.File) ∈ K₁ := by
    rintro ⟨x, n⟩ hb _ hfile
    obtain ⟨hn, hdiffers⟩ := mem_toList_candidatesOf.mp hb
    have hstays := (replacesFile_iff hn hdiffers).mp hfile
    have hkey := IdentityIndex.mem_keys_of_find hn
    rw [Reconciliation.replacesFile, Bool.and_eq_true, Bool.not_eq_true'] at hfile
    rw [hfile.2] at hkey
    exact (hafter _).mpr ⟨hkey, .inl hstays⟩
  have hnew : ∀ b ∈ (candidatesOf current before).toList, b.1 ∉ r.handledCreated →
      Reconciliation.replacesFile before b = false →
        (b.1, entryKind b.2.isDirectory) ∉ K₁ := by
    rintro ⟨x, n⟩ hb hout hfile hmem
    obtain ⟨hn, hdiffers⟩ := mem_toList_candidatesOf.mp hb
    rw [← Bool.not_eq_true, replacesFile_iff hn hdiffers] at hfile
    exact ((hafter _).mp hmem).2.elim hfile hout
  obtain ⟨K₂, htells₂, hK₂⟩ :=
    htells₁.reportCreated (nodup_toList_candidatesOf current before) hkept hnew
  apply EventList.Tells.reportModified
  apply htells₂.congr
  intro k
  rw [hK₂, hafter]
  constructor
  · rintro (⟨hk, _⟩ | ⟨⟨x, n⟩, hb, _, _, rfl⟩)
    · exact hk
    · exact IdentityIndex.mem_keys_of_find (mem_toList_candidatesOf.mp hb).1
  · intro hk
    by_cases hstays : StaysAt before current k.1 ∨ k.1 ∈ r.handledCreated
    · exact .inl ⟨hk, hstays⟩
    · rw [not_or] at hstays
      obtain ⟨n, hn, hkind⟩ := IdentityIndex.mem_keys.mp hk
      have hdiffers : before.differsAt k.1 n = true := by
        refine differsAt_iff.mpr fun o ho hid => hstays.1 ⟨o, n, ho, hn, .inl hid⟩
      refine .inr ⟨(k.1, n), mem_toList_candidatesOf.mpr ⟨hn, hdiffers⟩, hstays.2, ?_, ?_⟩
      · rw [← Bool.not_eq_true, replacesFile_iff hn hdiffers]
        exact hstays.1
      · exact Prod.ext rfl hkind.symm

end Reconcile

end NativeWatcher
