import NativeWatcher.Macos.Reconcile

/-!
# The candidates of a reconciliation

What the maps built by `reconcileFullTree` hold, in terms of the two indexes: the
changed entries of either side, grouped by identity, and the renames that leave no
doubt.
-/

namespace NativeWatcher

open Hierarchy

/-! ## Changed entries -/

theorem differsAt_iff {x : IdentityIndex} {p : Str} {e : IndexedPath} :
    x.differsAt p e = true ↔ ∀ d, x.find p = some d → d.identity ≠ e.identity := by
  unfold IdentityIndex.differsAt
  cases x.find p <;> simp

theorem mem_changedEntries {x other : IdentityIndex} {p : Str} {e : IndexedPath} :
    (p, e) ∈ changedEntries x other ↔ x.find p = some e ∧ other.differsAt p e = true := by
  rw [changedEntries, List.mem_filter, IdentityIndex.mem_entries]

namespace RenameCandidates

/-- Entries of distinct paths are all kept, each under its identity. -/
theorem lookup_paths_foldl_put {entries : List (Str × IndexedPath)}
    (hnodup : (entries.map Prod.fst).Nodup) (c : RenameCandidates)
    (i : FileIdentity) (p : Str) (e : IndexedPath) :
    ((entries.foldl (fun c b => c.put b.1 b.2) c).paths i).lookup p = some e ↔
      ((p, e) ∈ entries ∧ e.identity = i) ∨
        (¬ (∃ d, (p, d) ∈ entries ∧ d.identity = i) ∧ (c.paths i).lookup p = some e) := by
  induction entries generalizing c with
  | nil => simp
  | cons b entries ih =>
      rw [List.map_cons, List.nodup_cons] at hnodup
      obtain ⟨q, d⟩ := b
      have hq : ∀ d', (q, d') ∉ entries := fun d' hmem =>
        hnodup.1 (List.mem_map.mpr ⟨_, hmem, rfl⟩)
      rw [List.foldl_cons, ih hnodup.2, lookup_paths_put]
      by_cases hp : p = q
      · subst hp
        by_cases hi : i = d.identity
        · subst hi
          simp [hq, eq_comm]
          intro heq
          rw [heq]
        · have hi' : d.identity ≠ i := fun heq => hi heq.symm
          simp [hq, hi, hi']
          rintro rfl heq
          exact absurd heq hi'
      · simp [hp]

theorem mem_toList {c : RenameCandidates} {p : Str} {e : IndexedPath} :
    (p, e) ∈ c.toList ↔ ∃ i, (c.paths i).lookup p = some e := by
  rw [toList, List.mem_flatMap]
  constructor
  · rintro ⟨⟨i, ps⟩, hb, hmem⟩
    refine ⟨i, ?_⟩
    rw [paths_of_mem_pairs hb]
    exact FiniteMap.mem_pairs.mp hmem
  · rintro ⟨i, hlookup⟩
    unfold paths at hlookup
    cases hi : c.lookup i with
    | none =>
        rw [hi] at hlookup
        exact absurd hlookup (by simp [AList.lookup_empty])
    | some ps =>
        rw [hi] at hlookup
        exact ⟨(i, ps), FiniteMap.mem_pairs.mpr hi, FiniteMap.mem_pairs.mpr hlookup⟩

/-- Identities that hold distinct entries list distinct paths. -/
theorem nodup_toList {c : RenameCandidates}
    (h : ∀ i j p d e, (c.paths i).lookup p = some d → (c.paths j).lookup p = some e → i = j) :
    (c.toList.map Prod.fst).Nodup := by
  rw [toList, List.map_flatMap, List.nodup_flatMap]
  constructor
  · rintro ⟨i, ps⟩ -
    exact FiniteMap.pairs_keys_nodup ps
  · have hkeys : c.pairs.Pairwise fun a b => a.1 ≠ b.1 :=
      List.pairwise_map.mp c.pairs_keys_nodup
    refine hkeys.imp_of_mem ?_
    rintro ⟨i, ps⟩ ⟨j, qs⟩ hi hj hne p hp hq
    obtain ⟨⟨p', d⟩, hd, rfl⟩ := List.mem_map.mp hp
    obtain ⟨⟨q', e⟩, he, heq⟩ := List.mem_map.mp hq
    obtain rfl : q' = p' := heq
    have hpd : (c.paths i).lookup q' = some d := by
      rw [paths_of_mem_pairs hi]
      exact FiniteMap.mem_pairs.mp hd
    have hqe : (c.paths j).lookup q' = some e := by
      rw [paths_of_mem_pairs hj]
      exact FiniteMap.mem_pairs.mp he
    exact hne (h i j q' d e hpd hqe)

end RenameCandidates

/-- The common content of `removed` and `created`. -/
def candidatesOf (x other : IdentityIndex) : RenameCandidates :=
  (changedEntries x other).foldl (fun c b => c.put b.1 b.2) ∅

theorem removedCandidates_eq (before current : IdentityIndex) :
    removedCandidates before current = candidatesOf before current := rfl

theorem createdCandidates_eq (before current : IdentityIndex) :
    createdCandidates before current = candidatesOf current before := rfl

theorem lookup_candidatesOf {x other : IdentityIndex} {i : FileIdentity} {p : Str}
    {e : IndexedPath} :
    ((candidatesOf x other).paths i).lookup p = some e ↔
      x.find p = some e ∧ other.differsAt p e = true ∧ e.identity = i := by
  have hnodup : ((changedEntries x other).map Prod.fst).Nodup :=
    x.mByPath.pairs_keys_nodup.sublist (List.filter_sublist.map _)
  have hempty : ((∅ : RenameCandidates).paths i).lookup p = none := AList.lookup_empty p
  rw [candidatesOf, RenameCandidates.lookup_paths_foldl_put hnodup, mem_changedEntries, hempty]
  simp [and_assoc]

theorem mem_toList_candidatesOf {x other : IdentityIndex} {p : Str} {e : IndexedPath} :
    (p, e) ∈ (candidatesOf x other).toList ↔
      x.find p = some e ∧ other.differsAt p e = true := by
  rw [RenameCandidates.mem_toList]
  constructor
  · rintro ⟨i, h⟩
    obtain ⟨hf, hd, -⟩ := lookup_candidatesOf.mp h
    exact ⟨hf, hd⟩
  · rintro ⟨hf, hd⟩
    exact ⟨e.identity, lookup_candidatesOf.mpr ⟨hf, hd, rfl⟩⟩

theorem nodup_toList_candidatesOf (x other : IdentityIndex) :
    ((candidatesOf x other).toList.map Prod.fst).Nodup := by
  apply RenameCandidates.nodup_toList
  intro i j p d e hd he
  obtain ⟨hfd, -, rfl⟩ := lookup_candidatesOf.mp hd
  obtain ⟨hfe, -, rfl⟩ := lookup_candidatesOf.mp he
  rw [hfd] at hfe
  rw [Option.some.inj hfe]

/-! ## Renames without doubt -/

/-- `oldPath` and `newPath` are the only paths of one identity before and now,
`newPath` was vacant, the kinds agree, and files have a single link. -/
def SureRename (before current : IdentityIndex) (oldPath newPath : Str) : Prop :=
  ∃ o n, before.find oldPath = some o ∧ current.find newPath = some n ∧
    o.identity = n.identity ∧
    (∀ p e, before.find p = some e → e.identity = o.identity → p = oldPath) ∧
    (∀ p e, current.find p = some e → e.identity = o.identity → p = newPath) ∧
    before.find newPath = none ∧ o.isDirectory = n.isDirectory ∧
    (o.isDirectory = false → o.linkCount = 1 ∧ n.linkCount = 1)

theorem pathCount_of_pairs {x other : IdentityIndex} {i : FileIdentity} {p : Str}
    {e : IndexedPath} (h : ((candidatesOf x other).paths i).pairs = [(p, e)]) :
    x.find p = some e ∧ other.differsAt p e = true ∧ e.identity = i := by
  apply lookup_candidatesOf.mp
  rw [← FiniteMap.mem_pairs, h]
  exact List.mem_singleton.mpr rfl

/-- The candidates of an identity that has a single, changed path. -/
theorem pairs_candidatesOf_eq_singleton {x other : IdentityIndex} {p : Str}
    {e : IndexedPath} (hf : x.find p = some e) (hdiffers : other.differsAt p e = true)
    (honly : ∀ q d, x.find q = some d → d.identity = e.identity → q = p) :
    ((candidatesOf x other).paths e.identity).pairs = [(p, e)] := by
  apply FiniteMap.pairs_eq_singleton
  intro q d
  rw [lookup_candidatesOf]
  constructor
  · rintro ⟨hq, -, hid⟩
    obtain rfl := honly q d hq hid
    exact ⟨rfl, Option.some.inj (hq.symm.trans hf)⟩
  · rintro ⟨rfl, rfl⟩
    exact ⟨hf, hdiffers, rfl⟩

theorem mem_possibleRenames {before current : IdentityIndex} {r : ReconciledRename} :
    r ∈ possibleRenames before current ↔
      SureRename before current r.oldPath r.newPath ∧
        current.find r.newPath = some r.entry := by
  rw [possibleRenames, removedCandidates_eq, createdCandidates_eq, List.mem_filterMap]
  constructor
  · rintro ⟨⟨i, ps⟩, hmem, hr⟩
    have hps := RenameCandidates.paths_of_mem_pairs hmem
    unfold possibleRename at hr
    dsimp only at hr
    split at hr
    next oldPath oldEntry newPath newEntry hold hnew =>
      rw [← hps] at hold
      obtain ⟨hfo, hdo, rfl⟩ := pathCount_of_pairs hold
      obtain ⟨hfn, hdn, hid⟩ := pathCount_of_pairs hnew
      split at hr
      next => cases hr
      next hcounts =>
        split at hr
        next => cases hr
        next hkinds =>
          obtain rfl := Option.some.inj hr
          simp only [Bool.or_eq_true, bne_iff_ne, not_or, not_not] at hcounts
          simp only [Bool.or_eq_true, Bool.and_eq_true, Bool.not_eq_true', bne_iff_ne,
            not_or, not_and, not_not, Bool.not_eq_true, Option.isSome_eq_false_iff,
            Option.isNone_iff_eq_none] at hkinds
          obtain ⟨⟨hvacant, hkind⟩, hlinks⟩ := hkinds
          refine ⟨⟨oldEntry, newEntry, hfo, hfn, hid.symm, ?_, ?_, hvacant, hkind, hlinks⟩, hfn⟩
          · exact (IdentityIndex.pathCount_eq_one_iff hfo).mp hcounts.1
          · rw [← hid] at hcounts ⊢
            exact (IdentityIndex.pathCount_eq_one_iff hfn).mp hcounts.2
    next => cases hr
  · rintro ⟨⟨o, n, hfo, hfn, hid, honlyOld, honlyNew, hvacant, hkind, hlinks⟩, hentry⟩
    rw [hfn] at hentry
    -- the old path now holds something else, or the identity would have two paths
    have hdo : current.differsAt r.oldPath o = true := by
      rw [differsAt_iff]
      intro d hd heq
      rw [honlyNew r.oldPath d hd heq, hvacant] at hfo
      cases hfo
    have hdn : before.differsAt r.newPath n = true := by
      rw [differsAt_iff, hvacant]
      intro d hd
      cases hd
    have hold := pairs_candidatesOf_eq_singleton hfo hdo honlyOld
    have hnew := pairs_candidatesOf_eq_singleton hfn hdn (by rwa [← hid])
    rw [← hid] at hnew
    refine ⟨(o.identity, (candidatesOf before current).paths o.identity), ?_, ?_⟩
    · rw [FiniteMap.mem_pairs]
      cases hl : (candidatesOf before current).lookup o.identity with
      | none =>
          rw [RenameCandidates.paths, hl] at hold
          cases hold
      | some ps =>
          rw [RenameCandidates.paths, hl]
          rfl
    · have hcountOld := (IdentityIndex.pathCount_eq_one_iff hfo).mpr honlyOld
      have hcountNew := (IdentityIndex.pathCount_eq_one_iff hfn).mpr (by rwa [← hid])
      rw [← hid] at hcountNew
      unfold possibleRename
      rw [hold, hnew]
      dsimp only
      rw [hcountOld, hcountNew, hvacant, hkind]
      have hsingle : n.isDirectory = false → o.linkCount = 1 ∧ n.linkCount = 1 :=
        fun hn => hlinks (hkind.trans hn)
      obtain ⟨oldPath, newPath, entry⟩ := r
      obtain rfl := Option.some.inj hentry
      simpa using hsingle

end NativeWatcher
