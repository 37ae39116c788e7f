import NativeWatcher.Event.Reports
import NativeWatcher.Linux.ScanOutcome
import NativeWatcher.Linux.UniquePaths

/-!
# What a runtime scan announces

A scan announces an entry when it adds it, before the watch below is tried. A directory
that is gone by then is taken out of the tree again, and nothing is said of it: what was
announced stays announced. The batch is right exactly when this happens only to
directories that the tree had before.
-/

namespace NativeWatcher

open Hierarchy

/-- The keys reported as created are those the tree has gained. -/
def AnnouncesAdded (before after : DirTree) (calls : List EventOp) : Prop :=
  ∀ k, (EventList.empty.run calls).drain.1.Reports .create k ↔ k ∈ after.keys ∧ k ∉ before.keys

theorem Outcome.announcesAdded {t t' : DirTree} {ks : List EventKey} {fs : List DirEntry}
    {vs : List Str} (h : Outcome t t' ks fs vs)
    (hclear : ∀ k ∈ ks, ∀ v ∈ vs, ¬ Under slash v k.1) :
    AnnouncesAdded t t' (ks.map .create) := by
  intro k
  rw [EventList.reports_run_creates]
  constructor
  · intro hk
    refine ⟨h.kept k (Or.inr hk) (hclear k hk), ?_⟩
    rw [DirTree.mem_keys, h.fresh k hk]
    simp
  · rintro ⟨hafter, hbefore⟩
    exact (h.grown k hafter).resolve_left hbefore

/-- A directory that is announced and gone. -/
theorem Outcome.not_announcesAdded {t t' : DirTree} {ks : List EventKey} {fs : List DirEntry}
    {vs : List Str} (h : Outcome t t' ks fs vs) {v : Str} (hv : v ∈ vs) (hnew : t.find v = none) :
    ¬ AnnouncesAdded t t' (ks.map .create) := by
  intro hann
  obtain ⟨kind, hk⟩ := h.told v hv hnew
  obtain ⟨hafter, _⟩ := (hann (v, kind)).mp ((EventList.reports_run_creates ks).mpr hk)
  obtain ⟨e, he, _⟩ := DirTree.mem_keys.mp hafter
  rw [h.gone v hv] at he
  cases he

variable {W : Type} [DecidableEq W]

/-- **A runtime scan announces what it adds if no directory is gone, and where the names of
every directory are distinct, exactly if those that are gone were in the tree before.** -/
theorem addCreatedTree_announces (w : InotifyWatcher W) (path : Str) (t : DirTree)
    (table : SubscriptionTable W) (scan : DirScan) {s' : ScanState W}
    (hin : (t.find path).isSome)
    (hreturns : addCreatedTree w true path scan ⟨t, table, []⟩ = (none, s')) :
    (scan.vanished w path = [] → AnnouncesAdded t s'.tree s'.calls) ∧
      (scan.WellNamed →
        (AnnouncesAdded t s'.tree s'.calls ↔ ∀ v ∈ scan.vanished w path, (t.find v).isSome)) := by
  have houtcome : scan.WellNamed ∨ scan.vanished w path = [] →
      ∃ ks, Outcome t s'.tree ks (scan.found w path) (scan.vanished w path) ∧
        s'.calls = ks.map .create := by
    intro hnamed
    exact addCreatedTree_does (s := ⟨t, table, []⟩) hin hnamed Bool.noConfusion hreturns
  constructor
  · intro hnone
    obtain ⟨ks, h, hcalls⟩ := houtcome (Or.inr hnone)
    rw [hcalls]
    apply h.announcesAdded
    intro k _ v hv
    rw [hnone] at hv
    cases hv
  · intro hnamed
    obtain ⟨ks, h, hcalls⟩ := houtcome (Or.inl hnamed)
    rw [hcalls]
    constructor
    · intro hann v hv
      by_contra hnew
      rw [Option.not_isSome_iff_eq_none] at hnew
      exact h.not_announcesAdded hv hnew hann
    · intro hold
      apply h.announcesAdded
      intro k hk v hv hunder
      obtain ⟨e, he, rfl⟩ := h.sound k hk
      have hown : e.path = v := DirScan.own hnamed he hv hunder
      have hfresh : t.find e.path = none := h.fresh e.key hk
      have hsome := hold v hv
      rw [← hown, hfresh] at hsome
      cases hsome

/-! ## A directory in `/r` -/

/-- `/r` alone. -/
def rootTree : DirTree := (DirTree.new [47, 114]).add [47, 114] 0 true

/-- `/r/d`, with what its watch answers and what is below it. -/
def directoryScan (watch : WatchAnswer) (below : DirScan) : DirScan :=
  .opened (.error 0) (.cons
    ⟨[100], false, some ⟨.directory, ⟨0, 0⟩⟩, false, watch, fun _ => none⟩ below .nil)

/-- `/r/d` holds the file `f`. -/
def fileScan : DirScan :=
  directoryScan (.resolves 1 1) (.opened (.error 0) (.cons
    ⟨[102], false, some ⟨.regular, ⟨0, 0⟩⟩, false, .fails 0, fun _ => none⟩ (.opendirFails 0)
    .nil))

theorem addCreatedTree_announces_file :
    AnnouncesAdded rootTree
      (addCreatedTree plainWatcher true [47, 114] fileScan ⟨rootTree, .start, []⟩).2.tree
      (addCreatedTree plainWatcher true [47, 114] fileScan ⟨rootTree, .start, []⟩).2.calls :=
  (addCreatedTree_announces plainWatcher [47, 114] rootTree .start fileScan (by decide) rfl).1
    (by decide)

/-- `/r/d` is gone when it is to be watched: it is announced, and not in the tree. -/
theorem addCreatedTree_announces_gone :
    let s' := (addCreatedTree plainWatcher true [47, 114]
      (directoryScan (.fails ENOENT) (.opendirFails ENOENT)) ⟨rootTree, .start, []⟩)
    (rootTree.find [47, 114]).isSome = true ∧ s'.1 = none ∧
      ¬ AnnouncesAdded rootTree s'.2.tree s'.2.calls := by
  refine ⟨by decide, by decide, fun h => ?_⟩
  have hkey := (h ([47, 114, 47, 100], .Directory)).mp (by unfold EventBatch.Reports; decide)
  revert hkey
  decide

end NativeWatcher
