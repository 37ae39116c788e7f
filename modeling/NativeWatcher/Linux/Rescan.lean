import NativeWatcher.Linux.Arrival
import NativeWatcher.Linux.MovedTree

/-!
# What the scans keep

A scan that reports announces what it adds; as long as no directory is gone when the scan
comes to it, the list goes on following the tree. A rescan of the target of a move puts the
list and the tree right: what is found there is announced, and what is not is withdrawn. Only
an entry that is found with another kind stays announced under its old one.
-/

namespace NativeWatcher

open Hierarchy EventList

variable {W : Type} [DecidableEq W] {w : InotifyWatcher W} {l : EventList} {V : Finset EventKey}
  {P : Set EventKey} {path : Str} {faults : RmFaults} {scan : DirScan} {r r' : ScanState W}

/-! ## A scan that reports -/

omit [DecidableEq W] in
theorem Outcome.follows {t t' : DirTree} {ks : List EventKey} {fs : List DirEntry}
    (houtcome : Outcome t t' ks fs []) (h : l.Follows V t P ∅) :
    (l.run (ks.map .create)).Follows V t' P ∅ := by
  have hkept : ∀ k, k ∈ t.keys ∨ k ∈ ks → k ∈ t'.keys :=
    fun k hk => houtcome.kept k hk fun _ hv => absurd hv List.not_mem_nil
  apply Follows.of_announces (h.announces.run_creates ks)
  · intro k hk hx
    exact (houtcome.grown k hk).imp (fun hk => h.told k hk hx) id
  · rintro k (hk | hk)
    · exact (h.sound k hk).imp_left fun hk => hkept k (Or.inl hk)
    · exact Or.inl (hkept k (Or.inr hk))

/-- No directory is gone when the scan comes to it. -/
theorem follows_addCreatedTree (hin : (r.tree.find path).isSome)
    (hnone : scan.vanished w path = [])
    (hr : addCreatedTree w true path scan r = (none, r'))
    (h : (l.run r.calls).Follows V r.tree P ∅) : (l.run r'.calls).Follows V r'.tree P ∅ := by
  obtain ⟨ks, houtcome, hcalls⟩ := addCreatedTree_does hin (Or.inr hnone) Bool.noConfusion hr
  rw [hnone] at houtcome
  rw [hcalls, if_pos rfl, run_append]
  exact houtcome.follows h

/-! ## A rescan -/

/-- What a scan without reports keeps: it stays at or below its base, and finds nothing there
that is ignored. -/
structure Silent (w : InotifyWatcher W) (path : Str) (s s' : ScanState W) : Prop where
  calls : s'.calls = s.calls
  elsewhere : ∀ p, ¬ Under slash path p → s'.tree.find p = s.tree.find p
  clear : ∀ p, Under slash path p → s.tree.find p = none → s'.tree.find p ≠ none →
    p = path ∨ w.isIgnored p = false

namespace Silent

variable {s s₁ s₂ : ScanState W}

theorem step (hs : ScanStep w false path s₁ s₂) (h : Silent w path s s₁) : Silent w path s s₂ := by
  have hadd : ∀ {p : Str} (mtime : UInt64) (isDir : Bool), Under slash path p →
      (p = path ∨ w.isIgnored p = false) →
        Silent w path s { s₁ with tree := s₁.tree.add p mtime isDir } := by
    intro p mtime isDir hunder hclear
    refine ⟨h.calls, fun q hq => ?_, fun q hq hold hnew => ?_⟩
    · have hne : q ≠ p := fun heq => hq (heq ▸ hunder)
      exact (DirTree.find_add ..).trans ((if_neg hne).trans (h.elsewhere q hq))
    · by_cases heq : q = p
      · exact heq ▸ hclear
      · apply h.clear q hq hold
        intro hnone
        exact hnew ((DirTree.find_add ..).trans ((if_neg heq).trans hnone))
  cases hs with
  | watchDir => exact ⟨h.calls, h.elsewhere, h.clear⟩
  | removeSubscriptions => exact ⟨h.calls, h.elsewhere, h.clear⟩
  | directory mtime hunder hclear => exact hadd mtime true hunder hclear
  | item mtime isDirectory hbelow hclear => exact hadd mtime isDirectory hbelow.under (Or.inr hclear)
  | remove hbelow =>
      refine ⟨h.calls, fun q hq => ?_, fun q hq hold hnew => ?_⟩
      · show (s₁.tree.remove _).find q = _
        rw [DirTree.find_remove, if_neg]
        · exact h.elsewhere q hq
        · rintro (rfl | ⟨_, hunder⟩)
          · exact hq hbelow.under
          · exact hq (hbelow.under.trans hunder)
      · apply h.clear q hq hold
        intro hnone
        apply hnew
        show (s₁.tree.remove _).find q = none
        rw [DirTree.find_remove, hnone, ite_self]

theorem addCreatedTree (scan : DirScan) (s : ScanState W) :
    Silent w path s (addCreatedTree w false path scan s).2 :=
  (ScanSteps.addCreatedTree scan (.refl path) (Or.inl rfl) s).invariant step
    ⟨rfl, fun _ _ => rfl, fun _ _ hold hnew => absurd hold hnew⟩

end Silent

/-- The tree after the scan of the target of a move that has arrived. -/
def rescannedTree (w : InotifyWatcher W) (path : Str) (scan : DirScan) (r : ScanState W) : DirTree :=
  (addCreatedTree w false path scan { r with tree := (r.tree.extract path).2 }).2.tree

/-- What a rescan has to meet. -/
structure RescanTold (w : InotifyWatcher W) (l : EventList) (V : Finset EventKey)
    (P : Set EventKey) (path : Str) (scan : DirScan) (r : ScanState W) : Prop where
  /-- Nothing is found with another kind. -/
  kinds : ∀ p e e', Under slash path p → r.tree.find p = some e →
    (rescannedTree w path scan r).find p = some e' → e.isDir = e'.isDir
  /-- Nothing that is missing was created in this batch though the consumer held it. -/
  fresh : ∀ k ∈ r.tree.keys, Under slash path k.1 → w.isIgnored k.1 = false →
    (rescannedTree w path scan r).find k.1 = none → (l.run r.calls).StaleCreate V k → k ∈ P
  /-- The consumer is told of nothing that is ignored. -/
  hidden : ∀ k ∈ hiddenBelow w path, (l.run r.calls).Told V k → k ∈ P

/-- What a rescan makes of a tree, if nothing is found with another kind. -/
structure RescanKeeps (w : InotifyWatcher W) (path : Str) (before after : DirTree) : Prop where
  elsewhere : ∀ p, ¬ Under slash path p → after.find p = before.find p
  clear : ∀ p, Under slash path p → after.find p ≠ none → w.isIgnored p = false
  kinds : ∀ p e e', Under slash path p → before.find p = some e → after.find p = some e' →
    e.isDir = e'.isDir

omit [DecidableEq W] in
/-- The scan begins with a tree that has nothing left at or below its base. -/
theorem Silent.clear_extract {r s : ScanState W} (hpath : w.isIgnored path = false)
    (h : Silent w path { r with tree := (r.tree.extract path).2 } s) :
    (∀ p, ¬ Under slash path p → s.tree.find p = r.tree.find p) ∧
      ∀ p, Under slash path p → s.tree.find p ≠ none → w.isIgnored p = false := by
  constructor
  · intro p hp
    exact (h.elsewhere p hp).trans ((DirTree.find_extract ..).trans (if_neg hp))
  · intro p hp hfound
    rcases h.clear p hp ((DirTree.find_extract ..).trans (if_pos hp)) hfound with rfl | hclear
    · exact hpath
    · exact hclear

namespace RescanKeeps

variable {before after : DirTree} {k : EventKey}

omit [DecidableEq W] in
theorem mem_keys_of_kept (h : RescanKeeps w path before after) {e e' : DirEntry}
    (hunder : Under slash path k.1) (hold : before.find k.1 = some e)
    (hnew : after.find k.1 = some e') : k ∈ before.keys ↔ k ∈ after.keys :=
  DirTree.mem_keys_iff_of_kind hold hnew (h.kinds k.1 e e' hunder hold hnew)

omit [DecidableEq W] in
/-- What is in the new tree is reported, or was there and is visible. -/
theorem of_mem_after (h : RescanKeeps w path before after) (hk : k ∈ after.keys) :
    Compared w path before after .create k ∨
      k ∈ before.keys ∧ k ∉ hiddenBelow w path ∧ ¬ Compared w path before after .delete k := by
  obtain ⟨e, hfind, -⟩ := DirTree.mem_keys.mp hk
  have hkept : ¬ Compared w path before after .delete k := by
    rw [compared_delete_iff]
    rintro ⟨-, hnone, -⟩
    rw [hnone] at hfind
    cases hfind
  by_cases hunder : Under slash path k.1
  · cases hold : before.find k.1 with
    | none => exact Or.inl (compared_create hunder hold hk)
    | some old =>
        have hclear : w.isIgnored k.1 = false :=
          h.clear k.1 hunder (by rw [hfind]; exact Option.some_ne_none e)
        refine Or.inr ⟨(h.mem_keys_of_kept hunder hold hfind).mpr hk, ?_, hkept⟩
        rintro ⟨hignored, -⟩
        rw [hclear] at hignored
        cases hignored
  · exact Or.inr ⟨(DirTree.keys_congr (h.elsewhere k.1 hunder)).mp hk, fun hx => hunder hx.2, hkept⟩

omit [DecidableEq W] in
/-- What was in the old tree is in the new one, withdrawn, or hidden. -/
theorem of_mem_before (h : RescanKeeps w path before after) (hk : k ∈ before.keys) :
    k ∈ after.keys ∨ k ∈ hiddenBelow w path ∨ Compared w path before after .delete k := by
  obtain ⟨old, hold, -⟩ := DirTree.mem_keys.mp hk
  by_cases hunder : Under slash path k.1
  · cases hnew : after.find k.1 with
    | none =>
        right
        cases hignored : w.isIgnored k.1 with
        | true => exact Or.inl ⟨hignored, hunder⟩
        | false => exact Or.inr (compared_delete_iff.mpr ⟨hunder, hnew, hignored, hk⟩)
    | some e => exact Or.inl ((h.mem_keys_of_kept hunder hold hnew).mp hk)
  · exact Or.inl ((DirTree.keys_congr (h.elsewhere k.1 hunder)).mpr hk)

end RescanKeeps

/-- A rescan keeps to the tree, and nothing stays hidden. -/
theorem follows_reconcileMovedTree (hpath : w.isIgnored path = false)
    (hr : reconcileMovedTree w faults path scan r = (none, r'))
    (h : (l.run r.calls).Follows V r.tree P (hiddenBelow w path))
    (hok : RescanTold w l V P path scan r) : (l.run r'.calls).Follows V r'.tree P ∅ := by
  have hsilent : Silent w path { r with tree := (r.tree.extract path).2 }
      (addCreatedTree w false path scan { r with tree := (r.tree.extract path).2 }).2 :=
    Silent.addCreatedTree scan _
  have hkinds := hok.kinds
  have hfresh := hok.fresh
  unfold rescannedTree at hkinds hfresh
  unfold reconcileMovedTree at hr
  dsimp only at hr
  generalize addCreatedTree w false path scan { r with tree := (r.tree.extract path).2 } = result
    at hr hsilent hkinds hfresh
  rcases result with ⟨_ | errno, s⟩
  swap
  · cases hr
  cases hr
  dsimp only at hsilent hkinds hfresh
  obtain ⟨helsewhere, hclear⟩ := hsilent.clear_extract hpath
  have hkeeps : RescanKeeps w path r.tree s.tree := ⟨helsewhere, hclear, hkinds⟩
  obtain ⟨report, hcalls, hnodup, hreport⟩ := compareMovedTree_calls w faults path r.tree s
  show (l.run (compareMovedTree w faults path (r.tree.extract path).1 s).calls).Follows V s.tree P ∅
  rw [hcalls, hsilent.calls, run_append]
  have hannounces := h.announces.run_calls hnodup fun k hk => by
    obtain ⟨-, -, hvisible, hkey⟩ := compared_delete_iff.mp ((hreport .delete k).mp hk)
    refine h.announces.known_of_mem (h.told k hkey ?_)
    rintro ⟨hignored, -⟩
    rw [hvisible] at hignored
    cases hignored
  apply Follows.of_announces hannounces
  · intro k hk _
    rcases hkeeps.of_mem_after hk with hcreate | ⟨hkey, hvisible, hkept⟩
    · exact Or.inr ((hreport .create k).mpr hcreate)
    · exact Or.inl ⟨h.told k hkey hvisible, Or.inl fun hd => hkept ((hreport .delete k).mp hd)⟩
  · rintro k (⟨htold, hrest⟩ | hcreate)
    · rcases h.sound k htold with hkey | hp
      · rcases hkeeps.of_mem_before hkey with hin | hhidden | hdelete
        · exact Or.inl hin
        · exact Or.inr (hok.hidden k hhidden htold)
        · obtain ⟨hunder, hnone, hvisible, -⟩ := compared_delete_iff.mp hdelete
          have hstale := hrest.resolve_left fun hn => hn ((hreport .delete k).mpr hdelete)
          exact Or.inr (hfresh k hkey hunder hvisible hnone hstale)
      · exact Or.inr hp
    · exact Or.inl ((hreport .create k).mp hcreate).mem_keys

end NativeWatcher
