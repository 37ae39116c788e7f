import NativeWatcher.Linux.CreatedTree

/-!
# What a rescan of a moved tree reports

`reconcileMovedTree` takes the entries at and below the destination out, scans them
again without a word and compares. Every path is compared once, so every key is named
once, and the batch holds the calls as they were made: an entry that changes its kind is
said to be updated, and the destination itself is reported even if it is ignored.
-/

namespace NativeWatcher

open Hierarchy

/-- A call and the key that it names. -/
abbrev Call := EventType × EventKey

def Call.op (c : Call) : EventOp := c.1.call c.2

/-- What the comparison says of an entry, given what was at its path. -/
def comparisonType (e : DirEntry) : Option DirEntry → Option EventType
  | none => some .create
  | some old =>
      if old.isDir != e.isDir || (!e.isDir && old.mtime != e.mtime) then some .update else none

variable {W : Type} [DecidableEq W] {w : InotifyWatcher W} {faults : RmFaults} {path p : Str}

/-! ## The two loops -/

namespace Comparison

def changes (before : FiniteMap Str DirEntry) (e : DirEntry) : List Call :=
  (comparisonType e (before.lookup e.path)).toList.map fun type => (type, e.key)

theorem current_spec (w : InotifyWatcher W) (faults : RmFaults) (c : Comparison W) (e : DirEntry) :
    (current w faults c e).calls = c.calls ++ (changes c.before e).map Call.op ∧
      ∀ p, (current w faults c e).before.lookup p =
        if p = e.path then none else c.before.lookup p := by
  unfold current changes
  cases hold : c.before.lookup e.path with
  | none =>
      refine ⟨rfl, fun p => ?_⟩
      show c.before.lookup p = _
      by_cases hp : p = e.path
      · rw [if_pos hp, hp]
        exact hold
      · rw [if_neg hp]
  | some old =>
      refine ⟨?_, fun p => ?_⟩
      · by_cases hkind : old.isDir = e.isDir
        · cases hdir : e.isDir with
          | true => simp [comparisonType, hkind, hdir]
          | false =>
              by_cases hmtime : old.mtime = e.mtime
              · simp [comparisonType, hkind, hdir, hmtime]
              · simp [comparisonType, hkind, hdir, hmtime, Call.op, EventType.call, DirEntry.key]
        · simp [comparisonType, hkind, Call.op, EventType.call]
      · apply Eq.trans _ (FiniteMap.lookup_erase_eq c.before e.path p)
        dsimp only
        split
        · rfl
        · split <;> rfl

theorem foldl_current (w : InotifyWatcher W) (faults : RmFaults) {es : List DirEntry} (hnodup : (es.map DirEntry.path).Nodup) :
    ∀ c : Comparison W,
      (es.foldl (current w faults) c).calls =
          c.calls ++ (es.flatMap (changes c.before)).map Call.op ∧
        ∀ p, (es.foldl (current w faults) c).before.lookup p =
          if p ∈ es.map DirEntry.path then none else c.before.lookup p := by
  induction es with
  | nil =>
      intro c
      simp
  | cons e es ih =>
      intro c
      rw [List.map_cons, List.nodup_cons] at hnodup
      obtain ⟨hcalls, hbefore⟩ := current_spec w faults c e
      obtain ⟨hcallsRest, hbeforeRest⟩ := ih hnodup.2 (current w faults c e)
      have hchanges : ∀ e' ∈ es, changes (current w faults c e).before e' = changes c.before e' := by
        intro e' he'
        have hne : e'.path ≠ e.path := fun heq => hnodup.1 (heq ▸ List.mem_map_of_mem he')
        rw [changes, hbefore, if_neg hne]
        rfl
      rw [List.foldl_cons]
      constructor
      · rw [hcallsRest, hcalls, List.flatMap_cons, List.map_append, List.append_assoc,
          List.flatMap_congr hchanges]
      · intro p
        rw [hbeforeRest, hbefore, List.map_cons]
        by_cases hp : p = e.path
        · simp [hp]
        · simp [hp]

theorem foldl_vanished (es : List DirEntry) (c : Comparison W) :
    (es.foldl (vanished w faults) c).calls =
      c.calls ++ (es.filter fun e => !w.isIgnored e.path).map DirEntry.removal := by
  induction es generalizing c with
  | nil => simp
  | cons e es ih =>
      rw [List.foldl_cons, ih]
      unfold vanished
      cases hig : w.isIgnored e.path with
      | true => simp [hig]
      | false => simp [hig]

end Comparison

/-! ## Both loops on two trees -/

theorem lookup_entryMap {es : List DirEntry} (hnodup : (es.map DirEntry.path).Nodup)
    {e : DirEntry} : (entryMap es).lookup p = some e ↔ e ∈ es ∧ e.path = p := by
  induction es using List.reverseRecOn generalizing e with
  | nil => simp [entryMap]
  | append_singleton es e' ih =>
      rw [List.map_append, List.map_singleton, List.nodup_append_comm, List.singleton_append,
        List.nodup_cons] at hnodup
      have ih : ∀ {e}, _ ↔ _ := fun {e} => ih hnodup.2 (e := e)
      have hsnoc : entryMap (es ++ [e']) = (entryMap es).emplace e'.path e' := by
        unfold entryMap
        rw [List.foldl_append]
        rfl
      rw [hsnoc, FiniteMap.lookup_emplace, List.mem_append, List.mem_singleton]
      by_cases hp : p = e'.path
      · subst hp
        have hnew : ∀ e, ¬ (e ∈ es ∧ e.path = e'.path) := by
          rintro e ⟨he, hpath⟩
          exact hnodup.1 (hpath ▸ List.mem_map_of_mem he)
        have hnone : (entryMap es).lookup e'.path = none := by
          apply Option.eq_none_iff_forall_ne_some.mpr
          intro e he
          exact hnew e (ih.mp he)
        rw [if_pos rfl, hnone]
        constructor
        · intro h
          rw [← Option.some.inj h]
          exact ⟨Or.inr rfl, rfl⟩
        · rintro ⟨he | rfl, hpath⟩
          · exact absurd ⟨he, hpath⟩ (hnew e)
          · rfl
      · rw [if_neg hp, ih]
        constructor
        · rintro ⟨he, hpath⟩
          exact ⟨Or.inl he, hpath⟩
        · rintro ⟨he | rfl, hpath⟩
          · exact ⟨he, hpath⟩
          · exact absurd hpath.symm hp

/-- What was at or below a path, looked up. -/
theorem lookup_entryMap_extract (t : DirTree) :
    (entryMap (t.extract path).1).lookup p = if Under slash path p then t.find p else none := by
  apply Option.ext
  intro e
  rw [lookup_entryMap (t.nodup_extract path), DirTree.mem_extract]
  constructor
  · rintro ⟨⟨hfind, hunder⟩, rfl⟩
    rw [if_pos hunder]
    exact hfind
  · intro h
    split at h
    next hunder =>
        obtain rfl := DirTree.path_of_find h
        exact ⟨⟨h, hunder⟩, rfl⟩
    next => cases h

/-- The loop over the tree reads what `extract` would take out of it. -/
theorem present_eq (t : DirTree) :
    ((t.entries.pairs.map Prod.snd).filter fun e => isPathOrDescendant e.path path) =
      (t.extract path).1 := by
  rw [List.filter_map]
  show _ = (t.entries.pairs.filter fun b => atOrBelow path b.1 slash).map Prod.snd
  congr 1
  apply List.filter_congr
  rintro ⟨p, e⟩ hmem
  have hpath : e.path = p := t.keyed p e (FiniteMap.mem_pairs.mp hmem)
  rw [Function.comp_apply, Bool.eq_iff_iff, isPathOrDescendant_iff, atOrBelow_iff, hpath]

/-- The calls of the comparison: `before` is the tree before the scan, `after` the one
that it left. -/
def Compared (w : InotifyWatcher W) (path : Str) (before after : DirTree) (type : EventType)
    (k : EventKey) : Prop :=
  Under slash path k.1 ∧
    ((∃ e, after.find k.1 = some e ∧ e.key = k ∧
        comparisonType e (before.find k.1) = some type) ∨
      (after.find k.1 = none ∧ type = .delete ∧ w.isIgnored k.1 = false ∧
        k ∈ before.keys))

omit [DecidableEq W] in
theorem compared_delete_iff {before after : DirTree} {k : EventKey} :
    Compared w path before after .delete k ↔ Under slash path k.1 ∧ after.find k.1 = none ∧
      w.isIgnored k.1 = false ∧ k ∈ before.keys := by
  have hfound : ∀ e old, comparisonType e old ≠ some .delete := by
    intro e old
    unfold comparisonType
    split
    · exact nofun
    · split <;> exact nofun
  constructor
  · rintro ⟨hunder, ⟨e, -, -, htype⟩ | ⟨hnone, -, hrest⟩⟩
    · exact absurd htype (hfound e _)
    · exact ⟨hunder, hnone, hrest⟩
  · rintro ⟨hunder, hnone, hrest⟩
    exact ⟨hunder, Or.inr ⟨hnone, rfl, hrest⟩⟩

omit [DecidableEq W] in
theorem Compared.mem_keys {before after : DirTree} {k : EventKey}
    (h : Compared w path before after .create k) : k ∈ after.keys := by
  obtain ⟨-, ⟨e, hfind, hkey, -⟩ | ⟨-, htype, -⟩⟩ := h
  · exact DirTree.mem_keys.mpr ⟨e, hfind, hkey⟩
  · cases htype

omit [DecidableEq W] in
theorem compared_create {before after : DirTree} {k : EventKey} (hunder : Under slash path k.1)
    (hnone : before.find k.1 = none) (hk : k ∈ after.keys) :
    Compared w path before after .create k := by
  obtain ⟨e, hfind, hkey⟩ := DirTree.mem_keys.mp hk
  refine ⟨hunder, Or.inl ⟨e, hfind, hkey, ?_⟩⟩
  rw [hnone]
  rfl

theorem mem_extract_paths {t : DirTree} :
    p ∈ (t.extract path).1.map DirEntry.path ↔ Under slash path p ∧ (t.find p).isSome := by
  rw [List.mem_map]
  constructor
  · rintro ⟨e, he, rfl⟩
    obtain ⟨hfind, hunder⟩ := DirTree.mem_extract.mp he
    exact ⟨hunder, Option.isSome_iff_exists.mpr ⟨e, hfind⟩⟩
  · rintro ⟨hunder, hsome⟩
    obtain ⟨e, hfind⟩ := Option.isSome_iff_exists.mp hsome
    obtain rfl := DirTree.path_of_find hfind
    exact ⟨e, DirTree.mem_extract.mpr ⟨hfind, hunder⟩, rfl⟩

theorem changes_paths (before : FiniteMap Str DirEntry) (es : List DirEntry) :
    List.Sublist ((es.flatMap (Comparison.changes before)).map fun c => c.2.1)
      (es.map DirEntry.path) := by
  induction es with
  | nil => simp
  | cons e es ih =>
      rw [List.flatMap_cons, List.map_append, List.map_cons]
      have hfirst : List.Sublist ((Comparison.changes before e).map fun c => c.2.1) [e.path] := by
        unfold Comparison.changes
        cases comparisonType e (before.lookup e.path) with
        | none => exact List.nil_sublist _
        | some type => exact List.Sublist.refl _
      exact hfirst.append ih

section Keyed

variable {before : FiniteMap Str DirEntry}
  (hkeyed : ∀ p e, before.lookup p = some e → e.path = p)

include hkeyed

theorem lookup_of_mem_keyed {e : DirEntry} (he : e ∈ before.pairs.map Prod.snd) :
    before.lookup e.path = some e := by
  obtain ⟨⟨p, e⟩, hmem, rfl⟩ := List.mem_map.mp he
  have hlookup := FiniteMap.mem_pairs.mp hmem
  rw [hkeyed p e hlookup]
  exact hlookup

theorem nodup_keyed : ((before.pairs.map Prod.snd).map DirEntry.path).Nodup := by
  have hkeys : (before.pairs.map Prod.snd).map DirEntry.path = before.pairs.map Prod.fst := by
    rw [List.map_map]
    apply List.map_congr_left
    rintro ⟨p, e⟩ hmem
    exact hkeyed p e (FiniteMap.mem_pairs.mp hmem)
  rw [hkeys]
  exact before.pairs_keys_nodup

end Keyed

theorem compareMovedTree_calls (w : InotifyWatcher W) (faults : RmFaults) (path : Str)
    (t : DirTree) (s : ScanState W) :
    ∃ report : List Call,
      (compareMovedTree w faults path (t.extract path).1 s).calls =
          s.calls ++ report.map Call.op ∧
        (report.map Prod.snd).Nodup ∧
          ∀ type k, (type, k) ∈ report ↔ Compared w path t s.tree type k := by
  obtain ⟨hcalls, hleft⟩ := Comparison.foldl_current w faults
    (s.tree.nodup_extract path) ⟨entryMap (t.extract path).1, s.table, s.calls⟩
  unfold compareMovedTree
  rw [present_eq]
  dsimp only
  generalize hc : (s.tree.extract path).1.foldl (Comparison.current w faults)
    ⟨entryMap (t.extract path).1, s.table, s.calls⟩ = c at hcalls hleft
  -- what the first loop has left of the entries that were there
  have hold : ∀ p e, c.before.lookup p = some e ↔
      Under slash path p ∧ s.tree.find p = none ∧ t.find p = some e := by
    intro p e
    rw [hleft, lookup_entryMap_extract]
    simp only [mem_extract_paths]
    by_cases hunder : Under slash path p
    · cases s.tree.find p <;> simp [hunder]
    · simp [hunder]
  have hkeyed : ∀ p e, c.before.lookup p = some e → e.path = p := fun p e hlookup =>
    DirTree.path_of_find ((hold p e).mp hlookup).2.2
  refine ⟨(s.tree.extract path).1.flatMap (Comparison.changes (entryMap (t.extract path).1)) ++
    ((c.before.pairs.map Prod.snd).filter fun e => !w.isIgnored e.path).map
      fun e => (.delete, e.key), ?_, ?_, ?_⟩
  · rw [Comparison.foldl_vanished, hcalls, List.append_assoc, List.map_append, List.map_map]
    rfl
  · -- A path is reported by one loop only: the second has the paths that are not there now.
    apply List.Nodup.of_map Prod.fst
    rw [List.map_map, List.map_append, List.map_map]
    apply List.Nodup.append
    · exact (s.tree.nodup_extract path).sublist (changes_paths _ _)
    · exact (nodup_keyed hkeyed).sublist (List.filter_sublist.map _)
    · intro p hpresent hgone
      have hin := mem_extract_paths.mp ((changes_paths _ _).subset hpresent)
      obtain ⟨e, he, rfl⟩ := List.mem_map.mp hgone
      have hnone := ((hold _ _).mp (lookup_of_mem_keyed hkeyed (List.mem_of_mem_filter he))).2.1
      change Under slash path e.path ∧ (s.tree.find e.path).isSome at hin
      rw [hnone] at hin
      cases hin.2
  · intro type k
    rw [List.mem_append, List.mem_flatMap, List.mem_map]
    constructor
    · rintro (⟨e, he, hchange⟩ | ⟨e, he, heq⟩)
      · obtain ⟨hfind, hunder⟩ := DirTree.mem_extract.mp he
        obtain ⟨type, htype, heq⟩ := List.mem_map.mp hchange
        cases heq
        rw [lookup_entryMap_extract, if_pos hunder, Option.mem_toList] at htype
        exact ⟨hunder, Or.inl ⟨e, hfind, rfl, htype⟩⟩
      · cases heq
        obtain ⟨hmem, hclear⟩ := List.mem_filter.mp he
        rw [Bool.not_eq_true'] at hclear
        obtain ⟨hunder, hnone, hfind⟩ := (hold _ _).mp (lookup_of_mem_keyed hkeyed hmem)
        exact ⟨hunder, Or.inr ⟨hnone, rfl, hclear, DirTree.key_mem_keys hfind⟩⟩
    · rintro ⟨hunder, ⟨e, hfind, rfl, htype⟩ | ⟨hnone, rfl, hclear, hkey⟩⟩
      · refine Or.inl ⟨e, DirTree.mem_extract.mpr ⟨hfind, hunder⟩, ?_⟩
        have hlookup : (entryMap (t.extract path).1).lookup e.path = t.find e.path :=
          (lookup_entryMap_extract t).trans (if_pos hunder)
        refine List.mem_map.mpr ⟨type, ?_, rfl⟩
        rw [hlookup, Option.mem_toList]
        exact htype
      · obtain ⟨e, hfind, rfl⟩ := DirTree.mem_keys.mp hkey
        have hlookup := (hold _ _).mpr ⟨hunder, hnone, hfind⟩
        refine Or.inr ⟨e, List.mem_filter.mpr ⟨?_, ?_⟩, rfl⟩
        · exact List.mem_map.mpr ⟨(e.path, e), FiniteMap.mem_pairs.mpr hlookup, rfl⟩
        · show (!w.isIgnored e.path) = true
          rw [Bool.not_eq_true']
          exact hclear

/-! ## The tree after the scan -/

/-- What the tree holds at and below the destination: a directory, and what was found. -/
structure Rescanned (w : InotifyWatcher W) (path : Str) (scan : DirScan) (t : DirTree) : Prop where
  destination : ∃ e, t.find path = some e ∧ e.isDir = true
  sound : ∀ {p e}, Below slash path p → t.find p = some e →
    ∃ f ∈ scan.found w path, f.key = e.key
  complete : ∀ f ∈ scan.found w path, ∃ e, t.find f.path = some e ∧ e.isDir = f.isDir

/-- A silent scan of a stable subtree on a tree without it. -/
theorem addCreatedTree_rescanned {scan : DirScan} {s : ScanState W} (hstable : scan.Stable w path)
    (hclear : ∀ p, Under slash path p → s.tree.find p = none) :
    Rescanned w path scan (addCreatedTree w false path scan s).2.tree ∧
      (addCreatedTree w false path scan s).2.calls = s.calls := by
  cases scan with
  | opendirFails errno => cases hstable.watchable
  | opened fstat items =>
      cases fstat with
      | error errno => cases hstable.watchable.1
      | ok attributes =>
          -- the entry of the destination comes first, and the scan goes on from there
          have hnone : s.tree.find path = none := hclear path (.refl _)
          let s₁ : ScanState W :=
            { s with tree := s.tree.add path (convertTime attributes.st_mtim) true }
          have hfind : ∀ p, s₁.tree.find p =
              if p = path then some ⟨path, convertTime attributes.st_mtim, true⟩
              else s.tree.find p := by
            intro p
            show (s.tree.add path (convertTime attributes.st_mtim) true).find p = _
            rw [DirTree.find_add, hnone]
            rfl
          have hin : (s₁.tree.find path).isSome := by
            rw [hfind, if_pos rfl]
            rfl
          have hscan : addCreatedTree w false path (.opened (.ok attributes) items) s =
              addCreatedTree w false path (.opened (.ok attributes) items) s₁ := by
            have hdir : addDirectory path (.ok attributes) s = .ok s₁ := by
              unfold addDirectory
              rw [hnone]
              rfl
            rw [addCreatedTree_opened hin]
            unfold addCreatedTree
            split
            next h =>
                rw [hdir] at h
                cases h
            next h =>
                rw [hdir] at h
                cases h
                rfl
          rw [hscan]
          have hreturns : (addCreatedTree w false path (.opened (.ok attributes) items) s₁).1 =
              none := addCreatedTree_watchable hstable.watchable
          rcases hr : addCreatedTree w false path (.opened (.ok attributes) items) s₁ with ⟨r, s'⟩
          rw [hr] at hreturns
          cases hreturns
          have hvanished := DirScan.vanished_of_watchable hstable.watchable
          obtain ⟨ks, houtcome, hcalls⟩ := addCreatedTree_does hin (Or.inl hstable.wellNamed)
            (fun _ => hstable.uncancelled) hr
          rw [hvanished] at houtcome
          have hsound : ∀ {p e}, Below slash path p → s'.tree.find p = some e →
              ∃ f ∈ (DirScan.opened (.ok attributes) items).found w path, f.key = e.key := by
            intro p e hbelow hp
            refine houtcome.sound _ (houtcome.mem_of_find hp ?_)
            rw [hfind, if_neg hbelow.ne, hclear p hbelow.under]
          refine ⟨⟨?_, hsound, ?_⟩, ?_⟩
          · have hkey : (path, EntryKind.Directory) ∈ s'.tree.keys := by
              apply houtcome.kept _ (Or.inl _) (by simp)
              apply DirTree.mem_keys.mpr
              exact ⟨_, (hfind path).trans (if_pos rfl), rfl⟩
            obtain ⟨e, he, hek⟩ := DirTree.mem_keys.mp hkey
            exact ⟨e, he, (DirEntry.key_eq_iff.mp hek).2⟩
          · intro f hf
            obtain ⟨e, he⟩ := Option.isSome_iff_exists.mp (houtcome.complete f hf (by simp))
            obtain ⟨f', hf', hkey⟩ := hsound (DirScan.found_below hf) he
            obtain ⟨hpath, hkind⟩ := DirEntry.key_eq_iff.mp hkey
            rw [DirTree.path_of_find he] at hpath
            refine ⟨e, he, ?_⟩
            rw [← hkind, DirScan.found_inj hstable.wellNamed hf' hf hpath]
          · rw [hcalls]
            exact List.append_nil _

/-! ## The net change -/

/-- The batch tells, for what is not ignored at or below `path`, what changed from one
tree to the other, and tells of nothing else. -/
structure ReportsNetChange (w : InotifyWatcher W) (path : Str) (before after : DirTree)
    (b : EventBatch) : Prop where
  created : ∀ k, Under slash path k.1 → w.isIgnored k.1 = false →
    (b.Reports .create k ↔ k ∈ after.keys ∧ k ∉ before.keys)
  deleted : ∀ k, Under slash path k.1 → w.isIgnored k.1 = false →
    (b.Reports .delete k ↔ k ∈ before.keys ∧ k ∉ after.keys)
  updated : ∀ k, Under slash path k.1 → w.isIgnored k.1 = false →
    (b.Reports .update k ↔ k ∈ before.keys ∧ k ∈ after.keys ∧ k.2 = .File ∧
      (before.find k.1).map DirEntry.mtime ≠ (after.find k.1).map DirEntry.mtime)
  named : ∀ type k, b.Reports type k → Under slash path k.1 ∧ w.isIgnored k.1 = false

/-- No path at or below the destination changes its kind between the tree and the subtree
that is scanned, and an ignored destination is in the tree. -/
structure KindsKept (w : InotifyWatcher W) (path : Str) (t : DirTree) (scan : DirScan) :
    Prop where
  destination : ∀ old, t.find path = some old → old.isDir = true
  entries : ∀ f ∈ scan.found w path, ∀ old, t.find f.path = some old → old.isDir = f.isDir
  clear : w.isIgnored path = true → (t.find path).isSome

variable {t t' : DirTree} {b : EventBatch} {scan : DirScan}

/-- The keys of two entries at one path are the same if the kinds are. -/
theorem key_eq_of_find {old e : DirEntry} (hold : t.find p = some old) (he : t'.find p = some e) :
    old.key = e.key ↔ old.isDir = e.isDir := by
  have hpath : old.path = e.path :=
    (DirTree.path_of_find hold).trans (DirTree.path_of_find he).symm
  exact DirEntry.key_eq_iff.trans (and_iff_right hpath)

omit [DecidableEq W] in
/-- Where the kind is kept, the comparison says what changed. -/
theorem compared_iff {k : EventKey} (hunder : Under slash path k.1)
    (hig : w.isIgnored k.1 = false)
    (hkind : ∀ old e, Under slash path k.1 → t.find k.1 = some old → t'.find k.1 = some e →
      old.isDir = e.isDir) (type : EventType) :
    Compared w path t t' type k ↔
      match type with
      | .create => k ∈ t'.keys ∧ k ∉ t.keys
      | .delete => k ∈ t.keys ∧ k ∉ t'.keys
      | .update => k ∈ t.keys ∧ k ∈ t'.keys ∧ k.2 = .File ∧
          (t.find k.1).map DirEntry.mtime ≠ (t'.find k.1).map DirEntry.mtime := by
  rw [Compared, and_iff_right hunder]
  cases hold : t.find k.1 with
  | none =>
      have hbefore := DirTree.not_mem_keys_of_find hold
      cases he : t'.find k.1 with
      | none =>
          have hafter := DirTree.not_mem_keys_of_find he
          cases type <;> simp [hbefore, hafter]
      | some e =>
          have hafter := DirTree.mem_keys_of_find he
          cases type <;> simp [hbefore, hafter, comparisonType]
  | some old =>
      have hbefore := DirTree.mem_keys_of_find hold
      cases he : t'.find k.1 with
      | none =>
          have hafter := DirTree.not_mem_keys_of_find he
          cases type <;> simp [hbefore, hafter, hig]
      | some e =>
          have hafter := DirTree.mem_keys_of_find he
          have hsame := hkind old e hunder hold he
          rw [(key_eq_of_find hold he).mpr hsame] at hbefore
          have htype : comparisonType e (some old) =
              if e.isDir = false ∧ old.mtime ≠ e.mtime then some .update else none := by
            simp [comparisonType, hsame]
          simp only [reduceCtorEq, false_and, or_false, Option.some.injEq, exists_eq_left',
            htype, hbefore, hafter, Option.map_some]
          cases type with
          | create =>
              by_cases hchanged : e.isDir = false ∧ old.mtime ≠ e.mtime <;> simp [hchanged]
          | delete =>
              by_cases hchanged : e.isDir = false ∧ old.mtime ≠ e.mtime <;> simp [hchanged]
          | update =>
              have hfile : e.key = k → (k.2 = .File ↔ e.isDir = false) := by
                rintro rfl
                exact entryKind_inj (b := false)
              by_cases hek : e.key = k
              · simp [hek, hfile hek]
              · simp [hek]

omit [DecidableEq W] in
/-- Kinds and ignored paths decide whether the comparison is right. -/
theorem reportsNetChange_iff (h : ∀ type k, b.Reports type k ↔ Compared w path t t' type k) :
    ReportsNetChange w path t t' b ↔
      (∀ p old e, Under slash path p → t.find p = some old → t'.find p = some e →
        old.isDir = e.isDir) ∧
      ∀ type k, Compared w path t t' type k → w.isIgnored k.1 = false := by
  constructor
  · intro hnet
    have hclear : ∀ type k, Compared w path t t' type k → w.isIgnored k.1 = false :=
      fun type k hk => (hnet.named type k ((h type k).mpr hk)).2
    refine ⟨?_, hclear⟩
    intro p old e hunder hold he
    by_contra hne
    obtain rfl := DirTree.path_of_find he
    -- the entry counts as updated, and nothing is created under its new kind
    have hupdate : Compared w path t t' .update e.key :=
      ⟨hunder, Or.inl ⟨e, he, rfl, by
        show comparisonType e (t.find e.path) = _
        rw [hold]
        simp [comparisonType, hne]⟩⟩
    have hbefore : e.key ∉ t.keys := by
      rw [DirTree.mem_keys_of_find hold, key_eq_of_find hold he]
      exact hne
    have hcreate := (h _ _).mp ((hnet.created e.key hunder (hclear _ _ hupdate)).mpr
      ⟨DirTree.key_mem_keys he, hbefore⟩)
    rcases hcreate.2 with ⟨e', he', _, htype⟩ | ⟨hnone, _⟩
    · obtain rfl := Option.some.inj (he.symm.trans he')
      change comparisonType e (t.find e.path) = _ at htype
      rw [hold] at htype
      simp [comparisonType, hne] at htype
    · exact absurd (he.symm.trans hnone) (by simp)
  · rintro ⟨hkinds, hclear⟩
    refine ⟨fun k hunder hig => ?_, fun k hunder hig => ?_, fun k hunder hig => ?_, ?_⟩
    · rw [h]
      exact compared_iff hunder hig (hkinds k.1) .create
    · rw [h]
      exact compared_iff hunder hig (hkinds k.1) .delete
    · rw [h]
      exact compared_iff hunder hig (hkinds k.1) .update
    · intro type k hreports
      have hcompared := (h type k).mp hreports
      exact ⟨hcompared.1, hclear type k hcompared⟩

omit [DecidableEq W] in
/-- The two conditions, read off the tree before the scan and what the scan finds. -/
theorem kindsKept_iff (h : Rescanned w path scan t') :
    KindsKept w path t scan ↔
      (∀ p old e, Under slash path p → t.find p = some old → t'.find p = some e →
        old.isDir = e.isDir) ∧
      ∀ type k, Compared w path t t' type k → w.isIgnored k.1 = false := by
  obtain ⟨root, hroot, hrootDir⟩ := h.destination
  constructor
  · intro hkept
    constructor
    · intro p old e hunder hold he
      by_cases hp : p = path
      · subst hp
        obtain rfl := Option.some.inj (hroot.symm.trans he)
        rw [hkept.destination old hold, hrootDir]
      · obtain ⟨f, hf, hkey⟩ := h.sound (hunder.below hp) he
        obtain ⟨hpath, hkind⟩ := DirEntry.key_eq_iff.mp hkey
        rw [DirTree.path_of_find he] at hpath
        rw [hkept.entries f hf old (hpath ▸ hold), hkind]
    · rintro type k ⟨hunder, ⟨e, he, hek, htype⟩ | ⟨_, _, hclear, _⟩⟩
      · by_cases hp : k.1 = path
        · by_contra hig
          rw [hp, Bool.not_eq_false] at hig
          obtain ⟨old, hold⟩ := Option.isSome_iff_exists.mp (hkept.clear hig)
          rw [hp, hroot] at he
          obtain rfl := Option.some.inj he
          rw [hp, hold] at htype
          simp [comparisonType, hkept.destination old hold, hrootDir] at htype
        · obtain ⟨f, hf, hkey⟩ := h.sound (hunder.below hp) he
          have hpath := (DirEntry.key_eq_iff.mp hkey).1
          rw [DirTree.path_of_find he] at hpath
          rw [← hpath]
          exact DirScan.found_clear hf
      · exact hclear
  · rintro ⟨hkinds, hclear⟩
    constructor
    · intro old hold
      rw [hkinds path old root (.refl _) hold hroot, hrootDir]
    · intro f hf old hold
      obtain ⟨e, he, hkind⟩ := h.complete f hf
      rw [hkinds f.path old e (DirScan.found_below hf).under hold he, hkind]
    · intro hig
      by_contra hnone
      rw [Option.not_isSome_iff_eq_none] at hnone
      have hpath : root.key.1 = path := DirTree.path_of_find hroot
      have hcreate : Compared w path t t' .create root.key := by
        rw [Compared, hpath]
        exact ⟨.refl _, Or.inl ⟨root, hroot, rfl, by rw [hnone]; rfl⟩⟩
      have hnot := hclear _ _ hcreate
      rw [hpath, hig] at hnot
      cases hnot

/-- **Rescanning a moved tree reports its net change exactly if no kind changes and an
ignored destination was there before.** -/
theorem reconcileMovedTree_net_change (w : InotifyWatcher W) (faults : RmFaults) (path : Str)
    (t : DirTree) (table : SubscriptionTable W) (scan : DirScan) (hstable : scan.Stable w path) :
    let result := reconcileMovedTree w faults path scan ⟨t, table, []⟩
    result.1 = none ∧
      (ReportsNetChange w path t result.2.tree (EventList.empty.run result.2.calls).drain.1 ↔
        KindsKept w path t scan) := by
  have hclear : ∀ p, Under slash path p → (t.extract path).2.find p = none := by
    intro p hunder
    rw [DirTree.find_extract, if_pos hunder]
  obtain ⟨hrescanned, hcalls⟩ := addCreatedTree_rescanned (s := ⟨(t.extract path).2, table, []⟩)
    hstable hclear
  have hreturns : (addCreatedTree w false path scan ⟨(t.extract path).2, table, []⟩).1 = none :=
    addCreatedTree_watchable hstable.watchable
  unfold reconcileMovedTree
  dsimp only
  rcases hr : addCreatedTree w false path scan ⟨(t.extract path).2, table, []⟩ with ⟨r, s'⟩
  rw [hr] at hrescanned hcalls hreturns
  cases hreturns
  refine ⟨rfl, ?_⟩
  obtain ⟨report, hreport, hnodup, hcompared⟩ :=
    compareMovedTree_calls w faults path t s'
  dsimp only
  change s'.calls = [] at hcalls
  rw [hreport, hcalls, List.nil_append]
  rw [kindsKept_iff hrescanned, ← reportsNetChange_iff]
  · rfl
  · intro type k
    rw [← hcompared]
    exact EventList.reports_runCalls hnodup

/-! ## A directory in place of a file -/

/-- `/r` holds the empty directory `d`. -/
def emptyDirectoryScan : DirScan :=
  .opened (.ok ⟨.directory, ⟨0, 0⟩⟩) (.cons
    ⟨[100], false, some ⟨.directory, ⟨0, 0⟩⟩, false, .resolves 1 1, fun _ => none⟩
    (.opened (.ok ⟨.directory, ⟨0, 0⟩⟩) .nil) .nil)

theorem emptyDirectoryScan_stable : emptyDirectoryScan.Stable plainWatcher [47, 114] where
  watchable := ⟨rfl, fun _ => ⟨⟨1, 1, rfl⟩, rfl, trivial⟩, trivial⟩
  wellNamed := ⟨by decide, by decide, trivial, trivial⟩
  uncancelled := ⟨rfl, rfl, trivial, trivial⟩

theorem reconcileMovedTree_net_change_directory :
    let result := reconcileMovedTree plainWatcher (fun _ => none) [47, 114] emptyDirectoryScan
      ⟨rootTree, .start, []⟩
    result.1 = none ∧
      (ReportsNetChange plainWatcher [47, 114] rootTree result.2.tree
          (EventList.empty.run result.2.calls).drain.1 ↔
        KindsKept plainWatcher [47, 114] rootTree emptyDirectoryScan) :=
  reconcileMovedTree_net_change plainWatcher _ _ rootTree _ _ emptyDirectoryScan_stable

/-- The tree has the file `/r/d`, and the scan finds the directory: it is not reported as
created. -/
theorem reconcileMovedTree_kind_change :
    let t := rootTree.add [47, 114, 47, 100] 0 false
    let result := reconcileMovedTree plainWatcher (fun _ => none) [47, 114] emptyDirectoryScan
      ⟨t, .start, []⟩
    emptyDirectoryScan.Stable plainWatcher [47, 114] ∧ result.1 = none ∧
      ¬ ReportsNetChange plainWatcher [47, 114] t result.2.tree
        (EventList.empty.run result.2.calls).drain.1 := by
  refine ⟨emptyDirectoryScan_stable, by decide, fun h => ?_⟩
  have hcreated := (h.created ([47, 114, 47, 100], .Directory) (by decide) rfl).mpr (by decide)
  revert hcreated
  unfold EventBatch.Reports
  decide

end NativeWatcher
