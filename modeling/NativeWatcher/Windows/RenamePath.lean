import NativeWatcher.Windows.Rescan

/-!
# The agreement through a rename

The consumer will hold, once the list is drained, the keys of the tree. What `addPath` and
`removePath` do keeps this, as long as nothing is removed that was created in this batch
though the consumer held it. A rename may also take entries out of the tree, or put its
target in, without a word; it keeps the agreement if what is dropped is put back.
-/

namespace NativeWatcher

open Hierarchy EventList

namespace WinState

variable {w : WinWatcher} {s : WinState} {V : Finset EventKey} {A : Set EventKey}
  {path oldPath p : Str} {answers : RecordAnswers}

/-- Once the list is drained, the consumer holds the keys of the tree. -/
def Agrees (s : WinState) (V : Finset EventKey) : Prop := s.mEvents.Announces V s.mTree.keys

/-- No entry at or below the path was created in this batch though the consumer held it. -/
def RemovalsTold (s : WinState) (V : Finset EventKey) (path : Str) : Prop :=
  ∀ e ∈ (s.mTree.extract path dirSep).1, ¬ s.mEvents.StaleCreate V e.key

theorem Agrees.removePath (h : s.Agrees V) (htold : s.RemovalsTold V path) :
    (s.removePath path).Agrees V := by
  have hremovals : (s.mTree.extract path dirSep).1.map DirEntry.removal =
      ((s.mTree.extract path dirSep).1.map DirEntry.key).map .remove := by
    rw [List.map_map]
    rfl
  unfold Agrees WinState.removePath emit
  dsimp only
  rw [hremovals]
  apply (Announces.run_removals h (s.mTree.nodup_keys_extract path dirSep) _).congr
  · intro k
    rw [Finset.mem_coe, DirTree.mem_keys_extract]
    apply and_congr_right
    intro hk
    rw [List.mem_map, DirTree.mem_keys_extracted, and_iff_right (Finset.mem_coe.mp hk)]
    apply or_iff_left_of_imp
    intro hs hunder
    obtain ⟨e, he, rfl⟩ := DirTree.mem_keys_extracted.mpr ⟨Finset.mem_coe.mp hk, hunder⟩
    exact htold e he hs
  · intro k hk
    exact h.known_of_mem (DirTree.mem_keys_extracted.mp (List.mem_map.mp hk)).1

theorem Agrees.addPath (h : s.Agrees V) (candidate : Str) (scan : PathScan) :
    (addPath w candidate scan s).Agrees V := by
  rw [addPath_eq]
  have hempty : s.mEvents.Announces V (∅ ∪ (s.mTree.keys : Set EventKey)) := by
    rw [Set.empty_union]
    exact h
  have hfound := announces_foldl_addFound (scan.found w candidate) hempty
  rw [Set.empty_union] at hfound
  exact hfound

/-- The pending rename can be given up. -/
def FlushTold (s : WinState) (V : Finset EventKey) : Prop :=
  ∀ path, s.mPendingRenamePath = some path → s.RemovalsTold V path

theorem Agrees.flushPendingRename (h : s.Agrees V) (htold : s.FlushTold V) :
    s.flushPendingRename.Agrees V := by
  unfold WinState.flushPendingRename
  split
  · exact h
  next path hpending => exact h.removePath (htold path hpending)

/-! ## A rename -/

/-- The entries of the source. -/
def source (s : WinState) (oldPath : Str) : List DirEntry := (s.mTree.extract oldPath dirSep).1

/-- The tree without the source. -/
def others (s : WinState) (oldPath : Str) : DirTree := (s.mTree.extract oldPath dirSep).2

/-- The tree without the source and what is removed at the target. -/
def cleared (s : WinState) (oldPath path : Str) : DirTree :=
  if (s.targetExisted path).1 then (s.others oldPath).remove path dirSep else s.others oldPath

/-- The key under which an entry of the source arrives. -/
def arrivalKey (w : WinWatcher) (answers : RecordAnswers) (oldPath path : Str) (e : DirEntry) :
    Option EventKey :=
  if answers.supported && !w.isIgnored (relocate oldPath path e.path) then
    some (e.moved oldPath path).key
  else none

/-- The entries of the source that arrive, at their new paths. -/
def arrivals (w : WinWatcher) (s : WinState) (answers : RecordAnswers) (oldPath path : Str) :
    List DirEntry :=
  if answers.supported then
    (visibleEntries w oldPath path (s.source oldPath)).map (DirEntry.moved oldPath path)
  else []

/-- What the attributes say of the target, if it is indexed. -/
def targetKind (answers : RecordAnswers) : Option Bool :=
  (answers.attributes.filter fun data => !data.isSpecial).map FileAttributeData.isDirectory

/-- What the search below the target finds. -/
def rescanned (w : WinWatcher) (s : WinState) (answers : RecordAnswers) (oldPath path : Str) :
    List DirEntry :=
  if targetKind answers = some true &&
      ((s.source oldPath).isEmpty || !w.mIgnorePaths.isEmpty || !w.mIgnoreGlobs.isEmpty) then
    answers.scan.found w path
  else []

/-- The kind that the record puts at a path where the cleared tree has nothing. -/
def putBack (w : WinWatcher) (s : WinState) (answers : RecordAnswers) (oldPath path p : Str) :
    Option Bool :=
  (((arrivals w s answers oldPath path).find? fun e => e.path = p).map DirEntry.isDir).or
    ((if p = path then targetKind answers else none).or
      (((rescanned w s answers oldPath path).find? fun e => e.path = p).map DirEntry.isDir))

/-- What a rename has to meet. -/
structure RenameTold (w : WinWatcher) (s : WinState) (V : Finset EventKey)
    (answers : RecordAnswers) (oldPath path : Str) : Prop where
  /-- No entry of the source was created in this batch though the consumer held it. -/
  told : s.RemovalsTold V oldPath
  /-- None arrives at the key of one that is still to leave. -/
  apart : (s.source oldPath).Pairwise fun e e' =>
    arrivalKey w answers oldPath path e ≠ some e'.key
  /-- What is dropped at the target, or overwritten, is put back with its kind. -/
  kept : ∀ e, (s.others oldPath).find e.path = some e →
    (s.cleared oldPath path).find e.path = none ∨
        (∃ a ∈ arrivals w s answers oldPath path, a.path = e.path) →
      putBack w s answers oldPath path e.path = some e.isDir
  /-- If the source has entries but none for itself, the target was there with its kind. -/
  rooted : s.source oldPath ≠ [] → s.mTree.find oldPath = none →
    ∀ d, targetKind answers = some d → (path, entryKind d) ∈ (s.others oldPath).keys

/-! ### What the calls announce -/

theorem mem_source {e : DirEntry} :
    e ∈ s.source oldPath ↔ s.mTree.find e.path = some e ∧ Under dirSep oldPath e.path :=
  DirTree.mem_extract

theorem leaves_renamedEntry (existed : Bool) (sequence : Nat) (e : DirEntry) :
    Announces.Leaves V e.key (arrivalKey w answers oldPath path e)
      (renamedEntry w answers.supported existed sequence oldPath path e) := by
  unfold renamedEntry arrivalKey
  dsimp only
  cases answers.supported with
  | false =>
      simp only [Bool.not_false, Bool.or_true, Bool.true_or, if_true, Bool.false_and,
        Bool.false_eq_true, if_false]
      exact Announces.leaves_remove e.key
  | true =>
      cases w.isIgnored (relocate oldPath path e.path) with
      | true =>
          simp only [Bool.or_true, if_true, Bool.not_true, Bool.and_false, Bool.false_eq_true,
            if_false]
          exact Announces.leaves_remove e.key
      | false =>
          cases existed with
          | true =>
              simp only [Bool.true_or, if_true, Bool.not_false, Bool.and_true]
              exact Announces.leaves_remove_create e.key _
          | false =>
              simp only [Bool.not_true, Bool.or_false, Bool.false_eq_true, if_false,
                Bool.not_false, Bool.and_true, if_true]
              exact Announces.leaves_rename ..

/-- The keys of the arrivals. -/
theorem arrivalKey_iff {k : EventKey} :
    (∃ e ∈ s.source oldPath, arrivalKey w answers oldPath path e = some k) ↔
      ∃ a ∈ arrivals w s answers oldPath path, a.key = k := by
  unfold arrivalKey arrivals visibleEntries
  cases answers.supported with
  | false => simp
  | true =>
      simp only [Bool.true_and, if_true, List.mem_map, List.mem_filter]
      constructor
      · rintro ⟨e, he, hk⟩
        split at hk
        next hvisible => exact ⟨_, ⟨e, ⟨he, hvisible⟩, rfl⟩, Option.some.inj hk⟩
        next => cases hk
      · rintro ⟨a, ⟨e, ⟨he, hvisible⟩, rfl⟩, hk⟩
        refine ⟨e, he, ?_⟩
        rw [if_pos hvisible, hk]

/-- What the consumer is told by the calls for the source. -/
def carried (w : WinWatcher) (s : WinState) (answers : RecordAnswers) (oldPath path : Str) :
    Set EventKey :=
  {k | k ∈ (s.others oldPath).keys ∨ ∃ a ∈ arrivals w s answers oldPath path, a.key = k}

theorem announces_carried (h : s.Agrees V) (hok : RenameTold w s V answers oldPath path)
    (existed : Bool) (sequence : Nat) :
    (s.mEvents.run ((s.source oldPath).flatMap
      (renamedEntry w answers.supported existed sequence oldPath path))).Announces V
        (carried w s answers oldPath path) := by
  have hkeys : ∀ k, (∃ e ∈ s.source oldPath, e.key = k) ↔
      k ∈ s.mTree.keys ∧ Under dirSep oldPath k.1 := fun k => DirTree.mem_keys_extracted
  apply (Announces.carry_fresh (fun e _ => leaves_renamedEntry existed sequence e)
    (s.mTree.nodup_keys_extract oldPath dirSep) hok.apart h
    (fun e he => ((hkeys e.key).mp ⟨e, he, rfl⟩).1) hok.told).congr
  intro k
  apply or_congr
  · rw [others, DirTree.mem_keys_extract]
    apply and_congr_right
    intro hk
    constructor
    · intro hne hunder
      obtain ⟨e, he, heq⟩ := (hkeys k).mpr ⟨hk, hunder⟩
      exact hne e he heq.symm
    · rintro hunder e he rfl
      exact hunder ((hkeys e.key).mp ⟨e, he, rfl⟩).2
  · exact arrivalKey_iff

/-! ### What the tree becomes -/

theorem targetExisted_frame (s : WinState) (path : Str) :
    (s.targetExisted path).2.mTree = s.mTree ∧ (s.targetExisted path).2.mEvents = s.mEvents ∧
      (s.targetExisted path).2.mRenameSequence = s.mRenameSequence ∧
      (s.targetExisted path).2.mOverflowed = s.mOverflowed := by
  unfold targetExisted
  split
  · exact ⟨rfl, rfl, rfl, rfl⟩
  · split
    · exact ⟨rfl, rfl, rfl, rfl⟩
    · split
      · exact ⟨rfl, rfl, rfl, rfl⟩
      · exact ⟨rfl, rfl, rfl, rfl⟩

theorem nodup_visible :
    ((visibleEntries w oldPath path (s.source oldPath)).map DirEntry.path).Nodup :=
  (s.mTree.nodup_extract oldPath dirSep).sublist (List.filter_sublist.map _)

theorem under_visible :
    ∀ e ∈ visibleEntries w oldPath path (s.source oldPath), Under dirSep oldPath e.path :=
  fun _ he => (mem_source.mp (List.mem_of_mem_filter he)).2

/-- The tree once the source has arrived. -/
def restored (w : WinWatcher) (s : WinState) (answers : RecordAnswers) (oldPath path : Str) :
    DirTree :=
  if answers.supported then
    (s.cleared oldPath path).restore (visibleEntries w oldPath path (s.source oldPath)) oldPath path
  else s.cleared oldPath path

theorem find_restored (w : WinWatcher) (s : WinState) (answers : RecordAnswers)
    (oldPath path p : Str) :
    (restored w s answers oldPath path).find p =
      ((arrivals w s answers oldPath path).find? fun e => e.path = p).or
        ((s.cleared oldPath path).find p) := by
  unfold restored arrivals
  cases answers.supported with
  | false => rfl
  | true =>
      simp only [if_true]
      cases harrives : ((visibleEntries w oldPath path (s.source oldPath)).map
        (DirEntry.moved oldPath path)).find? fun e => e.path = p with
      | none =>
          rw [Option.none_or]
          apply DirTree.find_restore_of_forall_ne
          intro e he heq
          rw [List.find?_eq_none] at harrives
          exact harrives _ (List.mem_map_of_mem he) (decide_eq_true heq.symm)
      | some a =>
          have hpath : a.path = p := by simpa using List.find?_some harrives
          obtain ⟨e, he, rfl⟩ := List.mem_map.mp (List.mem_of_find?_eq_some harrives)
          rw [Option.some_or, ← hpath]
          exact DirTree.find_restore_of_mem nodup_visible under_visible he _

/-- The attributes give the target its kind if it has none. -/
theorem kindAt_refreshTarget (s : WinState) (path : Str) (data : FileAttributeData)
    (sourceEmpty : Bool) (p : Str) :
    (s.refreshTarget path data sourceEmpty).mTree.kindAt p =
      (s.mTree.kindAt p).or (if p = path then some data.isDirectory else none) := by
  have hupdate := s.mTree.kindAt_update path data.ftLastWriteTime.convert p
  unfold refreshTarget
  dsimp only
  split
  next hfound =>
      apply hupdate.trans
      by_cases hp : p = path
      · obtain ⟨e, hfind⟩ := Option.isSome_iff_exists.mp hfound
        rw [DirTree.kindAt, hp, hfind]
        rfl
      · rw [if_neg hp, Option.or_none]
  next =>
      apply (DirTree.kindAt_add ..).trans
      cases sourceEmpty with
      | false => exact congrArg (Option.or · _) hupdate
      | true => exact congrArg (Option.or · _) hupdate

/-- The target is announced if it is put in and the source has no entries; if the source
has some, the target has to be announced already. -/
theorem announces_refreshTarget {data : FileAttributeData} {sourceEmpty : Bool}
    (h : s.mEvents.Announces V (A ∪ s.mTree.keys))
    (hroot : s.mTree.find path = none → sourceEmpty = false →
      (path, entryKind data.isDirectory) ∈ A) :
    (s.refreshTarget path data sourceEmpty).mEvents.Announces V
      (A ∪ (s.refreshTarget path data sourceEmpty).mTree.keys) := by
  unfold refreshTarget
  dsimp only
  split
  next =>
      apply h.congr
      intro k
      exact or_congr_right DirTree.mem_keys_update.symm
  next hnew =>
      have hfind : s.mTree.find path = none := Option.not_isSome_iff_eq_none.mp hnew
      have hfresh : (s.mTree.update path data.ftLastWriteTime.convert).2.find path = none := by
        rw [DirTree.find_update, if_pos rfl, hfind]
        rfl
      have hkeys : ∀ k, k ∈ ((s.mTree.update path data.ftLastWriteTime.convert).2.add path
          data.ftLastWriteTime.convert data.isDirectory).keys ↔
            k = (path, entryKind data.isDirectory) ∨ k ∈ s.mTree.keys := by
        intro k
        rw [DirTree.mem_keys_add hfresh, DirTree.mem_keys_update]
      cases sourceEmpty with
      | true =>
          apply (h.create (path, entryKind data.isDirectory)).congr
          intro k
          exact or_left_comm.trans (or_congr_right (hkeys k).symm)
      | false =>
          apply h.congr
          intro k
          have htold : k = (path, entryKind data.isDirectory) → k ∈ A := by
            rintro rfl
            exact hroot hfind rfl
          apply Iff.trans _ (or_congr_right (hkeys k).symm)
          constructor
          · exact Or.imp_right Or.inr
          · rintro (hk | hk | hk)
            · exact Or.inl hk
            · exact Or.inl (htold hk)
            · exact Or.inr hk

/-! ### The record as a whole -/

/-- Once the source has arrived. -/
def arrived (w : WinWatcher) (s : WinState) (answers : RecordAnswers) (oldPath path : Str) :
    WinState :=
  { (s.targetExisted path).2 with
    mTree := restored w s answers oldPath path
    mEvents := s.mEvents.run ((s.source oldPath).flatMap
      (renamedEntry w answers.supported (s.targetExisted path).1 (s.mRenameSequence + 1)
        oldPath path))
    mRenameSequence := s.mRenameSequence + 1 }

/-- What the attributes of the target lead to. -/
def settled (w : WinWatcher) (s : WinState) (answers : RecordAnswers) (oldPath path : Str) :
    WinState :=
  match answers.attributes with
  | none => arrived w s answers oldPath path
  | some data =>
      if data.isSpecial then arrived w s answers oldPath path
      else
        if data.isDirectory &&
            ((s.source oldPath).isEmpty || !w.mIgnorePaths.isEmpty || !w.mIgnoreGlobs.isEmpty) then
          addPath w path answers.scan ((arrived w s answers oldPath path).refreshTarget path data
            (s.source oldPath).isEmpty)
        else (arrived w s answers oldPath path).refreshTarget path data (s.source oldPath).isEmpty

theorem renamePath_eq (w : WinWatcher) (s : WinState) (answers : RecordAnswers)
    (oldPath path : Str) :
    renamePath w oldPath path answers s =
      { settled w s answers oldPath path with mPendingRenamePath := none } := by
  obtain ⟨htree, hevents, hsequence, _⟩ := targetExisted_frame s path
  have harrived : arrived w s answers oldPath path =
      { (s.targetExisted path).2 with
        mTree := restored w s answers oldPath path
        mEvents := (s.targetExisted path).2.mEvents.run ((s.source oldPath).flatMap
          (renamedEntry w answers.supported (s.targetExisted path).1
            ((s.targetExisted path).2.mRenameSequence + 1) oldPath path))
        mRenameSequence := (s.targetExisted path).2.mRenameSequence + 1 } := by
    rw [hevents, hsequence]
    rfl
  unfold renamePath settled
  rw [harrived]
  unfold restored cleared others source emit
  dsimp only
  rewrite [htree]
  rfl

theorem kindAt_foldl_addFound (es : List DirEntry) (s : WinState) (p : Str) :
    (es.foldl addFound s).mTree.kindAt p =
      (s.mTree.kindAt p).or ((es.find? fun e => e.path = p).map DirEntry.isDir) := by
  unfold DirTree.kindAt
  rw [find_foldl_addFound, Option.map_or]

/-- The target gets its kind from the attributes and the rest is what the search finds,
where the source left nothing. -/
theorem kindAt_settled (w : WinWatcher) (s : WinState) (answers : RecordAnswers)
    (oldPath path p : Str) :
    (settled w s answers oldPath path).mTree.kindAt p =
      ((restored w s answers oldPath path).kindAt p).or
        ((if p = path then targetKind answers else none).or
          (((rescanned w s answers oldPath path).find? fun e => e.path = p).map
            DirEntry.isDir)) := by
  have hunread : targetKind answers = none →
      ((restored w s answers oldPath path).kindAt p).or
        ((if p = path then targetKind answers else none).or
          (((rescanned w s answers oldPath path).find? fun e => e.path = p).map
            DirEntry.isDir)) = (restored w s answers oldPath path).kindAt p := by
    intro hkind
    rw [rescanned, hkind, ite_self, if_neg (by simp)]
    simp
  unfold settled
  split
  next hattributes =>
      exact (hunread (by rw [targetKind, hattributes]; rfl)).symm
  next data hattributes =>
      by_cases hspecial : data.isSpecial = true
      · rw [if_pos hspecial]
        exact (hunread (by simp [targetKind, hattributes, hspecial])).symm
      · rw [if_neg hspecial]
        have hkind : targetKind answers = some data.isDirectory := by
          simp [targetKind, hattributes, hspecial]
        have hrefresh := kindAt_refreshTarget (arrived w s answers oldPath path) path data
          (s.source oldPath).isEmpty p
        have hrescanned : rescanned w s answers oldPath path =
            if data.isDirectory && ((s.source oldPath).isEmpty || !w.mIgnorePaths.isEmpty ||
                !w.mIgnoreGlobs.isEmpty) then answers.scan.found w path
            else [] := by
          rw [rescanned, hkind]
          cases data.isDirectory <;> rfl
        rw [hrescanned, hkind, ← Option.or_assoc]
        split
        next =>
            rw [addPath_eq, kindAt_foldl_addFound, hrefresh]
            rfl
        next =>
            rw [hrefresh]
            simp [arrived]

/-- Distinct entries of the source arrive at distinct paths. -/
theorem find_restored_of_mem {a : DirEntry} (ha : a ∈ arrivals w s answers oldPath path) :
    (restored w s answers oldPath path).find a.path = some a := by
  unfold arrivals at ha
  unfold restored
  split at ha
  next hsupported =>
      rw [if_pos hsupported]
      obtain ⟨e, he, rfl⟩ := List.mem_map.mp ha
      exact DirTree.find_restore_of_mem nodup_visible under_visible he _
  next => exact absurd ha List.not_mem_nil

/-- What is removed at the target was there. -/
theorem find_of_find_cleared {e : DirEntry}
    (h : (s.cleared oldPath path).find p = some e) : (s.others oldPath).find p = some e := by
  unfold cleared at h
  split at h
  · rw [DirTree.find_remove] at h
    split at h
    · cases h
    · exact h
  · exact h

/-- The consumer is told of all that the tree then holds. -/
theorem mem_carried_of_restored {k : EventKey}
    (hk : k ∈ (restored w s answers oldPath path).keys) : k ∈ carried w s answers oldPath path := by
  obtain ⟨e, hfind, rfl⟩ := DirTree.mem_keys.mp hk
  rw [find_restored, Option.or_eq_some_iff] at hfind
  rcases hfind with harrived | ⟨_, hcleared⟩
  · exact Or.inr ⟨e, List.mem_of_find?_eq_some harrived, rfl⟩
  · exact Or.inl (DirTree.key_mem_keys (find_of_find_cleared hcleared))

/-- A source with an entry for itself fills the target. -/
theorem find_restored_target (hvisible : w.isIgnored path = false)
    (hsupported : answers.supported = true) (hroot : s.mTree.find oldPath ≠ none) :
    (restored w s answers oldPath path).find path ≠ none := by
  obtain ⟨e, hfind⟩ := Option.ne_none_iff_exists'.mp hroot
  have hpath : e.path = oldPath := DirTree.path_of_find hfind
  have hsource : e ∈ s.source oldPath := by
    rw [mem_source, hpath]
    exact ⟨hfind, Or.inl rfl⟩
  have harrives : e.moved oldPath path ∈ arrivals w s answers oldPath path := by
    rw [arrivals, if_pos hsupported]
    apply List.mem_map_of_mem
    apply List.mem_filter.mpr ⟨hsource, _⟩
    rw [hpath, relocate_self_base, hvisible]
    rfl
  have htarget : (e.moved oldPath path).path = path := by
    show relocate oldPath path e.path = path
    rw [hpath, relocate_self_base]
  rw [← htarget, find_restored_of_mem (htarget.symm ▸ harrives)]
  exact Option.some_ne_none _

theorem announces_settled (h : s.Agrees V) (hok : RenameTold w s V answers oldPath path)
    (hvisible : w.isIgnored path = false) :
    (settled w s answers oldPath path).mEvents.Announces V
      (carried w s answers oldPath path ∪ (settled w s answers oldPath path).mTree.keys) := by
  have harrived : (arrived w s answers oldPath path).mEvents.Announces V
      (carried w s answers oldPath path ∪ (arrived w s answers oldPath path).mTree.keys) := by
    apply (announces_carried h hok _ _).congr
    intro k
    exact (or_iff_left_of_imp mem_carried_of_restored).symm
  unfold settled
  split
  next => exact harrived
  next data hattributes =>
      by_cases hspecial : data.isSpecial = true
      · rw [if_pos hspecial]
        exact harrived
      · rw [if_neg hspecial]
        have hroot : (arrived w s answers oldPath path).mTree.find path = none →
            (s.source oldPath).isEmpty = false →
              (path, entryKind data.isDirectory) ∈ carried w s answers oldPath path := by
          intro hfind hsource
          have hsupported : answers.supported = true := by
            simp [RecordAnswers.supported, hattributes, hspecial]
          apply Or.inl
          apply hok.rooted
          · rwa [Ne, ← List.isEmpty_iff, Bool.not_eq_true]
          · by_contra hold
            exact find_restored_target hvisible hsupported hold hfind
          · simp [targetKind, hattributes, hspecial]
        have hrefresh := announces_refreshTarget harrived hroot
        split
        next =>
            rw [addPath_eq]
            exact announces_foldl_addFound _ hrefresh
        next => exact hrefresh

/-- What the consumer is told by the calls for the source is in the tree in the end. -/
theorem mem_settled_of_carried (hok : RenameTold w s V answers oldPath path) {k : EventKey}
    (hk : k ∈ carried w s answers oldPath path) :
    k ∈ (settled w s answers oldPath path).mTree.keys := by
  rcases hk with hk | ⟨a, ha, rfl⟩
  · obtain ⟨e, hfind, rfl⟩ := DirTree.mem_keys.mp hk
    apply DirTree.mem_keys_iff_kindAt.mpr
    rw [kindAt_settled, DirTree.kindAt, find_restored, Option.map_or]
    have hkept := hok.kept e hfind
    unfold putBack at hkept
    cases harrives : (arrivals w s answers oldPath path).find? fun a => a.path = e.path with
    | some a =>
        -- an arrival decides the path, in the tree as in the condition
        have harrival : ∃ a ∈ arrivals w s answers oldPath path, a.path = e.path :=
          ⟨a, List.mem_of_find?_eq_some harrives, by simpa using List.find?_some harrives⟩
        rw [harrives] at hkept
        exact hkept (Or.inr harrival)
    | none =>
        rw [harrives] at hkept
        cases hcleared : (s.cleared oldPath path).find e.path with
        | none => exact hkept (Or.inl hcleared)
        | some e' =>
            have heq : e = e' := Option.some.inj (hfind.symm.trans (find_of_find_cleared hcleared))
            rw [← heq]
            rfl
  · apply DirTree.mem_keys_iff_kindAt.mpr
    rw [kindAt_settled, DirTree.kindAt, find_restored_of_mem ha]
    rfl

/-- A rename keeps the agreement under its condition. -/
theorem Agrees.renamePath (h : s.Agrees V) (hok : RenameTold w s V answers oldPath path)
    (hvisible : w.isIgnored path = false) : (renamePath w oldPath path answers s).Agrees V := by
  rw [renamePath_eq]
  apply (announces_settled h hok hvisible).congr
  intro k
  exact or_iff_right_of_imp (mem_settled_of_carried hok)

end WinState

end NativeWatcher
