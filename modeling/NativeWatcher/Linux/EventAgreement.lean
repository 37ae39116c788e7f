import NativeWatcher.Linux.Rescan
import NativeWatcher.Linux.WatcherFrame

/-!
# The agreement through an event

The consumer of a watcher will hold, once the list is drained, the keys of its tree, and beyond
them at most keys of entries that wait in a pending move. Every branch of `handleSubscription`
keeps this, or invalidates the watcher, but where it tells less than it does to the tree or
tells it under the wrong flags: the conditions name these places.
-/

namespace NativeWatcher

open Hierarchy EventList

variable {W : Type} [DecidableEq W] {w : InotifyWatcher W} {l : EventList} {V : Finset EventKey}
  {P : Set EventKey} {path : Str} {faults : RmFaults} {answers : EventAnswers} {st : FileStat}
  {r r' : ScanState W} {m : PendingInotifyMove} {cookie : UInt32}

/-! ## The branches -/

/-- Nothing at or below the path was created in this batch though the consumer held it, unless
its key goes on waiting. -/
def DropTold (l : EventList) (V : Finset EventKey) (P : Set EventKey) (path : Str)
    (r : ScanState W) : Prop :=
  ∀ e ∈ (r.tree.extract path).1, (l.run r.calls).StaleCreate V e.key → e.key ∈ P

theorem dropSpecial_spec (w : InotifyWatcher W) (faults : RmFaults) (path : Str)
    (r : ScanState W) :
    (dropSpecial w faults path r).2.tree = (r.tree.extract path).2 ∧
      (dropSpecial w faults path r).2.calls =
        r.calls ++ (r.tree.extract path).1.map DirEntry.removal := by
  have hfold : ∀ (es : List DirEntry) (s s' : ScanState W),
      es.foldl (fun s e =>
        let s := s.emit [e.removal]
        if e.isDir then s.removeSubscriptions w faults e.path else s) s = s' →
      s'.tree = s.tree ∧ s'.calls = s.calls ++ es.map DirEntry.removal := by
    intro es
    induction es with
    | nil =>
        rintro s s' rfl
        simp
    | cons e es ih =>
        rintro s s' hs'
        obtain ⟨htree, hcalls⟩ := ih _ s' hs'
        rw [htree, hcalls]
        by_cases hdir : e.isDir = true
        · simp [hdir, ScanState.emit, ScanState.removeSubscriptions]
        · simp [hdir, ScanState.emit]
  exact hfold _ _ _ rfl

theorem follows_dropSpecial (h : (l.run r.calls).Follows V r.tree P ∅)
    (hok : DropTold l V P path r) :
    (l.run (dropSpecial w faults path r).2.calls).Follows V (dropSpecial w faults path r).2.tree
      P ∅ := by
  obtain ⟨htree, hcalls⟩ := dropSpecial_spec w faults path r
  rw [htree, hcalls, run_append]
  exact h.extract hok

theorem follows_appear (hr : appear w path answers st r = (none, r'))
    (h : (l.run r.calls).Follows V r.tree P ∅)
    (hnone : st.isDirectory = true → answers.scan.vanished w path = []) :
    (l.run r'.calls).Follows V r'.tree P ∅ := by
  have hadded : (l.run (r.calls ++ [if (r.tree.find path).isSome then
      .update (path, entryKind st.isDirectory) else .create (path, entryKind st.isDirectory)])).Follows
        V (r.tree.add path (convertTime st.st_mtim) st.isDirectory) P ∅ := by
    rw [run_append]
    cases hfind : r.tree.find path with
    | some e =>
        apply (h.update _).congr
        intro k
        apply DirTree.keys_congr
        rw [DirTree.find_add]
        split
        next hk =>
            rw [hk, hfind]
            rfl
        next => rfl
    | none => exact h.create hfind
  have hin : ((r.tree.add path (convertTime st.st_mtim) st.isDirectory).find path).isSome := by
    rw [DirTree.find_add, if_pos rfl]
    rfl
  unfold appear ScanState.emit at hr
  dsimp only at hr
  split at hr
  next hdir =>
      unfold watchThen at hr
      dsimp only at hr
      split at hr
      · cases hr
      next s hscan =>
          cases hr
          split at hscan
          · cases hscan
          · exact follows_addCreatedTree hin (hnone hdir) hscan hadded
  next =>
      cases hr
      exact hadded

/-! ## A move within the root -/

/-- Nothing that is hidden is in the tree. -/
def Visible (w : InotifyWatcher W) (path : Str) (r : ScanState W) : Prop :=
  ∀ k ∈ r.tree.keys, k ∉ hiddenBelow w path

/-- The entry of the target is there. -/
def settledRoot (cookie : UInt32) (path : Str) (m : PendingInotifyMove) (st : FileStat)
    (r : ScanState W) : ScanState W :=
  let s := if m.entries.isEmpty then arriveUnindexed cookie m.path path st r else r
  { s with tree := s.tree.updateOrAdd path (convertTime st.st_mtim) st.isDirectory }

/-- What a move whose target is a file or a directory has to meet. -/
structure SettleTold (w : InotifyWatcher W) (l : EventList) (V : Finset EventKey)
    (P : Set EventKey) (cookie : UInt32) (path : Str) (m : PendingInotifyMove)
    (answers : EventAnswers) (st : FileStat) (r : ScanState W) : Prop where
  unindexed : m.entries = [] →
    UnindexedTold (l.run r.calls) V r.tree (m.path, entryKind st.isDirectory) path
  /-- A source with entries has one for itself. -/
  rooted : m.entries ≠ [] → (r.tree.find path).isSome
  /-- A target that is scanned again; the table does not matter. -/
  rescan : st.isDirectory = true →
    m.entries = [] ∨ m.suppressedEvents = true ∨ w.mIgnorePaths ≠ [] ∨ w.mIgnoreGlobs ≠ [] →
      ∀ table, RescanTold w l V P path answers.scan
        { settledRoot cookie path m st r with table := table }
  visible : st.isDirectory = false → Visible w path (settledRoot cookie path m st r)

/-- The root is settled without a word but for a source that was not indexed. -/
theorem follows_settledRoot (h : (l.run r.calls).Follows V r.tree P (hiddenBelow w path))
    (hempty : m.entries = [] → (l.run r.calls).Follows V r.tree P ∅)
    (hok : SettleTold w l V P cookie path m answers st r) :
    (l.run (settledRoot cookie path m st r).calls).Follows V (settledRoot cookie path m st r).tree P
      (hiddenBelow w path) := by
  unfold settledRoot
  by_cases hentries : m.entries = []
  · have hindexed := follows_arriveUnindexed cookie (hempty hentries)
      (hok.unindexed hentries) (convertTime st.st_mtim)
    rw [hentries]
    exact ⟨hindexed.grounded, fun k hk _ => hindexed.told k hk (Set.notMem_empty k),
      hindexed.sound⟩
  · rw [if_neg (by simpa using hentries)]
    exact h.congr fun k => mem_keys_updateOrAdd_old (hok.rooted hentries)

theorem settle_eq (w : InotifyWatcher W) (cookie : UInt32) (path : Str) (m : PendingInotifyMove)
    (answers : EventAnswers) (st : FileStat) (r : ScanState W) :
    settle w cookie path m answers st r =
      if st.isDirectory then
        settleDirectory w path m.suppressedEvents
          (m.entries.isEmpty || (r.tree.find path).isNone) answers (settledRoot cookie path m st r)
      else (none, settledRoot cookie path m st r) := by
  unfold settle settledRoot
  cases m.entries.isEmpty with
  | true => rfl
  | false => rfl

/-- What is left of a directory is a rescan, if there is one, on some table. -/
theorem settleDirectory_cases {suppressedEvents missingSource : Bool} {s : ScanState W}
    (hr : settleDirectory w path suppressedEvents missingSource answers s = (none, r')) :
    ∃ table, (if suppressedEvents || (missingSource || !w.mIgnorePaths.isEmpty ||
        !w.mIgnoreGlobs.isEmpty) then
          reconcileMovedTree w answers.faults path answers.scan { s with table := table }
        else (none, { s with table := table })) = (none, r') := by
  unfold settleDirectory at hr
  dsimp only at hr
  split at hr
  · unfold watchThen at hr
    split at hr
    · cases hr
    next table _ => exact ⟨table, hr⟩
  · exact ⟨s.table, hr⟩

theorem follows_settle (hpath : w.isIgnored path = false)
    (hr : settle w cookie path m answers st r = (none, r'))
    (h : (l.run r.calls).Follows V r.tree P (hiddenBelow w path))
    (hempty : m.entries = [] → (l.run r.calls).Follows V r.tree P ∅)
    (hok : SettleTold w l V P cookie path m answers st r) :
    (l.run r'.calls).Follows V r'.tree P ∅ := by
  have hroot := follows_settledRoot h hempty hok
  rw [settle_eq] at hr
  split at hr
  next hdir =>
      obtain ⟨table, hr⟩ := settleDirectory_cases hr
      split at hr
      next hrescan =>
          apply follows_reconcileMovedTree hpath hr hroot
          apply hok.rescan hdir
          by_cases hentries : m.entries = []
          · exact Or.inl hentries
          · have hrooted : (r.tree.find path).isNone = false := by
              rw [← Option.not_isSome, hok.rooted hentries]
              rfl
            simpa [hentries, hrooted] using hrescan
      next hstays =>
          cases hr
          simp only [Bool.or_eq_true, not_or, Bool.not_eq_true', Bool.not_eq_false,
            List.isEmpty_iff] at hstays
          obtain ⟨_, ⟨_, hpaths⟩, hglobs⟩ := hstays
          apply hroot.reveal
          rintro k _ ⟨hignored, _⟩
          rw [w.ignores hpaths hglobs k.1] at hignored
          cases hignored
  next hfile =>
      cases hr
      exact hroot.reveal (hok.visible (Bool.eq_false_iff.mpr hfile))

/-- What a move within the root has to meet: `P` is what goes on waiting. -/
structure PairedTold (w : InotifyWatcher W) (l : EventList) (V : Finset EventKey)
    (P : Set EventKey) (cookie : UInt32) (path : Str) (m : PendingInotifyMove)
    (answers : EventAnswers) (r : ScanState W) : Prop where
  carry : CarryTold w l V r.tree P path m
  /-- Nothing that is ignored stays where the target is not scanned. -/
  gone : answers.lstat = none → Visible w path (carryMove w cookie path m r)
  special : ∀ st, answers.lstat = some st → st.isSpecial = true →
    Visible w path (carryMove w cookie path m r) ∧
      DropTold l V P path (carryMove w cookie path m r)
  found : ∀ st, answers.lstat = some st → st.isSpecial = false →
    SettleTold w l V P cookie path m answers st (carryMove w cookie path m r)

omit [DecidableEq W] in
/-- The entries have arrived. -/
theorem follows_carryMove {P' : Set EventKey} (cookie : UInt32) (hcalls : r.calls = [])
    (h : l.Follows V r.tree P ∅) (hP : ∀ k ∈ P, k ∈ P' ∨ ∃ e ∈ m.entries, e.key = k)
    (hok : CarryTold w l V r.tree P' path m) :
    (l.run (carryMove w cookie path m r).calls).Follows V (carryMove w cookie path m r).tree P'
        (hiddenBelow w path) ∧
      (m.entries = [] →
        (l.run (carryMove w cookie path m r).calls).Follows V
          (carryMove w cookie path m r).tree P' ∅) := by
  have hmade : (carryMove w cookie path m r).calls =
      m.entries.flatMap (movedEntry w r.tree cookie m.path path) := by
    unfold carryMove
    rw [hcalls]
    rfl
  rw [hmade]
  refine ⟨follows_carry cookie h hP hok, fun hentries => ?_⟩
  have htree : (carryMove w cookie path m r).tree = r.tree := by
    unfold carryMove
    rw [hentries]
    rfl
  rw [htree, hentries]
  apply h.mono
  intro k hk
  right
  rcases hP k hk with hk | ⟨e, he, _⟩
  · exact hk
  · rw [hentries] at he
    cases he

namespace InotifyState

variable {s s' : InotifyState W} {id : W} {event : InotifyEvent}

/-- The keys of the entries that wait in the pending moves of a watcher. -/
def parked (s : InotifyState W) (id : W) : Set EventKey :=
  {k | ∃ cookie m, s.mPendingMoves.lookup (id, cookie) = some m ∧ ∃ e ∈ m.entries, e.key = k}

/-- What the consumer will hold and the tree agree, but for what waits. -/
def Agrees (s : InotifyState W) (id : W) (V : Finset EventKey) : Prop :=
  (s.watchers id).mEvents.Follows V (s.watchers id).tree (s.parked id) ∅

/-- They do so as long as the watcher is not invalidated. -/
def Kept (s : InotifyState W) (id : W) (V : Finset EventKey) : Prop :=
  (s.watchers id).invalidated = false → s.Agrees id V

theorem agrees_commit (s : InotifyState W) (id : W) (r : ScanState W) :
    (s.commit id r).Agrees id V ↔
      ((s.watchers id).mEvents.run r.calls).Follows V r.tree (s.parked id) ∅ := by
  unfold Agrees
  rw [watchers_commit]
  rfl

theorem invalidated_failBelow (errno : Nat) :
    ((s.failBelow w faults path errno).watchers w.id).invalidated = true := by
  unfold failBelow
  dsimp only
  show ((((s.invalidate w.id).error w.id _).watchers w.id).invalidated) = true
  rw [watchers_error, watchers_invalidate]

theorem kept_failBelow (errno : Nat) : (s.failBelow w faults path errno).Kept w.id V := by
  intro hvalid
  rw [invalidated_failBelow] at hvalid
  cases hvalid

theorem kept_handleFound {found : FileStat → ScanState W → Option Nat × ScanState W}
    (hgone : answers.lstat = none →
      ((s.watchers w.id).mEvents.run r.calls).Follows V r.tree (s.parked w.id) ∅)
    (hspecial : ∀ st, answers.lstat = some st → st.isSpecial = true →
      ((s.watchers w.id).mEvents.run r.calls).Follows V r.tree (s.parked w.id) ∅ ∧
        DropTold (s.watchers w.id).mEvents V (s.parked w.id) path r)
    (hfound : ∀ st r', answers.lstat = some st → st.isSpecial = false → found st r = (none, r') →
      ((s.watchers w.id).mEvents.run r'.calls).Follows V r'.tree (s.parked w.id) ∅) :
    (s.handleFound w path answers r found).2.Kept w.id V := by
  unfold handleFound
  split
  next hlstat => exact fun _ => (agrees_commit ..).mpr (hgone hlstat)
  next st hlstat =>
      split
      next hst =>
          obtain ⟨h, hok⟩ := hspecial st hlstat hst
          exact fun _ => (agrees_commit ..).mpr (follows_dropSpecial h hok)
      next hst =>
          split
          next r' hr =>
              exact fun _ => (agrees_commit ..).mpr (hfound st r' hlstat (Bool.eq_false_iff.mpr hst) hr)
          next => exact kept_failBelow _

/-! ## An event -/

/-- What the appearance of a path has to meet. -/
structure AppearedTold (s : InotifyState W) (w : InotifyWatcher W) (V : Finset EventKey)
    (path : Str) (answers : EventAnswers) : Prop where
  special : ∀ st, answers.lstat = some st → st.isSpecial = true →
    DropTold (s.watchers w.id).mEvents V (s.parked w.id) path (s.scanState w.id)
  /-- No directory is gone when the scan comes to it. -/
  stays : ∀ st, answers.lstat = some st → st.isDirectory = true →
    answers.scan.vanished w path = []

/-- The move is taken off the map. -/
def eraseMove (s : InotifyState W) (id : W) (cookie : UInt32) : InotifyState W :=
  { s with mPendingMoves := s.mPendingMoves.erase (id, cookie) }

/-- What an event on a path has to meet. -/
def PathTold (s : InotifyState W) (w : InotifyWatcher W) (V : Finset EventKey)
    (event : InotifyEvent) (path : Str) (answers : EventAnswers) : Prop :=
  if event.has (IN_CREATE ||| IN_MOVED_TO) then
    match s.pairedMove w event with
    | none => s.AppearedTold w V path answers
    | some m =>
        PairedTold w (s.watchers w.id).mEvents V ((s.eraseMove w.id event.cookie).parked w.id)
          event.cookie path m answers (s.scanState w.id)
  else if event.has (IN_MODIFY ||| IN_ATTRIB) || event.has (IN_DELETE_SELF ||| IN_MOVE_SELF) then
    True
  else if event.has IN_MOVED_FROM && event.cookie != 0 then
    -- a move that waits under the same cookie is forgotten
    ∀ m, s.mPendingMoves.lookup (w.id, event.cookie) = some m → m.entries = []
  else DropTold (s.watchers w.id).mEvents V (s.parked w.id) path (s.scanState w.id)

def HandleTold (s : InotifyState W) (w : InotifyWatcher W) (V : Finset EventKey)
    (event : InotifyEvent) (pointer : Nat) (sub : InotifySubscription W)
    (answers : EventAnswers) : Prop :=
  match s.dispatch w event pointer sub with
  | .handled path => s.PathTold w V event path answers
  | _ => True

theorem parked_congr (h : ∀ cookie, s'.mPendingMoves.lookup (id, cookie) =
    s.mPendingMoves.lookup (id, cookie)) : s'.parked id = s.parked id := by
  ext k
  apply exists_congr
  intro cookie
  rw [h cookie]

theorem Agrees.sameFor (h : s.Agrees id V) (hsame : SameFor id s s') : s'.Agrees id V := by
  unfold Agrees
  rw [hsame.watcher, parked_congr hsame.moves]
  exact h

theorem parked_eraseMove {k : EventKey} (hm : s.mPendingMoves.lookup (id, cookie) = some m)
    (hk : k ∈ s.parked id) : k ∈ (s.eraseMove id cookie).parked id ∨ ∃ e ∈ m.entries, e.key = k := by
  obtain ⟨cookie', m', hm', he⟩ := hk
  by_cases heq : cookie' = cookie
  · subst heq
    rw [hm] at hm'
    cases hm'
    exact Or.inr he
  · refine Or.inl ⟨cookie', m', ?_, he⟩
    show (s.mPendingMoves.erase (id, cookie)).lookup (id, cookie') = _
    rw [FiniteMap.lookup_erase_eq, if_neg fun h => heq (congrArg Prod.snd h)]
    exact hm'

theorem Agrees.suppress (h : s.Agrees id V) (key : W × UInt32) : (s.suppress key).Agrees id V := by
  apply Follows.mono h
  rintro k ⟨cookie, m, hm, he⟩
  right
  by_cases heq : (id, cookie) = key
  · refine ⟨cookie, { m with suppressedEvents := true }, ?_, he⟩
    show (s.mPendingMoves.adjust key _).lookup (id, cookie) = _
    rw [FiniteMap.lookup_adjust, if_pos heq, ← heq, hm]
    rfl
  · refine ⟨cookie, m, ?_, he⟩
    show (s.mPendingMoves.adjust key _).lookup (id, cookie) = _
    rw [FiniteMap.lookup_adjust, if_neg heq]
    exact hm

theorem kept_handleCreated (hpath : w.isIgnored path = false) (h : s.Agrees w.id V)
    (hok : match s.pairedMove w event with
      | none => s.AppearedTold w V path answers
      | some m =>
          PairedTold w (s.watchers w.id).mEvents V ((s.eraseMove w.id event.cookie).parked w.id)
            event.cookie path m answers (s.scanState w.id)) :
    (s.handleCreated w event path answers).2.Kept w.id V := by
  unfold handleCreated
  dsimp only
  split
  next hnone =>
      rw [hnone] at hok
      apply kept_handleFound
      · exact fun _ => h
      · exact fun st hlstat hst => ⟨h, hok.special st hlstat hst⟩
      · exact fun st r' hlstat _ hr => follows_appear hr h fun hdir => hok.stays st hlstat hdir
  next m hm =>
      rw [hm] at hok
      have hlookup : s.mPendingMoves.lookup (w.id, event.cookie) = some m := by
        unfold pairedMove at hm
        split at hm
        · exact hm
        · cases hm
      have hstart : (s.watchers w.id).mEvents.Follows V (s.scanState w.id).tree (s.parked w.id) ∅ := h
      obtain ⟨hcarried, hempty⟩ := follows_carryMove event.cookie rfl hstart
        (fun k hk => parked_eraseMove hlookup hk) hok.carry
      have hmoved : ({ s with mPendingMoves := s.mPendingMoves.erase (w.id, event.cookie) }.handleFound
          w path answers (carryMove w event.cookie path m (s.scanState w.id))
          (settle w event.cookie path m answers)).2.Kept w.id V := by
        apply kept_handleFound
        · exact fun hlstat => hcarried.reveal (hok.gone hlstat)
        · intro st hlstat hst
          obtain ⟨hvisible, hdrop⟩ := hok.special st hlstat hst
          exact ⟨hcarried.reveal hvisible, hdrop⟩
        · exact fun st r' hlstat hst hr =>
            follows_settle hpath hr hcarried hempty (hok.found st hlstat hst)
      exact hmoved

theorem kept_handleModified (h : s.Agrees w.id V) :
    (s.handleModified w path answers).2.Agrees w.id V := by
  unfold handleModified
  dsimp only
  split
  · exact h
  · split
    · exact h
    · apply (agrees_commit ..).mpr
      apply Follows.congr _ fun k => DirTree.mem_keys_update
      exact Follows.update h _

/-- What is taken out of the tree waits in the new move. -/
theorem agrees_park {now : Nat} (h : s.Agrees w.id V)
    (hok : ∀ m, s.mPendingMoves.lookup (w.id, event.cookie) = some m → m.entries = []) :
    ({ s.commit w.id ⟨((s.watchers w.id).tree.extract path).2, s.table, []⟩ with
      mPendingMoves := AList.insert (w.id, event.cookie) (s.parkedMove w event path now)
        s.mPendingMoves } : InotifyState W).Agrees w.id V := by
  unfold Agrees
  dsimp only
  rw [watchers_commit]
  refine ⟨h.grounded, fun k hk => h.told k (DirTree.mem_keys_extract.mp hk).1, fun k hk => ?_⟩
  rcases h.sound k hk with hkey | ⟨cookie, m, hm, he⟩
  · by_cases hunder : Under slash path k.1
    · right
      refine ⟨event.cookie, s.parkedMove w event path now, ?_,
        DirTree.mem_keys_extracted.mpr ⟨hkey, hunder⟩⟩
      exact (FiniteMap.lookup_insert_eq ..).trans (if_pos rfl)
    · exact Or.inl (DirTree.mem_keys_extract.mpr ⟨hkey, hunder⟩)
  · right
    by_cases heq : cookie = event.cookie
    · obtain ⟨e, he, _⟩ := he
      rw [hok m (heq ▸ hm)] at he
      cases he
    · refine ⟨cookie, m, ?_, he⟩
      apply (FiniteMap.lookup_insert_eq ..).trans
      rw [if_neg fun h => heq (congrArg Prod.snd h)]
      exact hm

theorem agrees_handleRemoved (h : s.Agrees w.id V)
    (hmoved : event.has (IN_DELETE_SELF ||| IN_MOVE_SELF) = false →
      if event.has IN_MOVED_FROM && event.cookie != 0 then
        ∀ m, s.mPendingMoves.lookup (w.id, event.cookie) = some m → m.entries = []
      else DropTold (s.watchers w.id).mEvents V (s.parked w.id) path (s.scanState w.id)) :
    (s.handleRemoved w event path answers).2.Agrees w.id V := by
  unfold handleRemoved
  split
  · exact h
  next hself =>
      have hok := hmoved (Bool.eq_false_iff.mpr hself)
      dsimp only
      split
      next hfrom =>
          rw [if_pos hfrom] at hok
          exact agrees_park h hok
      next hgone =>
          rw [if_neg hgone] at hok
          have hdropped := (agrees_commit s w.id ⟨((s.watchers w.id).tree.extract path).2, s.table,
            ((s.watchers w.id).tree.extract path).1.map DirEntry.removal⟩).mpr (Follows.extract h hok)
          dsimp only
          split
          · exact hdropped
          · exact hdropped

/-! ### A mark is for good -/

theorem invalidated_rootGone : ((s.rootGone w faults).watchers w.id).invalidated = true := by
  unfold rootGone
  dsimp only
  show (((s.commit w.id _).dropMoves w.id).invalidate w.id).watchers w.id |>.invalidated
  rw [watchers_invalidate]

theorem invalidated_commit (h : (s.watchers w.id).invalidated = true) (r : ScanState W) :
    ((s.commit w.id r).watchers w.id).invalidated = true := by
  rw [watchers_commit]
  exact h

theorem invalidated_handleFound {found : FileStat → ScanState W → Option Nat × ScanState W}
    (h : (s.watchers w.id).invalidated = true) :
    ((s.handleFound w path answers r found).2.watchers w.id).invalidated = true := by
  unfold handleFound
  split
  · exact invalidated_commit h _
  · split
    · exact invalidated_commit h _
    · split
      · exact invalidated_commit h _
      · exact invalidated_failBelow _

theorem invalidated_handleSubscription {pointer : Nat} {sub : InotifySubscription W}
    (h : (s.watchers w.id).invalidated = true) :
    ((s.handleSubscription w event pointer sub answers).2.watchers w.id).invalidated = true := by
  unfold handleSubscription
  split
  · exact h
  · exact invalidated_rootGone
  · exact h
  · unfold handlePath
    split
    · unfold handleCreated
      dsimp only
      split
      · exact invalidated_handleFound h
      · exact invalidated_handleFound h
    · split
      · unfold handleModified
        dsimp only
        split
        · exact h
        · split
          · exact h
          · exact invalidated_commit h _
      · split
        · unfold handleRemoved
          split
          · exact h
          · dsimp only
            split
            · exact invalidated_commit h _
            · dsimp only
              split
              · exact invalidated_commit h _
              · exact invalidated_commit h _
        · exact h

/-- One event keeps the agreement under its condition, or invalidates the watcher. -/
theorem kept_handleSubscription {pointer : Nat} {sub : InotifySubscription W}
    (h : s.Kept w.id V)
    (hok : (s.watchers w.id).invalidated = false → s.HandleTold w V event pointer sub answers) :
    (s.handleSubscription w event pointer sub answers).2.Kept w.id V := by
  intro hvalid
  have hbefore : (s.watchers w.id).invalidated = false := by
    by_contra hne
    rw [invalidated_handleSubscription (Bool.not_eq_false _ ▸ hne)] at hvalid
    cases hvalid
  have hagrees := h hbefore
  have htold := hok hbefore
  have hspec := s.dispatched_dispatch w event pointer sub
  unfold HandleTold at htold
  revert hvalid
  unfold handleSubscription
  split
  · exact fun _ => hagrees
  · intro hvalid
    rw [invalidated_rootGone] at hvalid
    cases hvalid
  next key _ => exact fun _ => hagrees.suppress key
  next path hpath =>
      rw [hpath] at htold hspec
      change s.PathTold w V event path answers at htold
      unfold PathTold at htold
      unfold handlePath
      split
      next hcreated =>
          rw [if_pos hcreated] at htold
          exact kept_handleCreated hspec hagrees htold
      next hcreated =>
          rw [if_neg hcreated] at htold
          split
          · exact fun _ => kept_handleModified hagrees
          next hmodified =>
              split
              · intro _
                apply agrees_handleRemoved hagrees
                intro hself
                rw [if_neg (by simp [hself, hmodified])] at htold
                exact htold
              · exact fun _ => hagrees

end InotifyState

end NativeWatcher
