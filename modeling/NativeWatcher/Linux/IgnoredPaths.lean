import NativeWatcher.Linux.WatcherFrame
import NativeWatcher.Linux.ScanSteps

/-!
# Ignored paths

Every path is tested before it is indexed, except for the entries that a move carries:
they are restored below the new path first, and a scan of the target drops those that
are ignored there. Where that scan does not happen, because the target is gone again or
not a directory, they stay, and the next move reports them.
-/

namespace NativeWatcher

open Hierarchy

variable {W : Type} [DecidableEq W]

/-- An operation names paths that are not ignored. -/
def EventOp.Clear (w : InotifyWatcher W) (op : EventOp) : Prop :=
  ∀ k ∈ op.names, w.isIgnored k.1 = false

/-- A tree without ignored paths, except below `base`. -/
def DirTree.ClearOff (w : InotifyWatcher W) (base : Str → Prop) (t : DirTree) : Prop :=
  ∀ p e, t.find p = some e → ¬ base p → w.isIgnored p = false

abbrev DirTree.Clear (w : InotifyWatcher W) (t : DirTree) : Prop := t.ClearOff w fun _ => False

/-- Nothing ignored is indexed or reported. -/
structure ScanState.Clear (w : InotifyWatcher W) (s : ScanState W) : Prop where
  tree : s.tree.Clear w
  calls : ∀ op ∈ s.calls, op.Clear w

section Scans

variable {w : InotifyWatcher W} {s s' : ScanState W} {t : DirTree} {path p : Str}
  {base : Str → Prop} {faults : RmFaults} {answers : EventAnswers}

omit [DecidableEq W] in
theorem clear_single {op : EventOp} {k : EventKey} (hop : op.names = [k])
    (h : w.isIgnored k.1 = false) : op.Clear w := by
  intro k' hk'
  rw [hop] at hk'
  rw [List.mem_singleton.mp hk']
  exact h

omit [DecidableEq W] in
theorem clear_rename {old new id : Str} {kind : EntryKind} (hold : w.isIgnored old = false)
    (hnew : w.isIgnored new = false) : (EventOp.rename old new id kind).Clear w := by
  intro k hk
  rcases List.mem_cons.mp hk with rfl | hk
  · exact hold
  · rw [List.mem_singleton.mp hk]
    exact hnew

omit [DecidableEq W] in
theorem clear_append {ops ops' : List EventOp} (h : ∀ op ∈ ops, op.Clear w)
    (h' : ∀ op ∈ ops', op.Clear w) : ∀ op ∈ ops ++ ops', op.Clear w := by
  intro op hop
  rcases List.mem_append.mp hop with hop | hop
  · exact h op hop
  · exact h' op hop

omit [DecidableEq W] in
theorem clear_snoc {ops : List EventOp} {op : EventOp} (h : ∀ op ∈ ops, op.Clear w)
    (hop : op.Clear w) : ∀ op' ∈ ops ++ [op], op'.Clear w := by
  apply clear_append h
  intro op' hop'
  rw [List.mem_singleton.mp hop']
  exact hop

/-! ### Trees -/

namespace DirTree

omit [DecidableEq W]

theorem ClearOff.add (h : t.ClearOff w base) (hp : w.isIgnored p = false) (mtime : UInt64)
    (isDir : Bool) : (t.add p mtime isDir).ClearOff w base := by
  intro q e hq hbase
  rw [find_add] at hq
  split at hq
  next heq => exact heq ▸ hp
  next => exact h q e hq hbase

theorem ClearOff.update (h : t.ClearOff w base) (p : Str) (mtime : UInt64) :
    (t.update p mtime).2.ClearOff w base := by
  intro q e hq hbase
  rw [find_update] at hq
  split at hq
  next heq =>
      obtain ⟨e', he', rfl⟩ := Option.map_eq_some_iff.mp hq
      exact h q e' (heq ▸ he') hbase
  next => exact h q e hq hbase

theorem ClearOff.updateOrAdd (h : t.ClearOff w base) (hp : w.isIgnored p = false)
    (mtime : UInt64) (isDir : Bool) : (t.updateOrAdd p mtime isDir).ClearOff w base := by
  intro q e hq hbase
  rw [find_updateOrAdd] at hq
  split at hq
  next heq => exact heq ▸ hp
  next => exact h q e hq hbase

theorem ClearOff.remove (h : t.ClearOff w base) (p : Str) : (t.remove p).ClearOff w base := by
  intro q e hq hbase
  rw [find_remove] at hq
  split at hq
  · cases hq
  · exact h q e hq hbase

/-- What is below `path` goes, whatever it is. -/
theorem ClearOff.extract (h : t.ClearOff w (Under slash path)) : (t.extract path).2.Clear w := by
  intro q e hq _
  rw [find_extract] at hq
  split at hq
  · cases hq
  next hoff => exact h q e hq hoff

theorem Clear.off (h : t.Clear w) (base : Str → Prop) : t.ClearOff w base :=
  fun q e hq _ => h q e hq not_false

theorem Clear.of_mem_extract (h : t.Clear w) : ∀ e ∈ (t.extract path).1, w.isIgnored e.path = false :=
  fun e he => h e.path e (mem_extract.mp he).1 not_false

theorem clear_new (root : Str) : (DirTree.new root).Clear w := by
  intro q e hq
  rw [find_new] at hq
  cases hq

end DirTree

/-! ### Scans -/

theorem ScanState.Clear.step {reportEvents : Bool} (hbase : w.isIgnored path = false)
    (hs : ScanStep w reportEvents path s s') (h : s.Clear w) : s'.Clear w := by
  cases hs with
  | watchDir => exact ⟨h.tree, h.calls⟩
  | removeSubscriptions => exact ⟨h.tree, h.calls⟩
  | @directory q mtime hunder hclear hnew =>
      have hq : w.isIgnored q = false := hclear.elim (fun heq => heq ▸ hbase) id
      exact ⟨h.tree.add hq _ _, h.calls⟩
  | item mtime isDirectory hbelow hclear hnew =>
      refine ⟨h.tree.add hclear _ _, ?_⟩
      dsimp only
      split
      · exact clear_snoc h.calls (clear_single rfl hclear)
      · exact h.calls
  | remove hbelow => exact ⟨h.tree.remove _, h.calls⟩

theorem clear_addCreatedTree (hpath : w.isIgnored path = false) (h : s.Clear w)
    (reportEvents : Bool) (scan : DirScan) :
    (addCreatedTree w reportEvents path scan s).2.Clear w :=
  (ScanSteps.addCreatedTree scan (Under.refl path) (Or.inl rfl) s).invariant
    (ScanState.Clear.step hpath) h

theorem clear_watchThen {answer : WatchAnswer} {r : Option Nat × ScanState W}
    {scan : ScanState W → Option Nat × ScanState W}
    (hr : watchThen w faults answer path scan s = r) (h : s.Clear w)
    (hscan : ∀ {s : ScanState W}, s.Clear w → (scan s).2.Clear w) : r.2.Clear w := by
  subst hr
  unfold watchThen
  split
  · exact h
  · exact hscan ⟨h.tree, h.calls⟩

/-- The comparison after the scan tests what it removes. -/
theorem clear_compareMovedTree (h : s.Clear w) (previous : List DirEntry) :
    (compareMovedTree w faults path previous s).Clear w := by
  refine ⟨h.tree, ?_⟩
  unfold compareMovedTree
  dsimp only
  apply List.foldlRecOn (motive := fun c : Comparison W => ∀ op ∈ c.calls, op.Clear w)
  · apply List.foldlRecOn (motive := fun c : Comparison W => ∀ op ∈ c.calls, op.Clear w) _ _ h.calls
    intro c hc e he
    obtain ⟨⟨q, e'⟩, hpair, rfl⟩ := List.mem_map.mp (List.mem_of_mem_filter he)
    have hfind : s.tree.find q = some e' := FiniteMap.mem_pairs.mp hpair
    have hclear : w.isIgnored e'.path = false :=
      DirTree.path_of_find hfind ▸ h.tree q e' hfind not_false
    unfold Comparison.current
    split
    · exact clear_snoc hc (clear_single rfl hclear)
    · dsimp only
      split
      · exact clear_snoc hc (clear_single rfl hclear)
      · split
        · exact clear_snoc hc (clear_single rfl hclear)
        · exact hc
  · intro c hc old _
    unfold Comparison.vanished
    dsimp only
    split
    · exact hc
    next hignored =>
        exact clear_snoc hc (clear_single rfl (Bool.eq_false_iff.mpr hignored))

/-- The rescan of a moved directory drops what is ignored below it. -/
theorem clear_reconcileMovedTree (hpath : w.isIgnored path = false)
    (htree : s.tree.ClearOff w (Under slash path)) (hcalls : ∀ op ∈ s.calls, op.Clear w)
    (scan : DirScan) : (reconcileMovedTree w faults path scan s).2.Clear w := by
  have hextracted : ScanState.Clear w { s with tree := (s.tree.extract path).2 } :=
    ⟨htree.extract, hcalls⟩
  have hscan := clear_addCreatedTree hpath hextracted false scan
  unfold reconcileMovedTree
  dsimp only
  split
  next heq =>
      rw [heq] at hscan
      exact hscan
  next heq =>
      rw [heq] at hscan
      exact clear_compareMovedTree hscan _

/-! ### The branches -/

theorem clear_dropSpecial (h : s.Clear w) : (dropSpecial w faults path s).2.Clear w := by
  have hentries : ∀ e ∈ (s.tree.extract path).1, w.isIgnored e.path = false :=
    h.tree.of_mem_extract
  have hextracted : ScanState.Clear w { s with tree := (s.tree.extract path).2 } :=
    ⟨(h.tree.off _).extract, h.calls⟩
  apply List.foldlRecOn (motive := fun s : ScanState W => s.Clear w) _ _ hextracted
  intro s hs e he
  have hremoval : e.removal.Clear w := clear_single rfl (hentries e he)
  have hcalls := clear_snoc hs.calls hremoval
  dsimp only
  split
  · exact ⟨hs.tree, hcalls⟩
  · exact ⟨hs.tree, hcalls⟩

theorem clear_appear (hpath : w.isIgnored path = false) (h : s.Clear w) (st : FileStat) :
    (appear w path answers st s).2.Clear w := by
  have hcall : EventOp.Clear w (if (s.tree.find path).isSome then
      .update (path, entryKind st.isDirectory) else .create (path, entryKind st.isDirectory)) := by
    split
    · exact clear_single rfl hpath
    · exact clear_single rfl hpath
  have hadded : ScanState.Clear w
      { s.emit [if (s.tree.find path).isSome then .update (path, entryKind st.isDirectory)
          else .create (path, entryKind st.isDirectory)] with
        tree := s.tree.add path (convertTime st.st_mtim) st.isDirectory } :=
    ⟨h.tree.add hpath _ _, clear_snoc h.calls hcall⟩
  unfold appear
  extract_lets key s₁ s₂
  split
  · split
    next errno s₃ heq =>
        have hscan : s₃.Clear w := clear_watchThen heq hadded fun hs =>
          clear_addCreatedTree hpath hs true answers.scan
        exact ⟨hscan.tree.remove _, hscan.calls⟩
    next s₃ heq =>
        exact clear_watchThen heq hadded fun hs => clear_addCreatedTree hpath hs true answers.scan
  · exact hadded

variable {m : PendingInotifyMove} {cookie : UInt32}

/-- The move has nothing to tell of ignored paths. -/
def PendingInotifyMove.Clear (w : InotifyWatcher W) (m : PendingInotifyMove) : Prop :=
  w.isIgnored m.path = false ∧ ∀ e ∈ m.entries, w.isIgnored e.path = false

omit [DecidableEq W] in
theorem clear_movedEntry {e : DirEntry} (he : w.isIgnored e.path = false) (oldPath : Str) :
    ∀ op ∈ movedEntry w t cookie oldPath path e, op.Clear w := by
  intro op hop
  unfold movedEntry at hop
  dsimp only at hop
  split at hop
  next =>
      rcases List.mem_cons.mp hop with rfl | hop
      · exact clear_single rfl he
      · split at hop
        · exact absurd hop List.not_mem_nil
        next hnew =>
            have hclear : w.isIgnored (relocate oldPath path e.path) = false :=
              Bool.eq_false_iff.mpr hnew
            split at hop <;> rw [List.mem_singleton.mp hop]
            · exact clear_single rfl hclear
            · exact clear_single rfl hclear
  next hnew =>
      rw [Bool.or_eq_true, not_or] at hnew
      rw [List.mem_singleton.mp hop]
      exact clear_rename he (Bool.eq_false_iff.mpr hnew.2)

/-- The ignored paths that a move brings to `path`. -/
def CarriedIgnored (w : InotifyWatcher W) (m : PendingInotifyMove) (path p : Str) : Prop :=
  ∃ e ∈ m.entries, p = relocate m.path path e.path ∧ w.isIgnored p = true

omit [DecidableEq W] in
theorem clear_carryMove (hm : m.Clear w) (h : s.Clear w) :
    (carryMove w cookie path m s).tree.ClearOff w (CarriedIgnored w m path) ∧
      ∀ op ∈ (carryMove w cookie path m s).calls, op.Clear w := by
  constructor
  · intro p e hp hbase
    by_cases hcarried : ∃ e ∈ m.entries, p = relocate m.path path e.path
    · obtain ⟨e', he', rfl⟩ := hcarried
      exact Bool.eq_false_iff.mpr fun hignored => hbase ⟨e', he', rfl, hignored⟩
    · rw [not_exists] at hcarried
      have hrest : ∀ t : DirTree, (t.restore m.entries m.path path).find p = t.find p :=
        DirTree.find_restore_of_forall_ne fun e' he' heq => hcarried e' ⟨he', heq⟩
      change (DirTree.restore _ m.entries m.path path).find p = some e at hp
      rw [hrest] at hp
      split at hp
      · exact h.tree.remove path p e hp not_false
      · exact h.tree p e hp not_false
  · apply clear_append h.calls
    intro op hop
    obtain ⟨e, he, hop⟩ := List.mem_flatMap.mp hop
    exact clear_movedEntry (hm.2 e he) m.path op hop

/-- The ignored paths that a move carries are dropped by the scan of its target: it is a
directory, and it is watched already or can be watched. -/
def CarriedRescanned (w : InotifyWatcher W) (m : PendingInotifyMove) (path : Str)
    (answers : EventAnswers) : Prop :=
  ∀ p, CarriedIgnored w m path p → answers.lstat.any FileStat.isDirectory = true ∧
    ((∃ e ∈ m.entries, e.path = m.path) ∨ ∃ inode fresh, answers.watch = .resolves inode fresh)

omit [DecidableEq W] in
/-- A tree in which a move left ignored paths has them at or below its target. -/
theorem DirTree.ClearOff.below (h : t.ClearOff w (CarriedIgnored w m path)) :
    t.ClearOff w (Under slash path) := by
  intro p e hp hoff
  apply h p e hp
  rintro ⟨e', he', rfl, _⟩
  exact hoff (m.below e' he').relocate

theorem clear_settleDirectory (hpath : w.isIgnored path = false)
    (htree : s.tree.ClearOff w (CarriedIgnored w m path)) (hcalls : ∀ op ∈ s.calls, op.Clear w)
    (suppressedEvents missingSource : Bool)
    (hwatch : ∀ p, CarriedIgnored w m path p → missingSource = true →
      ∃ inode fresh, answers.watch = .resolves inode fresh) :
    (settleDirectory w path suppressedEvents missingSource answers s).2.Clear w := by
  by_cases hcarried : ∃ p, CarriedIgnored w m path p
  · obtain ⟨p, hp⟩ := hcarried
    -- Something is ignored, so the target is scanned.
    have hignores : (!w.mIgnorePaths.isEmpty || !w.mIgnoreGlobs.isEmpty) = true := by
      obtain ⟨e, he, hpe, hignored⟩ := hp
      by_contra hnone
      rw [Bool.or_eq_true, not_or] at hnone
      have hclear := w.ignores (by simpa using hnone.1) (by simpa using hnone.2) p
      rw [hclear] at hignored
      cases hignored
    have hrescan : ∀ b : Bool, (suppressedEvents ||
        (b || !w.mIgnorePaths.isEmpty || !w.mIgnoreGlobs.isEmpty)) = true := by
      intro b
      rw [Bool.or_assoc, hignores, Bool.or_true, Bool.or_true]
    unfold settleDirectory
    simp only [hrescan, if_true]
    split
    next hmissing =>
        obtain ⟨inode, fresh, hanswer⟩ := hwatch p hp hmissing
        unfold watchThen
        split
        next errno herr =>
            rw [hanswer] at herr
            cases herr
        next table _ =>
            exact clear_reconcileMovedTree (s := { s with table := table }) hpath htree.below
              hcalls _
    next => exact clear_reconcileMovedTree hpath htree.below hcalls _
  · have hclear : s.Clear w := ⟨fun q e hq _ => htree q e hq fun hc => hcarried ⟨q, hc⟩, hcalls⟩
    unfold settleDirectory
    extract_lets rescanMovedTree rescan
    have hrescan : ∀ {s : ScanState W}, s.Clear w → (rescan s).2.Clear w := by
      intro s hs
      show ScanState.Clear w (if _ then _ else _ : Option Nat × ScanState W).2
      split
      · exact clear_reconcileMovedTree hpath (hs.tree.off _) hs.calls _
      · exact hs
    split
    · exact clear_watchThen rfl hclear hrescan
    · exact hrescan hclear

theorem clear_settle (hpath : w.isIgnored path = false) (hm : m.Clear w)
    (htree : s.tree.ClearOff w (CarriedIgnored w m path)) (hcalls : ∀ op ∈ s.calls, op.Clear w)
    {st : FileStat} (hst : answers.lstat = some st) (hcarried : CarriedRescanned w m path answers)
    (hfind : (∃ e ∈ m.entries, e.path = m.path) → (s.tree.find path).isSome = true) :
    (settle w cookie path m answers st s).2.Clear w := by
  unfold settle
  extract_lets s₁ missingSource s₂
  have h₁ : s₁.tree.ClearOff w (CarriedIgnored w m path) ∧ ∀ op ∈ s₁.calls, op.Clear w := by
    cases hempty : m.entries.isEmpty with
    | false => exact ⟨by simpa [s₁, hempty] using htree, by simpa [s₁, hempty] using hcalls⟩
    | true =>
        have hs₁ : s₁ = arriveUnindexed cookie m.path path st s := if_pos hempty
        rw [hs₁]
        refine ⟨htree.remove path, clear_append hcalls ?_⟩
        split
        · intro op hop
          rcases List.mem_cons.mp hop with rfl | hop
          · exact clear_single rfl hm.1
          · rw [List.mem_singleton.mp hop]
            exact clear_single rfl hpath
        · intro op hop
          rw [List.mem_singleton.mp hop]
          exact clear_rename hm.1 hpath
  have h₂ : s₂.tree.ClearOff w (CarriedIgnored w m path) := h₁.1.updateOrAdd hpath _ _
  split
  next hdir =>
      apply clear_settleDirectory hpath h₂ h₁.2
      intro p hp hmissing
      apply (hcarried p hp).2.resolve_left
      intro hroot
      obtain ⟨e, he, _⟩ := hp
      have hempty : m.entries.isEmpty = false := by
        cases hentries : m.entries with
        | nil => exact absurd (hentries ▸ he) List.not_mem_nil
        | cons => rfl
      have hs₁ : s₁ = s := if_neg (by simp [hempty])
      have hsome := hfind hroot
      rw [← hs₁] at hsome
      simp [missingSource, hempty, Option.isSome_iff_ne_none.mp hsome] at hmissing
  next hdir =>
      refine ⟨fun q e hq _ => h₂ q e hq fun hc => hdir ?_, h₁.2⟩
      have hany := (hcarried q hc).1
      rw [hst] at hany
      exact hany

end Scans

/-! ## The state of a watcher -/

namespace InotifyState

/-- No ignored path is indexed, waits in a move, or is about to be reported. -/
structure Clear (w : InotifyWatcher W) (s : InotifyState W) : Prop where
  tree : (s.watchers w.id).tree.Clear w
  events : (s.watchers w.id).mEvents.KeysIn fun k => w.isIgnored k.1 = false
  moves : ∀ cookie m, s.mPendingMoves.lookup (w.id, cookie) = some m → m.Clear w

variable {w : InotifyWatcher W} {s s' : InotifyState W} {faults : RmFaults} {path : Str}
  {answers : EventAnswers} {event : InotifyEvent}

theorem Clear.sameFor (h : s.Clear w) (hsame : SameFor w.id s s') : s'.Clear w where
  tree := by
    rw [hsame.watcher]
    exact h.tree
  events := by
    rw [hsame.watcher]
    exact h.events
  moves cookie m hm := h.moves cookie m (hsame.moves cookie ▸ hm)

theorem Clear.commit (h : s.Clear w) {r : ScanState W} (hr : r.Clear w) :
    (s.commit w.id r).Clear w where
  tree := by
    rw [watchers_commit]
    exact hr.tree
  events := by
    rw [watchers_commit]
    exact h.events.run hr.calls
  moves := h.moves

theorem Clear.scanState (h : s.Clear w) : (s.scanState w.id).Clear w :=
  ⟨h.tree, fun _ hop => absurd hop List.not_mem_nil⟩

theorem Clear.dropMoves (h : s.Clear w) (id : W) : (s.dropMoves id).Clear w where
  tree := h.tree
  events := h.events
  moves cookie m hm := by
    rw [InotifyState.dropMoves, FiniteMap.lookup_filterKeys] at hm
    split at hm
    · exact h.moves cookie m hm
    · cases hm

theorem Clear.eraseMove (h : s.Clear w) (key : W × UInt32) :
    Clear w { s with mPendingMoves := s.mPendingMoves.erase key } where
  tree := h.tree
  events := h.events
  moves cookie m hm := by
    rw [FiniteMap.lookup_erase_eq] at hm
    split at hm
    · cases hm
    · exact h.moves cookie m hm

/-- Errors and invalidation do not touch paths. -/
theorem Clear.invalidate (h : s.Clear w) : (s.invalidate w.id).Clear w where
  tree := by
    rw [watchers_invalidate]
    exact h.tree
  events := by
    rw [watchers_invalidate]
    exact h.events
  moves := h.moves

theorem Clear.error (h : s.Clear w) (err : String) : (s.error w.id err).Clear w where
  tree := by
    rw [watchers_error]
    exact h.tree
  events := by
    rw [watchers_error]
    exact h.events
  moves := h.moves

theorem Clear.removeSubscriptions (h : s.Clear w) (path : Str) :
    (s.removeSubscriptions w faults path).Clear w :=
  ⟨h.tree, h.events, h.moves⟩

theorem Clear.failBelow (h : s.Clear w) (errno : Nat) : (s.failBelow w faults path errno).Clear w :=
  ((h.invalidate.error _).removeSubscriptions _).dropMoves _

theorem clear_rootGone (h : s.Clear w) : (s.rootGone w faults).Clear w := by
  have hcommitted : (s.commit w.id ⟨((s.watchers w.id).tree.extract w.mDir).2, s.table,
      (((s.watchers w.id).tree.extract w.mDir).1 ++
        (s.movesOf w.id).flatMap PendingInotifyMove.entries).map DirEntry.removal⟩).Clear w := by
    apply h.commit
    refine ⟨(h.tree.off _).extract, ?_⟩
    intro op hop
    obtain ⟨e, he, rfl⟩ := List.mem_map.mp hop
    apply clear_single rfl
    rcases List.mem_append.mp he with he | he
    · exact h.tree.of_mem_extract e he
    · obtain ⟨m, hm, he⟩ := List.mem_flatMap.mp he
      obtain ⟨⟨key, m'⟩, hb, rfl⟩ := List.mem_map.mp hm
      obtain ⟨hpair, hkey⟩ := List.mem_filter.mp hb
      rw [beq_iff_eq] at hkey
      have hlookup : s.mPendingMoves.lookup key = some m' := FiniteMap.mem_pairs.mp hpair
      obtain ⟨id, cookie⟩ := key
      change id = w.id at hkey
      subst hkey
      exact (h.moves cookie m' hlookup).2 e he
  exact ((hcommitted.dropMoves w.id).invalidate).removeSubscriptions w.mDir

theorem clear_suppress (h : s.Clear w) (key : W × UInt32) : (s.suppress key).Clear w where
  tree := h.tree
  events := h.events
  moves cookie m hm := by
    rw [InotifyState.suppress, FiniteMap.lookup_adjust] at hm
    split at hm
    next heq =>
        obtain ⟨m', hm', rfl⟩ := Option.map_eq_some_iff.mp hm
        exact h.moves cookie m' (heq ▸ hm')
    next => exact h.moves cookie m hm

theorem clear_handleFound (h : s.Clear w) {r : ScanState W}
    {found : FileStat → ScanState W → Option Nat × ScanState W}
    (hr : answers.lstat.any FileStat.isDirectory = false → r.Clear w)
    (hfound : ∀ st, answers.lstat = some st → (found st r).2.Clear w) :
    (s.handleFound w path answers r found).2.Clear w := by
  unfold handleFound
  split
  next hnone => exact h.commit (hr (by rw [hnone]; rfl))
  next st hst =>
      split
      next hspecial =>
          have hdir : answers.lstat.any FileStat.isDirectory = false := by
            rw [hst]
            unfold FileStat.isSpecial at hspecial
            simp at hspecial
            simp [FileStat.isDirectory, hspecial.2]
          exact h.commit (clear_dropSpecial (hr hdir))
      next =>
          have hclear := hfound st hst
          split
          next heq =>
              rw [heq] at hclear
              exact h.commit hclear
          next heq =>
              rw [heq] at hclear
              exact (h.commit hclear).failBelow _

theorem clear_handleCreated (h : s.Clear w) (hpath : w.isIgnored path = false)
    (hcarried : ∀ m, s.pairedMove w event = some m → CarriedRescanned w m path answers) :
    (s.handleCreated w event path answers).2.Clear w := by
  unfold handleCreated
  dsimp only
  split
  · exact clear_handleFound h (fun _ => h.scanState) fun st _ => clear_appear hpath h.scanState st
  next m hm =>
      have hlookup : s.mPendingMoves.lookup (w.id, event.cookie) = some m := by
        unfold pairedMove at hm
        split at hm
        · exact hm
        · cases hm
      have hmove := h.moves _ m hlookup
      have hrescan := hcarried m hm
      have hcarry : _ ∧ ∀ op ∈ (carryMove w event.cookie path m (s.scanState w.id)).calls,
          op.Clear w := clear_carryMove hmove h.scanState
      obtain ⟨htree, hcalls⟩ := hcarry
      apply clear_handleFound (h.eraseMove _)
      · intro hdir
        refine ⟨fun q e hq _ => htree q e hq fun hc => ?_, hcalls⟩
        rw [(hrescan q hc).1] at hdir
        cases hdir
      · intro st hst
        apply clear_settle hpath hmove htree hcalls hst hrescan
        rintro ⟨e, he, heq⟩
        have hfind : ∀ t : DirTree, (t.restore m.entries m.path path).find
            (relocate m.path path e.path) = some (e.moved m.path path) :=
          DirTree.find_restore_of_mem m.distinct m.below he
        rw [heq, relocate_self_base] at hfind
        rw [Option.isSome_iff_exists]
        exact ⟨_, hfind _⟩

theorem clear_handleModified (h : s.Clear w) (hpath : w.isIgnored path = false) :
    (s.handleModified w path answers).2.Clear w := by
  unfold handleModified
  dsimp only
  split
  · exact h
  · split
    · exact h
    · apply h.commit
      refine ⟨h.tree.update _ _, ?_⟩
      intro op hop
      rw [List.mem_singleton.mp hop]
      exact clear_single rfl hpath

theorem clear_handleRemoved (h : s.Clear w) (hpath : w.isIgnored path = false) :
    (s.handleRemoved w event path answers).2.Clear w := by
  have hentries : ∀ e ∈ ((s.watchers w.id).tree.extract path).1, w.isIgnored e.path = false :=
    h.tree.of_mem_extract
  have htree : (((s.watchers w.id).tree.extract path).2).Clear w := (h.tree.off _).extract
  unfold handleRemoved
  split
  · exact h
  · dsimp only
    split
    · have hc : (s.commit w.id ⟨((s.watchers w.id).tree.extract path).2, s.table, []⟩).Clear w :=
        h.commit ⟨htree, fun _ hop => absurd hop List.not_mem_nil⟩
      refine ⟨hc.tree, hc.events, fun cookie m hm => ?_⟩
      rw [FiniteMap.lookup_insert_eq] at hm
      split at hm
      · cases hm
        exact ⟨hpath, hentries⟩
      · exact h.moves cookie m hm
    · have hc : (s.commit w.id ⟨((s.watchers w.id).tree.extract path).2, s.table,
          ((s.watchers w.id).tree.extract path).1.map DirEntry.removal⟩).Clear w := by
        apply h.commit
        refine ⟨htree, ?_⟩
        intro op hop
        obtain ⟨e, he, rfl⟩ := List.mem_map.mp hop
        exact clear_single rfl (hentries e he)
      dsimp only
      split
      · exact hc.removeSubscriptions path
      · exact hc

theorem clear_handleSubscription (h : s.Clear w) {pointer : Nat} {sub : InotifySubscription W}
    (hcarried : ∀ path m, s.dispatch w event pointer sub = .handled path →
      event.has (IN_CREATE ||| IN_MOVED_TO) = true → s.pairedMove w event = some m →
        CarriedRescanned w m path answers) :
    (s.handleSubscription w event pointer sub answers).2.Clear w := by
  have hspec := s.dispatched_dispatch w event pointer sub
  unfold handleSubscription
  split
  · exact h
  · exact clear_rootGone h
  next key _ => exact clear_suppress h key
  next path hpath =>
      rw [hpath] at hspec
      unfold handlePath
      split
      next hcreated =>
          exact clear_handleCreated h hspec fun m hm => hcarried path m hpath hcreated hm
      next =>
          split
          · exact clear_handleModified h hspec
          · split
            · exact clear_handleRemoved h hspec
            · exact h

/-! ### The routines of the backend -/

theorem clear_watchRoot (hroot : w.isIgnored w.mDir = false) (a : SubscribeAnswers)
    (table : SubscriptionTable W) : (watchRoot w a table).2.tree.Clear w := by
  unfold watchRoot
  split
  · exact DirTree.clear_new _
  next table _ =>
      dsimp only
      split
      · exact DirTree.clear_new _
      next table _ =>
          have hnew : ScanState.Clear w ⟨.new w.mDir, table, []⟩ :=
            ⟨DirTree.clear_new _, fun _ hop => absurd hop List.not_mem_nil⟩
          exact (clear_addCreatedTree hroot hnew false a.scan).tree

theorem clear_subscribe (hroot : w.isIgnored w.mDir = false) (h : s.Clear w)
    (a : SubscribeAnswers) : (s.subscribe w a).2.Clear w := by
  have htree := clear_watchRoot hroot a s.table
  have hcomplete : ∀ {t : DirTree}, t.Clear w →
      (if a.cancelled then t else t.complete).Clear w := by
    intro t ht
    split <;> exact ht
  unfold subscribe
  split
  · exact ⟨h.tree, h.events, h.moves⟩
  next r heq =>
      rw [heq] at htree
      have hs : Clear w (s.adopt w.id r a.cancelled) := by
        refine ⟨?_, ?_, h.moves⟩
        · rw [watchers_adopt]
          exact hcomplete htree
        · rw [watchers_adopt]
          exact h.events
      dsimp only
      split
      · exact hs.removeSubscriptions w.mDir
      · exact hs

theorem clear_expire (h : s.Clear w) {b : (W × UInt32) × PendingInotifyMove} (hb : b.1.1 = w.id)
    (hm : b.2.Clear w) : (s.expire faults b).Clear w := by
  obtain ⟨⟨id, cookie⟩, m⟩ := b
  change id = w.id at hb
  subst hb
  refine (h.commit (r := ⟨_, _, _⟩) ⟨h.tree, ?_⟩).eraseMove _
  intro op hop
  obtain ⟨e, he, rfl⟩ := List.mem_map.mp hop
  exact clear_single rfl (hm.2 e (List.mem_of_mem_filter he))

/-- The moves that are still to expire tell nothing of ignored paths either. -/
theorem clear_foldl_expire : ∀ (l : List ((W × UInt32) × PendingInotifyMove)) {s : InotifyState W},
    s.Clear w → (∀ b ∈ l, b.1.1 = w.id → b.2.Clear w) → (l.foldl (expire faults) s).Clear w
  | [], _, h, _ => h
  | b :: l, s, h, hl => by
      apply clear_foldl_expire l (s := s.expire faults b)
      · by_cases hb : b.1.1 = w.id
        · exact clear_expire h hb (hl b List.mem_cons_self hb)
        · exact h.sameFor (sameFor_expire fun heq => hb heq.symm)
      · exact fun b' hb' => hl b' (List.mem_cons_of_mem _ hb')

theorem clear_flushExpiredMoves (h : s.Clear w) (now : Nat) :
    (s.flushExpiredMoves now faults).Clear w := by
  apply clear_foldl_expire _ h
  rintro ⟨⟨id, cookie⟩, m⟩ hb hid
  change id = w.id at hid
  subst hid
  exact h.moves cookie m (FiniteMap.mem_pairs.mp (List.mem_of_mem_filter hb))

theorem clear_drain (h : s.Clear w) : (s.drain w.id).Clear w := by
  refine ⟨?_, ?_, h.moves⟩
  · rw [watchers_drain]
    exact h.tree
  · rw [watchers_drain]
    exact EventList.keysIn_empty _

end InotifyState

/-! ## Runs -/

variable {ws : Watchers W} {b b' : InotifyBackend W}

/-- The ignored paths that a move of the watcher carries are dropped by a scan. -/
def IgnoredRescanned (ws : Watchers W) (id : W) (b : InotifyBackend W) :
    InotifyAction W → Prop
  | .handleSubscription event pointer answers =>
      ∀ sub path m, b.state.table.heap[pointer]? = some sub → sub.watcher = id →
        b.state.dispatch (ws.watcher id) event pointer sub = .handled path →
          event.has (IN_CREATE ||| IN_MOVED_TO) = true →
            b.state.pairedMove (ws.watcher id) event = some m →
              CarriedRescanned (ws.watcher id) m path answers
  | _ => True

open InotifyState in
theorem clear_step {id : W} (hroot : (ws.watcher id).isIgnored (ws.watcher id).mDir = false)
    (h : b.state.Clear (ws.watcher id)) {a : InotifyAction W} (hok : IgnoredRescanned ws id b a)
    (hs : b.step ws a = some b') : b'.state.Clear (ws.watcher id) := by
  have hlocked : ∀ {s : InotifyState W}, s.Clear (ws.watcher id) → b.locked s = some b' →
      b'.state.Clear (ws.watcher id) := by
    intro s hclear hlocked
    exact InotifyBackend.holds_of_locked (P := fun s => s.Clear (ws.watcher id)) hclear hlocked
  -- What is done for another watcher leaves this one alone.
  have hother : ∀ {s' : InotifyState W} (id' : W), (id' = id → s'.Clear (ws.watcher id)) →
      (id' ≠ id → SameFor (ws.watcher id).id b.state s') → s'.Clear (ws.watcher id) := by
    intro s' id' hown hframe
    by_cases hid : id' = id
    · exact hown hid
    · exact h.sameFor (hframe hid)
  have hne : ∀ {id' : W}, id' ≠ id → (ws.watcher id).id ≠ (ws.watcher id').id := by
    intro id' hid heq
    rw [ws.id_watcher, ws.id_watcher] at heq
    exact hid heq.symm
  cases a with
  | subscribe id' answers =>
      refine hlocked (hother id' ?_ fun hid => sameFor_subscribe (hne hid) answers) hs
      rintro rfl
      exact clear_subscribe hroot h answers
  | handleEvent event =>
      rw [InotifyBackend.state_of_handleEvent hs]
      exact h
  | handleSubscription event pointer answers =>
      obtain ⟨sub, hsub, hstate⟩ := InotifyBackend.of_step_handleSubscription hs
      rw [hstate]
      refine hother sub.watcher ?_ fun hid => sameFor_handleSubscription (hne hid)
      rintro rfl
      exact clear_handleSubscription h fun path m => hok sub path m hsub rfl
  | flushExpiredMoves now faults => exact hlocked (clear_flushExpiredMoves h now) hs
  | handleOverflow faults =>
      refine hlocked ?_ hs
      apply List.foldlRecOn (motive := fun s : InotifyState W => s.Clear (ws.watcher id)) _ _ h
      intro s hclear id' _
      by_cases hid : id' = id
      · subst hid
        exact ((hclear.invalidate.error _).removeSubscriptions _).dropMoves _
      · exact hclear.sameFor (sameFor_overflow (hne hid))
  | unsubscribe id' faults =>
      refine hlocked ?_ hs
      have hdropped := h.dropMoves id'
      exact ⟨hdropped.tree, hdropped.events, hdropped.moves⟩
  | drain id' =>
      cases hs
      refine hother id' ?_ fun hid => sameFor_drain ?_
      · rintro rfl
        have hdrained := clear_drain h
        rw [ws.id_watcher] at hdrained
        exact hdrained
      · rw [ws.id_watcher]
        exact hid.symm
  | dropInode inode =>
      cases hs
      exact ⟨h.tree, h.events, h.moves⟩

/-- **Ignored paths are not reported.** In a run in which a scan drops the ignored paths
that moves carry, no event of a batch is about an ignored path, whenever it is drained. -/
theorem ignored_not_reported {id : W} (hroot : (ws.watcher id).isIgnored (ws.watcher id).mDir = false)
    (h : (inotifyMachine ws).Reach (IgnoredRescanned ws id) b) :
    ∀ e ∈ (b.state.watchers id).mEvents.drain.1.events, (ws.watcher id).isIgnored e.path = false := by
  have hclear : b.state.Clear (ws.watcher id) := by
    refine h.invariant (fun b h0 => ?_) fun b a b' hi hok hs => clear_step hroot hi hok hs
    obtain rfl := h0
    refine ⟨DirTree.clear_new _, EventList.keysIn_empty _, fun cookie m hm => ?_⟩
    have hnone : none = some m := hm
    cases hnone
  have hevents := hclear.events
  rw [ws.id_watcher] at hevents
  exact fun e he => hevents.drain e he

/-! ## A move through a place where an entry is ignored -/

section Examples

/-- Below `/r` only `/r/b/x` is ignored, and what is below it. -/
def strictWatcher : InotifyWatcher Unit where
  id := ()
  mDir := [47, 114]
  isIgnored p := isPathOrDescendant p [47, 114, 47, 98, 47, 120]
  mIgnorePaths := [[47, 114, 47, 98, 47, 120]]
  mIgnoreGlobs := []
  ignores h := absurd h (List.cons_ne_nil _ _)
  strerror _ := ""

def strictWatchers : Watchers Unit := ⟨fun _ => strictWatcher, fun _ => rfl⟩

/-- The root with the directory `a` and the file `a/x`. -/
def subscribeStrict : InotifyAction Unit :=
  .subscribe () ⟨fun _ => .fails ENOENT, .resolves 1 1,
    listing [97] (.resolves 2 2) (.opened (.ok directoryStat)
      (.cons ⟨[120], false, some ⟨.regular, ⟨0, 0⟩⟩, false, .fails ENOENT, fun _ => none⟩
        (.opendirFails ENOENT) .nil)),
    false, fun _ => none⟩

def goneAnswers : EventAnswers := ⟨none, .fails ENOENT, .opendirFails ENOENT, fun _ => none, 0⟩

def movedToStrict : InotifyEvent := ⟨1, IN_MOVED_TO ||| IN_ISDIR, 7, some [98]⟩

/-- `a` is renamed to `b`, with what `lstat` and the scan find there. -/
def strictRun (answers : EventAnswers) : List (InotifyAction Unit) :=
  [subscribeStrict, .handleEvent movedFromA, .handleSubscription movedFromA 0 goneAnswers,
    .handleEvent movedToStrict, .handleSubscription movedToStrict 0 answers]

/-- The scan of `b` drops `b/x`. -/
theorem ignored_not_reported_rename :
    ∃ b : InotifyBackend Unit, (b.state.watchers ()).mEvents.drain.1.events ≠ [] ∧
      ∀ e ∈ (b.state.watchers ()).mEvents.drain.1.events, strictWatcher.isIgnored e.path = false := by
  have h₀ : (inotifyMachine strictWatchers).Reach (IgnoredRescanned strictWatchers ())
      ⟨.start strictWatchers, []⟩ := .init rfl
  have hadmits : Machine.Admits (IgnoredRescanned strictWatchers ())
      (InotifyBackend.step strictWatchers) ⟨.start strictWatchers, []⟩
      (strictRun (directoryAnswers (.fails ENOENT) emptyDirectory)) := by
    refine ⟨trivial, trivial, ?_, trivial, ?_, trivial⟩
    · intro sub path m _ _ _ hhas
      exact absurd hhas (by decide)
    · intro sub path m hsub _ hpath _ hm p hp
      refine ⟨rfl, Or.inl ?_⟩
      cases hm
      exact ⟨⟨[47, 114, 47, 97], 0, true⟩, by decide, rfl⟩
  have h := h₀.execute hadmits rfl
  exact ⟨_, by decide, ignored_not_reported rfl h⟩

def movedFromB : InotifyEvent := ⟨1, IN_MOVED_FROM ||| IN_ISDIR, 8, some [98]⟩

def movedToC : InotifyEvent := ⟨1, IN_MOVED_TO ||| IN_ISDIR, 8, some [99]⟩

/-- `b` is renamed to `c` before the first rename is handled. -/
theorem ignored_reported :
    strictWatcher.isIgnored strictWatcher.mDir = false ∧
      (∀ p q, strictWatcher.isIgnored p = true → Below slash p q →
        strictWatcher.isIgnored q = true) ∧
      ∃ b, (inotifyMachine strictWatchers).Reachable b ∧
        ∃ e ∈ (b.state.watchers ()).mEvents.drain.1.events,
          strictWatcher.isIgnored e.path = true := by
  have h₀ : (inotifyMachine strictWatchers).Reachable ⟨.start strictWatchers, []⟩ := .init rfl
  have h := h₀.execute (l := strictRun goneAnswers ++ [.handleEvent movedFromB,
    .handleSubscription movedFromB 0 goneAnswers, .handleEvent movedToC,
    .handleSubscription movedToC 0 (directoryAnswers (.fails ENOENT) emptyDirectory)]) rfl
  refine ⟨by decide, fun p q hp hq => ?_, _, h, by decide⟩
  have hunder : Under slash [47, 114, 47, 98, 47, 120] p := isPathOrDescendant_iff.mp hp
  exact isPathOrDescendant_iff.mpr (hunder.trans hq.under)

end Examples

end NativeWatcher
