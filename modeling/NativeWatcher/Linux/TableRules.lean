import NativeWatcher.Linux.InotifyBackend
import NativeWatcher.Linux.ScanSteps

/-!
# What the routines do to the table

Below `handleSubscription` the table of the subscriptions changes by `watchDir` and by
`removeSubscriptions` only. A property that these two keep is kept by the scans and by
the branches that end in one; the carrying of a move's subscriptions stands apart.
-/

namespace NativeWatcher

open Hierarchy

variable {W : Type} [DecidableEq W]

/-- The property is kept by the two operations that the routines on a watcher use. -/
structure TableInvariant (w : InotifyWatcher W) (P : SubscriptionTable W → Prop) : Prop where
  watchDir : ∀ {t t' : SubscriptionTable W} {faults : RmFaults} {path : Str} {answer : WatchAnswer},
    P t → t.watchDir faults w.id w.mDir path answer = .ok t' → P t'
  removeSubscriptions : ∀ {t : SubscriptionTable W} (faults : RmFaults) (path : Str), P t →
    P (t.removeSubscriptions faults w.id w.mDir path)

namespace TableInvariant

variable {w : InotifyWatcher W} {P : SubscriptionTable W → Prop} {s : ScanState W}
  {faults : RmFaults} {answers : EventAnswers} {path : Str}

/-! ## The scans -/

theorem step (hP : TableInvariant w P) {reportEvents : Bool} {base : Str} {s s' : ScanState W}
    (hs : ScanStep w reportEvents base s s') (h : P s.table) : P s'.table := by
  cases hs with
  | watchDir faults path answer hwatch => exact hP.watchDir h hwatch
  | removeSubscriptions faults path => exact hP.removeSubscriptions faults path h
  | directory => exact h
  | item => exact h
  | remove => exact h

theorem addCreatedTree (hP : TableInvariant w P) (h : P s.table) (reportEvents : Bool)
    (scan : DirScan) (path : Str) : P (addCreatedTree w reportEvents path scan s).2.table :=
  (ScanSteps.addCreatedTree scan (Under.refl path) (Or.inl rfl) s).invariant
    (P := fun s : ScanState W => P s.table) hP.step h

theorem watchThen (hP : TableInvariant w P) {answer : WatchAnswer}
    {scan : ScanState W → Option Nat × ScanState W} {r : Option Nat × ScanState W}
    (hr : watchThen w faults answer path scan s = r) (h : P s.table)
    (hscan : ∀ {s : ScanState W}, P s.table → P (scan s).2.table) : P r.2.table := by
  subst hr
  unfold NativeWatcher.watchThen
  split
  · exact h
  next hwatch => exact hscan (hP.watchDir h hwatch)

theorem current (hP : TableInvariant w P) {c : Comparison W} (h : P c.table) (e : DirEntry) :
    P (c.current w faults e).table := by
  unfold Comparison.current
  split
  · exact h
  · dsimp only
    split
    · show P (if _ then _ else _)
      split
      · exact hP.removeSubscriptions faults _ h
      · exact h
    · split <;> exact h

theorem vanished (hP : TableInvariant w P) {c : Comparison W} (h : P c.table) (e : DirEntry) :
    P (c.vanished w faults e).table := by
  unfold Comparison.vanished
  dsimp only
  split
  · exact hP.removeSubscriptions faults _ h
  · exact h

theorem compareMovedTree (hP : TableInvariant w P) (h : P s.table) (previous : List DirEntry) :
    P (compareMovedTree w faults path previous s).table := by
  unfold NativeWatcher.compareMovedTree
  dsimp only
  apply List.foldlRecOn (motive := fun c : Comparison W => P c.table)
  · exact List.foldlRecOn (motive := fun c : Comparison W => P c.table) _ _ h
      fun c hc e _ => hP.current hc e
  · exact fun c hc e _ => hP.vanished hc e

theorem reconcileMovedTree (hP : TableInvariant w P) (h : P s.table) (scan : DirScan) :
    P (reconcileMovedTree w faults path scan s).2.table := by
  have hscan := hP.addCreatedTree (s := { s with tree := (s.tree.extract path).2 }) h false scan path
  unfold NativeWatcher.reconcileMovedTree
  dsimp only
  split
  next heq =>
      rw [heq] at hscan
      exact hscan
  next heq =>
      rw [heq] at hscan
      exact hP.compareMovedTree hscan _

/-! ## The branches -/

theorem dropSpecial (hP : TableInvariant w P) (h : P s.table) :
    P (dropSpecial w faults path s).2.table := by
  refine List.foldlRecOn (motive := fun s : ScanState W => P s.table) _ _ h fun s hs e _ => ?_
  dsimp only
  split
  · exact hP.removeSubscriptions faults _ hs
  · exact hs

theorem appear (hP : TableInvariant w P) (h : P s.table) (st : FileStat) :
    P (appear w path answers st s).2.table := by
  unfold NativeWatcher.appear
  dsimp only
  split
  · split
    next errno s₁ heq =>
        have hwatch := hP.watchThen heq h fun hs => hP.addCreatedTree hs true answers.scan path
        exact hwatch
    next s₁ heq =>
        have hwatch := hP.watchThen heq h fun hs => hP.addCreatedTree hs true answers.scan path
        exact hwatch
  · exact h

theorem settleDirectory (hP : TableInvariant w P) (h : P s.table)
    (suppressedEvents missingSource : Bool) :
    P (settleDirectory w path suppressedEvents missingSource answers s).2.table := by
  unfold NativeWatcher.settleDirectory
  extract_lets rescanMovedTree rescan
  have hrescan : ∀ {s : ScanState W}, P s.table → P (rescan s).2.table := by
    intro s hs
    show P (if _ then _ else _ : Option Nat × ScanState W).2.table
    split
    · exact hP.reconcileMovedTree hs answers.scan
    · exact hs
  split
  · exact hP.watchThen rfl h hrescan
  · exact hrescan h

theorem settle (hP : TableInvariant w P) (h : P s.table) (cookie : UInt32)
    (m : PendingInotifyMove) (st : FileStat) :
    P (settle w cookie path m answers st s).2.table := by
  unfold NativeWatcher.settle
  extract_lets s₁ missingSource s₂
  have h₂ : P s₂.table := by
    show P (if m.entries.isEmpty then arriveUnindexed cookie m.path path st s else s).table
    split <;> exact h
  split
  · exact hP.settleDirectory h₂ _ _
  · exact h₂

/-! ## The routines of the backend -/

theorem watchAncestors (hP : TableInvariant w P) {a : SubscribeAnswers} :
    ∀ (l : List Str) {t : SubscriptionTable W}, P t → P (watchAncestors w a l t).2
  | [], _, h => h
  | ancestor :: rest, t, h => by
      unfold NativeWatcher.watchAncestors
      split
      · exact h
      next hwatch => exact hP.watchAncestors rest (hP.watchDir h hwatch)

theorem watchRoot (hP : TableInvariant w P) {t : SubscriptionTable W} {a : SubscribeAnswers}
    (h : P t) : P (watchRoot w a t).2.table := by
  have hancestors := hP.watchAncestors (a := a) (ancestors w.mDir) h
  unfold NativeWatcher.watchRoot
  split
  next heq =>
      rw [heq] at hancestors
      exact hancestors
  next table heq =>
      rw [heq] at hancestors
      dsimp only
      split
      · exact hancestors
      next hwatch =>
          exact hP.addCreatedTree (s := ⟨_, _, []⟩) (hP.watchDir hancestors hwatch) _ _ _

theorem subscribe (hP : TableInvariant w P) {s : InotifyState W} (h : P s.table)
    (a : SubscribeAnswers) : P (s.subscribe w a).2.table := by
  have hroot := hP.watchRoot (a := a) h
  unfold InotifyState.subscribe
  split
  next heq =>
      rw [heq] at hroot
      exact hP.removeSubscriptions a.faults w.mDir hroot
  next heq =>
      rw [heq] at hroot
      dsimp only
      split
      · exact hP.removeSubscriptions a.faults w.mDir hroot
      · exact hroot

theorem handleFound (hP : TableInvariant w P) {s : InotifyState W} {r : ScanState W}
    {found : FileStat → ScanState W → Option Nat × ScanState W} (h : P r.table)
    (hfound : ∀ st, P (found st r).2.table) :
    P (s.handleFound w path answers r found).2.table := by
  unfold InotifyState.handleFound
  split
  · exact h
  next st _ =>
      split
      · exact hP.dropSpecial h
      · have hst := hfound st
        split
        next heq =>
            rw [heq] at hst
            exact hst
        next heq =>
            rw [heq] at hst
            exact hP.removeSubscriptions answers.faults w.mDir hst

/-- A property that the arrival of a move keeps as well is kept by the function. -/
theorem handleSubscription (hP : TableInvariant w P)
    (hmove : ∀ {t : SubscriptionTable W} (subscriptions : List Nat) (oldPath newPath : Str),
      P t → P (t.moveSubscriptions subscriptions oldPath newPath))
    {s : InotifyState W} (h : P s.table) (event : InotifyEvent) (pointer : Nat)
    (sub : InotifySubscription W) (answers : EventAnswers) :
    P (s.handleSubscription w event pointer sub answers).2.table := by
  unfold InotifyState.handleSubscription
  split
  · exact h
  · exact hP.removeSubscriptions answers.faults w.mDir h
  · exact h
  next path _ =>
      unfold InotifyState.handlePath
      split
      · unfold InotifyState.handleCreated
        dsimp only
        split
        · exact hP.handleFound h fun st => hP.appear (s := s.scanState w.id) h st
        next m _ =>
            have hcarried := hmove m.subscriptions m.path path h
            exact hP.handleFound hcarried fun st =>
              hP.settle (s := carryMove w event.cookie path m (s.scanState w.id)) hcarried _ m st
      · split
        · unfold InotifyState.handleModified
          dsimp only
          split
          · exact h
          · split <;> exact h
        · split
          · unfold InotifyState.handleRemoved
            split
            · exact h
            · dsimp only
              split
              · exact h
              · dsimp only
                split
                · exact hP.removeSubscriptions answers.faults path h
                · exact h
          · exact h

end TableInvariant

end NativeWatcher
