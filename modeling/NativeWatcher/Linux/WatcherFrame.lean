import NativeWatcher.Linux.InotifyBackend

/-!
# What a step leaves alone

Watchers share the table of the subscriptions and nothing else. The tree, the event list
and the pending moves of a watcher change by the routines on that watcher only.
-/

namespace NativeWatcher

variable {W : Type} [DecidableEq W]

namespace InotifyState

/-- The state of a watcher and its pending moves are the same. -/
structure SameFor (id : W) (s s' : InotifyState W) : Prop where
  watcher : s'.watchers id = s.watchers id
  moves : ∀ cookie, s'.mPendingMoves.lookup (id, cookie) = s.mPendingMoves.lookup (id, cookie)

variable {s s' s'' : InotifyState W} {id : W} {w : InotifyWatcher W} {faults : RmFaults}

theorem SameFor.refl (s : InotifyState W) : SameFor id s s := ⟨rfl, fun _ => rfl⟩

theorem SameFor.trans (h : SameFor id s s') (h' : SameFor id s' s'') : SameFor id s s'' :=
  ⟨h'.watcher.trans h.watcher, fun cookie => (h'.moves cookie).trans (h.moves cookie)⟩

theorem sameFor_commit (hne : id ≠ w.id) (r : ScanState W) : SameFor id s (s.commit w.id r) :=
  ⟨Function.update_of_ne hne .., fun _ => rfl⟩

theorem sameFor_invalidate (hne : id ≠ w.id) : SameFor id s (s.invalidate w.id) :=
  ⟨Function.update_of_ne hne .., fun _ => rfl⟩

theorem sameFor_error (hne : id ≠ w.id) (err : String) : SameFor id s (s.error w.id err) :=
  ⟨Function.update_of_ne hne .., fun _ => rfl⟩

theorem sameFor_dropMoves (hne : id ≠ w.id) : SameFor id s (s.dropMoves w.id) := by
  refine ⟨rfl, fun cookie => ?_⟩
  show (s.mPendingMoves.filterKeys fun k => k.1 != w.id).lookup (id, cookie) = _
  rw [FiniteMap.lookup_filterKeys, if_pos (by simpa using hne)]

theorem sameFor_removeSubscriptions (path : Str) :
    SameFor id s (s.removeSubscriptions w faults path) := ⟨rfl, fun _ => rfl⟩

theorem sameFor_failBelow (hne : id ≠ w.id) (path : Str) (errno : Nat) :
    SameFor id s (s.failBelow w faults path errno) :=
  (((sameFor_invalidate hne).trans (sameFor_error hne _)).trans
    (sameFor_removeSubscriptions _)).trans (sameFor_dropMoves hne)

theorem sameFor_rootGone (hne : id ≠ w.id) : SameFor id s (s.rootGone w faults) :=
  (((sameFor_commit hne _).trans (sameFor_dropMoves hne)).trans
    (sameFor_invalidate hne)).trans (sameFor_removeSubscriptions _)

/-- A move that is found for a subscription is one of its watcher. -/
theorem capturing_fst {pointer : Nat} {key : W × UInt32}
    (h : s.capturing w pointer = some key) : key.1 = w.id := by
  obtain ⟨b, hb, rfl⟩ := Option.map_eq_some_iff.mp h
  have htest := List.find?_some hb
  simp only [Bool.and_eq_true, beq_iff_eq] at htest
  exact htest.1.1

theorem sameFor_suppress {key : W × UInt32} (hne : id ≠ key.1) : SameFor id s (s.suppress key) := by
  refine ⟨rfl, fun cookie => ?_⟩
  show (s.mPendingMoves.adjust key _).lookup (id, cookie) = _
  rw [FiniteMap.lookup_adjust, if_neg fun heq => hne (congrArg Prod.fst heq)]

theorem sameFor_eraseMove {cookie : UInt32} (hne : id ≠ w.id) :
    SameFor id s { s with mPendingMoves := s.mPendingMoves.erase (w.id, cookie) } := by
  refine ⟨rfl, fun cookie' => ?_⟩
  show (s.mPendingMoves.erase (w.id, cookie)).lookup (id, cookie') = _
  rw [FiniteMap.lookup_erase_eq, if_neg fun heq => hne (congrArg Prod.fst heq)]

theorem sameFor_handleFound (hne : id ≠ w.id) {path : Str} {answers : EventAnswers}
    {r : ScanState W} {found : FileStat → ScanState W → Option Nat × ScanState W} :
    SameFor id s (s.handleFound w path answers r found).2 := by
  unfold handleFound
  split
  · exact sameFor_commit hne _
  · split
    · exact sameFor_commit hne _
    · split
      · exact sameFor_commit hne _
      · exact (sameFor_commit hne _).trans (sameFor_failBelow hne _ _)

theorem sameFor_handleRemoved (hne : id ≠ w.id) {event : InotifyEvent} {path : Str}
    {answers : EventAnswers} : SameFor id s (s.handleRemoved w event path answers).2 := by
  unfold handleRemoved
  split
  · exact .refl s
  · dsimp only
    split
    · refine (sameFor_commit hne _).trans ⟨rfl, fun cookie => ?_⟩
      show (AList.insert (w.id, event.cookie) _ _).lookup (id, cookie) = _
      rw [FiniteMap.lookup_insert_eq, if_neg fun heq => hne (congrArg Prod.fst heq)]
    · dsimp only
      split
      · exact (sameFor_commit hne _).trans (sameFor_removeSubscriptions _)
      · exact sameFor_commit hne _

/-- A subscription in flight is held by a move, and a path that is handled is not ignored. -/
def Dispatched (s : InotifyState W) (w : InotifyWatcher W) (pointer : Nat) : Dispatch W → Prop
  | .skipped | .root => True
  | .suppressed key => s.capturing w pointer = some key
  | .handled path => w.isIgnored path = false

theorem dispatched_dispatch (s : InotifyState W) (w : InotifyWatcher W) (event : InotifyEvent)
    (pointer : Nat) (sub : InotifySubscription W) :
    s.Dispatched w pointer (s.dispatch w event pointer sub) := by
  unfold dispatch
  extract_lets root path
  split
  · trivial
  · split
    · trivial
    · split
      next key hkey => exact hkey
      next =>
          split
          · trivial
          next hclear => exact Bool.eq_false_iff.mpr hclear

theorem sameFor_handleSubscription (hne : id ≠ w.id) {event : InotifyEvent} {pointer : Nat}
    {sub : InotifySubscription W} {answers : EventAnswers} :
    SameFor id s (s.handleSubscription w event pointer sub answers).2 := by
  have hspec := s.dispatched_dispatch w event pointer sub
  unfold handleSubscription
  split
  · exact .refl s
  · exact sameFor_rootGone hne
  next key hkey =>
      rw [hkey] at hspec
      exact sameFor_suppress (capturing_fst hspec ▸ hne)
  next path _ =>
      unfold handlePath
      split
      · unfold handleCreated
        dsimp only
        split
        · exact sameFor_handleFound hne
        · exact (sameFor_eraseMove hne).trans (sameFor_handleFound hne)
      · split
        · unfold handleModified
          dsimp only
          split
          · exact .refl s
          · split
            · exact .refl s
            · exact sameFor_commit hne _
        · split
          · exact sameFor_handleRemoved hne
          · exact .refl s

/-! ## The routines of the backend -/

theorem sameFor_subscribe (hne : id ≠ w.id) (a : SubscribeAnswers) :
    SameFor id s (s.subscribe w a).2 := by
  unfold subscribe
  split
  · exact ⟨rfl, fun _ => rfl⟩
  · dsimp only
    split
    · exact ⟨Function.update_of_ne hne .., fun _ => rfl⟩
    · exact ⟨Function.update_of_ne hne .., fun _ => rfl⟩

theorem sameFor_expire {b : (W × UInt32) × PendingInotifyMove} (hne : id ≠ b.1.1) :
    SameFor id s (s.expire faults b) := by
  refine ⟨Function.update_of_ne hne .., fun cookie => ?_⟩
  show (s.mPendingMoves.erase b.1).lookup (id, cookie) = _
  rw [FiniteMap.lookup_erase_eq, if_neg fun heq => hne (congrArg Prod.fst heq)]

theorem sameFor_overflow (hne : id ≠ w.id) : SameFor id s (s.overflow faults w) :=
  (((sameFor_invalidate hne).trans (sameFor_error hne _)).trans
    (sameFor_removeSubscriptions _)).trans (sameFor_dropMoves hne)

theorem sameFor_unsubscribe {id' : W} (hne : id ≠ id') :
    SameFor id s (s.unsubscribe id' faults).2 := by
  refine ⟨rfl, fun cookie => ?_⟩
  show (s.mPendingMoves.filterKeys fun k => k.1 != id').lookup (id, cookie) = _
  rw [FiniteMap.lookup_filterKeys, if_pos (by simpa using hne)]

theorem sameFor_drain {id' : W} (hne : id ≠ id') : SameFor id s (s.drain id') :=
  ⟨Function.update_of_ne hne .., fun _ => rfl⟩

end InotifyState

end NativeWatcher
