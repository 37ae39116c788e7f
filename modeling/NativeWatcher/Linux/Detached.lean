import NativeWatcher.Linux.UniquePaths
import NativeWatcher.Linux.WatcherFrame

/-!
# A watcher that was invalidated

The three places that invalidate a watcher erase its subscriptions and its pending moves.
`handleEvent` goes on with its copy of the subscriptions of the descriptor, and the copy may
hold another subscription of the same watcher: two paths of one directory have one
descriptor. What is done for that one starts the watcher again, without a root.
-/

namespace NativeWatcher

variable {W : Type}

namespace SubscriptionTable

variable {t t' : SubscriptionTable W} {id : W} {faults : RmFaults}

/-- No entry belongs to the watcher. -/
def FreeOf (t : SubscriptionTable W) (id : W) : Prop :=
  ∀ e ∈ t.mSubscriptions, ∀ sub, t.heap[e.2]? = some sub → sub.watcher ≠ id

theorem FreeOf.mono (h : t.FreeOf id) (hheap : t'.heap = t.heap)
    (hsub : t'.mSubscriptions ⊆ t.mSubscriptions) : t'.FreeOf id := by
  intro e he sub hat
  rw [hheap] at hat
  exact h e (hsub he) sub hat

theorem FreeOf.emplace (h : t.FreeOf id) (wd : Nat) {sub : InotifySubscription W}
    (hne : sub.watcher ≠ id) : (t.emplace wd sub).FreeOf id := by
  intro e he sub' hat
  change (t.heap ++ [sub])[e.2]? = some sub' at hat
  rcases List.mem_append.mp he with he | he
  · rw [List.getElem?_append_left (t.allocated e he)] at hat
    exact h e he sub' hat
  · rw [List.mem_singleton.mp he, List.getElem?_concat_length] at hat
    cases hat
    exact hne

theorem FreeOf.move (h : t.FreeOf id) (subscriptions : List Nat) (oldPath newPath : Str) :
    (t.moveSubscriptions subscriptions oldPath newPath).FreeOf id := by
  intro e he sub hat
  rw [heap_moveSubscriptions] at hat
  obtain ⟨sub₀, hsub₀, rfl⟩ := Option.map_eq_some_iff.mp hat
  have hne := h e he sub₀ hsub₀
  split
  · exact hne
  · exact hne

variable [DecidableEq W]

/-- The routines on another watcher make no entry of this one. -/
theorem tableInvariant_freeOf {w : InotifyWatcher W} (hne : w.id ≠ id) :
    TableInvariant w fun t => t.FreeOf id where
  watchDir := by
    intro t t' faults path answer h ht
    cases answer with
    | fails => cases ht
    | resolves inode fresh =>
        cases ht
        unfold track
        extract_lets own alreadyTracked t₁
        have h₁ : t₁.FreeOf id := FreeOf.mono h rfl List.filter_sublist.subset
        split
        · exact h₁
        · exact h₁.emplace _ hne
  removeSubscriptions := fun _ _ h => FreeOf.mono h rfl List.filter_sublist.subset

theorem freeOf_removeSubscriptions (t : SubscriptionTable W) (faults : RmFaults) (id : W)
    (mDir : Str) : (t.removeSubscriptions faults id mDir mDir).FreeOf id :=
  fun _ he _ hat => watcher_of_mem_removeSubscriptions he hat

end SubscriptionTable

variable [DecidableEq W]

namespace InotifyState

variable {s s' : InotifyState W} {id : W} {w : InotifyWatcher W} {event : InotifyEvent}
  {path : Str} {answers : EventAnswers} {faults : RmFaults}

/-- Neither a subscription nor a pending move belongs to the watcher. -/
structure Detached (id : W) (s : InotifyState W) : Prop where
  subscriptions : s.table.FreeOf id
  moves : ∀ cookie, s.mPendingMoves.lookup (id, cookie) = none

theorem Detached.sameFor (h : s.Detached id) (hsame : SameFor id s s')
    (htable : s'.table.FreeOf id) : s'.Detached id :=
  ⟨htable, fun cookie => (hsame.moves cookie).trans (h.moves cookie)⟩

theorem lookup_dropMoves (s : InotifyState W) (id : W) (cookie : UInt32) :
    (s.dropMoves id).mPendingMoves.lookup (id, cookie) = none := by
  show (s.mPendingMoves.filterKeys fun k => k.1 != id).lookup (id, cookie) = none
  rw [FiniteMap.lookup_filterKeys, if_neg (by simp)]

/-! ## The three places that invalidate -/

theorem detached_rootGone : (s.rootGone w faults).Detached w.id :=
  ⟨SubscriptionTable.freeOf_removeSubscriptions _ _ _ _, fun cookie => lookup_dropMoves _ _ cookie⟩

theorem detached_failBelow (errno : Nat) : (s.failBelow w faults path errno).Detached w.id :=
  ⟨SubscriptionTable.freeOf_removeSubscriptions _ _ _ _, fun cookie => lookup_dropMoves _ _ cookie⟩

theorem detached_overflow : (s.overflow faults w).Detached w.id :=
  ⟨SubscriptionTable.freeOf_removeSubscriptions _ _ _ _, fun cookie => lookup_dropMoves _ _ cookie⟩

/-- The mark of the watcher has not changed, or nothing of the watcher is left. -/
def MarkedDetached (id : W) (s s' : InotifyState W) : Prop :=
  (s'.watchers id).invalidated = (s.watchers id).invalidated ∨ s'.Detached id

theorem MarkedDetached.of_sameFor (hsame : SameFor id s s') : MarkedDetached id s s' :=
  Or.inl (by rw [hsame.watcher])

theorem markedDetached_commit (r : ScanState W) : MarkedDetached w.id s (s.commit w.id r) :=
  Or.inl (by rw [watchers_commit])

theorem markedDetached_handleFound {r : ScanState W}
    {found : FileStat → ScanState W → Option Nat × ScanState W} :
    MarkedDetached w.id s (s.handleFound w path answers r found).2 := by
  unfold handleFound
  split
  · exact markedDetached_commit r
  · split
    · exact markedDetached_commit _
    · split
      · exact markedDetached_commit _
      · exact Or.inr (detached_failBelow _)

theorem markedDetached_handleRemoved :
    MarkedDetached w.id s (s.handleRemoved w event path answers).2 := by
  have hcommit : ∀ r : ScanState W,
      ((s.commit w.id r).watchers w.id).invalidated = (s.watchers w.id).invalidated := by
    intro r
    rw [watchers_commit]
  unfold handleRemoved
  split
  · exact Or.inl rfl
  · dsimp only
    split
    · exact Or.inl (hcommit _)
    · dsimp only
      split
      · exact Or.inl (hcommit _)
      · exact Or.inl (hcommit _)

theorem markedDetached_handleSubscription {pointer : Nat} {sub : InotifySubscription W} :
    MarkedDetached w.id s (s.handleSubscription w event pointer sub answers).2 := by
  unfold handleSubscription
  split
  · exact Or.inl rfl
  · exact Or.inr detached_rootGone
  · exact Or.inl rfl
  · unfold handlePath
    split
    · unfold handleCreated
      dsimp only
      split <;> exact markedDetached_handleFound
    · split
      · unfold handleModified
        dsimp only
        split
        · exact Or.inl rfl
        · split
          · exact Or.inl rfl
          · exact markedDetached_commit _
      · split
        · exact markedDetached_handleRemoved
        · exact Or.inl rfl

/-! ## The loops -/

theorem Detached.overflow (h : s.Detached id) : (s.overflow faults w).Detached id := by
  by_cases hid : w.id = id
  · subst hid
    exact detached_overflow
  · refine h.sameFor (sameFor_overflow (Ne.symm hid)) ?_
    exact h.subscriptions.mono rfl List.filter_sublist.subset

theorem markedDetached_handleOverflow (ws : Watchers W) :
    MarkedDetached id s (s.handleOverflow ws faults) := by
  apply List.foldlRecOn (motive := fun s' : InotifyState W => MarkedDetached id s s')
  · exact Or.inl rfl
  · rintro s' (hsame | hdetached) id' -
    · by_cases hid : (ws.watcher id').id = id
      · right
        rw [← hid]
        exact detached_overflow
      · left
        rw [(sameFor_overflow (Ne.symm hid)).watcher, hsame]
    · exact Or.inr hdetached.overflow

theorem watchers_spec {t : SubscriptionTable W} (h : t.FreeOf id) : id ∉ t.watchers := by
  intro hmem
  obtain ⟨e, he, hat⟩ := List.mem_filterMap.mp (List.mem_dedup.mp hmem)
  obtain ⟨sub, hsub, hid⟩ := Option.map_eq_some_iff.mp hat
  exact h e he sub hsub hid

/-- The overflow of the queue does not reach a watcher without subscriptions. -/
theorem detached_handleOverflow (ws : Watchers W) (h : s.Detached id) :
    (s.handleOverflow ws faults).Detached id ∧
      (s.handleOverflow ws faults).watchers id = s.watchers id := by
  have hnot := watchers_spec h.subscriptions
  apply List.foldlRecOn (motive := fun s' : InotifyState W =>
    s'.Detached id ∧ s'.watchers id = s.watchers id)
  · exact ⟨h, rfl⟩
  · rintro s' ⟨hdetached, hsame⟩ id' hid'
    have hne : id ≠ (ws.watcher id').id := by
      rw [ws.id_watcher]
      rintro rfl
      exact hnot hid'
    exact ⟨hdetached.overflow, (sameFor_overflow hne).watcher.trans hsame⟩

theorem Detached.expire (h : s.Detached id) {b : (W × UInt32) × PendingInotifyMove}
    (hne : id ≠ b.1.1) : (s.expire faults b).Detached id := by
  refine h.sameFor (sameFor_expire hne) ?_
  show (if b.2.isDirectory then _ else s.table).FreeOf id
  split
  · exact h.subscriptions.mono rfl List.filter_sublist.subset
  · exact h.subscriptions

/-- No expiry is one of the watcher. -/
theorem detached_flushExpiredMoves (h : s.Detached id) (now : Nat) :
    (s.flushExpiredMoves now faults).Detached id ∧
      (s.flushExpiredMoves now faults).watchers id = s.watchers id := by
  have hne : ∀ b ∈ s.mPendingMoves.pairs.filter fun b => expired now b.2, id ≠ b.1.1 := by
    rintro ⟨⟨id', cookie⟩, m⟩ hb rfl
    have hlookup := FiniteMap.mem_pairs.mp (List.mem_of_mem_filter hb)
    rw [h.moves cookie] at hlookup
    cases hlookup
  apply List.foldlRecOn (motive := fun s' : InotifyState W =>
    s'.Detached id ∧ s'.watchers id = s.watchers id)
  · exact ⟨h, rfl⟩
  · rintro s' ⟨hdetached, hsame⟩ b hb
    exact ⟨hdetached.expire (hne b hb), (sameFor_expire (hne b hb)).watcher.trans hsame⟩

theorem markedDetached_flushExpiredMoves (now : Nat) :
    MarkedDetached id s (s.flushExpiredMoves now faults) := by
  left
  apply List.foldlRecOn (motive := fun s' : InotifyState W =>
    (s'.watchers id).invalidated = (s.watchers id).invalidated)
  · rfl
  · intro s' hsame b _
    by_cases hid : id = b.1.1
    · subst hid
      have hcommit : ((s'.expire faults b).watchers b.1.1).invalidated =
          (s'.watchers b.1.1).invalidated := by
        unfold InotifyState.expire
        dsimp only
        rw [watchers_commit]
      rw [hcommit, hsame]
    · rw [(sameFor_expire hid).watcher, hsame]

theorem Detached.unsubscribe (h : s.Detached id) (id' : W) :
    (s.unsubscribe id' faults).2.Detached id := by
  refine ⟨h.subscriptions.mono rfl SubscriptionTable.sublist_unsubscribeLoop.subset, ?_⟩
  intro cookie
  show (s.mPendingMoves.filterKeys fun k => k.1 != id').lookup (id, cookie) = none
  rw [FiniteMap.lookup_filterKeys, h.moves]
  split <;> rfl

end InotifyState

/-! ## Runs -/

open InotifyState

/-- The action subscribes the watcher. -/
def InotifyAction.Subscribes (id : W) : InotifyAction W → Prop
  | .subscribe id' _ => id' = id
  | _ => False

/-- The consumer takes the events of the watcher. -/
def InotifyAction.Drains (id : W) : InotifyAction W → Prop
  | .drain id' => id' = id
  | _ => False

/-- What `handleEvent` finds in its copy of the subscriptions: the watcher of the
subscription has not been invalidated, unless nothing is done for it. -/
def CopyIsLive (ws : Watchers W) (b : InotifyBackend W) : InotifyAction W → Prop
  | .handleSubscription event pointer _ =>
      ∀ sub, b.state.table.heap[pointer]? = some sub →
        (b.state.watchers sub.watcher).invalidated = false ∨
          b.state.dispatch (ws.watcher sub.watcher) event pointer sub = .skipped
  | _ => True

/-- The states of the runs that meet the guard, from a step that invalidated the watcher to
its next `subscribe`. -/
inductive Invalidated (ws : Watchers W)
    (ok : InotifyBackend W → InotifyAction W → Prop) (id : W) : InotifyBackend W → Prop
  | start {b b' : InotifyBackend W} {a : InotifyAction W}
      (h : (inotifyMachine ws).Reach ok b) (hok : ok b a) (hs : b.step ws a = some b')
      (hsub : ¬ a.Subscribes id) (hbefore : (b.state.watchers id).invalidated = false)
      (hafter : (b'.state.watchers id).invalidated = true) : Invalidated ws ok id b'
  | step {b b' : InotifyBackend W} {a : InotifyAction W} (h : Invalidated ws ok id b)
      (hok : ok b a) (hs : b.step ws a = some b') (hsub : ¬ a.Subscribes id) :
      Invalidated ws ok id b'

variable {ws : Watchers W} {b b' : InotifyBackend W} {id : W} {a : InotifyAction W}

/-- A step that marks the watcher leaves nothing of it. -/
theorem markedDetached_step (hs : b.step ws a = some b') (hsub : ¬ a.Subscribes id) :
    MarkedDetached id b.state b'.state := by
  have hlocked : ∀ {s : InotifyState W}, MarkedDetached id b.state s → b.locked s = some b' →
      MarkedDetached id b.state b'.state := by
    intro s hmarked hlocked
    exact InotifyBackend.holds_of_locked (P := MarkedDetached id b.state) hmarked hlocked
  cases a with
  | subscribe id' answers =>
      refine hlocked (.of_sameFor (sameFor_subscribe ?_ answers)) hs
      rw [ws.id_watcher]
      exact fun heq => hsub heq.symm
  | handleEvent event =>
      rw [InotifyBackend.state_of_handleEvent hs]
      exact Or.inl rfl
  | handleSubscription event pointer answers =>
      obtain ⟨sub, -, hstate⟩ := InotifyBackend.of_step_handleSubscription hs
      rw [hstate]
      by_cases hid : (ws.watcher sub.watcher).id = id
      · subst hid
        exact markedDetached_handleSubscription
      · exact .of_sameFor (sameFor_handleSubscription (Ne.symm hid))
  | flushExpiredMoves now faults => exact hlocked (markedDetached_flushExpiredMoves now) hs
  | handleOverflow faults => exact hlocked (markedDetached_handleOverflow ws) hs
  | unsubscribe id' faults =>
      exact hlocked (s := (b.state.unsubscribe id' faults).2) (Or.inl rfl) hs
  | drain id' =>
      cases hs
      by_cases hid : id = id'
      · subst hid
        left
        show ((b.state.drain id).watchers id).invalidated = _
        rw [watchers_drain]
      · exact .of_sameFor (sameFor_drain hid)
  | dropInode inode =>
      cases hs
      exact Or.inl rfl

/-- What a step does to a watcher that is marked and detached: nothing but drain it. -/
theorem detached_step (h : b.state.Detached id)
    (hmark : (b.state.watchers id).invalidated = true) (hok : CopyIsLive ws b a)
    (hs : b.step ws a = some b') (hsub : ¬ a.Subscribes id) :
    b'.state.Detached id ∧ (b'.state.watchers id).invalidated = true ∧
      (¬ a.Drains id → b'.state.watchers id = b.state.watchers id) := by
  have hlocked : ∀ {s : InotifyState W},
      s.Detached id ∧ s.watchers id = b.state.watchers id → b.locked s = some b' →
      b'.state.Detached id ∧ b'.state.watchers id = b.state.watchers id := by
    intro s hspec hlocked
    exact InotifyBackend.holds_of_locked
      (P := fun s => s.Detached id ∧ s.watchers id = b.state.watchers id) hspec hlocked
  have hsame : b'.state.Detached id ∧ b'.state.watchers id = b.state.watchers id →
      b'.state.Detached id ∧ (b'.state.watchers id).invalidated = true ∧
        (¬ a.Drains id → b'.state.watchers id = b.state.watchers id) := by
    rintro ⟨hdetached, hwatcher⟩
    exact ⟨hdetached, by rw [hwatcher, hmark], fun _ => hwatcher⟩
  cases a with
  | subscribe id' answers =>
      have hne : (ws.watcher id').id ≠ id := by
        rw [ws.id_watcher]
        exact hsub
      refine hsame (hlocked ⟨h.sameFor (sameFor_subscribe hne.symm answers) ?_,
        (sameFor_subscribe hne.symm answers).watcher⟩ hs)
      exact (SubscriptionTable.tableInvariant_freeOf hne).subscribe h.subscriptions answers
  | handleEvent event =>
      apply hsame
      rw [InotifyBackend.state_of_handleEvent hs]
      exact ⟨h, rfl⟩
  | handleSubscription event pointer answers =>
      obtain ⟨sub, hat, hstate⟩ := InotifyBackend.of_step_handleSubscription hs
      apply hsame
      rw [hstate]
      -- A copied subscription is of another watcher, or its pointer is skipped.
      rcases hok sub hat with hlive | hskipped
      · have hne : (ws.watcher sub.watcher).id ≠ id := by
          rw [ws.id_watcher]
          rintro rfl
          rw [hmark] at hlive
          cases hlive
        have hframe : SameFor id b.state (b.state.handleSubscription
            (ws.watcher sub.watcher) event pointer sub answers).2 :=
          sameFor_handleSubscription hne.symm
        refine ⟨h.sameFor hframe ?_, hframe.watcher⟩
        exact (SubscriptionTable.tableInvariant_freeOf hne).handleSubscription
          (fun subscriptions oldPath newPath ht => ht.move subscriptions oldPath newPath)
          h.subscriptions event pointer sub answers
      · unfold InotifyState.handleSubscription
        rw [hskipped]
        exact ⟨h, rfl⟩
  | flushExpiredMoves now faults =>
      exact hsame (hlocked (detached_flushExpiredMoves h now) hs)
  | handleOverflow faults => exact hsame (hlocked (detached_handleOverflow ws h) hs)
  | unsubscribe id' faults => exact hsame (hlocked ⟨h.unsubscribe id', rfl⟩ hs)
  | drain id' =>
      cases hs
      refine ⟨⟨h.subscriptions, h.moves⟩, ?_, fun hdrains => ?_⟩
      · by_cases hid : id = id'
        · subst hid
          show ((b.state.drain id).watchers id).invalidated = true
          rw [watchers_drain]
          exact hmark
        · exact (congrArg WatcherState.invalidated (sameFor_drain hid).watcher).trans hmark
      · exact (sameFor_drain fun heq => hdrains heq.symm).watcher
  | dropInode inode =>
      cases hs
      exact hsame ⟨⟨h.subscriptions, h.moves⟩, rfl⟩

theorem Invalidated.detached (h : Invalidated ws (CopyIsLive ws) id b) :
    b.state.Detached id ∧ (b.state.watchers id).invalidated = true := by
  induction h with
  | start h hok hs hsub hbefore hafter =>
      rcases markedDetached_step hs hsub with hsame | hdetached
      · rw [hsame, hbefore] at hafter
        cases hafter
      · exact ⟨hdetached, hafter⟩
  | step h hok hs hsub ih =>
      obtain ⟨hdetached, hmark, -⟩ := detached_step ih.1 ih.2 hok hs hsub
      exact ⟨hdetached, hmark⟩

/-- **An invalidated watcher is detached.** In a run in which no copied subscription is one
of a watcher that was invalidated meanwhile, it has no subscription and no pending move
until it is subscribed again, and no step but a drain changes its events. -/
theorem invalidated_detached (h : Invalidated ws (CopyIsLive ws) id b) :
    (∀ e ∈ b.state.table.mSubscriptions, ∀ sub, b.state.table.heap[e.2]? = some sub →
      sub.watcher ≠ id) ∧
    (∀ cookie, b.state.mPendingMoves.lookup (id, cookie) = none) ∧
    ∀ a b', CopyIsLive ws b a → b.step ws a = some b' → ¬ a.Subscribes id → ¬ a.Drains id →
      (b'.state.watchers id).mEvents = (b.state.watchers id).mEvents := by
  obtain ⟨hdetached, hmark⟩ := h.detached
  refine ⟨hdetached.subscriptions, hdetached.moves, fun a b' hok hs hsub hdrains => ?_⟩
  rw [(detached_step hdetached hmark hok hs hsub).2.2 hdrains]

/-! ## A directory with two names -/

section Examples

/-- `/r` holds `a` and `b`, which are one directory. -/
def subscribeBound : InotifyAction Unit :=
  .subscribe () ⟨fun _ => .fails ENOENT, .resolves 1 1,
    .opened (.ok directoryStat)
      (.cons ⟨[97], false, some directoryStat, false, .resolves 2 2, fun _ => none⟩ emptyDirectory
        (.cons ⟨[98], false, some directoryStat, false, .resolves 2 3, fun _ => none⟩
          emptyDirectory .nil)), false, fun _ => none⟩

/-- `x` is created in the directory. -/
def createdX : InotifyEvent := ⟨2, IN_CREATE ||| IN_ISDIR, 0, some [120]⟩

/-- `ENOSPC`. -/
def noSpace : WatchAnswer := .fails 28

/-- The watches below `a` cannot be completed. -/
def failsBelowA : InotifyAction Unit :=
  .handleSubscription createdX 1 (directoryAnswers noSpace emptyDirectory)

/-- The watches below `b` can. -/
def watchesBelowB : InotifyAction Unit :=
  .handleSubscription createdX 2 (directoryAnswers (.resolves 4 4) emptyDirectory)

/-- After the failure below `a` nothing is left of the watcher. -/
theorem invalidated_detached_failed :
    ∃ b : InotifyBackend Unit, (b.state.watchers ()).invalidated = true ∧
      (∀ e ∈ b.state.table.mSubscriptions, ∀ sub, b.state.table.heap[e.2]? = some sub →
        sub.watcher ≠ ()) ∧
      (∀ cookie, b.state.mPendingMoves.lookup ((), cookie) = none) ∧
      ∀ a b', CopyIsLive plainWatchers b a → b.step plainWatchers a = some b' →
        ¬ a.Subscribes () → ¬ a.Drains () →
          (b'.state.watchers ()).mEvents = (b.state.watchers ()).mEvents := by
  have h₀ : (inotifyMachine plainWatchers).Reach (CopyIsLive plainWatchers)
      ⟨.start plainWatchers, []⟩ := .init rfl
  have h₁ := h₀.execute (l := [subscribeBound, .handleEvent createdX])
    ⟨trivial, trivial, trivial⟩ rfl
  have h₂ : Invalidated plainWatchers (CopyIsLive plainWatchers) () _ :=
    .start (a := failsBelowA) h₁ (fun _ _ => Or.inl rfl) rfl not_false rfl rfl
  exact ⟨_, rfl, invalidated_detached h₂⟩

/-- The failure below `a` is followed by the directory `b/x`: it is watched, and its
creation is an event. -/
theorem invalidated_watched_again :
    ∃ b, Invalidated plainWatchers (fun _ _ => True) () b ∧
      (∃ e ∈ b.state.table.mSubscriptions,
        b.state.table.heap[e.2]? = some ⟨[47, 114, 47, 98, 47, 120], ()⟩) ∧
      ⟨[47, 114, 47, 98, 47, 120], .Directory, true, false, none⟩ ∈
        (b.state.watchers ()).mEvents.drain.1.events := by
  have h₀ : (inotifyMachine plainWatchers).Reachable ⟨.start plainWatchers, []⟩ := .init rfl
  have h₁ := h₀.execute (l := [subscribeBound, .handleEvent createdX]) rfl
  have h₂ : Invalidated plainWatchers (fun _ _ => True) () _ :=
    .start (a := failsBelowA) h₁ trivial rfl not_false rfl rfl
  have h₃ := Invalidated.step (a := watchesBelowB) h₂ trivial rfl not_false
  exact ⟨_, h₃, ⟨(4, 3), by decide, by decide⟩, by decide⟩

end Examples

end NativeWatcher
