import NativeWatcher.Linux.ViewAgreement

/-!
# The tree of a subscription

A subscription keeps the tree that `subscribe` made for its watcher, and a pending move the
tree of its subscription. Here a watcher has one tree. From a `subscribe` that finds nothing
left of the watcher to the next one it is the same tree: every subscription of the watcher that
an event, a move or `handleEvent` can still reach was made since.
-/

namespace NativeWatcher

variable {W : Type}

namespace SubscriptionTable

variable {t t' : SubscriptionTable W} {id : W} {n p : Nat} {faults : RmFaults}

/-- The subscription is another watcher's, or was made when there were `n` of them. -/
def MadeSince (t : SubscriptionTable W) (id : W) (n p : Nat) : Prop :=
  n ≤ p ∨ ∃ sub, t.heap[p]? = some sub ∧ sub.watcher ≠ id

theorem MadeSince.le (h : t.MadeSince id n p) {sub : InotifySubscription W}
    (hsub : t.heap[p]? = some sub) (hid : sub.watcher = id) : n ≤ p := by
  rcases h with h | ⟨sub', hsub', hne⟩
  · exact h
  · rw [hsub] at hsub'
    cases hsub'
    exact absurd hid hne

/-- The table has come from the other one, whose subscriptions keep their watchers, and has
none of the watcher's that is older. -/
structure Since (id : W) (n : Nat) (t₀ t : SubscriptionTable W) : Prop where
  length : n ≤ t.heap.length
  keeps : ∀ p, t₀.MadeSince id n p → t.MadeSince id n p
  entries : ∀ e ∈ t.mSubscriptions, t.MadeSince id n e.2

theorem Since.refl (hlength : n ≤ t.heap.length)
    (hentries : ∀ e ∈ t.mSubscriptions, t.MadeSince id n e.2) : Since id n t t :=
  ⟨hlength, fun _ h => h, hentries⟩

variable {t₀ : SubscriptionTable W}

theorem Since.mono (h : Since id n t₀ t) (hheap : t'.heap = t.heap)
    (hsub : t'.mSubscriptions ⊆ t.mSubscriptions) : Since id n t₀ t' := by
  have hsame : ∀ p, t'.MadeSince id n p ↔ t.MadeSince id n p := by
    intro p
    rw [MadeSince, hheap]
    rfl
  refine ⟨hheap ▸ h.length, fun p hp => (hsame p).mpr (h.keeps p hp), fun e he => ?_⟩
  exact (hsame e.2).mpr (h.entries e (hsub he))

theorem Since.emplace (h : Since id n t₀ t) (wd : Nat) (sub : InotifySubscription W) :
    Since id n t₀ (t.emplace wd sub) := by
  have hold : ∀ p, t.MadeSince id n p → (t.emplace wd sub).MadeSince id n p := by
    rintro p (hp | ⟨sub', hsub', hne⟩)
    · exact Or.inl hp
    · refine Or.inr ⟨sub', ?_, hne⟩
      have hlt := (List.getElem?_eq_some_iff.mp hsub').1
      exact (List.getElem?_append_left hlt).trans hsub'
  refine ⟨?_, fun p hp => hold p (h.keeps p hp), fun e he => ?_⟩
  · show n ≤ (t.heap ++ [sub]).length
    rw [List.length_append]
    exact Nat.le_add_right_of_le h.length
  · rcases List.mem_append.mp he with he | he
    · exact hold e.2 (h.entries e he)
    · rw [List.mem_singleton.mp he]
      exact Or.inl h.length

theorem Since.move (h : Since id n t₀ t) (subscriptions : List Nat) (oldPath newPath : Str) :
    Since id n t₀ (t.moveSubscriptions subscriptions oldPath newPath) := by
  have hold : ∀ p, t.MadeSince id n p →
      (t.moveSubscriptions subscriptions oldPath newPath).MadeSince id n p := by
    rintro p (hp | ⟨sub, hsub, hne⟩)
    · exact Or.inl hp
    · right
      rw [heap_moveSubscriptions, hsub, Option.map_some]
      refine ⟨_, rfl, ?_⟩
      split <;> exact hne
  refine ⟨?_, fun p hp => hold p (h.keeps p hp), fun e he => hold e.2 (h.entries e he)⟩
  show n ≤ (t.heap.mapIdx _).length
  rw [List.length_mapIdx]
  exact h.length

variable [DecidableEq W]

theorem tableInvariant_since (w : InotifyWatcher W) (id : W) (n : Nat)
    (t₀ : SubscriptionTable W) : TableInvariant w (Since id n t₀) where
  watchDir := by
    intro t t' faults path answer h ht
    cases answer with
    | fails => cases ht
    | resolves inode fresh =>
        cases ht
        unfold track
        extract_lets own alreadyTracked t₁
        have h₁ : Since id n t₀ t₁ := h.mono rfl List.filter_sublist.subset
        split
        · exact h₁
        · exact h₁.emplace _ _
  removeSubscriptions := fun _ _ h => h.mono rfl List.filter_sublist.subset

end SubscriptionTable

variable [DecidableEq W]

/-! ## The pending moves -/

namespace InotifyState

variable {s s' s'' : InotifyState W} {id : W} {w : InotifyWatcher W} {event : InotifyEvent}
  {path : Str} {answers : EventAnswers} {faults : RmFaults}

/-- Every move was there before with the same subscriptions. -/
def MovesStay (s s' : InotifyState W) : Prop :=
  ∀ k m, s'.mPendingMoves.lookup k = some m →
    ∃ m₀, s.mPendingMoves.lookup k = some m₀ ∧ m.subscriptions = m₀.subscriptions

theorem MovesStay.refl (s : InotifyState W) : MovesStay s s := fun _ m hm => ⟨m, hm, rfl⟩

theorem MovesStay.trans (h : MovesStay s s') (h' : MovesStay s' s'') : MovesStay s s'' := by
  intro k m hm
  obtain ⟨m₁, hm₁, heq₁⟩ := h' k m hm
  obtain ⟨m₀, hm₀, heq₀⟩ := h k m₁ hm₁
  exact ⟨m₀, hm₀, heq₁.trans heq₀⟩

theorem movesStay_dropMoves (s : InotifyState W) (id : W) : MovesStay s (s.dropMoves id) := by
  intro k m hm
  refine ⟨m, ?_, rfl⟩
  change (s.mPendingMoves.filterKeys fun k => k.1 != id).lookup k = some m at hm
  rw [FiniteMap.lookup_filterKeys] at hm
  split at hm
  · exact hm
  · cases hm

theorem movesStay_erase (s : InotifyState W) (key : W × UInt32) :
    MovesStay s { s with mPendingMoves := s.mPendingMoves.erase key } :=
  fun _ m hm => ⟨m, UniqueInv.lookup_of_erase hm, rfl⟩

theorem movesStay_suppress (s : InotifyState W) (key : W × UInt32) :
    MovesStay s (s.suppress key) := by
  intro k m hm
  change (s.mPendingMoves.adjust key _).lookup k = some m at hm
  rw [FiniteMap.lookup_adjust] at hm
  split at hm
  next hk =>
      obtain ⟨m₀, hm₀, rfl⟩ := Option.map_eq_some_iff.mp hm
      exact ⟨m₀, hk ▸ hm₀, rfl⟩
  next => exact ⟨m, hm, rfl⟩

theorem movesStay_handleFound {r : ScanState W}
    {found : FileStat → ScanState W → Option Nat × ScanState W} :
    MovesStay s (s.handleFound w path answers r found).2 := by
  unfold handleFound
  split
  · exact .refl s
  · split
    · exact .refl s
    · split
      · exact .refl s
      · exact movesStay_dropMoves s w.id

/-- A move that was not there before holds subscriptions of its watcher. -/
theorem moves_handleSubscription {pointer : Nat} {sub : InotifySubscription W} {k : W × UInt32}
    {m : PendingInotifyMove}
    (hm : (s.handleSubscription w event pointer sub answers).2.mPendingMoves.lookup k = some m) :
    (∃ m₀, s.mPendingMoves.lookup k = some m₀ ∧ m.subscriptions = m₀.subscriptions) ∨
      k.1 = w.id ∧ ∀ p ∈ m.subscriptions, ∃ e ∈ s.table.mSubscriptions, e.2 = p ∧
        ∃ sub, s.table.heap[p]? = some sub ∧ sub.watcher = w.id := by
  unfold handleSubscription at hm
  split at hm
  · exact Or.inl ⟨m, hm, rfl⟩
  · exact Or.inl (movesStay_dropMoves s w.id k m hm)
  · exact Or.inl (movesStay_suppress s _ k m hm)
  · unfold handlePath at hm
    split at hm
    · left
      unfold handleCreated at hm
      dsimp only at hm
      split at hm
      · exact movesStay_handleFound k m hm
      · exact (movesStay_erase s _).trans movesStay_handleFound k m hm
    · split at hm
      · left
        unfold handleModified at hm
        dsimp only at hm
        split at hm
        · exact ⟨m, hm, rfl⟩
        · split at hm <;> exact ⟨m, hm, rfl⟩
      · split at hm
        · unfold handleRemoved at hm
          split at hm
          · exact Or.inl ⟨m, hm, rfl⟩
          · dsimp only at hm
            split at hm
            · change (AList.insert _ _ s.mPendingMoves).lookup k = some m at hm
              rw [FiniteMap.lookup_insert_eq] at hm
              split at hm
              next hk =>
                  cases hm
                  exact Or.inr ⟨congrArg Prod.fst hk, fun p hp => entry_of_mem_parkedMove hp⟩
              next => exact Or.inl ⟨m, hm, rfl⟩
            · dsimp only at hm
              split at hm <;> exact Or.inl ⟨m, hm, rfl⟩
        · exact Or.inl ⟨m, hm, rfl⟩

/-! ## The steps -/

/-- No entry of the watcher and no move of it is older than the position; the table has come
from the other one. -/
structure Since (id : W) (n : Nat) (t₀ : SubscriptionTable W) (s : InotifyState W) : Prop where
  table : SubscriptionTable.Since id n t₀ s.table
  moves : ∀ cookie m, s.mPendingMoves.lookup (id, cookie) = some m → ∀ p ∈ m.subscriptions, n ≤ p

variable {n : Nat} {t₀ : SubscriptionTable W}

theorem Since.movesStay (h : s.Since id n t₀) (htable : SubscriptionTable.Since id n t₀ s'.table)
    (hmoves : MovesStay s s') : s'.Since id n t₀ := by
  refine ⟨htable, fun cookie m hm p hp => ?_⟩
  obtain ⟨m₀, hm₀, heq⟩ := hmoves _ m hm
  exact h.moves cookie m₀ hm₀ p (heq ▸ hp)

theorem Since.subscribe (h : s.Since id n t₀) (w : InotifyWatcher W)
    (answers : SubscribeAnswers) : (s.subscribe w answers).2.Since id n t₀ := by
  apply h.movesStay ((SubscriptionTable.tableInvariant_since w id n t₀).subscribe h.table answers)
  unfold InotifyState.subscribe
  split
  · exact .refl s
  · dsimp only
    split <;> exact .refl s

theorem Since.handleSubscription (h : s.Since id n t₀) (w : InotifyWatcher W)
    (event : InotifyEvent) (pointer : Nat) (sub : InotifySubscription W)
    (answers : EventAnswers) :
    (s.handleSubscription w event pointer sub answers).2.Since id n t₀ := by
  constructor
  · exact (SubscriptionTable.tableInvariant_since w id n t₀).handleSubscription
      (fun subscriptions oldPath newPath ht => ht.move subscriptions oldPath newPath) h.table ..
  · intro cookie m hm p hp
    rcases moves_handleSubscription hm with ⟨m₀, hm₀, heq⟩ | ⟨hid, hentries⟩
    · exact h.moves cookie m₀ hm₀ p (heq ▸ hp)
    · obtain ⟨e, he, rfl, sub, hsub, hw⟩ := hentries p hp
      exact (h.table.entries e he).le hsub (hw.trans hid.symm)

theorem Since.flushExpiredMoves (h : s.Since id n t₀) (now : Nat) (faults : RmFaults) :
    (s.flushExpiredMoves now faults).Since id n t₀ := by
  refine List.foldlRecOn (motive := fun s : InotifyState W => s.Since id n t₀) _ _ h
    fun s hs b _ => hs.movesStay ?_ (movesStay_erase s b.1)
  show SubscriptionTable.Since id n t₀ (if b.2.isDirectory then _ else s.table)
  split
  · exact hs.table.mono rfl List.filter_sublist.subset
  · exact hs.table

theorem Since.handleOverflow (h : s.Since id n t₀) (ws : Watchers W) (faults : RmFaults) :
    (s.handleOverflow ws faults).Since id n t₀ :=
  List.foldlRecOn (motive := fun s : InotifyState W => s.Since id n t₀) _ _ h fun s hs id' _ =>
    hs.movesStay (hs.table.mono rfl List.filter_sublist.subset)
      (movesStay_dropMoves s (ws.watcher id').id)

theorem Since.unsubscribe (h : s.Since id n t₀) (id' : W) (faults : RmFaults) :
    (s.unsubscribe id' faults).2.Since id n t₀ :=
  h.movesStay (h.table.mono rfl SubscriptionTable.sublist_unsubscribeLoop.subset)
    (movesStay_dropMoves s id')

end InotifyState

/-- No subscription of the watcher that a step can reach is older than the position: none of
the table, of a pending move, or of the copy that `handleEvent` works on. -/
structure InotifyBackend.Since (id : W) (n : Nat) (b : InotifyBackend W) : Prop where
  state : b.state.Since id n b.state.table
  copied : ∀ x ∈ b.remaining, b.state.table.MadeSince id n x.2

namespace InotifyBackend

variable {ws : Watchers W} {b b' : InotifyBackend W} {id : W} {n : Nat} {a : InotifyAction W}

theorem Since.rebase (hstate : b'.state.Since id n b.state.table)
    (hcopied : ∀ x ∈ b'.remaining, b.state.table.MadeSince id n x.2) : b'.Since id n where
  state := ⟨.refl hstate.table.length hstate.table.entries, hstate.moves⟩
  copied x hx := hstate.table.keeps x.2 (hcopied x hx)

/-- Whatever happens, also to this watcher. -/
theorem Since.step (h : b.Since id n) (hs : b.step ws a = some b') : b'.Since id n := by
  have hlocked : ∀ {s : InotifyState W}, s.Since id n b.state.table → b.locked s = some b' →
      b'.Since id n := by
    intro s hstate hb
    unfold locked at hb
    split at hb
    · cases hb
      exact .rebase hstate h.copied
    · cases hb
  cases a with
  | subscribe id' answers => exact hlocked (h.state.subscribe _ answers) hs
  | handleEvent event =>
      simp only [InotifyBackend.step] at hs
      split at hs
      · cases hs
        refine ⟨h.state, fun x hx => ?_⟩
        obtain ⟨e, he, rfl⟩ := List.mem_map.mp hx
        exact h.state.table.entries e (List.mem_of_mem_filter he)
      · cases hs
  | handleSubscription event pointer answers =>
      simp only [InotifyBackend.step] at hs
      split at hs
      · obtain ⟨sub, hsub, rfl⟩ := Option.map_eq_some_iff.mp hs
        exact .rebase (h.state.handleSubscription _ event pointer sub answers)
          fun x hx => h.copied x (List.mem_of_mem_erase hx)
      · cases hs
  | flushExpiredMoves now faults => exact hlocked (h.state.flushExpiredMoves now faults) hs
  | handleOverflow faults => exact hlocked (h.state.handleOverflow ws faults) hs
  | unsubscribe id' faults => exact hlocked (h.state.unsubscribe id' faults) hs
  | drain id' =>
      cases hs
      exact ⟨⟨h.state.table, h.state.moves⟩, h.copied⟩
  | dropInode inode =>
      cases hs
      refine .rebase ⟨?_, h.state.moves⟩ h.copied
      exact h.state.table.mono rfl (List.Subset.refl _)

end InotifyBackend

namespace WatchedBackend

variable {ws : Watchers W} {id : W} {s : InotifyState W} {answers : SubscribeAnswers}
  {b : InotifyBackend W} {c₀ c : WatchedBackend W}

theorem Subscribes.since (h : Subscribes ws id s answers b) : b.Since id s.table.heap.length := by
  have hbefore : s.Since id s.table.heap.length s.table := by
    refine ⟨.refl (Nat.le_refl _) fun e he => ?_, fun cookie m hm => ?_⟩
    · obtain ⟨sub, hsub⟩ := SubscriptionTable.exists_sub he
      exact Or.inr ⟨sub, hsub, h.detached.subscriptions e he sub hsub⟩
    · rw [h.detached.moves cookie] at hm
      cases hm
  have hafter : b.state.Since id s.table.heap.length s.table := by
    have hsubscribed := hbefore.subscribe (ws.watcher id) answers
    rw [h.subscribed] at hsubscribed
    exact hsubscribed
  refine ⟨⟨.refl hafter.table.length hafter.table.entries, hafter.moves⟩, ?_⟩
  rw [h.locked]
  exact fun _ hx => absurd hx List.not_mem_nil

/-- From a subscription on, every subscription of the watcher that a step can reach has been
made since, so the tree it keeps is the one that this `subscribe` made. -/
theorem since_of_reach (hstart : Subscribes ws id s answers c₀.backend)
    (h : (Machine.ofStep c₀ (step ws id)).Reachable c) :
    c.backend.Since id s.table.heap.length := by
  apply Machine.Reachable.invariant _ _ h
  · rintro c rfl
    exact hstart.since
  · intro c a c' hc hs
    change step ws id c a = some c' at hs
    unfold step at hs
    split at hs
    · cases hs
    · obtain ⟨b, hb, rfl⟩ := Option.map_eq_some_iff.mp hs
      exact hc.step hb

end WatchedBackend

end NativeWatcher
