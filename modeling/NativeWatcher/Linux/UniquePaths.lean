import NativeWatcher.Linux.InotifyBackend
import NativeWatcher.Linux.TableRules

/-!
# One subscription for a path

`watchDir` looks for a subscription of the same watcher and path before it makes one.
`moveSubscriptions` does not: the subscriptions of a completed move take the paths that
the event says, whatever the table has there. Outside pending moves a path has one
subscription as long as every subscription that a move sets free finds a path of its own.
-/

namespace NativeWatcher

open Hierarchy

variable {W : Type}

namespace SubscriptionTable

variable {t t' : SubscriptionTable W} {held held' : Nat → Prop} {faults : RmFaults}

/-- Different subscriptions, for different paths or different watchers unless a move
holds one of them. -/
def Apart (t : SubscriptionTable W) (held : Nat → Prop) (e e' : Nat × Nat) : Prop :=
  e.2 ≠ e'.2 ∧ (¬ held e.2 → ¬ held e'.2 → t.heap[e.2]? ≠ t.heap[e'.2]?)

/-- No two entries are for the same path of the same watcher, outside of moves. -/
def Tidy (t : SubscriptionTable W) (held : Nat → Prop) : Prop :=
  t.mSubscriptions.Pairwise (t.Apart held)

theorem Tidy.erase (h : t.Tidy held) (test : Nat × Nat → Bool) :
    (t.eraseSubscriptions faults test).Tidy held :=
  List.Pairwise.sublist List.filter_sublist h

theorem Tidy.emplace (h : t.Tidy held) (wd : Nat) {sub : InotifySubscription W}
    (hnew : ∀ e ∈ t.mSubscriptions, t.heap[e.2]? ≠ some sub) : (t.emplace wd sub).Tidy held := by
  have hold : ∀ e ∈ t.mSubscriptions, (t.heap ++ [sub])[e.2]? = t.heap[e.2]? :=
    fun e he => List.getElem?_append_left (t.allocated e he)
  apply List.pairwise_append.mpr
  refine ⟨?_, List.pairwise_singleton _ _, ?_⟩
  · apply List.Pairwise.imp_of_mem ?_ h
    intro e e' he he' hapart
    refine ⟨hapart.1, fun hheld hheld' => ?_⟩
    show (t.heap ++ [sub])[e.2]? ≠ (t.heap ++ [sub])[e'.2]?
    rw [hold e he, hold e' he']
    exact hapart.2 hheld hheld'
  · intro e he e' he'
    rw [List.mem_singleton.mp he']
    refine ⟨Nat.ne_of_lt (t.allocated e he), fun _ _ => ?_⟩
    show (t.heap ++ [sub])[e.2]? ≠ (t.heap ++ [sub])[t.heap.length]?
    rw [hold e he, List.getElem?_concat_length]
    exact hnew e he

/-- A move may let go of what is not in the table. -/
theorem Tidy.mono (h : t.Tidy held) (hmono : ∀ e ∈ t.mSubscriptions, held e.2 → held' e.2) :
    t.Tidy held' := by
  apply List.Pairwise.imp_of_mem ?_ h
  intro e e' he he' hapart
  refine ⟨hapart.1, fun hfree hfree' => ?_⟩
  exact hapart.2 (fun hh => hfree (hmono e he hh)) (fun hh => hfree' (hmono e' he' hh))

/-- The table has the subscription `sub` behind `p`, and `held` does not hold it. -/
structure Free (t : SubscriptionTable W) (held : Nat → Prop) (p : Nat)
    (sub : InotifySubscription W) : Prop where
  tracked : ∃ e ∈ t.mSubscriptions, e.2 = p
  free : ¬ held p
  at_heap : t.heap[p]? = some sub

/-- The subscriptions `freed`, once they are at `place`, have paths of their own among
those that `held` leaves free. -/
structure RoomFor (t : SubscriptionTable W) (held : Nat → Prop) (freed : List Nat)
    (place : Str → Str) : Prop where
  vacant : ∀ p ∈ freed, ∀ q ∉ freed, ∀ sub sub', t.Free held p sub → t.Free held q sub' →
    sub.watcher = sub'.watcher → place sub.path ≠ sub'.path
  apart : ∀ p ∈ freed, ∀ q ∈ freed, ∀ sub sub', t.Free held p sub → t.Free held q sub' →
    p ≠ q → sub.watcher = sub'.watcher → sub.path ≠ sub'.path

theorem exists_sub {e : Nat × Nat} (he : e ∈ t.mSubscriptions) :
    ∃ sub, t.heap[e.2]? = some sub :=
  ⟨_, List.getElem?_eq_getElem (t.allocated e he)⟩

theorem heap_moveSubscriptions (t : SubscriptionTable W) (subscriptions : List Nat)
    (oldPath newPath : Str) (p : Nat) :
    (t.moveSubscriptions subscriptions oldPath newPath).heap[p]? = t.heap[p]?.map fun sub =>
      if p ∈ subscriptions then { sub with path := relocate oldPath newPath sub.path } else sub := by
  show (t.heap.mapIdx _)[p]? = _
  rw [List.getElem?_mapIdx]
  rfl

/-- A move carries its subscriptions to another path and lets go of them. -/
theorem Tidy.move (h : t.Tidy held) {freed : List Nat} {oldPath newPath : Str}
    (hroom : t.RoomFor held' freed (relocate oldPath newPath))
    (hbelow : ∀ p ∈ freed, ∀ sub, t.Free held' p sub → Under slash oldPath sub.path)
    (hheld : ∀ p, held p → held' p ∨ p ∈ freed) :
    (t.moveSubscriptions freed oldPath newPath).Tidy held' := by
  apply List.Pairwise.imp_of_mem ?_ h
  intro e e' he he' hapart
  refine ⟨hapart.1, fun hfree hfree' heq => ?_⟩
  obtain ⟨sub, hsub⟩ := exists_sub he
  obtain ⟨sub', hsub'⟩ := exists_sub he'
  have hf : t.Free held' e.2 sub := ⟨⟨e, he, rfl⟩, hfree, hsub⟩
  have hf' : t.Free held' e'.2 sub' := ⟨⟨e', he', rfl⟩, hfree', hsub'⟩
  rw [heap_moveSubscriptions, heap_moveSubscriptions, hsub, hsub'] at heq
  have heq := Option.some.inj heq
  dsimp only at heq
  by_cases hmem : e.2 ∈ freed <;> by_cases hmem' : e'.2 ∈ freed
  · rw [if_pos hmem, if_pos hmem', InotifySubscription.mk.injEq] at heq
    apply hroom.apart _ hmem _ hmem' sub sub' hf hf' hapart.1 heq.2
    exact relocate_inj (hbelow _ hmem sub hf) (hbelow _ hmem' sub' hf') heq.1
  · rw [if_pos hmem, if_neg hmem'] at heq
    have hwatcher := congrArg InotifySubscription.watcher heq
    have hpath := congrArg InotifySubscription.path heq
    exact hroom.vacant _ hmem _ hmem' sub sub' hf hf' hwatcher hpath
  · rw [if_neg hmem, if_pos hmem'] at heq
    have hwatcher := congrArg InotifySubscription.watcher heq.symm
    have hpath := congrArg InotifySubscription.path heq.symm
    exact hroom.vacant _ hmem' _ hmem sub' sub hf' hf hwatcher hpath
  · rw [if_neg hmem, if_neg hmem'] at heq
    apply hapart.2
    · exact fun hh => (hheld _ hh).elim hfree hmem
    · exact fun hh => (hheld _ hh).elim hfree' hmem'
    · rw [hsub, hsub', heq]

/-- A move lets go of its subscriptions where they are. -/
theorem Tidy.free (h : t.Tidy held) {freed : List Nat} (hroom : t.RoomFor held' freed id)
    (hheld : ∀ p, held p → held' p ∨ p ∈ freed) : t.Tidy held' := by
  apply List.Pairwise.imp_of_mem ?_ h
  intro e e' he he' hapart
  refine ⟨hapart.1, fun hfree hfree' heq => ?_⟩
  obtain ⟨sub, hsub⟩ := exists_sub he
  have hf : t.Free held' e.2 sub := ⟨⟨e, he, rfl⟩, hfree, hsub⟩
  have hf' : t.Free held' e'.2 sub := ⟨⟨e', he', rfl⟩, hfree', heq ▸ hsub⟩
  by_cases hmem : e.2 ∈ freed <;> by_cases hmem' : e'.2 ∈ freed
  · exact hroom.apart _ hmem _ hmem' sub sub hf hf' hapart.1 rfl rfl
  · exact hroom.vacant _ hmem _ hmem' sub sub hf hf' rfl rfl
  · exact hroom.vacant _ hmem' _ hmem sub sub hf' hf rfl rfl
  · exact hapart.2 (fun hh => (hheld _ hh).elim hfree hmem)
      (fun hh => (hheld _ hh).elim hfree' hmem') heq

variable [DecidableEq W]

theorem Tidy.watchDir {w : W} {mDir path : Str} {answer : WatchAnswer} (h : t.Tidy held)
    (ht : t.watchDir faults w mDir path answer = .ok t') : t'.Tidy held := by
  cases answer with
  | fails => cases ht
  | resolves inode fresh =>
      cases ht
      unfold track
      extract_lets own alreadyTracked t₁
      have h₁ : t₁.Tidy held := List.Pairwise.sublist List.filter_sublist h
      split
      · exact h₁
      next htracked =>
          apply h₁.emplace
          intro e he heq
          obtain ⟨hmem, htest⟩ := List.mem_filter.mp he
          have hown : own e = true := by
            show Option.any _ (t.heap[e.2]?) = true
            rw [show t.heap[e.2]? = _ from heq]
            simp
          refine htracked (List.any_eq_true.mpr ⟨e, hmem, ?_⟩)
          simpa [hown] using htest

/-- The entries of a watcher all go. -/
theorem watcher_of_mem_removeSubscriptions {w : W} {mDir : Str} {e : Nat × Nat}
    (he : e ∈ (t.removeSubscriptions faults w mDir mDir).mSubscriptions)
    {sub : InotifySubscription W} (hsub : t.heap[e.2]? = some sub) : sub.watcher ≠ w := by
  rintro rfl
  have htest := (List.mem_filter.mp he).2
  simp [subscriptionAt, hsub] at htest

/-! `unsubscribe` -/

omit [DecidableEq W] in
theorem sublist_unsubscribeLoop {own : Nat × Nat → Bool} {before rest : List (Nat × Nat)}
    {k : InotifyKernel} : (unsubscribeLoop faults own before rest k).2.1.Sublist (before ++ rest) := by
  have hmid : ∀ {l : List (Nat × Nat)} {before rest : List (Nat × Nat)} (e : Nat × Nat),
      l.Sublist (before ++ rest) → l.Sublist (before ++ e :: rest) := fun e h =>
    h.trans ((List.sublist_cons_self e _).append_left _)
  fun_induction unsubscribeLoop faults own before rest k with
  | case1 => rw [List.append_nil]
  | case2 _ _ _ _ _ _ _ _ ih => exact hmid _ ih
  | case3 => exact List.Sublist.refl _
  | case4 _ _ _ _ _ _ _ _ _ _ ih => exact hmid _ ih
  | case5 _ _ _ _ _ _ ih => exact hmid _ ih
  | case6 _ _ _ _ _ ih =>
      rw [List.append_assoc] at ih
      exact ih

/-- The kernel refuses no removal of a descriptor it has. -/
def RemovesWatches (faults : RmFaults) : Prop := ∀ wd, faults wd = none ∨ faults wd = some EINVAL

omit [DecidableEq W] in
theorem not_own_of_unsubscribeLoop (hok : RemovesWatches faults) {own : Nat × Nat → Bool}
    {before rest : List (Nat × Nat)} {k : InotifyKernel} (hbefore : ∀ e ∈ before, own e = false) :
    ∀ e ∈ (unsubscribeLoop faults own before rest k).2.1, own e = false := by
  fun_induction unsubscribeLoop faults own before rest k with
  | case1 => exact hbefore
  | case2 _ _ _ _ _ _ _ _ ih => exact ih hbefore
  | case3 before e rest k hown hone errno k' hrm herr =>
      have hval : errno = EINVAL := by
        unfold InotifyKernel.rmWatch at hrm
        rcases hok e.1 with h | h <;> rw [h] at hrm
        · dsimp only at hrm
          split at hrm <;> cases hrm
          rfl
        · cases hrm
          rfl
      rw [hval] at herr
      exact absurd rfl (bne_iff_ne.mp herr)
  | case4 _ _ _ _ _ _ _ _ _ _ ih => exact ih hbefore
  | case5 _ _ _ _ _ _ ih => exact ih hbefore
  | case6 before e rest k hown ih =>
      apply ih
      intro e' he'
      rcases List.mem_append.mp he' with he' | he'
      · exact hbefore e' he'
      · rw [List.mem_singleton.mp he']
        exact Bool.eq_false_iff.mpr hown

theorem Tidy.unsubscribe (h : t.Tidy held) (w : W) : (t.unsubscribe faults w).2.Tidy held :=
  List.Pairwise.sublist sublist_unsubscribeLoop h

theorem watcher_of_mem_unsubscribe (hok : RemovesWatches faults) {w : W} {e : Nat × Nat}
    (he : e ∈ (t.unsubscribe faults w).2.mSubscriptions) {sub : InotifySubscription W}
    (hsub : t.heap[e.2]? = some sub) : sub.watcher ≠ w := by
  rintro rfl
  have hown := not_own_of_unsubscribeLoop hok (fun _ h => absurd h List.not_mem_nil) e he
  simp [subscriptionAt, hsub] at hown

end SubscriptionTable

/-! ## The table and the moves -/

abbrev PendingMoves (W : Type) := FiniteMap (W × UInt32) PendingInotifyMove

variable [DecidableEq W]

/-- Some pending move holds the subscription. -/
def Held (moves : PendingMoves W) (p : Nat) : Prop :=
  ∃ k m, moves.lookup k = some m ∧ p ∈ m.subscriptions

/-- A move that arrives at `path` carries what lies below the path that was moved, to
paths that no other subscription has. -/
structure RoomToArrive (t : SubscriptionTable W) (moves : PendingMoves W) (key : W × UInt32)
    (m : PendingInotifyMove) (path : Str) : Prop where
  room : t.RoomFor (Held (moves.erase key)) m.subscriptions (relocate m.path path)
  below : ∀ p ∈ m.subscriptions, ∀ sub, t.Free (Held (moves.erase key)) p sub →
    Under slash m.path sub.path

/-- There is room where nothing is tracked. -/
theorem RoomToArrive.of_vacant {t : SubscriptionTable W} {moves : PendingMoves W}
    {key : W × UInt32} {m : PendingInotifyMove} {path : Str}
    (hbelow : ∀ p ∈ m.subscriptions, ∀ sub ∈ t.heap[p]?, Under slash m.path sub.path)
    (hvacant : ∀ e ∈ t.mSubscriptions, e.2 ∉ m.subscriptions → ∀ sub ∈ t.heap[e.2]?,
      ¬ Under slash path sub.path)
    (hone : ∀ p ∈ m.subscriptions, ∀ q ∈ m.subscriptions, p ≠ q → t.heap[p]? ≠ t.heap[q]?) :
    RoomToArrive t moves key m path := by
  refine ⟨⟨?_, ?_⟩, fun p hp sub hf => hbelow p hp sub hf.at_heap⟩
  · intro p hp q hq sub sub' hf hf' _ heq
    obtain ⟨e, he, rfl⟩ := hf'.tracked
    apply hvacant e he hq sub' hf'.at_heap
    rw [← heq]
    exact (hbelow p hp sub hf.at_heap).relocate
  · intro p hp q hq sub sub' hf hf' hne hw heq
    apply hone p hp q hq hne
    have hsub : sub = sub' := by
      cases sub
      cases sub'
      exact congrArg₂ InotifySubscription.mk heq hw
    rw [hf.at_heap, hf'.at_heap, hsub]

/-- If there is a move under the key of the new move `m` already, what it lets go of has
paths of its own. -/
def RoomToPark (t : SubscriptionTable W) (moves : PendingMoves W) (key : W × UInt32)
    (m : PendingInotifyMove) : Prop :=
  ∀ m₀, moves.lookup key = some m₀ →
    t.RoomFor (Held (AList.insert key m moves)) m₀.subscriptions id

/-- The subscriptions that the moves of a watcher hold. -/
def heldBy (moves : PendingMoves W) (id : W) : List Nat :=
  (moves.pairs.filter fun b => b.1.1 == id).flatMap fun b => b.2.subscriptions

/-- If the kernel refuses to remove a descriptor, what the moves of the watcher let go of
has paths of its own. -/
def RoomToStop (t : SubscriptionTable W) (moves : PendingMoves W) (id : W) (faults : RmFaults) :
    Prop :=
  SubscriptionTable.RemovesWatches faults ∨
    t.RoomFor (Held (moves.filterKeys fun k => k.1 != id)) (heldBy moves id) (fun p => p)

/-- The moves hold subscriptions of their own watchers, and outside of them every path has
one. -/
structure UniqueInv (t : SubscriptionTable W) (moves : PendingMoves W) : Prop where
  tidy : t.Tidy (Held moves)
  owned : ∀ k m, moves.lookup k = some m → ∀ p ∈ m.subscriptions,
    ∃ sub, t.heap[p]? = some sub ∧ sub.watcher = k.1

namespace UniqueInv

variable {t t' : SubscriptionTable W} {moves moves' : PendingMoves W} {w : InotifyWatcher W}
  {faults : RmFaults} {key : W × UInt32} {m : PendingInotifyMove}

theorem start : UniqueInv (.start : SubscriptionTable W) ∅ where
  tidy := List.Pairwise.nil
  owned := by
    intro k m hm
    rw [AList.lookup_empty] at hm
    cases hm

/-- The routines on a watcher keep it. -/
theorem tableInvariant (w : InotifyWatcher W) (moves : PendingMoves W) :
    TableInvariant w fun t => UniqueInv t moves where
  watchDir := by
    intro t t' faults path answer h ht
    refine ⟨h.tidy.watchDir ht, fun k m hm p hp => ?_⟩
    obtain ⟨sub, hsub, hw⟩ := h.owned k m hm p hp
    have hheap : ∃ rest, t'.heap = t.heap ++ rest := by
      cases answer with
      | fails => cases ht
      | resolves inode fresh =>
          cases ht
          unfold SubscriptionTable.track
          dsimp only
          split
          · exact ⟨[], (List.append_nil _).symm⟩
          · exact ⟨_, rfl⟩
    obtain ⟨rest, hrest⟩ := hheap
    have hlt := (List.getElem?_eq_some_iff.mp hsub).1
    exact ⟨sub, by rw [hrest, List.getElem?_append_left hlt, hsub], hw⟩
  removeSubscriptions faults path h := ⟨h.tidy.erase _, h.owned⟩

/-- Fewer moves, if what they held is not in the table any more. -/
theorem sub (h : UniqueInv t moves) (hsub : ∀ k m, moves'.lookup k = some m → moves.lookup k = some m)
    (hgone : ∀ e ∈ t.mSubscriptions, Held moves e.2 → Held moves' e.2) : UniqueInv t moves' :=
  ⟨h.tidy.mono hgone, fun k m hm => h.owned k m (hsub k m hm)⟩

/-- A watcher without entries loses its moves. -/
theorem close (h : UniqueInv t moves) {id : W}
    (hgone : ∀ e ∈ t.mSubscriptions, ∀ sub, t.heap[e.2]? = some sub → sub.watcher ≠ id) :
    UniqueInv t (moves.filterKeys fun k => k.1 != id) := by
  apply h.sub
  · intro k m hm
    rw [FiniteMap.lookup_filterKeys] at hm
    split at hm
    · exact hm
    · cases hm
  · rintro e he ⟨k, m, hm, hp⟩
    obtain ⟨sub, hsub, hw⟩ := h.owned k m hm e.2 hp
    have hne : k.1 ≠ id := hw ▸ hgone e he sub hsub
    refine ⟨k, m, ?_, hp⟩
    rw [FiniteMap.lookup_filterKeys, if_pos (by simpa using hne), hm]

/-- A watcher loses its subscriptions and its moves. -/
theorem closeAll (h : UniqueInv t moves) (faults : RmFaults) (id : W) (mDir : Str) :
    UniqueInv (t.removeSubscriptions faults id mDir mDir)
      (moves.filterKeys fun k => k.1 != id) := by
  have h' : UniqueInv (t.removeSubscriptions faults id mDir mDir) moves :=
    ⟨h.tidy.erase _, h.owned⟩
  apply h'.close
  intro e he sub hsub
  exact SubscriptionTable.watcher_of_mem_removeSubscriptions he hsub

/-- What is held when one move is erased. -/
theorem held_erase {p : Nat} (hm : moves.lookup key = some m) (hp : Held moves p) :
    Held (moves.erase key) p ∨ p ∈ m.subscriptions := by
  obtain ⟨k, m', hm', hp⟩ := hp
  by_cases hk : k = key
  · subst hk
    rw [hm] at hm'
    cases hm'
    exact Or.inr hp
  · exact Or.inl ⟨k, m', by rw [FiniteMap.lookup_erase_eq, if_neg hk, hm'], hp⟩

theorem lookup_of_erase {k : W × UInt32} {m' : PendingInotifyMove}
    (h : (moves.erase key).lookup k = some m') : moves.lookup k = some m' := by
  rw [FiniteMap.lookup_erase_eq] at h
  split at h
  · cases h
  · exact h

/-- A move is forgotten, and the subscriptions it held are erased. -/
theorem expire (h : UniqueInv t moves) (hm : moves.lookup key = some m) (faults : RmFaults) :
    UniqueInv (if m.isDirectory then t.removeMovedSubscriptions faults m.subscriptions else t)
      (moves.erase key) := by
  cases hdir : m.isDirectory with
  | false =>
      rw [if_neg Bool.false_ne_true]
      apply h.sub fun k m' => lookup_of_erase
      intro e he hheld
      apply (held_erase hm hheld).resolve_right
      rw [m.carried hdir]
      exact List.not_mem_nil
  | true =>
      rw [if_pos rfl]
      have h' : UniqueInv (t.removeMovedSubscriptions faults m.subscriptions) moves :=
        ⟨h.tidy.erase _, h.owned⟩
      apply h'.sub fun k m' => lookup_of_erase
      intro e he hheld
      apply (held_erase hm hheld).resolve_right
      have htest := (List.mem_filter.mp he).2
      simpa using htest

/-- A move is completed. -/
theorem arrive (h : UniqueInv t moves) (hm : moves.lookup key = some m) {path : Str}
    (hroom : RoomToArrive t moves key m path) :
    UniqueInv (t.moveSubscriptions m.subscriptions m.path path) (moves.erase key) where
  tidy := h.tidy.move hroom.room hroom.below fun _ => held_erase hm
  owned := by
    intro k m' hm' p hp
    obtain ⟨sub, hsub, hw⟩ := h.owned k m' (lookup_of_erase hm') p hp
    refine ⟨_, by rw [SubscriptionTable.heap_moveSubscriptions, hsub, Option.map_some], ?_⟩
    split <;> exact hw

/-- A move is started, in place of what was under its key. -/
theorem park (h : UniqueInv t moves)
    (hown : ∀ p ∈ m.subscriptions, ∃ sub, t.heap[p]? = some sub ∧ sub.watcher = key.1)
    (hroom : RoomToPark t moves key m) : UniqueInv t (AList.insert key m moves) := by
  have howned : ∀ k m', (AList.insert key m moves).lookup k = some m' → ∀ p ∈ m'.subscriptions,
      ∃ sub, t.heap[p]? = some sub ∧ sub.watcher = k.1 := by
    intro k m' hm'
    rw [FiniteMap.lookup_insert_eq] at hm'
    split at hm'
    next hk =>
        cases hm'
        rw [hk]
        exact hown
    next => exact h.owned k m' hm'
  have hkeeps : ∀ {p k m'}, moves.lookup k = some m' → p ∈ m'.subscriptions → k ≠ key →
      Held (AList.insert key m moves) p := by
    intro p k m' hm' hp hk
    exact ⟨k, m', by rw [FiniteMap.lookup_insert_eq, if_neg hk, hm'], hp⟩
  refine ⟨?_, howned⟩
  cases hm₀ : moves.lookup key with
  | none =>
      apply h.tidy.mono
      rintro e he ⟨k, m', hm', hp⟩
      apply hkeeps hm' hp
      rintro rfl
      rw [hm₀] at hm'
      cases hm'
  | some m₀ =>
      apply h.tidy.free (hroom m₀ hm₀)
      rintro p ⟨k, m', hm', hp⟩
      by_cases hk : k = key
      · subst hk
        rw [hm₀] at hm'
        cases hm'
        exact Or.inr hp
      · exact Or.inl (hkeeps hm' hp hk)

/-- Moves that hold the same subscriptions. -/
theorem congr (h : UniqueInv t moves) (hsame : ∀ k, (moves'.lookup k).map (·.subscriptions) =
    (moves.lookup k).map (·.subscriptions)) : UniqueInv t moves' := by
  have hcarry : ∀ {moves moves' : PendingMoves W}, (∀ k, (moves'.lookup k).map (·.subscriptions) =
      (moves.lookup k).map (·.subscriptions)) → ∀ {k m}, moves'.lookup k = some m →
      ∃ m', moves.lookup k = some m' ∧ m'.subscriptions = m.subscriptions := by
    intro moves moves' hsame k m hm
    have hk := hsame k
    rw [hm, Option.map_some] at hk
    exact Option.map_eq_some_iff.mp hk.symm
  constructor
  · apply h.tidy.mono
    rintro e he ⟨k, m, hm, hp⟩
    obtain ⟨m', hm', heq⟩ := hcarry (fun k => (hsame k).symm) hm
    exact ⟨k, m', hm', heq ▸ hp⟩
  · intro k m hm p hp
    obtain ⟨m', hm', heq⟩ := hcarry hsame hm
    exact h.owned k m' hm' p (heq ▸ hp)

theorem suppress (h : UniqueInv t moves) (key : W × UInt32) :
    UniqueInv t (moves.adjust key fun m => { m with suppressedEvents := true }) := by
  apply h.congr
  intro k
  rw [FiniteMap.lookup_adjust]
  split
  next hk =>
      rw [hk, Option.map_map]
      rfl
  next => rfl

theorem unsubscribe (h : UniqueInv t moves) {id : W} (hroom : RoomToStop t moves id faults) :
    UniqueInv (t.unsubscribe faults id).2 (moves.filterKeys fun k => k.1 != id) := by
  rcases hroom with hok | hroom
  · have h' : UniqueInv (t.unsubscribe faults id).2 moves := ⟨h.tidy.unsubscribe id, h.owned⟩
    apply h'.close
    intro e he sub hsub
    exact SubscriptionTable.watcher_of_mem_unsubscribe hok he hsub
  · have h' : UniqueInv t (moves.filterKeys fun k => k.1 != id) := by
      constructor
      · apply h.tidy.free hroom
        rintro p ⟨k, m, hm, hp⟩
        by_cases hk : k.1 = id
        · right
          exact List.mem_flatMap.mpr ⟨(k, m), List.mem_filter.mpr
            ⟨FiniteMap.mem_pairs.mpr hm, by simpa using hk⟩, hp⟩
        · exact Or.inl ⟨k, m, by rw [FiniteMap.lookup_filterKeys, if_pos (by simpa using hk), hm], hp⟩
      · intro k m hm
        rw [FiniteMap.lookup_filterKeys] at hm
        split at hm
        · exact h.owned k m hm
        · cases hm
    exact ⟨h'.tidy.unsubscribe id, h'.owned⟩

end UniqueInv

/-! ## Runs -/

namespace InotifyState

variable {s : InotifyState W} {w : InotifyWatcher W} {event : InotifyEvent} {path : Str}
  {answers : EventAnswers} {faults : RmFaults}

/-- The event starts a move. -/
def startsMove (event : InotifyEvent) : Bool :=
  !event.has (IN_CREATE ||| IN_MOVED_TO) && !event.has (IN_MODIFY ||| IN_ATTRIB) &&
    !event.has (IN_DELETE_SELF ||| IN_MOVE_SELF) && event.has IN_MOVED_FROM && event.cookie != 0

/-- The subscriptions that an event sets free get paths of their own: those of the move it
completes, and those of a move that it overwrites. -/
structure HasRoom (s : InotifyState W) (w : InotifyWatcher W) (event : InotifyEvent) (path : Str)
    (now : Nat) : Prop where
  arriving : event.has (IN_CREATE ||| IN_MOVED_TO) = true → ∀ m, s.pairedMove w event = some m →
    RoomToArrive s.table s.mPendingMoves (w.id, event.cookie) m path
  parking : startsMove event = true →
    RoomToPark s.table s.mPendingMoves (w.id, event.cookie) (s.parkedMove w event path now)

theorem uniqueInv_failBelow (h : UniqueInv s.table s.mPendingMoves) (errno : Nat) :
    UniqueInv (s.failBelow w faults path errno).table
      (s.failBelow w faults path errno).mPendingMoves :=
  h.closeAll faults w.id w.mDir

theorem uniqueInv_handleFound {r : ScanState W}
    {found : FileStat → ScanState W → Option Nat × ScanState W}
    (h : UniqueInv r.table s.mPendingMoves)
    (hfound : ∀ st, UniqueInv (found st r).2.table s.mPendingMoves) :
    UniqueInv (s.handleFound w path answers r found).2.table
      (s.handleFound w path answers r found).2.mPendingMoves := by
  unfold handleFound
  split
  · exact h
  next st _ =>
      split
      · exact (UniqueInv.tableInvariant w s.mPendingMoves).dropSpecial h
      · have hst := hfound st
        split
        next r' heq =>
            rw [heq] at hst
            exact hst
        next errno r' heq =>
            rw [heq] at hst
            exact uniqueInv_failBelow (s := s.commit w.id r') hst errno

theorem uniqueInv_handleCreated (h : UniqueInv s.table s.mPendingMoves)
    (hroom : ∀ m, s.pairedMove w event = some m →
      RoomToArrive s.table s.mPendingMoves (w.id, event.cookie) m path) :
    UniqueInv (s.handleCreated w event path answers).2.table
      (s.handleCreated w event path answers).2.mPendingMoves := by
  unfold handleCreated
  dsimp only
  split
  · exact uniqueInv_handleFound h fun st =>
      (UniqueInv.tableInvariant w s.mPendingMoves).appear (s := s.scanState w.id) h st
  next m hm =>
      have hlookup : s.mPendingMoves.lookup (w.id, event.cookie) = some m := by
        unfold pairedMove at hm
        split at hm
        · exact hm
        · cases hm
      have harrived := h.arrive hlookup (hroom m hm)
      apply uniqueInv_handleFound (s := { s with mPendingMoves := _ }) harrived
      intro st
      exact (UniqueInv.tableInvariant w _).settle
        (s := carryMove w event.cookie path m (s.scanState w.id)) harrived _ m st

theorem uniqueInv_handleModified (h : UniqueInv s.table s.mPendingMoves) :
    UniqueInv (s.handleModified w path answers).2.table
      (s.handleModified w path answers).2.mPendingMoves := by
  unfold handleModified
  dsimp only
  split
  · exact h
  · split <;> exact h

/-- The subscriptions of a new move are entries of its watcher. -/
theorem entry_of_mem_parkedMove {now p : Nat}
    (hp : p ∈ (s.parkedMove w event path now).subscriptions) :
    ∃ e ∈ s.table.mSubscriptions, e.2 = p ∧ ∃ sub, s.table.heap[p]? = some sub ∧
      sub.watcher = w.id := by
  have hmem : p ∈ s.subscriptionsBelow w path := by
    change p ∈ if event.has IN_ISDIR then _ else _ at hp
    split at hp
    · exact hp
    · exact absurd hp List.not_mem_nil
  obtain ⟨e, he, rfl⟩ := List.mem_map.mp hmem
  obtain ⟨he, htest⟩ := List.mem_filter.mp he
  obtain ⟨sub, hsub, htest⟩ := (Option.any_eq_true _ _).mp htest
  rw [Bool.and_eq_true, beq_iff_eq] at htest
  exact ⟨e, he, rfl, sub, hsub, htest.1⟩

theorem uniqueInv_handleRemoved (h : UniqueInv s.table s.mPendingMoves)
    (hroom : event.has (IN_DELETE_SELF ||| IN_MOVE_SELF) = false → event.has IN_MOVED_FROM = true →
      event.cookie ≠ 0 → RoomToPark s.table s.mPendingMoves (w.id, event.cookie)
        (s.parkedMove w event path answers.now)) :
    UniqueInv (s.handleRemoved w event path answers).2.table
      (s.handleRemoved w event path answers).2.mPendingMoves := by
  unfold handleRemoved
  split
  · exact h
  next hself =>
      dsimp only
      split
      next hmoved =>
          rw [Bool.and_eq_true, bne_iff_ne] at hmoved
          refine h.park (fun p hp => ?_) (hroom (Bool.eq_false_iff.mpr hself) hmoved.1 hmoved.2)
          obtain ⟨e, -, -, howned⟩ := entry_of_mem_parkedMove hp
          exact howned
      next =>
          dsimp only
          split
          · exact (UniqueInv.tableInvariant w _).removeSubscriptions answers.faults path h
          · exact h

/-- One call of `handleSubscription` keeps it. -/
theorem uniqueInv_handleSubscription (h : UniqueInv s.table s.mPendingMoves) {pointer : Nat}
    {sub : InotifySubscription W}
    (hroom : ∀ path, s.dispatch w event pointer sub = .handled path →
      s.HasRoom w event path answers.now) :
    UniqueInv (s.handleSubscription w event pointer sub answers).2.table
      (s.handleSubscription w event pointer sub answers).2.mPendingMoves := by
  unfold handleSubscription
  split
  · exact h
  · exact h.closeAll answers.faults w.id w.mDir
  next key _ => exact h.suppress key
  next path hpath =>
      have hr := hroom path hpath
      unfold handlePath
      split
      next hcreated => exact uniqueInv_handleCreated h (hr.arriving hcreated)
      next hcreated =>
          split
          · exact uniqueInv_handleModified h
          next hmodified =>
              split
              · apply uniqueInv_handleRemoved h
                intro hself hmoved hcookie
                apply hr.parking
                simp [startsMove, hcreated, hmodified, hself, hmoved, hcookie]
              · exact h

theorem uniqueInv_subscribe (h : UniqueInv s.table s.mPendingMoves) (a : SubscribeAnswers) :
    UniqueInv (s.subscribe w a).2.table (s.subscribe w a).2.mPendingMoves := by
  have hmoves : (s.subscribe w a).2.mPendingMoves = s.mPendingMoves := by
    unfold subscribe
    split
    · rfl
    · dsimp only
      split <;> rfl
  rw [hmoves]
  exact (UniqueInv.tableInvariant w s.mPendingMoves).subscribe h a

/-- The loop over the expired moves; each key comes once. -/
theorem uniqueInv_foldl_expire : ∀ (l : List ((W × UInt32) × PendingInotifyMove))
    {s : InotifyState W}, UniqueInv s.table s.mPendingMoves → (l.map Prod.fst).Nodup →
    (∀ b ∈ l, s.mPendingMoves.lookup b.1 = some b.2) →
      UniqueInv (l.foldl (expire faults) s).table (l.foldl (expire faults) s).mPendingMoves
  | [], _, h, _, _ => h
  | b :: l, s, h, hnodup, hl => by
      rw [List.map_cons, List.nodup_cons] at hnodup
      apply uniqueInv_foldl_expire l (s := s.expire faults b)
      · exact h.expire (hl b List.mem_cons_self) faults
      · exact hnodup.2
      · intro b' hb'
        have hne : b'.1 ≠ b.1 := fun heq => hnodup.1 (heq ▸ List.mem_map_of_mem hb')
        show (s.mPendingMoves.erase b.1).lookup b'.1 = some b'.2
        rw [FiniteMap.lookup_erase_eq, if_neg hne]
        exact hl b' (List.mem_cons_of_mem _ hb')

theorem uniqueInv_flushExpiredMoves (h : UniqueInv s.table s.mPendingMoves) (now : Nat) :
    UniqueInv (s.flushExpiredMoves now faults).table
      (s.flushExpiredMoves now faults).mPendingMoves := by
  apply uniqueInv_foldl_expire _ h
  · exact (FiniteMap.pairs_keys_nodup _).sublist (List.filter_sublist.map _)
  · intro b hb
    exact FiniteMap.mem_pairs.mp (List.mem_of_mem_filter hb)

theorem uniqueInv_handleOverflow (h : UniqueInv s.table s.mPendingMoves) (ws : Watchers W) :
    UniqueInv (s.handleOverflow ws faults).table (s.handleOverflow ws faults).mPendingMoves :=
  List.foldlRecOn (motive := fun s : InotifyState W => UniqueInv s.table s.mPendingMoves) _ _ h
    fun _ hs _ _ => hs.closeAll faults _ _

end InotifyState

variable {ws : Watchers W} {b b' : InotifyBackend W}

/-- What a step sets free gets paths of its own. -/
def MovesHaveRoom (ws : Watchers W) (b : InotifyBackend W) : InotifyAction W → Prop
  | .handleSubscription event pointer answers =>
      ∀ sub path, b.state.table.heap[pointer]? = some sub →
        b.state.dispatch (ws.watcher sub.watcher) event pointer sub = .handled path →
          b.state.HasRoom (ws.watcher sub.watcher) event path answers.now
  | .unsubscribe id faults => RoomToStop b.state.table b.state.mPendingMoves id faults
  | _ => True

def InotifyBackend.UniquePaths (b : InotifyBackend W) : Prop :=
  UniqueInv b.state.table b.state.mPendingMoves

/-- One step keeps it. -/
theorem uniquePaths_step (h : b.UniquePaths) {a : InotifyAction W}
    (hroom : MovesHaveRoom ws b a) (hs : b.step ws a = some b') : b'.UniquePaths := by
  have hlocked : ∀ {s : InotifyState W}, UniqueInv s.table s.mPendingMoves →
      b.locked s = some b' → b'.UniquePaths := by
    intro s hunique hlocked
    exact InotifyBackend.holds_of_locked
      (P := fun s => UniqueInv s.table s.mPendingMoves) hunique hlocked
  cases a with
  | subscribe id answers => exact hlocked (InotifyState.uniqueInv_subscribe h answers) hs
  | handleEvent event =>
      have hstate := InotifyBackend.state_of_handleEvent hs
      rw [InotifyBackend.UniquePaths, hstate]
      exact h
  | handleSubscription event pointer answers =>
      obtain ⟨sub, hsub, hstate⟩ := InotifyBackend.of_step_handleSubscription hs
      rw [InotifyBackend.UniquePaths, hstate]
      exact InotifyState.uniqueInv_handleSubscription h fun path hpath => hroom sub path hsub hpath
  | flushExpiredMoves now faults => exact hlocked (InotifyState.uniqueInv_flushExpiredMoves h now) hs
  | handleOverflow faults => exact hlocked (InotifyState.uniqueInv_handleOverflow h ws) hs
  | unsubscribe id faults => exact hlocked (h.unsubscribe hroom) hs
  | drain id =>
      cases hs
      exact h
  | dropInode inode =>
      cases hs
      exact ⟨h.tidy, h.owned⟩

/-- The subscriptions of a watcher for a path that no pending move captures. -/
def InotifyState.subscriptionsAt (s : InotifyState W) (id : W) (path : Str) : List (Nat × Nat) :=
  s.table.mSubscriptions.filter fun e =>
    s.table.subscriptionAt e.2 (fun sub => sub.watcher == id && sub.path == path) &&
      !s.mPendingMoves.pairs.any fun b => decide (e.2 ∈ b.2.subscriptions)

/-- **One subscription for a path.** In a run in which whatever a step sets free finds
paths of its own, a watcher has at most one subscription for a path outside pending
moves. -/
theorem subscriptions_unique (h : (inotifyMachine ws).Reach (MovesHaveRoom ws) b) (id : W)
    (path : Str) :
    (b.state.subscriptionsAt id path).length ≤ 1 := by
  have hinv : b.UniquePaths := by
    refine h.invariant ?_ ?_
    · rintro _ rfl
      exact UniqueInv.start
    · rintro b a b' hi hok hs
      exact uniquePaths_step hi hok hs
  have hapart : (b.state.subscriptionsAt id path).Pairwise
      (b.state.table.Apart (Held b.state.mPendingMoves)) :=
    List.Pairwise.sublist List.filter_sublist hinv.tidy
  -- Two of them would be for the same path, and free.
  have hsub : ∀ e ∈ b.state.subscriptionsAt id path,
      b.state.table.heap[e.2]? = some ⟨path, id⟩ ∧ ¬ Held b.state.mPendingMoves e.2 := by
    intro e he
    have htest := (List.mem_filter.mp he).2
    rw [Bool.and_eq_true, Bool.not_eq_true'] at htest
    obtain ⟨sub, hsub, heq⟩ := (Option.any_eq_true _ _).mp htest.1
    rw [Bool.and_eq_true, beq_iff_eq, beq_iff_eq] at heq
    refine ⟨by rw [hsub, ← heq.1, ← heq.2], ?_⟩
    rintro ⟨k, m, hm, hp⟩
    have hany := List.any_eq_false.mp htest.2 (k, m) (FiniteMap.mem_pairs.mpr hm)
    exact hany (decide_eq_true hp)
  match hl : b.state.subscriptionsAt id path with
  | [] => exact Nat.zero_le 1
  | [e] => exact Nat.le_refl 1
  | e :: e' :: rest =>
      rw [hl] at hapart hsub
      obtain ⟨hheap, hfree⟩ := hsub e (by simp)
      obtain ⟨hheap', hfree'⟩ := hsub e' (by simp)
      have happ := List.rel_of_pairwise_cons hapart (List.mem_cons_self)
      exact absurd (hheap.trans hheap'.symm) (happ.2 hfree hfree')

/-! ## A directory that is scanned at its new path before it arrives there -/

section Examples

def plainWatcher : InotifyWatcher Unit where
  id := ()
  mDir := [47, 114]
  isIgnored _ := false
  mIgnorePaths := []
  mIgnoreGlobs := []
  ignores _ _ _ := rfl
  strerror _ := ""

def plainWatchers : Watchers Unit := ⟨fun _ => plainWatcher, fun _ => rfl⟩

/-- The root `/r` with the directory `a`. -/
def subscribeRoot : InotifyAction Unit :=
  .subscribe () ⟨fun _ => .fails ENOENT, .resolves 1 1,
    listing [97] (.resolves 2 2) emptyDirectory, false, fun _ => none⟩

/-- `a` arrives in the root as `e`. -/
def movedToE : InotifyEvent := ⟨1, IN_MOVED_TO ||| IN_ISDIR, 7, some [101]⟩

/-- The two halves of a rename, with what `lstat` finds at the new path. -/
def renameRun : List (InotifyAction Unit) :=
  [subscribeRoot, .handleEvent movedFromA,
    .handleSubscription movedFromA 0 (directoryAnswers (.fails ENOENT) (.opendirFails ENOENT)),
    .handleEvent movedToE,
    .handleSubscription movedToE 0 (directoryAnswers (.fails ENOENT) (.opendirFails ENOENT))]

/-- A directory that is renamed within the root keeps one subscription. -/
theorem subscriptions_unique_rename :
    ∃ b : InotifyBackend Unit, b.state.table.heap[1]? = some ⟨[47, 114, 47, 101], ()⟩ ∧
      (b.state.subscriptionsAt () [47, 114, 47, 101]).length ≤ 1 := by
  have h₀ : (inotifyMachine plainWatchers).Reach (MovesHaveRoom plainWatchers)
      ⟨.start plainWatchers, []⟩ := .init rfl
  have hadmits : Machine.Admits (MovesHaveRoom plainWatchers) (InotifyBackend.step plainWatchers)
      ⟨.start plainWatchers, []⟩ renameRun := by
    refine ⟨trivial, trivial, ?_, trivial, ?_, trivial⟩
    · -- No move is pending yet.
      intro sub path hsub hpath
      refine ⟨fun hhas => absurd hhas (by decide), fun _ m₀ hm₀ => ?_⟩
      have hnone : none = some m₀ := hm₀
      cases hnone
    · intro sub path hsub hpath
      obtain rfl : (⟨[47, 114], ()⟩ : InotifySubscription Unit) = sub := Option.some.inj hsub
      obtain rfl : [47, 114, 47, 101] = path := by
        cases hpath
        rfl
      refine ⟨fun _ m hm => ?_, fun hstarts => absurd hstarts (by decide)⟩
      cases hm
      apply RoomToArrive.of_vacant <;> decide
  have h := h₀.execute hadmits rfl
  exact ⟨_, rfl, subscriptions_unique h () _⟩

def createdD : InotifyEvent := ⟨1, IN_CREATE ||| IN_ISDIR, 0, some [100]⟩

/-- `a` arrives in `d` as `b`. -/
def movedToB : InotifyEvent := ⟨3, IN_MOVED_TO ||| IN_ISDIR, 7, some [98]⟩

/-- `d` is created, and `a` is moved to `d/b` while `d` is scanned. -/
def scannedRun : List (InotifyAction Unit) :=
  [subscribeRoot, .handleEvent createdD,
    .handleSubscription createdD 0
      (directoryAnswers (.resolves 3 3) (listing [98] (.resolves 2 4) emptyDirectory)),
    .handleEvent movedFromA,
    .handleSubscription movedFromA 0 (directoryAnswers (.fails ENOENT) (.opendirFails ENOENT)),
    .handleEvent movedToB,
    .handleSubscription movedToB 2 (directoryAnswers (.resolves 2 4) emptyDirectory)]

/-- The scan of the new directory watches `a` under its new path, and then the move brings
the old subscription there. -/
theorem subscriptions_duplicated :
    ∃ b, (inotifyMachine plainWatchers).Reachable b ∧
      (b.state.subscriptionsAt () [47, 114, 47, 100, 47, 98]).length = 2 := by
  have h₀ : (inotifyMachine plainWatchers).Reachable ⟨.start plainWatchers, []⟩ := .init rfl
  have h := h₀.execute (l := scannedRun) rfl
  exact ⟨_, h, by decide⟩

end Examples

end NativeWatcher
