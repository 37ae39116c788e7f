import NativeWatcher.Backend.Subscriptions
import NativeWatcher.Linux.UniquePaths

/-!
# An `unwatch` that fails on Linux

`Backend::unwatch` puts a watcher back into its sets when `unsubscribe` throws. By then
`unsubscribe` has erased the pending moves of the watcher and the subscriptions it reached
before the descriptor that could not be removed.
-/

namespace NativeWatcher

open SharedHandles

variable {W : Type} [DecidableEq W]

/-! ## `unwatch` -/

/-- `unwatch` up to `lock.unlock()`, with the `unsubscribe` of the inotify backend: the value
of `errno` in the exception it throws, if any. -/
def unwatch (b : BackendState W) (s : InotifyState W) (thread : Nat) (watcher : W)
    (keep : Bool) (faults : RmFaults) : Option Nat × BackendState W × InotifyState W :=
  if !keep && decide (watcher ∈ b.mSubscriptions) then
    let (errno, s') := s.unsubscribe watcher faults
    let outcome : UnsubscribeOutcome :=
      match errno with
      | none => .removed
      | some _ => .throws (decide (s'.table.mSubscriptions ≠ s.table.mSubscriptions))
    (errno, b.unwatchBegin thread watcher keep outcome, s')
  else (none, b.unwatchBegin thread watcher keep .removed, s)

/-! ## What a subscription consists of -/

namespace SubscriptionTable

/-- The entry belongs to the watcher. -/
def owns (t : SubscriptionTable W) (watcher : W) (e : Nat × Nat) : Bool :=
  t.subscriptionAt e.2 fun sub => sub.watcher == watcher

/-- The descriptors and subscriptions of a watcher. -/
def ofWatcher (t : SubscriptionTable W) (watcher : W) : List (Nat × InotifySubscription W) :=
  t.mSubscriptions.filterMap fun e =>
    (t.heap[e.2]?.filter fun sub => sub.watcher == watcher).map fun sub => (e.1, sub)

/-- The first subscription of the watcher, in the order of the map, is the one whose
descriptor `inotify_rm_watch` refuses to remove. -/
def FirstRefused (t : SubscriptionTable W) (faults : RmFaults) (watcher : W) : Prop :=
  ∃ before e rest, t.mSubscriptions = before ++ e :: rest ∧
    (∀ e' ∈ before, t.owns watcher e' = false) ∧ t.owns watcher e = true ∧
    count t.mSubscriptions e.1 = 1 ∧ ∃ errno, faults e.1 = some errno ∧ errno ≠ EINVAL

end SubscriptionTable

/-- The pending moves of a watcher, by their keys. -/
def InotifyState.pendingOf (s : InotifyState W) (watcher : W) :
    List ((W × UInt32) × PendingInotifyMove) :=
  s.mPendingMoves.pairs.filter fun b => b.1.1 == watcher

/-- The next `watch` subscribes the watcher anew. -/
def Resubscribes (b : BackendState W) (watcher : W) : Prop :=
  watcher ∈ b.mInvalidSubscriptions ∨ b.mNeedsResubscribe watcher = true

/-- What the backend has of the watcher is what it had. -/
def KeepsSubscription (s s' : InotifyState W) (watcher : W) : Prop :=
  (s'.table.ofWatcher watcher).Perm (s.table.ofWatcher watcher) ∧
    (s'.pendingOf watcher).Perm (s.pendingOf watcher)

/-- `watch` with a mark on the watcher reaches `subscribe`. -/
theorem watchBegin_of_resubscribes {b : BackendState W} {watcher : W}
    (h : Resubscribes b watcher) (hmem : watcher ∈ b.mSubscriptions) (thread : Nat) :
    watcher ∈ (b.watchBegin thread watcher false .installed).mPendingSubscriptions := by
  rcases h with h | h
  · simp [BackendState.watchBegin, hmem, h, BackendState.setLive, BackendState.setThread,
      BackendState.setNeeds]
  · simp [BackendState.watchBegin, hmem, h, BackendState.setLive, BackendState.setThread,
      BackendState.setNeeds]

/-! ## The loop of `unsubscribe` -/

namespace SubscriptionTable

variable {t : SubscriptionTable W} {faults : RmFaults} {watcher : W}

omit [DecidableEq W] in
/-- It passes what is not its own and stops at a refusal. -/
theorem unsubscribeLoop_refused {own : Nat × Nat → Bool} {before front rest : List (Nat × Nat)}
    {e : Nat × Nat} (k : InotifyKernel) (hfront : ∀ e' ∈ front, own e' = false)
    (hown : own e = true) (hone : count (before ++ front ++ e :: rest) e.1 = 1)
    {errno : Nat} (hfault : faults e.1 = some errno) (herr : errno ≠ EINVAL) :
    (unsubscribeLoop faults own before (front ++ e :: rest) k).1 = some errno ∧
      (unsubscribeLoop faults own before (front ++ e :: rest) k).2.1 =
        before ++ front ++ e :: rest := by
  induction front generalizing before with
  | nil =>
      rw [List.append_nil] at hone ⊢
      rw [List.nil_append, unsubscribeLoop, if_pos hown, if_pos (beq_iff_eq.mpr hone)]
      unfold InotifyKernel.rmWatch
      rw [hfault]
      dsimp only
      rw [if_pos (bne_iff_ne.mpr herr)]
      exact ⟨rfl, rfl⟩
  | cons e' front ih =>
      have he' : own e' = false := hfront e' List.mem_cons_self
      have hsplit : before ++ e' :: front ++ e :: rest = (before ++ [e']) ++ front ++ e :: rest := by
        simp
      rw [List.cons_append, unsubscribeLoop, if_neg (by simp [he']), hsplit]
      apply ih (fun x hx => hfront x (List.mem_cons_of_mem _ hx))
      rw [← hsplit]
      exact hone

omit [DecidableEq W] in
/-- If it throws with everything still in place, the first entry of its own was refused. -/
theorem refused_of_unsubscribeLoop {own : Nat × Nat → Bool} {before rest : List (Nat × Nat)}
    {k : InotifyKernel} (hbefore : ∀ e ∈ before, own e = false)
    (hthrows : (unsubscribeLoop faults own before rest k).1 ≠ none)
    (hlen : (unsubscribeLoop faults own before rest k).2.1.length = (before ++ rest).length) :
    ∃ front e back, before ++ rest = front ++ e :: back ∧ (∀ e' ∈ front, own e' = false) ∧
      own e = true ∧ count (before ++ rest) e.1 = 1 ∧
      ∃ errno, faults e.1 = some errno ∧ errno ≠ EINVAL := by
  -- Past an erased entry the list is shorter for good.
  have hshort : ∀ {before rest : List (Nat × Nat)} {k : InotifyKernel} (e : Nat × Nat),
      (unsubscribeLoop faults own before rest k).2.1.length ≠ (before ++ e :: rest).length := by
    intro before rest k e heq
    have hle : (unsubscribeLoop faults own before rest k).2.1.length ≤ (before ++ rest).length :=
      sublist_unsubscribeLoop.length_le
    rw [List.length_append, List.length_cons] at heq
    rw [List.length_append] at hle
    omega
  fun_induction unsubscribeLoop faults own before rest k with
  | case1 => exact absurd rfl hthrows
  | case2 => exact absurd hlen (hshort _)
  | case3 before e rest k hown hone errno k' hrm herr =>
      refine ⟨before, e, rest, rfl, hbefore, hown, beq_iff_eq.mp hone, errno, ?_,
        bne_iff_ne.mp herr⟩
      unfold InotifyKernel.rmWatch at hrm
      cases hf : faults e.1 with
      | some errno' =>
          rw [hf] at hrm
          cases hrm
          rfl
      | none =>
          rw [hf] at hrm
          dsimp only at hrm
          split at hrm
          · cases hrm
          · cases hrm
            exact absurd rfl (bne_iff_ne.mp herr)
  | case4 => exact absurd hlen (hshort _)
  | case5 => exact absurd hlen (hshort _)
  | case6 before e rest k hown ih =>
      have hsplit : before ++ [e] ++ rest = before ++ e :: rest := by simp
      rw [hsplit] at ih
      apply ih _ hthrows hlen
      intro e' he'
      rcases List.mem_append.mp he' with he' | he'
      · exact hbefore e' he'
      · rw [List.mem_singleton.mp he']
        exact Bool.eq_false_iff.mpr hown

/-- The subscriptions of a watcher are as many as the entries of its own. -/
theorem length_ofWatcher (t : SubscriptionTable W) (watcher : W) :
    (t.ofWatcher watcher).length = (t.mSubscriptions.filter (t.owns watcher)).length := by
  unfold ofWatcher
  induction t.mSubscriptions with
  | nil => rfl
  | cons e l ih =>
      cases hsub : t.heap[e.2]? with
      | none =>
          rw [List.filterMap_cons_none (by simp [hsub]),
            List.filter_cons_of_neg (by simp [owns, subscriptionAt, hsub]), ih]
      | some sub =>
          by_cases hw : sub.watcher = watcher
          · rw [List.filterMap_cons_some (b := (e.1, sub)) (by simp [hsub, hw]),
              List.filter_cons_of_pos (by simp [owns, subscriptionAt, hsub, hw]),
              List.length_cons, List.length_cons, ih]
          · rw [List.filterMap_cons_none (by simp [hsub, hw]),
              List.filter_cons_of_neg (by simp [owns, subscriptionAt, hsub, hw]), ih]

/-- Erasing one's own entries shows in the subscriptions of the watcher. -/
theorem ofWatcher_perm_iff {t' : SubscriptionTable W} (hheap : t'.heap = t.heap)
    (hsub : t'.mSubscriptions.Sublist t.mSubscriptions)
    (hothers : t'.mSubscriptions.filter (fun e => !t.owns watcher e) =
      t.mSubscriptions.filter fun e => !t.owns watcher e) :
    (t'.ofWatcher watcher).Perm (t.ofWatcher watcher) ↔
      t'.mSubscriptions.length = t.mSubscriptions.length := by
  have howns : t'.owns watcher = t.owns watcher := by
    funext e
    rw [owns, owns, subscriptionAt, subscriptionAt, hheap]
  constructor
  · intro h
    have hlen := h.length_eq
    rw [length_ofWatcher, length_ofWatcher, howns] at hlen
    rw [List.length_eq_length_filter_add (t.owns watcher), hlen, hothers,
      ← List.length_eq_length_filter_add]
  · intro h
    have heq := hsub.eq_of_length h
    unfold ofWatcher
    rw [heq, hheap]

omit [DecidableEq W] in
/-- The loop leaves the entries of others alone. -/
theorem others_unsubscribeLoop {own : Nat × Nat → Bool} {before rest : List (Nat × Nat)}
    {k : InotifyKernel} :
    (unsubscribeLoop faults own before rest k).2.1.filter (fun e => !own e) =
      (before ++ rest).filter fun e => !own e := by
  have herased : ∀ {before rest : List (Nat × Nat)} {e : Nat × Nat}, own e = true →
      (before ++ e :: rest).filter (fun e => !own e) =
        (before ++ rest).filter fun e => !own e := by
    intro before rest e hown
    rw [List.filter_append, List.filter_cons_of_neg (by simp [hown]), ← List.filter_append]
  fun_induction unsubscribeLoop faults own before rest k with
  | case1 => rw [List.append_nil]
  | case2 _ _ _ _ hown _ _ _ ih => rw [ih, herased hown]
  | case3 => rfl
  | case4 _ _ _ _ hown _ _ _ _ _ ih => rw [ih, herased hown]
  | case5 _ _ _ _ hown _ ih => rw [ih, herased hown]
  | case6 _ _ _ _ _ ih =>
      rw [ih, List.append_assoc]
      rfl

/-- After an exception the subscriptions are all there if the first one was refused. -/
theorem ofWatcher_unsubscribe_iff (hthrows : (t.unsubscribe faults watcher).1 ≠ none) :
    ((t.unsubscribe faults watcher).2.ofWatcher watcher).Perm (t.ofWatcher watcher) ↔
      t.FirstRefused faults watcher := by
  have hsub : (t.unsubscribe faults watcher).2.mSubscriptions.Sublist t.mSubscriptions :=
    sublist_unsubscribeLoop
  have hothers : (t.unsubscribe faults watcher).2.mSubscriptions.filter
      (fun e => !t.owns watcher e) = t.mSubscriptions.filter fun e => !t.owns watcher e :=
    others_unsubscribeLoop
  have hheap : (t.unsubscribe faults watcher).2.heap = t.heap := rfl
  rw [ofWatcher_perm_iff hheap hsub hothers]
  constructor
  · intro hlen
    exact refused_of_unsubscribeLoop (fun _ he => absurd he List.not_mem_nil) hthrows hlen
  · rintro ⟨front, e, back, hsplit, hfront, hown, hone, errno, hfault, herr⟩
    have hsingle : count ([] ++ front ++ e :: back) e.1 = 1 := by
      rw [List.nil_append, ← hsplit]
      exact hone
    have hrefused := unsubscribeLoop_refused t.kernel hfront hown hsingle hfault herr
    rw [List.nil_append, ← hsplit] at hrefused
    exact congrArg List.length hrefused.2

end SubscriptionTable

/-! ## After the exception -/

variable {b : BackendState W} {s : InotifyState W} {thread : Nat} {watcher : W} {keep : Bool}
  {faults : RmFaults} {errno : Nat}

/-- `unsubscribe` was reached, and the watcher is back in the sets it was in. -/
theorem unwatch_throws (h : (unwatch b s thread watcher keep faults).1 = some errno) :
    (s.unsubscribe watcher faults).1 = some errno ∧
      (unwatch b s thread watcher keep faults).2.2 = (s.unsubscribe watcher faults).2 ∧
      (Resubscribes (unwatch b s thread watcher keep faults).2.1 watcher ↔
        Resubscribes b watcher) := by
  unfold unwatch at h ⊢
  by_cases hreached : (!keep && decide (watcher ∈ b.mSubscriptions)) = true
  · rw [if_pos hreached] at h ⊢
    obtain ⟨hkeep, hmem⟩ := (Bool.and_eq_true _ _).mp hreached
    have hkeep : keep = false := by simpa using hkeep
    have hmem : watcher ∈ b.mSubscriptions := by simpa using hmem
    dsimp only at h ⊢
    refine ⟨h, rfl, ?_⟩
    rw [h]
    unfold Resubscribes BackendState.unwatchBegin
    rw [hkeep, if_neg Bool.false_ne_true]
    dsimp only
    rw [if_pos (by simpa using hmem)]
    by_cases hinvalid : watcher ∈ b.mInvalidSubscriptions
    · rw [if_pos (by simpa using hinvalid)]
      exact iff_of_true (Or.inl (Finset.mem_insert_self _ _)) (Or.inl hinvalid)
    · rw [if_neg (by simpa using hinvalid)]
      dsimp only
      split <;> simp [hinvalid, BackendState.setLive]
  · rw [if_neg hreached] at h
    cases h

theorem pendingOf_dropMoves (s : InotifyState W) (watcher : W) :
    (s.dropMoves watcher).pendingOf watcher = [] := by
  apply List.filter_eq_nil_iff.mpr
  rintro ⟨⟨w, cookie⟩, m⟩ hmem
  have hlookup := FiniteMap.mem_pairs.mp hmem
  have htest : (s.mPendingMoves.filterKeys fun k => k.1 != watcher).lookup (w, cookie) =
    some m := hlookup
  rw [FiniteMap.lookup_filterKeys] at htest
  by_cases hw : w = watcher
  · simp [hw] at htest
  · simpa using hw

/-- **What a failed `unwatch` leaves.** The subscription is usable or recorded exactly when
it was recorded before, or when nothing of it was erased: there was no pending move and the
first descriptor that came up was the one that could not be removed. -/
theorem unwatch_failed_usable_iff
    (h : (unwatch b s thread watcher keep faults).1 = some errno) :
    (KeepsSubscription s (unwatch b s thread watcher keep faults).2.2 watcher ∨
        Resubscribes (unwatch b s thread watcher keep faults).2.1 watcher) ↔
      (Resubscribes b watcher ∨
        (s.pendingOf watcher = [] ∧ s.table.FirstRefused faults watcher)) := by
  obtain ⟨hthrows, hstate, hmarked⟩ := unwatch_throws h
  have hfailed : (s.table.unsubscribe faults watcher).1 ≠ none := by
    have heq : (s.table.unsubscribe faults watcher).1 = some errno := hthrows
    rw [heq]
    exact Option.some_ne_none _
  have hpending : (s.unsubscribe watcher faults).2.pendingOf watcher = [] :=
    pendingOf_dropMoves s watcher
  rw [hstate, hmarked, or_comm, KeepsSubscription, hpending]
  apply or_congr_right
  constructor
  · rintro ⟨hsubs, hmoves⟩
    exact ⟨hmoves.nil_eq.symm, (SubscriptionTable.ofWatcher_unsubscribe_iff hfailed).mp hsubs⟩
  · rintro ⟨hmoves, hfirst⟩
    rw [hmoves]
    exact ⟨(SubscriptionTable.ofWatcher_unsubscribe_iff hfailed).mpr hfirst, .refl _⟩

section Examples

/-- The watcher is subscribed and valid. -/
def subscribedBackend : BackendState Unit :=
  { BackendState.start with mSubscriptions := {()}, live := fun _ => true }

/-- The root, and the directory `a` in it. -/
def subscribedState : InotifyState Unit :=
  ((InotifyState.start plainWatchers).subscribe plainWatcher
    ⟨fun _ => .fails ENOENT, .resolves 1 1, listing [97] (.resolves 2 2) emptyDirectory, false,
      fun _ => none⟩).2

/-- No descriptor can be removed, and nothing is lost. -/
theorem unwatch_failed_usable_iff_root :
    (KeepsSubscription subscribedState
        (unwatch subscribedBackend subscribedState 0 () false fun _ => some 5).2.2 () ∨
      Resubscribes
        (unwatch subscribedBackend subscribedState 0 () false fun _ => some 5).2.1 ()) ↔
      (Resubscribes subscribedBackend () ∨ (subscribedState.pendingOf () = [] ∧
        subscribedState.table.FirstRefused (fun _ => some 5) ())) :=
  have hfails : (unwatch subscribedBackend subscribedState 0 () false fun _ => some 5).1 =
      some 5 := rfl
  unwatch_failed_usable_iff hfails

/-- The same entries, the newer one first, as a multimap with a chain of nodes yields them. -/
def yieldedState : InotifyState Unit :=
  { subscribedState with
    table :=
      { subscribedState.table with
        mSubscriptions := subscribedState.table.mSubscriptions.reverse
        allocated := fun e he => subscribedState.table.allocated e (List.mem_reverse.mp he) } }

/-- The descriptor of the root cannot be removed; `a` is no longer watched, and nobody
knows. -/
theorem unwatch_failed_unusable :
    ∃ faults : RmFaults,
      (unwatch subscribedBackend yieldedState 0 () false faults).1 = some 5 ∧
      ¬ (KeepsSubscription yieldedState
          (unwatch subscribedBackend yieldedState 0 () false faults).2.2 () ∨
        Resubscribes (unwatch subscribedBackend yieldedState 0 () false faults).2.1 ()) := by
  refine ⟨fun wd => if wd = 1 then some 5 else none, rfl, ?_⟩
  rintro (⟨hsubs, -⟩ | hmarked)
  · exact absurd hsubs.length_eq (by decide)
  · revert hmarked
    unfold Resubscribes
    decide

end Examples

end NativeWatcher
