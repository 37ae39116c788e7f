import NativeWatcher.Linux.Subscriptions

/-!
# Descriptors are counted

Five routines erase entries of `mSubscriptions` and call `inotify_rm_watch`, for any
number of watchers that share descriptors. As long as the kernel refuses no call but
those for descriptors it does not have, table and kernel stay in balance.
-/

namespace NativeWatcher

open SharedHandles

/-! ## The kernel's operations -/

namespace InotifyKernel

variable {k : InotifyKernel} {wd h : Nat}

/-- A binding is made or keeps its descriptor. -/
theorem holds_insert (k : InotifyKernel) (inode : Nat) (w : InotifyWatch)
    (hsame : ∀ w', k.watches.lookup inode = some w' → w'.descriptor = w.descriptor) :
    Holds { k with watches := AList.insert inode w k.watches } h ↔
      h = w.descriptor ∨ k.Holds h := by
  constructor
  · rintro ⟨i, w', hlook, rfl⟩
    rw [FiniteMap.lookup_insert_eq] at hlook
    split at hlook
    next =>
        left
        rw [← Option.some.inj hlook]
    next => exact Or.inr ⟨i, w', hlook, rfl⟩
  · rintro (rfl | ⟨i, w', hlook, rfl⟩)
    · exact ⟨inode, w, AList.lookup_insert _, rfl⟩
    · by_cases hi : i = inode
      · subst hi
        exact ⟨i, w, AList.lookup_insert _, (hsame w' hlook).symm⟩
      · exact ⟨i, w', (AList.lookup_insert_ne hi).trans hlook, rfl⟩

theorem holds_addWatch (k : InotifyKernel) (inode fresh : Nat) (mask : UInt32) :
    (k.addWatch inode fresh mask).2.Holds h ↔
      h = (k.addWatch inode fresh mask).1 ∨ k.Holds h := by
  unfold addWatch
  cases hlook : k.watches.lookup inode with
  | some w =>
      refine holds_insert k inode { w with mask := w.mask ||| mask } fun w' hw' => ?_
      rw [hlook] at hw'
      rw [← Option.some.inj hw']
  | none =>
      refine holds_insert k inode ⟨fresh, mask⟩ fun w' hw' => ?_
      rw [hlook] at hw'
      cases hw'

@[simp] theorem rmCalls_addWatch (k : InotifyKernel) (inode fresh : Nat) (mask : UInt32) :
    (k.addWatch inode fresh mask).2.rmCalls = k.rmCalls := by
  unfold addWatch
  split <;> rfl

@[simp] theorem dropped_addWatch (k : InotifyKernel) (inode fresh : Nat) (mask : UInt32) :
    (k.addWatch inode fresh mask).2.dropped = k.dropped := by
  unfold addWatch
  split <;> rfl

theorem holds_without : Holds { k with watches := k.without wd } h ↔ k.Holds h ∧ h ≠ wd := by
  have hlook : ∀ i, (k.without wd).lookup i =
      if !(k.watches.lookup i).any (·.descriptor == wd) then k.watches.lookup i else none :=
    fun i => FiniteMap.lookup_filterKeys ..
  constructor
  · rintro ⟨i, w, hw, rfl⟩
    change (k.without wd).lookup i = some w at hw
    rw [hlook] at hw
    split at hw
    next hne =>
        refine ⟨⟨i, w, hw, rfl⟩, ?_⟩
        rintro rfl
        simp [hw] at hne
    next => cases hw
  · rintro ⟨⟨i, w, hw, rfl⟩, hne⟩
    refine ⟨i, w, ?_, rfl⟩
    show (k.without wd).lookup i = some w
    rw [hlook, if_pos (by simp [hw, hne]), hw]

theorem any_pairs_iff :
    (k.watches.pairs.any fun b => b.2.descriptor == wd) = true ↔ k.Holds wd := by
  rw [List.any_eq_true]
  constructor
  · rintro ⟨⟨i, w⟩, hmem, hwd⟩
    exact ⟨i, w, FiniteMap.mem_pairs.mp hmem, beq_iff_eq.mp hwd⟩
  · rintro ⟨i, w, hw, rfl⟩
    exact ⟨(i, w), FiniteMap.mem_pairs.mpr hw, beq_self_eq_true _⟩

variable {faults : RmFaults} {remaining : List Nat}

@[simp] theorem rmCalls_rmWatch :
    (k.rmWatch faults remaining wd).2.rmCalls = k.rmCalls ++ [⟨wd, remaining⟩] := by
  unfold rmWatch
  dsimp only
  split
  · rfl
  · split <;> rfl

@[simp] theorem dropped_rmWatch :
    (k.rmWatch faults remaining wd).2.dropped = k.dropped := by
  unfold rmWatch
  dsimp only
  split
  · rfl
  · split <;> rfl

/-- A call that no other error hits leaves the kernel without the descriptor. -/
theorem holds_rmWatch (hok : faults wd = none) :
    (k.rmWatch faults remaining wd).2.Holds h ↔ k.Holds h ∧ h ≠ wd := by
  unfold rmWatch
  rw [hok]
  dsimp only
  split
  · exact holds_without
  next hnone =>
    have hnot : ¬ k.Holds wd := fun hh => hnone (any_pairs_iff.mpr hh)
    refine ⟨fun hh => ⟨hh, ?_⟩, And.left⟩
    rintro rfl
    exact hnot hh

/-- It then fails with `EINVAL` or not at all. -/
theorem errno_rmWatch (remaining : List Nat) (hok : faults wd = none) :
    (k.rmWatch faults remaining wd).1 = none ∨
      (k.rmWatch faults remaining wd).1 = some EINVAL := by
  unfold rmWatch
  rw [hok]
  dsimp only
  split
  · exact Or.inl rfl
  · exact Or.inr rfl

/-- A sequence of calls. -/
theorem rmWatches_spec (hok : ∀ wd, faults wd = none) (remaining : List Nat) (wds : List Nat) :
    ∀ k : InotifyKernel,
      let k' := wds.foldl (fun k wd => (k.rmWatch faults remaining wd).2) k
      (∀ h, k'.Holds h ↔ k.Holds h ∧ h ∉ wds) ∧ k'.dropped = k.dropped ∧
        k'.rmCalls = k.rmCalls ++ wds.map (RmCall.mk · remaining) := by
  induction wds with
  | nil =>
      intro k
      simp
  | cons wd wds ih =>
      intro k
      obtain ⟨hholds, hdropped, hcalls⟩ := ih (k.rmWatch faults remaining wd).2
      refine ⟨fun h => ?_, ?_, ?_⟩
      · rw [List.foldl_cons, hholds, holds_rmWatch (hok wd), List.mem_cons, not_or, and_assoc]
      · rw [List.foldl_cons, hdropped, dropped_rmWatch]
      · rw [List.foldl_cons, hcalls, rmCalls_rmWatch, List.append_assoc]
        rfl

theorem holds_dropInode {inode : Nat} (hh : (k.dropInode inode).Holds h) : k.Holds h := by
  unfold dropInode at hh
  cases hlook : k.watches.lookup inode with
  | none =>
      rw [hlook] at hh
      exact hh
  | some w =>
      rw [hlook] at hh
      obtain ⟨i, w', hw', rfl⟩ := hh
      refine ⟨i, w', ?_, rfl⟩
      change (k.watches.erase inode).lookup i = some w' at hw'
      rw [FiniteMap.lookup_erase_eq] at hw'
      split at hw'
      next => cases hw'
      next => exact hw'

theorem holds_or_dropped {inode : Nat} (hh : k.Holds h) :
    (k.dropInode inode).Holds h ∨ h ∈ (k.dropInode inode).dropped := by
  unfold dropInode
  cases hlook : k.watches.lookup inode with
  | none => exact Or.inl hh
  | some w =>
      obtain ⟨i, w', hw', rfl⟩ := hh
      by_cases hi : i = inode
      · subst hi
        rw [hlook] at hw'
        rw [Option.some.inj hw']
        exact Or.inr List.mem_cons_self
      · exact Or.inl ⟨i, w', (AList.lookup_erase_ne hi).trans hw', rfl⟩

theorem dropped_dropInode {inode : Nat} (hh : h ∈ k.dropped) :
    h ∈ (k.dropInode inode).dropped := by
  unfold dropInode
  split
  · exact List.mem_cons_of_mem _ hh
  · exact hh

@[simp] theorem rmCalls_dropInode (inode : Nat) :
    (k.dropInode inode).rmCalls = k.rmCalls := by
  unfold dropInode
  split <;> rfl

end InotifyKernel

/-! ## The invariant -/

namespace SubscriptionTable

variable {W : Type}

/-- Descriptors were removed only when no entry was left for them, and multimap and
kernel are in balance. -/
structure Counted (t : SubscriptionTable W) : Prop where
  unused : ∀ c ∈ t.kernel.rmCalls, c.descriptor ∉ c.remaining
  balanced : Balanced t.kernel.Holds (· ∈ t.kernel.dropped) t.mSubscriptions

theorem counted_start : (start : SubscriptionTable W).Counted where
  unused _ hc := absurd hc List.not_mem_nil
  balanced := Balanced.empty fun _ ⟨_, _, hw, _⟩ => by cases hw

variable {t : SubscriptionTable W} {faults : RmFaults}

/-- Calls for the descriptors that lost their last entry are fit to be logged. -/
theorem unused_append {calls : List RmCall} {erased kept : List (Nat × Nat)}
    (h : ∀ c ∈ calls, c.descriptor ∉ c.remaining) :
    ∀ c ∈ calls ++ (released erased kept).map (RmCall.mk · (kept.map Prod.fst)),
      c.descriptor ∉ c.remaining := by
  intro c hc
  rcases List.mem_append.mp hc with hc | hc
  · exact h c hc
  · obtain ⟨wd, hwd, rfl⟩ := List.mem_map.mp hc
    exact (mem_released.mp hwd).2

/-- The erasure loops, in a state where the kernel may hold one descriptor `wd` that
is about to get an entry and that the test spares. -/
theorem eraseSubscriptions_spec (hok : ∀ wd, faults wd = none)
    (hunused : ∀ c ∈ t.kernel.rmCalls, c.descriptor ∉ c.remaining)
    (test : Nat × Nat → Bool) (extra : List (Nat × Nat))
    (hspare : ∀ e ∈ t.mSubscriptions, test e = true → ¬ InUse extra e.1)
    (hb : Balanced t.kernel.Holds (· ∈ t.kernel.dropped) (t.mSubscriptions ++ extra)) :
    let t' := t.eraseSubscriptions faults test
    (∀ c ∈ t'.kernel.rmCalls, c.descriptor ∉ c.remaining) ∧
      Balanced t'.kernel.Holds (· ∈ t'.kernel.dropped) (t'.mSubscriptions ++ extra) := by
  intro t'
  obtain ⟨hholds, hdropped, hcalls⟩ := InotifyKernel.rmWatches_spec hok
    (t'.mSubscriptions.map Prod.fst)
    (released (t.mSubscriptions.filter test) t'.mSubscriptions) t.kernel
  have hsplit : ∀ h, InUse t.mSubscriptions h ↔
      InUse (t.mSubscriptions.filter test) h ∨ InUse t'.mSubscriptions h := by
    intro h
    constructor
    · intro hu
      obtain ⟨e, he, rfl⟩ := List.mem_map.mp hu
      cases ht : test e with
      | true => exact Or.inl (inUse_of_mem (List.mem_filter.mpr ⟨he, ht⟩))
      | false => exact Or.inr (inUse_of_mem (List.mem_filter.mpr ⟨he, by simp [ht]⟩))
    · rintro (hu | hu)
      · exact inUse_mono (fun e he => List.mem_of_mem_filter he) hu
      · exact inUse_mono (fun e he => List.mem_of_mem_filter he) hu
  constructor
  · show ∀ c ∈ t'.kernel.rmCalls, _
    rw [show t'.kernel.rmCalls = _ from hcalls]
    exact unused_append hunused
  · show Balanced _ (· ∈ t'.kernel.dropped) _
    rw [show t'.kernel.dropped = _ from hdropped]
    refine hb.release ?_ fun h => ?_
    · intro e he
      exact List.mem_append.mpr ((List.mem_append.mp he).imp_left List.mem_of_mem_filter)
    · rw [show t'.kernel.Holds h ↔ _ from hholds h, mem_released]
      refine and_congr_right fun _ => ?_
      rw [inUse_append, inUse_append, hsplit]
      constructor
      · rintro hrel ((hu | hu) | hu)
        · exact Or.inl (not_not.mp fun hk => hrel ⟨hu, hk⟩)
        · exact Or.inl hu
        · exact Or.inr hu
      · rintro himp ⟨hu, hk⟩
        obtain ⟨e, he, rfl⟩ := List.mem_map.mp hu
        obtain ⟨hmem, htest⟩ := List.mem_filter.mp he
        rcases himp (Or.inl (Or.inl hu)) with h' | h'
        · exact hk h'
        · exact hspare e hmem htest h'

theorem counted_eraseSubscriptions (hok : ∀ wd, faults wd = none) (h : t.Counted)
    (test : Nat × Nat → Bool) : (t.eraseSubscriptions faults test).Counted := by
  obtain ⟨hunused, hb⟩ := eraseSubscriptions_spec hok h.unused test []
    (fun _ _ _ => List.not_mem_nil) (by rw [List.append_nil]; exact h.balanced)
  rw [List.append_nil] at hb
  exact ⟨hunused, hb⟩

theorem counted_moveSubscriptions (h : t.Counted) (subscriptions : List Nat)
    (oldPath newPath : Str) : (t.moveSubscriptions subscriptions oldPath newPath).Counted :=
  ⟨h.unused, h.balanced⟩

/-! ## Each routine keeps it -/

variable [DecidableEq W]

/-- The kernel has the descriptor before its entry is there, so the entry to come
counts already. -/
theorem counted_track (hok : ∀ wd, faults wd = none) {watcher : W} {path : Str} {wd : Nat}
    (hunused : ∀ c ∈ t.kernel.rmCalls, c.descriptor ∉ c.remaining)
    (hb : Balanced t.kernel.Holds (· ∈ t.kernel.dropped)
      (t.mSubscriptions ++ [(wd, t.heap.length)])) :
    (t.track faults watcher path wd).Counted := by
  obtain ⟨hunused', hb'⟩ := eraseSubscriptions_spec hok hunused
    (fun e => t.subscriptionAt e.2 (fun sub =>
      sub.watcher == watcher && sub.path == path) && e.1 != wd) [(wd, t.heap.length)] (fun e _ htest hu => by
      rw [Bool.and_eq_true, bne_iff_ne] at htest
      exact htest.2 (List.mem_singleton.mp hu)) hb
  unfold track
  dsimp only
  split
  next htracked =>
      refine ⟨hunused', hb'.congr fun h => ?_⟩
      rw [inUse_append, or_iff_left_of_imp]
      intro hu
      obtain ⟨e, he, htest⟩ := List.any_eq_true.mp htracked
      rw [Bool.and_eq_true, beq_iff_eq] at htest
      rw [List.mem_singleton.mp hu, ← htest.2]
      exact inUse_of_mem (e := e) (List.mem_filter.mpr ⟨he, by simp [htest.2]⟩)
  next => exact ⟨hunused', hb'⟩

theorem counted_watchDir (hok : ∀ wd, faults wd = none) (h : t.Counted) {watcher : W}
    {mDir path : Str} {answer : WatchAnswer} {t' : SubscriptionTable W}
    (hw : t.watchDir faults watcher mDir path answer = .ok t') : t'.Counted := by
  cases answer with
  | fails errno => cases hw
  | resolves inode fresh =>
      cases hw
      refine counted_track hok ?_ ?_
      · show ∀ c ∈ (t.kernel.addWatch inode fresh _).2.rmCalls, _
        rw [InotifyKernel.rmCalls_addWatch]
        exact h.unused
      · show Balanced _ (· ∈ (t.kernel.addWatch inode fresh _).2.dropped) _
        rw [InotifyKernel.dropped_addWatch]
        exact h.balanced.acquire _ fun _ => t.kernel.holds_addWatch inode fresh _

theorem counted_handleOverflow (hok : ∀ wd, faults wd = none) (h : t.Counted)
    (mDir : W → Str) : (t.handleOverflow faults mDir).Counted := by
  unfold handleOverflow
  induction t.watchers generalizing t with
  | nil => exact h
  | cons w ws ih => exact ih (counted_eraseSubscriptions hok h _)

/-- `unsubscribe` removes the descriptor before it erases the last entry. -/
theorem rmWatch_last (hok : ∀ wd, faults wd = none) {before rest : List (Nat × Nat)}
    {e : Nat × Nat} {k : InotifyKernel}
    (hone : (count (before ++ e :: rest) e.1 == 1) = true)
    (hunused : ∀ c ∈ k.rmCalls, c.descriptor ∉ c.remaining)
    (hb : Balanced k.Holds (· ∈ k.dropped) (before ++ e :: rest)) :
    let k' := (k.rmWatch faults ((before ++ rest).map Prod.fst) e.1).2
    (∀ c ∈ k'.rmCalls, c.descriptor ∉ c.remaining) ∧
      Balanced k'.Holds (· ∈ k'.dropped) (before ++ rest) := by
  have hlast := count_eq_one_iff.mp (beq_iff_eq.mp hone)
  constructor
  · intro c hc
    rw [InotifyKernel.rmCalls_rmWatch] at hc
    rcases List.mem_append.mp hc with hc | hc
    · exact hunused c hc
    · rw [List.mem_singleton.mp hc]
      exact hlast
  · rw [InotifyKernel.dropped_rmWatch]
    exact hb.release_last hlast fun h => InotifyKernel.holds_rmWatch (hok e.1)

theorem counted_unsubscribeLoop (hok : ∀ wd, faults wd = none) (own : Nat × Nat → Bool)
    (before : List (Nat × Nat)) {rest : List (Nat × Nat)} {k : InotifyKernel}
    (hunused : ∀ c ∈ k.rmCalls, c.descriptor ∉ c.remaining)
    (hb : Balanced k.Holds (· ∈ k.dropped) (before ++ rest)) :
    let r := unsubscribeLoop faults own before rest k
    (∀ c ∈ r.2.2.rmCalls, c.descriptor ∉ c.remaining) ∧
      Balanced r.2.2.Holds (· ∈ r.2.2.dropped) r.2.1 := by
  fun_induction unsubscribeLoop faults own before rest k with
  | case1 before k =>
      rw [List.append_nil] at hb
      exact ⟨hunused, hb⟩
  | case2 before e rest k hown hone k' hrm ih =>
      obtain ⟨hunused', hb'⟩ := rmWatch_last hok hone hunused hb
      rw [hrm] at hunused' hb'
      exact ih hunused' hb'
  | case3 before e rest k hown hone errno k' hrm herr =>
      have hval := InotifyKernel.errno_rmWatch (k := k)
        ((before ++ rest).map Prod.fst) (hok e.1)
      rw [hrm] at hval
      rcases hval with hval | hval
      · cases hval
      · cases hval
        simp at herr
  | case4 before e rest k hown hone errno k' hrm herr ih =>
      obtain ⟨hunused', hb'⟩ := rmWatch_last hok hone hunused hb
      rw [hrm] at hunused' hb'
      exact ih hunused' hb'
  | case5 before e rest k hown hmany ih =>
      refine ih hunused (hb.release_shared (not_not.mp fun hlast => hmany ?_))
      exact beq_iff_eq.mpr (count_eq_one_iff.mpr hlast)
  | case6 before e rest k hown ih =>
      exact ih hunused (by rw [← List.append_cons]; exact hb)

theorem counted_unsubscribe (hok : ∀ wd, faults wd = none) (h : t.Counted) (watcher : W) :
    (t.unsubscribe faults watcher).2.Counted := by
  obtain ⟨hunused, hb⟩ := counted_unsubscribeLoop hok
    (fun e => t.subscriptionAt e.2 fun sub => sub.watcher == watcher) [] h.unused h.balanced
  exact ⟨hunused, hb⟩

/-! ## Runs -/

/-- One operation on the table, by any watcher, or the kernel dropping an inode. -/
inductive TableAction (W : Type) where
  | watchDir (watcher : W) (path : Str) (answer : WatchAnswer) (faults : RmFaults)
  | removeSubscriptions (watcher : W) (path : Str) (faults : RmFaults)
  | removeMovedSubscriptions (subscriptions : List Nat) (faults : RmFaults)
  | moveSubscriptions (subscriptions : List Nat) (oldPath newPath : Str)
  | handleOverflow (faults : RmFaults)
  | unsubscribe (watcher : W) (faults : RmFaults)
  | dropInode (inode : Nat)

/-- Every `inotify_rm_watch` of the operation succeeds or reports `EINVAL`. -/
def TableAction.Faultless : TableAction W → Prop
  | .watchDir _ _ _ faults | .removeSubscriptions _ _ faults
  | .removeMovedSubscriptions _ faults | .handleOverflow faults
  | .unsubscribe _ faults => ∀ wd, faults wd = none
  | .moveSubscriptions .. | .dropInode _ => True

/-- The table after an operation. A failed `watchDir` leaves it as it was. -/
def perform (mDir : W → Str) (t : SubscriptionTable W) :
    TableAction W → SubscriptionTable W
  | .watchDir watcher path answer faults =>
      match t.watchDir faults watcher (mDir watcher) path answer with
      | .ok t' => t'
      | .error _ => t
  | .removeSubscriptions watcher path faults =>
      t.removeSubscriptions faults watcher (mDir watcher) path
  | .removeMovedSubscriptions subscriptions faults =>
      t.removeMovedSubscriptions faults subscriptions
  | .moveSubscriptions subscriptions oldPath newPath =>
      t.moveSubscriptions subscriptions oldPath newPath
  | .handleOverflow faults => t.handleOverflow faults mDir
  | .unsubscribe watcher faults => (t.unsubscribe faults watcher).2
  | .dropInode inode => { t with kernel := t.kernel.dropInode inode }

/-- Any operations in any order. -/
def tableMachine (mDir : W → Str) : Machine (SubscriptionTable W) (TableAction W) :=
  .ofStep start fun t a => some (t.perform mDir a)

theorem counted_perform {mDir : W → Str} {a : TableAction W} (h : t.Counted)
    (hok : a.Faultless) : (t.perform mDir a).Counted := by
  cases a with
  | watchDir watcher path answer faults =>
      show (match t.watchDir faults watcher (mDir watcher) path answer with
        | .ok t' => t'
        | .error _ => t).Counted
      cases hw : t.watchDir faults watcher (mDir watcher) path answer with
      | error errno => exact h
      | ok t' => exact counted_watchDir hok h hw
  | removeSubscriptions watcher path faults => exact counted_eraseSubscriptions hok h _
  | removeMovedSubscriptions subscriptions faults => exact counted_eraseSubscriptions hok h _
  | moveSubscriptions subscriptions oldPath newPath => exact counted_moveSubscriptions h ..
  | handleOverflow faults => exact counted_handleOverflow hok h mDir
  | unsubscribe watcher faults => exact counted_unsubscribe hok h watcher
  | dropInode inode =>
      refine ⟨?_, h.balanced.lose (fun _ => InotifyKernel.holds_dropInode)
        (fun _ => InotifyKernel.holds_or_dropped) fun _ => InotifyKernel.dropped_dropInode⟩
      show ∀ c ∈ (t.kernel.dropInode inode).rmCalls, _
      rw [InotifyKernel.rmCalls_dropInode]
      exact h.unused

/-- **Descriptors are counted.** In every run, a descriptor is removed only when no
entry is left for it, every descriptor the kernel holds has an entry, and every entry's
descriptor is held unless the kernel dropped it by itself. -/
theorem descriptors_counted (mDir : W → Str) {t : SubscriptionTable W}
    (h : (tableMachine mDir).Reach (fun _ a => a.Faultless) t) :
    (∀ c ∈ t.kernel.rmCalls, c.descriptor ∉ c.remaining) ∧
      (∀ wd, t.kernel.Holds wd → wd ∈ t.descriptors) ∧
      ∀ wd ∈ t.descriptors, t.kernel.Holds wd ∨ wd ∈ t.kernel.dropped := by
  have hcounted : t.Counted := by
    refine h.invariant ?_ ?_
    · rintro s rfl
      exact counted_start
    · rintro s a s' hs hok hstep
      cases hstep
      exact counted_perform hs hok
  exact ⟨hcounted.unused, hcounted.balanced.used, hcounted.balanced.live⟩

/-- Two watchers share the directory of one; the other unsubscribes. -/
theorem descriptors_counted_shared :
    let mDir : Bool → Str := fun _ => [47, 97]
    let t := ((start.perform mDir (.watchDir true [47, 97] (.resolves 7 1) fun _ => none)).perform
      mDir (.watchDir false [47, 97] (.resolves 7 2) fun _ => none)).perform
      mDir (.unsubscribe true fun _ => none)
    t.descriptors = [1] ∧ t.kernel.rmCalls = [] ∧
      (∀ c ∈ t.kernel.rmCalls, c.descriptor ∉ c.remaining) ∧
      (∀ wd, t.kernel.Holds wd → wd ∈ t.descriptors) ∧
      ∀ wd ∈ t.descriptors, t.kernel.Holds wd ∨ wd ∈ t.kernel.dropped :=
  ⟨by decide, by decide, descriptors_counted (fun _ => [47, 97])
    (.step (.step (.step (.init rfl)
      (a := .watchDir true [47, 97] (.resolves 7 1) fun _ => none) (fun _ => rfl) rfl)
      (a := .watchDir false [47, 97] (.resolves 7 2) fun _ => none) (fun _ => rfl) rfl)
      (a := .unsubscribe true fun _ => none) (fun _ => rfl) rfl)⟩

end SubscriptionTable

end NativeWatcher
