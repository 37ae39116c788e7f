import NativeWatcher.Lib.Machine
import Mathlib.Data.Finset.Basic
import Mathlib.Logic.Function.Basic

/-!
# The subscriptions of a backend

`watch` and `unwatch` with one step for each critical section of `mMutex`, any
number of threads, and the teardown of a watcher by the platform. `live` is what the
operating system has: the watches of the last successful `subscribe`, if nothing has
removed them since.

`watch` releases the lock between `subscribe` and the insertion into
`mSubscriptions`, while `invalidate` only records watchers inserted already. A
teardown in that window, of a watcher subscribed for the first time, is not recorded
anywhere.
-/

namespace NativeWatcher

/-! ## States -/

/-- Where a thread stands between two critical sections. -/
inductive ThreadState (W : Type) where
  | idle
  | watching (w : W) (wasInvalid : Bool)
  | unwatching (w : W)

structure BackendState (W : Type) where
  mSubscriptions : Finset W
  mPendingSubscriptions : Finset W
  mInvalidSubscriptions : Finset W
  mNeedsResubscribe : W → Bool
  live : W → Bool
  thread : Nat → ThreadState W

/-- How `subscribe` ends: with its watches installed, cancelled after removing them
and setting `mNeedsResubscribe`, or by an exception after removing them. -/
inductive SubscribeOutcome where
  | installed
  | cancelled
  | throws

/-- How `finishSubscribe` ends. -/
inductive FinishOutcome where
  | started
  | cancelled
  | throws

/-- How `unsubscribe` ends. An exception may come after some of the watches are
removed. -/
inductive UnsubscribeOutcome where
  | removed
  | throws (someRemoved : Bool)

/-- One critical section. -/
inductive BackendAction (W : Type) where
  | watch (thread : Nat) (w : W) (isCancelled : Bool) (o : SubscribeOutcome)
  | watchFinish (thread : Nat) (o : FinishOutcome)
  | unwatch (thread : Nat) (w : W) (keep : Bool) (o : UnsubscribeOutcome)
  | unwatchFinish (thread : Nat)
  | teardown (w : W)

namespace BackendState

variable {W : Type}

def start : BackendState W :=
  ⟨∅, ∅, ∅, fun _ => false, fun _ => false, fun _ => .idle⟩

def setThread (s : BackendState W) (t : Nat) (p : ThreadState W) : BackendState W :=
  { s with thread := Function.update s.thread t p }

variable [DecidableEq W]

def setLive (s : BackendState W) (w : W) (b : Bool) : BackendState W :=
  { s with live := Function.update s.live w b }

def setNeeds (s : BackendState W) (w : W) (b : Bool) : BackendState W :=
  { s with mNeedsResubscribe := Function.update s.mNeedsResubscribe w b }

/-- `invalidate`. -/
def invalidate (s : BackendState W) (w : W) : BackendState W :=
  if w ∈ s.mSubscriptions then
    { s with mInvalidSubscriptions := insert w s.mInvalidSubscriptions }
  else s

/-- The error paths of `watch`: an existing subscription is invalid again, a new one
is forgotten. -/
def failWatch (s : BackendState W) (w : W) (wasInvalid : Bool) : BackendState W :=
  let s := { s with mPendingSubscriptions := s.mPendingSubscriptions.erase w }
  if wasInvalid then
    { s with mInvalidSubscriptions := insert w s.mInvalidSubscriptions }
  else s

/-- `watch` up to `lock.unlock()`. -/
def watchBegin (s : BackendState W) (t : Nat) (w : W) (isCancelled : Bool)
    (o : SubscribeOutcome) : BackendState W :=
  if isCancelled then s
  else
    let isNew := decide (w ∉ s.mSubscriptions)
    let needsResubscribe := s.mNeedsResubscribe w
    let s := s.setNeeds w false
    let wasInvalid := !isNew && (decide (w ∈ s.mInvalidSubscriptions) || needsResubscribe)
    let s := if isNew then s
      else { s with mInvalidSubscriptions := s.mInvalidSubscriptions.erase w }
    if isNew || wasInvalid then
      let s := { s with mPendingSubscriptions := insert w s.mPendingSubscriptions }
      match o with
      | .installed => (s.setLive w true).setThread t (.watching w wasInvalid)
      | .cancelled =>
          ((s.setNeeds w true).setLive w false).setThread t (.watching w wasInvalid)
      | .throws => (s.setLive w false).failWatch w wasInvalid
    else s

/-- `subscribe` is reached and throws, and `watch` with it. -/
def watchThrows (s : BackendState W) (w : W) (isCancelled : Bool) :
    SubscribeOutcome → Bool
  | .throws =>
      !isCancelled && (decide (w ∉ s.mSubscriptions) ||
        decide (w ∈ s.mInvalidSubscriptions) || s.mNeedsResubscribe w)
  | _ => false

/-- `watch` from `finishSubscribe` on. -/
def watchFinish (s : BackendState W) (t : Nat) (w : W) (wasInvalid : Bool)
    (o : FinishOutcome) : BackendState W :=
  let s := s.setThread t .idle
  let insertSubscription (s : BackendState W) : BackendState W :=
    { s with
      mPendingSubscriptions := s.mPendingSubscriptions.erase w
      mSubscriptions := insert w s.mSubscriptions }
  match o with
  | .started => insertSubscription s
  | .cancelled => insertSubscription ((s.setNeeds w true).setLive w false)
  | .throws => (s.setLive w false).failWatch w wasInvalid

/-- `unwatch` up to `lock.unlock()`; `keep` is `!force && hasCallbacks()`. -/
def unwatchBegin (s : BackendState W) (t : Nat) (w : W) (keep : Bool)
    (o : UnsubscribeOutcome) : BackendState W :=
  if keep then s
  else
    let deleted := decide (w ∈ s.mSubscriptions)
    let wasInvalid := decide (w ∈ s.mInvalidSubscriptions)
    let s := { s with
      mSubscriptions := s.mSubscriptions.erase w
      mInvalidSubscriptions := s.mInvalidSubscriptions.erase w }
    if deleted then
      match o with
      | .removed => (s.setLive w false).setThread t (.unwatching w)
      | .throws someRemoved =>
          let s := if someRemoved then s.setLive w false else s
          let s := { s with mSubscriptions := insert w s.mSubscriptions }
          if wasInvalid then
            { s with mInvalidSubscriptions := insert w s.mInvalidSubscriptions }
          else s
    else s

/-- One step, `none` where it cannot happen: the thread is elsewhere, or waits on
`mPendingCondition`. -/
def step (s : BackendState W) : BackendAction W → Option (BackendState W)
  | .watch t w isCancelled o =>
      match s.thread t with
      | .idle =>
          if w ∈ s.mPendingSubscriptions then none else some (s.watchBegin t w isCancelled o)
      | _ => none
  | .watchFinish t o =>
      match s.thread t with
      | .watching w wasInvalid => some (s.watchFinish t w wasInvalid o)
      | _ => none
  | .unwatch t w keep o =>
      match s.thread t with
      | .idle =>
          if w ∈ s.mPendingSubscriptions then none else some (s.unwatchBegin t w keep o)
      | _ => none
  | .unwatchFinish t =>
      match s.thread t with
      | .unwatching _ => some (s.setThread t .idle)
      | _ => none
  | .teardown w => some ((s.setLive w false).invalidate w)

end BackendState

/-- The interleavings of any number of threads. -/
def backendMachine (W : Type) [DecidableEq W] :
    Machine (BackendState W) (BackendAction W) :=
  .ofStep .start BackendState.step

/-! ## Validity -/

section Validity

variable {W : Type}

/-- A watcher the backend regards as valid. -/
def RegardedValid (s : BackendState W) (w : W) : Prop :=
  w ∈ s.mSubscriptions ∧ w ∉ s.mPendingSubscriptions ∧ w ∉ s.mInvalidSubscriptions ∧
    s.mNeedsResubscribe w = false

def ValidIsLive (s : BackendState W) : Prop :=
  ∀ w, RegardedValid s w → s.live w = true

/-- What a step must avoid: a teardown of a pending watcher that is not subscribed
yet, and an `unsubscribe` that fails half-way on a watcher not known to be invalid. -/
def Recorded (s : BackendState W) : BackendAction W → Prop
  | .teardown w => w ∈ s.mPendingSubscriptions → w ∈ s.mSubscriptions
  | .unwatch _ w _ (.throws true) =>
      w ∈ s.mInvalidSubscriptions ∨ s.mNeedsResubscribe w = true
  | _ => True

/-- A pending watcher is live or some mark of it says otherwise. -/
def Marked (s : BackendState W) (w : W) : Prop :=
  s.live w = true ∨ s.mNeedsResubscribe w = true ∨
    (w ∈ s.mSubscriptions ∧ w ∈ s.mInvalidSubscriptions)

structure BackendInv (s : BackendState W) : Prop where
  valid : ValidIsLive s
  pending : ∀ t w i, s.thread t = .watching w i → w ∈ s.mPendingSubscriptions
  fresh : ∀ t w i, s.thread t = .watching w i → (i = true ↔ w ∈ s.mSubscriptions)
  marked : ∀ t w i, s.thread t = .watching w i → Marked s w
  unique : ∀ t t' w i i', s.thread t = .watching w i → s.thread t' = .watching w i' → t = t'

variable {s : BackendState W} {t : Nat} {w : W}

/-- The two `watching` threads of a state agree once their watchers do. -/
theorem BackendInv.of_idle (h : BackendInv s) (hw : w ∉ s.mPendingSubscriptions)
    {t' : Nat} {i : Bool} : s.thread t' ≠ .watching w i :=
  fun ht => hw (h.pending t' w i ht)

theorem backendInv_start : BackendInv (BackendState.start : BackendState W) := by
  refine ⟨?_, ?_, ?_, ?_, ?_⟩
  · rintro w ⟨h, -⟩
    exact absurd h (Finset.notMem_empty w)
  all_goals
    intros
    simp_all [BackendState.start]

/-- A step that touches the sets and flags of one watcher, and no thread, keeps what
the invariant says of the other watchers. -/
@[mk_iff]
structure SameElsewhere (s s' : BackendState W) (w : W) : Prop where
  subs : ∀ v ≠ w, v ∈ s'.mSubscriptions ↔ v ∈ s.mSubscriptions
  pending : ∀ v ≠ w, v ∈ s'.mPendingSubscriptions ↔ v ∈ s.mPendingSubscriptions
  invalid : ∀ v ≠ w, v ∈ s'.mInvalidSubscriptions ↔ v ∈ s.mInvalidSubscriptions
  needs : ∀ v ≠ w, s'.mNeedsResubscribe v = s.mNeedsResubscribe v
  live : ∀ v ≠ w, s'.live v = s.live v

theorem SameElsewhere.refl (s : BackendState W) (w : W) : SameElsewhere s s w :=
  ⟨fun _ _ => Iff.rfl, fun _ _ => Iff.rfl, fun _ _ => Iff.rfl, fun _ _ => rfl,
    fun _ _ => rfl⟩

variable {s' : BackendState W}

theorem SameElsewhere.valid (hs : SameElsewhere s s' w) (h : ValidIsLive s)
    (hw : RegardedValid s' w → s'.live w = true) : ValidIsLive s' := by
  intro v hv
  by_cases hvw : v = w
  · subst hvw
    exact hw hv
  · rw [hs.live v hvw]
    refine h v ⟨(hs.subs v hvw).mp hv.1, fun hp => hv.2.1 ((hs.pending v hvw).mpr hp),
      fun hi => hv.2.2.1 ((hs.invalid v hvw).mpr hi), ?_⟩
    rw [← hs.needs v hvw]
    exact hv.2.2.2

theorem SameElsewhere.marked (hs : SameElsewhere s s' w) {v : W} (hv : v ≠ w)
    (h : Marked s v) : Marked s' v := by
  unfold Marked
  rw [hs.live v hv, hs.needs v hv, hs.subs v hv, hs.invalid v hv]
  exact h

/-- No thread enters a window, and none is in that of `w`. -/
theorem BackendInv.outside (h : BackendInv s) (hs : SameElsewhere s s' w)
    (hthread : ∀ t v i, s'.thread t = .watching v i → s.thread t = .watching v i)
    (hfree : ∀ t i, s.thread t ≠ .watching w i)
    (hw : RegardedValid s' w → s'.live w = true) : BackendInv s' := by
  have hne : ∀ t v i, s'.thread t = .watching v i → v ≠ w := by
    rintro t v i ht rfl
    exact hfree t i (hthread t v i ht)
  refine ⟨hs.valid h.valid hw, ?_, ?_, ?_, ?_⟩
  · intro t v i ht
    exact (hs.pending v (hne t v i ht)).mpr (h.pending t v i (hthread t v i ht))
  · intro t v i ht
    rw [hs.subs v (hne t v i ht)]
    exact h.fresh t v i (hthread t v i ht)
  · intro t v i ht
    exact hs.marked (hne t v i ht) (h.marked t v i (hthread t v i ht))
  · intro t t' v i i' ht ht'
    exact h.unique t t' v i i' (hthread t v i ht) (hthread t' v i' ht')

/-- A thread that is put elsewhere than into a window. -/
theorem watching_of_update {p : ThreadState W} (hp : ∀ v i, p ≠ .watching v i)
    {t t' : Nat} {v : W} {i : Bool}
    (h : Function.update s.thread t p t' = .watching v i) :
    t' ≠ t ∧ s.thread t' = .watching v i := by
  by_cases htt : t' = t
  · subst htt
    rw [Function.update_self] at h
    exact absurd h (hp v i)
  · rw [Function.update_of_ne htt] at h
    exact ⟨htt, h⟩

theorem BackendInv.park (h : BackendInv s) (t : Nat) : BackendInv (s.setThread t .idle) := by
  have hthread : ∀ t' v i, (s.setThread t .idle).thread t' = .watching v i →
      s.thread t' = .watching v i :=
    fun t' v i ht => (watching_of_update (by simp) ht).2
  exact ⟨h.valid, fun t v i ht => h.pending t v i (hthread t v i ht),
    fun t v i ht => h.fresh t v i (hthread t v i ht),
    fun t v i ht => h.marked t v i (hthread t v i ht),
    fun t t' v i i' ht ht' => h.unique t t' v i i' (hthread t v i ht) (hthread t' v i' ht')⟩

/-- A thread enters the window of `w`. -/
theorem BackendInv.enter (h : BackendInv s) (hs : SameElsewhere s s' w) {i : Bool}
    (hthread : s'.thread = Function.update s.thread t (.watching w i))
    (hfree : ∀ t i, s.thread t ≠ .watching w i)
    (hpending : w ∈ s'.mPendingSubscriptions) (hfresh : i = true ↔ w ∈ s'.mSubscriptions)
    (hmarked : Marked s' w) : BackendInv s' := by
  have hcases : ∀ t' v j, s'.thread t' = .watching v j →
      (t' = t ∧ v = w ∧ j = i) ∨ (t' ≠ t ∧ v ≠ w ∧ s.thread t' = .watching v j) := by
    intro t' v j ht
    rw [hthread] at ht
    by_cases htt : t' = t
    · subst htt
      rw [Function.update_self] at ht
      cases ht
      exact Or.inl ⟨rfl, rfl, rfl⟩
    · rw [Function.update_of_ne htt] at ht
      refine Or.inr ⟨htt, ?_, ht⟩
      rintro rfl
      exact hfree t' j ht
  refine ⟨hs.valid h.valid fun hv => absurd hpending hv.2.1, ?_, ?_, ?_, ?_⟩
  · intro t' v j ht
    rcases hcases t' v j ht with ⟨rfl, rfl, rfl⟩ | ⟨_, hv, ht⟩
    · exact hpending
    · exact (hs.pending v hv).mpr (h.pending t' v j ht)
  · intro t' v j ht
    rcases hcases t' v j ht with ⟨rfl, rfl, rfl⟩ | ⟨_, hv, ht⟩
    · exact hfresh
    · rw [hs.subs v hv]
      exact h.fresh t' v j ht
  · intro t' v j ht
    rcases hcases t' v j ht with ⟨rfl, rfl, rfl⟩ | ⟨_, hv, ht⟩
    · exact hmarked
    · exact hs.marked hv (h.marked t' v j ht)
  · intro t₁ t₂ v j j' h₁ h₂
    rcases hcases t₁ v j h₁ with ⟨rfl, rfl, rfl⟩ | ⟨_, hv, h₁⟩ <;>
      rcases hcases t₂ v j' h₂ with ⟨rfl, hw, rfl⟩ | ⟨_, hw, h₂⟩
    · rfl
    · exact absurd rfl hw
    · exact absurd hw hv
    · exact h.unique t₁ t₂ v j j' h₁ h₂

/-- The thread in the window of `w` leaves it. -/
theorem BackendInv.leave (h : BackendInv s) (hs : SameElsewhere s s' w) {i : Bool}
    {p : ThreadState W} (hp : ∀ v j, p ≠ .watching v j)
    (ht : s.thread t = .watching w i)
    (hthread : s'.thread = Function.update s.thread t p)
    (hw : RegardedValid s' w → s'.live w = true) : BackendInv s' := by
  have hcases : ∀ t' v j, s'.thread t' = .watching v j →
      v ≠ w ∧ s.thread t' = .watching v j := by
    intro t' v j ht'
    rw [hthread] at ht'
    obtain ⟨htt, ht'⟩ := watching_of_update hp ht'
    refine ⟨?_, ht'⟩
    rintro rfl
    exact htt (h.unique t' t v j i ht' ht)
  refine ⟨hs.valid h.valid hw, ?_, ?_, ?_, ?_⟩
  · intro t' v j ht'
    obtain ⟨hv, ht'⟩ := hcases t' v j ht'
    exact (hs.pending v hv).mpr (h.pending t' v j ht')
  · intro t' v j ht'
    obtain ⟨hv, ht'⟩ := hcases t' v j ht'
    rw [hs.subs v hv]
    exact h.fresh t' v j ht'
  · intro t' v j ht'
    obtain ⟨hv, ht'⟩ := hcases t' v j ht'
    exact hs.marked hv (h.marked t' v j ht')
  · intro t₁ t₂ v j j' h₁ h₂
    exact h.unique t₁ t₂ v j j' (hcases t₁ v j h₁).2 (hcases t₂ v j' h₂).2

/-! ## What each critical section does -/

variable [DecidableEq W]

/-- The next `watch` of a watcher without watches installs them again. -/
def ResubscribesDead (s : BackendState W) : Prop :=
  ∀ t w s', s.live w = false → s.step (.watch t w false .installed) = some s' →
    s'.live w = true

/-- `watch` up to the unlock either leaves the threads and cannot make `w` valid, or
enters the window of `w`. -/
theorem watchBegin_cases (s : BackendState W) (t : Nat) (w : W) (isCancelled : Bool)
    (o : SubscribeOutcome) :
    SameElsewhere s (s.watchBegin t w isCancelled o) w ∧
      (((s.watchBegin t w isCancelled o).thread = s.thread ∧
          (RegardedValid (s.watchBegin t w isCancelled o) w → RegardedValid s w ∧
            (s.watchBegin t w isCancelled o).live w = s.live w)) ∨
        ∃ i, (s.watchBegin t w isCancelled o).thread =
            Function.update s.thread t (.watching w i) ∧
          w ∈ (s.watchBegin t w isCancelled o).mPendingSubscriptions ∧
          (i = true ↔ w ∈ (s.watchBegin t w isCancelled o).mSubscriptions) ∧
          Marked (s.watchBegin t w isCancelled o) w) := by
  cases isCancelled with
  | true => exact ⟨.refl s w, Or.inl ⟨rfl, fun h => ⟨h, rfl⟩⟩⟩
  | false =>
      by_cases hsub : w ∈ s.mSubscriptions <;> by_cases hinv : w ∈ s.mInvalidSubscriptions <;>
        cases hneeds : s.mNeedsResubscribe w <;> cases o <;>
        simp +contextual [BackendState.watchBegin, BackendState.failWatch, BackendState.setNeeds,
          BackendState.setLive, BackendState.setThread, hsub, hinv, hneeds, RegardedValid,
          Marked, sameElsewhere_iff]

/-- `watch` from `finishSubscribe` on cannot make an unmarked dead watcher valid. -/
theorem watchFinish_cases (hmarked : Marked s w) {i : Bool}
    (hfresh : i = true ↔ w ∈ s.mSubscriptions) (t : Nat) (o : FinishOutcome) :
    SameElsewhere s (s.watchFinish t w i o) w ∧
      (s.watchFinish t w i o).thread = Function.update s.thread t .idle ∧
      (RegardedValid (s.watchFinish t w i o) w → (s.watchFinish t w i o).live w = true) := by
  unfold Marked at hmarked
  cases i <;> cases o <;>
    simp +contextual [BackendState.watchFinish, BackendState.failWatch,
      BackendState.setNeeds, BackendState.setLive, BackendState.setThread, RegardedValid,
      sameElsewhere_iff] at hmarked hfresh ⊢ <;>
    simp_all
  all_goals
    intro hinvalid hneeds
    simpa [hinvalid, hneeds] using hmarked

/-- `unwatch` removes the watcher, or puts it back as it was. -/
theorem unwatchBegin_cases (hvalid : ValidIsLive s) {keep : Bool} {o : UnsubscribeOutcome}
    (hok : Recorded s (.unwatch t w keep o)) :
    SameElsewhere s (s.unwatchBegin t w keep o) w ∧
      ((s.unwatchBegin t w keep o).thread = s.thread ∨
        (s.unwatchBegin t w keep o).thread = Function.update s.thread t (.unwatching w)) ∧
      (RegardedValid (s.unwatchBegin t w keep o) w →
        (s.unwatchBegin t w keep o).live w = true) := by
  have hw := hvalid w
  cases keep with
  | true => exact ⟨.refl s w, Or.inl rfl, hw⟩
  | false =>
      by_cases hsub : w ∈ s.mSubscriptions <;> by_cases hinv : w ∈ s.mInvalidSubscriptions <;>
        rcases o with _ | _ | _ <;>
        simp_all +contextual [BackendState.unwatchBegin, BackendState.setLive,
          BackendState.setThread, RegardedValid, sameElsewhere_iff, Recorded]

theorem teardown_elsewhere (s : BackendState W) (w : W) :
    SameElsewhere s ((s.setLive w false).invalidate w) w := by
  by_cases hsub : w ∈ s.mSubscriptions <;>
    simp +contextual [BackendState.setLive, BackendState.invalidate, hsub, sameElsewhere_iff]

theorem invalidate_frame (b : BackendState W) (w : W) :
    (b.invalidate w).mSubscriptions = b.mSubscriptions ∧
      (b.invalidate w).mPendingSubscriptions = b.mPendingSubscriptions ∧
      (b.invalidate w).thread = b.thread := by
  unfold BackendState.invalidate
  split <;> exact ⟨rfl, rfl, rfl⟩

theorem watchBegin_subs (b : BackendState W) (t : Nat) (w : W) (isCancelled : Bool)
    (o : SubscribeOutcome) :
    (b.watchBegin t w isCancelled o).mSubscriptions = b.mSubscriptions := by
  cases isCancelled with
  | true => rfl
  | false =>
      by_cases hsub : w ∈ b.mSubscriptions <;> by_cases hinv : w ∈ b.mInvalidSubscriptions <;>
        cases hneeds : b.mNeedsResubscribe w <;> cases o <;>
        simp [BackendState.watchBegin, BackendState.failWatch, BackendState.setNeeds,
          BackendState.setLive, BackendState.setThread, hsub, hinv, hneeds]

theorem watchBegin_throws_thread {b : BackendState W} {isCancelled : Bool}
    {o : SubscribeOutcome} (h : b.watchThrows w isCancelled o = true) :
    (b.watchBegin t w isCancelled o).thread = b.thread := by
  cases o with
  | installed => exact Bool.noConfusion h
  | cancelled => exact Bool.noConfusion h
  | throws =>
      by_cases hsub : w ∈ b.mSubscriptions <;> by_cases hinv : w ∈ b.mInvalidSubscriptions <;>
        cases hneeds : b.mNeedsResubscribe w <;> cases isCancelled <;>
        simp [BackendState.watchBegin, BackendState.failWatch, BackendState.setNeeds,
          BackendState.setLive, hsub, hinv, hneeds]

theorem watchFinish_thread (b : BackendState W) (t : Nat) (w : W) (i : Bool)
    (o : FinishOutcome) :
    (b.watchFinish t w i o).thread = Function.update b.thread t .idle := by
  cases i <;> cases o <;> rfl

theorem unwatchBegin_subs {b : BackendState W} {keep : Bool} {o : UnsubscribeOutcome} {v : W}
    (hv : v ∈ (b.unwatchBegin t w keep o).mSubscriptions) : v ∈ b.mSubscriptions := by
  cases keep with
  | true => exact hv
  | false =>
      by_cases hsub : w ∈ b.mSubscriptions <;> by_cases hinv : w ∈ b.mInvalidSubscriptions <;>
        rcases o with _ | _ | _ <;>
        simp [BackendState.unwatchBegin, BackendState.setLive, BackendState.setThread, hsub,
          hinv] at hv <;>
        grind

theorem unwatchBegin_pending (b : BackendState W) (t : Nat) (w : W) (keep : Bool)
    (o : UnsubscribeOutcome) :
    (b.unwatchBegin t w keep o).mPendingSubscriptions = b.mPendingSubscriptions := by
  cases keep with
  | true => rfl
  | false =>
      by_cases hsub : w ∈ b.mSubscriptions <;> by_cases hinv : w ∈ b.mInvalidSubscriptions <;>
        rcases o with _ | _ | _ <;>
        simp [BackendState.unwatchBegin, BackendState.setLive, BackendState.setThread, hsub,
          hinv]

theorem unwatchBegin_thread (b : BackendState W) (t : Nat) (w : W) (keep : Bool)
    (o : UnsubscribeOutcome) :
    (b.unwatchBegin t w keep o).thread = b.thread ∨
      (b.unwatchBegin t w keep o).thread = Function.update b.thread t (.unwatching w) := by
  cases keep with
  | true => exact Or.inl rfl
  | false =>
      by_cases hsub : w ∈ b.mSubscriptions <;> by_cases hinv : w ∈ b.mInvalidSubscriptions <;>
        rcases o with _ | _ | _ <;>
        simp [BackendState.unwatchBegin, BackendState.setLive, BackendState.setThread, hsub,
          hinv]

/-! ## One step -/

theorem backendInv_teardown (h : BackendInv s) (hok : Recorded s (.teardown w)) :
    BackendInv ((s.setLive w false).invalidate w) := by
  have hs := teardown_elsewhere s w
  have hthread : ((s.setLive w false).invalidate w).thread = s.thread := by
    unfold BackendState.invalidate
    split <;> rfl
  have hpending : ((s.setLive w false).invalidate w).mPendingSubscriptions =
      s.mPendingSubscriptions := by
    unfold BackendState.invalidate
    split <;> rfl
  have hsubs : ((s.setLive w false).invalidate w).mSubscriptions = s.mSubscriptions := by
    unfold BackendState.invalidate
    split <;> rfl
  -- A subscribed watcher is now known to be invalid.
  have hinvalid : w ∈ s.mSubscriptions →
      w ∈ ((s.setLive w false).invalidate w).mInvalidSubscriptions := by
    intro hw
    have hw' : w ∈ (s.setLive w false).mSubscriptions := hw
    rw [BackendState.invalidate, if_pos hw']
    exact Finset.mem_insert_self ..
  refine ⟨hs.valid h.valid fun hv => ?_, ?_, ?_, ?_, ?_⟩
  · exact absurd (hinvalid (hsubs ▸ hv.1)) hv.2.2.1
  · intro t v i ht
    rw [hpending]
    exact h.pending t v i (hthread ▸ ht)
  · intro t v i ht
    rw [hsubs]
    exact h.fresh t v i (hthread ▸ ht)
  · intro t v i ht
    rw [hthread] at ht
    by_cases hv : v = w
    · subst hv
      have hw := hok (h.pending t v i ht)
      exact Or.inr (Or.inr ⟨hsubs.symm ▸ hw, hinvalid hw⟩)
    · exact hs.marked hv (h.marked t v i ht)
  · intro t t' v i i' ht ht'
    exact h.unique t t' v i i' (hthread ▸ ht) (hthread ▸ ht')

theorem backendInv_step {a : BackendAction W} (h : BackendInv s) (hok : Recorded s a)
    (hstep : s.step a = some s') : BackendInv s' := by
  cases a with
  | watch t w isCancelled o =>
      simp only [BackendState.step] at hstep
      split at hstep
      next hidle =>
          split at hstep
          · cases hstep
          next hw =>
              obtain rfl := Option.some.inj hstep
              have hfree : ∀ t i, s.thread t ≠ .watching w i := fun t i => h.of_idle hw
              obtain ⟨hs, ⟨hthread, hvalid⟩ | ⟨i, hthread, hp, hfresh, hmarked⟩⟩ :=
                watchBegin_cases s t w isCancelled o
              · refine h.outside hs (fun _ _ _ ht => hthread ▸ ht) hfree fun hv => ?_
                rw [(hvalid hv).2]
                exact h.valid w (hvalid hv).1
              · exact h.enter hs hthread hfree hp hfresh hmarked
      next => cases hstep
  | watchFinish t o =>
      simp only [BackendState.step] at hstep
      split at hstep
      next w i ht =>
          obtain rfl := Option.some.inj hstep
          obtain ⟨hs, hthread, hvalid⟩ :=
            watchFinish_cases (h.marked t w i ht) (h.fresh t w i ht) t o
          exact h.leave hs (by simp) ht hthread hvalid
      next => cases hstep
  | unwatch t w keep o =>
      simp only [BackendState.step] at hstep
      split at hstep
      next hidle =>
          split at hstep
          · cases hstep
          next hw =>
              obtain rfl := Option.some.inj hstep
              have hfree : ∀ t i, s.thread t ≠ .watching w i := fun t i => h.of_idle hw
              obtain ⟨hs, hthread | hthread, hvalid⟩ := unwatchBegin_cases h.valid hok
              · exact h.outside hs (fun _ _ _ ht => hthread ▸ ht) hfree hvalid
              · refine h.outside hs (fun t' v i ht => ?_) hfree hvalid
                rw [hthread] at ht
                exact (watching_of_update (by simp) ht).2
      next => cases hstep
  | unwatchFinish t =>
      simp only [BackendState.step] at hstep
      split at hstep
      next w ht =>
          obtain rfl := Option.some.inj hstep
          exact h.park t
      next => cases hstep
  | teardown w =>
      obtain rfl := Option.some.inj hstep
      exact backendInv_teardown h hok

/-- **A valid subscription is live, while teardowns are recorded.** -/
theorem valid_is_live (h : (backendMachine W).Reach Recorded s) :
    ValidIsLive s ∧ ResubscribesDead s := by
  have hinv : BackendInv s := h.invariant
    (fun s hs => hs ▸ backendInv_start) (fun s a s' hi hok hs => backendInv_step hi hok hs)
  refine ⟨hinv.valid, fun t w s' hdead hstep => ?_⟩
  simp only [BackendState.step] at hstep
  split at hstep
  next hidle =>
      split at hstep
      · cases hstep
      next hpending =>
          obtain rfl := Option.some.inj hstep
          have hvalid := hinv.valid w
          by_cases hsub : w ∈ s.mSubscriptions <;>
            by_cases hinvalid : w ∈ s.mInvalidSubscriptions <;>
            cases hneeds : s.mNeedsResubscribe w <;>
            simp_all [BackendState.watchBegin, BackendState.setNeeds, BackendState.setLive,
              BackendState.setThread, RegardedValid]
  next => cases hstep

/-- A subscription that is torn down, invalid, and installed again. -/
theorem valid_is_live_torn_down :
    ∃ s : BackendState Nat, s.live 0 = true ∧ ValidIsLive s ∧ ResubscribesDead s := by
  have h₀ : (backendMachine Nat).Reach Recorded .start := .init rfl
  have h₁ := h₀.extend (BackendAction.watch 0 0 false .installed) trivial rfl
  have h₂ := h₁.extend (BackendAction.watchFinish 0 .started) trivial rfl
  have h₃ := h₂.extend (BackendAction.teardown 0) (fun _ => by decide) rfl
  have h₄ := h₃.extend (BackendAction.watch 0 0 false .installed) trivial rfl
  have h₅ := h₄.extend (BackendAction.watchFinish 0 .started) trivial rfl
  exact ⟨_, by decide, valid_is_live h₅⟩

/-- The teardown of a new watcher between `subscribe` and its insertion leaves a
subscription that is regarded as valid and has no watches. -/
theorem valid_not_live_after_early_teardown :
    ∃ s : BackendState Nat, (backendMachine Nat).Reachable s ∧ ¬ ValidIsLive s := by
  have h₀ : (backendMachine Nat).Reachable .start := .init rfl
  have h₁ := h₀.extend (BackendAction.watch 0 0 false .installed) trivial rfl
  have h₂ := h₁.extend (BackendAction.teardown 0) trivial rfl
  have h₃ := h₂.extend (BackendAction.watchFinish 0 .started) trivial rfl
  refine ⟨_, h₃, fun h => ?_⟩
  exact absurd (h 0 ⟨by decide, by decide, by decide, by decide⟩) (by decide)

end Validity

end NativeWatcher
