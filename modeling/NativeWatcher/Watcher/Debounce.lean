import NativeWatcher.Lib.Machine
import Mathlib.Logic.Function.Basic

/-!
# The debouncer

One thread waits for the signal and calls the watchers back, any number of threads
call `trigger`. The signal is reset at two places: before the timed wait, without
`mMutex`, and at the end of `notify`, under it. `pending` is a ghost: some `trigger`
has completed and no `notify` has started its callbacks since.
-/

namespace NativeWatcher

/-! ## States and steps -/

/-- Where the debounce thread stands in `loop`, `notifyIfReady`, `wait` and `notify`. -/
inductive LoopPoint where
  /-- `while (mRunning)`. -/
  | loopHead
  /-- In `mWaitSignal.wait()`. -/
  | waiting
  /-- Before `if (!mRunning) break`. -/
  | woken
  /-- Before `if (!mRunning) return`. -/
  | ready
  /-- Before the comparison with `MAX_WAIT_TIME`. -/
  | comparing
  /-- Before the `reset` of `wait`. -/
  | resetting
  /-- In `mWaitSignal.waitFor`. -/
  | timedWait
  /-- After a timeout, before `if (mRunning && ...)`. -/
  | timedOut
  /-- In `notify`, before the lock. -/
  | locking
  /-- In the loop over the callbacks. -/
  | calling
  /-- Before the `reset` of `notify`. -/
  | clearing
  /-- Before the end of `notify`. -/
  | unlocking
  | ended
deriving DecidableEq

/-- Where another thread stands: in `trigger` before and after the notification of the
signal, or in `add` or `remove`. -/
inductive CallerPoint where
  | outside
  | locked
  | notified
  | editing
deriving DecidableEq

/-- Who holds `mMutex`. -/
inductive Holder where
  | loop
  | caller (t : Nat)
deriving DecidableEq

structure DebounceState where
  point : LoopPoint
  mRunning : Bool
  mFlag : Bool
  mMutex : Option Holder
  caller : Nat → CallerPoint
  pending : Bool

inductive DebounceAction where
  /-- The debounce thread goes on; `late` is the outcome of the clock comparison. -/
  | loop (late : Bool)
  /-- `waitFor` times out. -/
  | timeout
  /-- A thread enters `trigger` and takes the lock. -/
  | lock (t : Nat)
  /-- `mWaitSignal.notify()` in `trigger`. -/
  | notify (t : Nat)
  /-- A thread enters `add` or `remove` and takes the lock. -/
  | edit (t : Nat)
  /-- A thread leaves `trigger`, `add` or `remove`. -/
  | unlock (t : Nat)
  /-- `mRunning = false` in the destructor. -/
  | stop
  /-- `mWaitSignal.notify()` in the destructor. -/
  | notifyStop

namespace DebounceState

def start : DebounceState where
  point := .loopHead
  mRunning := true
  mFlag := false
  mMutex := none
  caller := fun _ => .outside
  pending := false

/-- One step of the debounce thread, `none` where it is blocked. -/
def loop (s : DebounceState) (late : Bool) : Option DebounceState :=
  match s.point with
  | .loopHead => some { s with point := if s.mRunning then .waiting else .ended }
  | .waiting => if s.mFlag then some { s with point := .woken } else none
  | .woken => some { s with point := if s.mRunning then .ready else .ended }
  | .ready => some { s with point := if s.mRunning then .comparing else .loopHead }
  | .comparing => some { s with point := if late then .locking else .resetting }
  | .resetting => some { s with point := .timedWait, mFlag := false }
  | .timedWait => if s.mFlag then some { s with point := .loopHead } else none
  | .timedOut => some { s with point := if s.mRunning then .locking else .loopHead }
  | .locking =>
      if s.mMutex = none then
        some { s with point := .calling, mMutex := some .loop, pending := false }
      else none
  | .calling => some { s with point := .clearing }
  | .clearing => some { s with point := .unlocking, mFlag := false }
  | .unlocking => some { s with point := .loopHead, mMutex := none }
  | .ended => none

def setCaller (s : DebounceState) (t : Nat) (p : CallerPoint) : DebounceState :=
  { s with caller := Function.update s.caller t p }

/-- A thread outside takes the lock. -/
def enter (s : DebounceState) (t : Nat) (p : CallerPoint) : Option DebounceState :=
  if s.caller t = .outside ∧ s.mMutex = none then
    some { s.setCaller t p with mMutex := some (.caller t) }
  else none

def step (s : DebounceState) : DebounceAction → Option DebounceState
  | .loop late => s.loop late
  | .timeout =>
      if s.point = .timedWait ∧ s.mFlag = false then some { s with point := .timedOut }
      else none
  | .lock t => s.enter t .locked
  | .notify t =>
      if s.caller t = .locked then some { s.setCaller t .notified with mFlag := true }
      else none
  | .edit t => s.enter t .editing
  | .unlock t =>
      match s.caller t with
      | .notified =>
          some { s.setCaller t .outside with mMutex := none, pending := true }
      | .editing => some { s.setCaller t .outside with mMutex := none }
      | _ => none
  | .stop => some { s with mRunning := false }
  | .notifyStop => if s.mRunning then none else some { s with mFlag := true }

end DebounceState

/-- Any number of threads beside the debounce thread. -/
def debounceMachine : Machine DebounceState DebounceAction :=
  .ofStep .start DebounceState.step

/-! ## The invariant -/

/-- From these points the debounce thread, as long as it is not told to end, comes to
the callbacks or back to the untimed wait because the flag was set. -/
def MustNotify : LoopPoint → Prop
  | .woken | .ready | .comparing | .resetting | .timedWait | .timedOut | .locking => True
  | _ => False

instance : DecidablePred MustNotify := fun p => by
  cases p <;> unfold MustNotify <;> infer_instance

/-- The points at which the debounce thread holds `mMutex`. -/
def InNotify : LoopPoint → Prop
  | .calling | .clearing | .unlocking => True
  | _ => False

instance : DecidablePred InNotify := fun p => by
  cases p <;> unfold InNotify <;> infer_instance

/-- A `trigger` has set the flag, and no callbacks have started since. -/
def DebounceState.Owed (s : DebounceState) : Prop :=
  s.pending = true ∨ ∃ t, s.caller t = .notified

structure DebounceInv (s : DebounceState) : Prop where
  loopHolds : InNotify s.point ↔ s.mMutex = some .loop
  callerHolds : ∀ t, s.caller t ≠ .outside ↔ s.mMutex = some (.caller t)
  served : InNotify s.point → s.pending = false
  owed : s.mRunning = true → s.Owed → s.mFlag = true ∨ MustNotify s.point
  running : s.mRunning = true → s.point ≠ .ended

theorem debounceInv_start : DebounceInv .start where
  loopHolds := by decide
  callerHolds _ := by simp [DebounceState.start]
  served _ := rfl
  owed := by simp [DebounceState.Owed, DebounceState.start]
  running := by decide

variable {s s' : DebounceState}

/-- While the debounce thread is in `notify`, no `trigger` is under way. -/
theorem DebounceInv.not_owed (h : DebounceInv s) (hin : InNotify s.point) : ¬ s.Owed := by
  rintro (hp | ⟨t, ht⟩)
  · rw [h.served hin] at hp
    cases hp
  · have hheld := (h.callerHolds t).mp (by rw [ht]; decide)
    rw [h.loopHolds.mp hin] at hheld
    cases hheld

/-- A step of the debounce thread outside `notify`. -/
theorem DebounceInv.move (h : DebounceInv s) {p : LoopPoint} {f : Bool}
    (hout : ¬ InNotify s.point) (hp : ¬ InNotify p)
    (hend : s.mRunning = true → p ≠ .ended)
    (howed : s.mRunning = true → s.Owed → f = true ∨ MustNotify p) :
    DebounceInv { s with point := p, mFlag := f } where
  loopHolds := iff_of_false hp fun heq => hout (h.loopHolds.mpr heq)
  callerHolds := h.callerHolds
  served hin := absurd hin hp
  owed := howed
  running := hend

/-- From a point of the obligation on, the flag may be lost. -/
theorem DebounceInv.moveOwing (h : DebounceInv s) {p : LoopPoint} {f : Bool}
    (hout : ¬ InNotify s.point) (hp : MustNotify p) :
    DebounceInv { s with point := p, mFlag := f } := by
  refine h.move hout ?_ (fun _ => ?_) fun _ _ => Or.inr hp
  · cases p <;> first | exact id | cases hp
  · rintro rfl
    cases hp

/-- A turn that ends early only where the destructor has been. -/
theorem DebounceInv.moveWhileRunning (h : DebounceInv s) {p q : LoopPoint}
    (hout : ¬ InNotify s.point) (hp : MustNotify p) (hq : ¬ InNotify q) :
    DebounceInv { s with point := if s.mRunning then p else q } := by
  by_cases hrun : s.mRunning = true
  · rw [if_pos hrun]
    exact h.moveOwing (f := s.mFlag) hout hp
  · rw [if_neg hrun]
    exact h.move (f := s.mFlag) hout hq (fun hr => absurd hr hrun) fun hr => absurd hr hrun

/-- Inside `notify` nothing is owed. -/
theorem DebounceInv.moveInNotify (h : DebounceInv s) {p : LoopPoint} {f : Bool}
    (hin : InNotify s.point) (hp : InNotify p) :
    DebounceInv { s with point := p, mFlag := f } where
  loopHolds := iff_of_true hp (h.loopHolds.mp hin)
  callerHolds := h.callerHolds
  served _ := h.served hin
  owed _ ho := absurd ho (h.not_owed hin)
  running _ := by
    rintro rfl
    cases hp

theorem debounceInv_loop (h : DebounceInv s) {late : Bool} (hs : s.loop late = some s') :
    DebounceInv s' := by
  unfold DebounceState.loop at hs
  cases hp : s.point <;> rw [hp] at hs <;> dsimp only at hs
  case loopHead =>
      cases hs
      refine h.move (f := s.mFlag) (by rw [hp]; decide) (by split <;> decide)
        (fun hrun => by simp [hrun]) ?_
      intro hrun ho
      refine (h.owed hrun ho).imp_right fun hm => ?_
      rw [hp] at hm
      exact absurd hm (by decide)
  case waiting =>
      split at hs
      · cases hs
        exact h.moveOwing (f := s.mFlag) (by rw [hp]; decide) trivial
      · cases hs
  case woken =>
      cases hs
      exact h.moveWhileRunning (by rw [hp]; decide) trivial (by decide)
  case ready =>
      cases hs
      exact h.moveWhileRunning (by rw [hp]; decide) trivial (by decide)
  case comparing =>
      cases hs
      exact h.moveOwing (f := s.mFlag) (by rw [hp]; decide) (by split <;> trivial)
  case resetting =>
      cases hs
      exact h.moveOwing (f := false) (by rw [hp]; decide) trivial
  case timedWait =>
      split at hs
      next hflag =>
          cases hs
          exact h.move (f := s.mFlag) (by rw [hp]; decide) (by decide)
            (fun _ => by decide) fun _ _ => Or.inl hflag
      next => cases hs
  case timedOut =>
      cases hs
      exact h.moveWhileRunning (by rw [hp]; decide) trivial (by decide)
  case locking =>
      split at hs
      next hfree =>
          cases hs
          -- With the lock free no thread is in `trigger`, so that `pending` was all there was.
          have hnone : ∀ t, s.caller t = .outside := by
            intro t
            by_contra hne
            rw [(h.callerHolds t).mp hne] at hfree
            cases hfree
          refine ⟨iff_of_true trivial rfl, fun t => ?_, fun _ => rfl, ?_, fun _ heq => by cases heq⟩
          · show s.caller t ≠ .outside ↔ _
            rw [hnone t]
            simp
          · rintro _ (hpend | ⟨t, ht⟩)
            · cases hpend
            · cases (hnone t).symm.trans ht
      next => cases hs
  case calling =>
      cases hs
      exact h.moveInNotify (f := s.mFlag) (by rw [hp]; trivial) trivial
  case clearing =>
      cases hs
      exact h.moveInNotify (f := false) (by rw [hp]; trivial) trivial
  case unlocking =>
      cases hs
      have hin : InNotify s.point := by rw [hp]; trivial
      have hheld := h.loopHolds.mp hin
      refine ⟨iff_of_false not_false (by simp), fun t => ?_, False.elim,
        fun _ ho => absurd ho (h.not_owed hin), fun _ heq => by cases heq⟩
      show s.caller t ≠ .outside ↔ none = some (Holder.caller t)
      rw [h.callerHolds, hheld]
      simp
  case ended => cases hs

theorem debounceInv_timeout (h : DebounceInv s) (hp : s.point = .timedWait) :
    DebounceInv { s with point := .timedOut } :=
  h.move (f := s.mFlag) (by rw [hp]; decide) (by decide) (fun _ => by decide)
    fun _ _ => Or.inr trivial

/-- A thread takes the lock for `trigger`, `add` or `remove`. -/
theorem debounceInv_enter (h : DebounceInv s) {t : Nat} {p : CallerPoint}
    (hp : p ≠ .outside ∧ p ≠ .notified) (hs : s.enter t p = some s') : DebounceInv s' := by
  unfold DebounceState.enter at hs
  split at hs
  next hguard =>
      cases hs
      obtain ⟨-, hfree⟩ := hguard
      have hout : ¬ InNotify s.point := fun hin => by
        rw [h.loopHolds.mp hin] at hfree
        cases hfree
      refine ⟨iff_of_false hout (by simp), fun t' => ?_, fun hin => absurd hin hout, ?_,
        h.running⟩
      · show Function.update s.caller t p t' ≠ .outside ↔ some (Holder.caller t) = _
        by_cases ht : t' = t
        · subst ht
          simp [hp.1]
        · rw [Function.update_of_ne ht, h.callerHolds, hfree]
          simp [Ne.symm ht]
      · intro hrun ho
        refine h.owed hrun (ho.imp_right ?_)
        rintro ⟨t', ht'⟩
        refine ⟨t', ?_⟩
        change Function.update s.caller t p t' = .notified at ht'
        by_cases ht : t' = t
        · subst ht
          rw [Function.update_self] at ht'
          exact absurd ht' hp.2
        · rwa [Function.update_of_ne ht] at ht'
  next => cases hs

/-- Only one thread holds the lock. -/
theorem DebounceInv.caller_unique (h : DebounceInv s) {t t' : Nat}
    (ht : s.caller t ≠ .outside) (ht' : s.caller t' ≠ .outside) : t' = t := by
  have hheld := (h.callerHolds t').mp ht'
  rw [(h.callerHolds t).mp ht] at hheld
  cases hheld
  rfl

theorem debounceInv_notify (h : DebounceInv s) {t : Nat} (ht : s.caller t = .locked) :
    DebounceInv { s.setCaller t .notified with mFlag := true } := by
  refine ⟨h.loopHolds, fun t' => ?_, h.served, fun _ _ => Or.inl rfl, h.running⟩
  show Function.update s.caller t .notified t' ≠ .outside ↔ s.mMutex = _
  rw [← h.callerHolds]
  by_cases htt : t' = t
  · subst htt
    simp [ht]
  · rw [Function.update_of_ne htt]

/-- A thread gives the lock back. What is owed afterwards was owed before. -/
theorem debounceInv_unlock (h : DebounceInv s) {t : Nat} (ht : s.caller t ≠ .outside)
    {pending : Bool} (howed : pending = true → s.Owed) :
    DebounceInv { s.setCaller t .outside with mMutex := none, pending := pending } := by
  have hheld := (h.callerHolds t).mp ht
  have hout : ¬ InNotify s.point := fun hin => by
    rw [h.loopHolds.mp hin] at hheld
    cases hheld
  refine ⟨iff_of_false hout (by simp), fun t' => ?_, fun hin => absurd hin hout, ?_, h.running⟩
  · show Function.update s.caller t .outside t' ≠ .outside ↔ none = _
    by_cases htt : t' = t
    · subst htt
      simp
    · rw [Function.update_of_ne htt]
      refine iff_of_false (fun hne => htt (h.caller_unique ht hne)) (by simp)
  · rintro hrun (hp | ⟨t', ht'⟩)
    · exact h.owed hrun (howed hp)
    · change Function.update s.caller t .outside t' = .notified at ht'
      by_cases htt : t' = t
      · subst htt
        rw [Function.update_self] at ht'
        cases ht'
      · rw [Function.update_of_ne htt] at ht'
        exact h.owed hrun (Or.inr ⟨t', ht'⟩)

theorem debounceInv_step (h : DebounceInv s) {a : DebounceAction}
    (hs : s.step a = some s') : DebounceInv s' := by
  cases a with
  | loop late => exact debounceInv_loop h hs
  | timeout =>
      simp only [DebounceState.step] at hs
      split at hs
      next hguard =>
          cases hs
          exact debounceInv_timeout h hguard.1
      next => cases hs
  | lock t => exact debounceInv_enter h (by decide) hs
  | edit t => exact debounceInv_enter h (by decide) hs
  | notify t =>
      simp only [DebounceState.step] at hs
      split at hs
      next ht =>
          cases hs
          exact debounceInv_notify h ht
      next => cases hs
  | unlock t =>
      simp only [DebounceState.step] at hs
      split at hs
      next ht =>
          cases hs
          exact debounceInv_unlock h (by rw [ht]; decide) fun _ => Or.inr ⟨t, ht⟩
      next ht =>
          cases hs
          exact debounceInv_unlock h (by rw [ht]; decide) fun hp => Or.inl hp
      next => cases hs
  | stop =>
      cases hs
      exact ⟨h.loopHolds, h.callerHolds, h.served, fun hrun => Bool.noConfusion hrun,
        fun hrun => Bool.noConfusion hrun⟩
  | notifyStop =>
      simp only [DebounceState.step] at hs
      split at hs
      next => cases hs
      next =>
          cases hs
          exact ⟨h.loopHolds, h.callerHolds, h.served, fun _ _ => Or.inl rfl, h.running⟩

theorem debounceInv_of_reachable (h : debounceMachine.Reachable s) : DebounceInv s := by
  refine h.invariant ?_ ?_
  · rintro _ rfl
    exact debounceInv_start
  · rintro s a s' hinv hs
    exact debounceInv_step hinv hs

/-! ## No wake-up is lost -/

/-- A step with which no callbacks start. -/
def QuietStep (s s' : DebounceState) : Prop :=
  ∃ a, s.step a = some s' ∧ ¬ (s.point = .locking ∧ s'.point = .calling)

/-- Only the start of the callbacks settles a completed `trigger`. -/
theorem pending_loop {late : Bool} (hs : s.loop late = some s')
    (hquiet : ¬ (s.point = .locking ∧ s'.point = .calling)) (hp : s.pending = true) :
    s'.pending = true := by
  unfold DebounceState.loop at hs
  cases hpoint : s.point <;> rw [hpoint] at hs hquiet <;> dsimp only at hs
  case locking =>
      split at hs
      · cases hs
        exact absurd ⟨rfl, rfl⟩ hquiet
      · cases hs
  case waiting | timedWait =>
      split at hs
      · cases hs
        exact hp
      · cases hs
  case ended => cases hs
  all_goals
    cases hs
    exact hp

theorem QuietStep.pending (hs : QuietStep s s') (hp : s.pending = true) :
    s'.pending = true := by
  obtain ⟨a, hs, hquiet⟩ := hs
  cases a with
  | loop late => exact pending_loop hs hquiet hp
  | unlock t =>
      simp only [DebounceState.step] at hs
      split at hs
      · cases hs
        rfl
      · cases hs
        exact hp
      · cases hs
  | stop =>
      cases hs
      exact hp
  | notifyStop =>
      simp only [DebounceState.step] at hs
      split at hs
      · cases hs
      · cases hs
        exact hp
  | timeout | lock t | notify t | edit t =>
      simp only [DebounceState.step, DebounceState.enter] at hs
      split at hs
      · cases hs
        exact hp
      · cases hs

/-- The debounce thread is not stuck: it can go on, its timed wait can end, or it waits
for a lock that another thread will give back. -/
def CanGoOn (s : DebounceState) : Prop :=
  (∃ s', s.loop true = some s') ∨ (∃ s', s.step .timeout = some s') ∨
    (s.point = .locking ∧ ∃ t, s.mMutex = some (.caller t))

theorem canGoOn (h : DebounceInv s) (hrun : s.mRunning = true) (hp : s.pending = true) :
    CanGoOn s := by
  have howed := h.owed hrun (Or.inl hp)
  have hended := h.running hrun
  unfold CanGoOn DebounceState.step DebounceState.loop
  cases hpoint : s.point <;> rw [hpoint] at howed
  case waiting =>
      left
      rw [if_pos (howed.resolve_right not_false)]
      exact ⟨_, rfl⟩
  case timedWait =>
      cases hflag : s.mFlag with
      | true => exact Or.inl ⟨_, rfl⟩
      | false => exact Or.inr (Or.inl ⟨_, rfl⟩)
  case locking =>
      cases hm : s.mMutex with
      | none => exact Or.inl ⟨_, rfl⟩
      | some holder =>
          cases holder with
          | caller t => exact Or.inr (Or.inr ⟨rfl, t, rfl⟩)
          | loop =>
              have hin := h.loopHolds.mpr hm
              rw [hpoint] at hin
              exact absurd hin not_false
  case ended => exact absurd hpoint hended
  all_goals exact Or.inl ⟨_, rfl⟩

/-- **No wake-up is lost.** In every reachable state, while the debouncer runs, a
completed `trigger` after which no callbacks have started has left the flag set, or the
debounce thread stands where it must call back or return to the wait with the flag set:
however the run goes on without callbacks, the thread is never in the untimed wait with
the flag cleared, and it is not stuck anywhere else. -/
theorem wakeup_not_lost (s : DebounceState) (h : debounceMachine.Reachable s)
    (hrun : s.mRunning = true) (hp : s.pending = true) :
    (s.mFlag = true ∨ MustNotify s.point) ∧
      ∀ s', Relation.ReflTransGen QuietStep s s' → s'.mRunning = true →
        CanGoOn s' ∧ (s'.point = .waiting → s'.mFlag = true) := by
  refine ⟨(debounceInv_of_reachable h).owed hrun (Or.inl hp), fun s' hpath hrun' => ?_⟩
  have hlater : debounceMachine.Reachable s' ∧ s'.pending = true := by
    clear hrun'
    induction hpath with
    | refl => exact ⟨h, hp⟩
    | tail _ hstep ih =>
        refine ⟨?_, hstep.pending ih.2⟩
        obtain ⟨a, hs, -⟩ := hstep
        exact .step ih.1 trivial hs
  have hinv := debounceInv_of_reachable hlater.1
  refine ⟨canGoOn hinv hrun' hlater.2, fun hwait => ?_⟩
  have howed := hinv.owed hrun' (Or.inl hlater.2)
  rw [hwait] at howed
  exact howed.resolve_right not_false

/-- A second `trigger` lands between the end of the wait and the `reset` of `wait`. -/
def lateTrigger : List DebounceAction :=
  [.lock 0, .notify 0, .unlock 0, .loop false, .loop false, .loop false, .loop false,
    .loop false, .lock 1, .notify 1, .unlock 1, .loop false]

/-- The flag is cleared then, and the timed wait takes over. -/
theorem wakeup_not_lost_late :
    ∃ s, Machine.execute DebounceState.step .start lateTrigger = some s ∧ s.mFlag = false ∧
      s.point = .timedWait ∧ (s.mFlag = true ∨ MustNotify s.point) ∧
      ∀ s', Relation.ReflTransGen QuietStep s s' → s'.mRunning = true →
        CanGoOn s' ∧ (s'.point = .waiting → s'.mFlag = true) :=
  ⟨_, rfl, rfl, rfl,
    wakeup_not_lost _ (.execute (l := lateTrigger) (.init rfl) rfl) rfl rfl⟩

end NativeWatcher
