import NativeWatcher.Backend.ServedCallbacks

/-!
# No subscription is left behind

A watcher that is subscribed has callbacks, or a runner that is still to look after it: one
that will check the callbacks once more, or one that is about to `unwatch`. When all of them
are done, only watchers with callbacks are subscribed.

Some steps break this, and are left out: the process exits; `subscribe` or `unsubscribe`
throws for a watcher that stays subscribed without callbacks; the destructor of a failed runner
or the end of an error callback drops the last callback of a watcher that is subscribed; and
`removeBackend` at the end of `unwatch` comes after the watcher was subscribed again, so that
`cleanupEnvironment` does not find the backend.
-/

namespace NativeWatcher

variable {W Fn Env : Type}

/-- The watcher that whoever stands here will look at again. -/
def RunnerPoint.attends : RunnerPoint W Fn Env → Option W
  | .isCancelled r | .hasCallbacks r | .watch r | .subscribe r | .finishSubscribe r
  | .watchFinish r _ | .addBackend r | .recheck r => some r.watcher
  | .unwatch w _ _ => some w
  | _ => none

namespace Runners

variable {s s' : Runners W Fn Env} {t : Nat} {w : W}

def HasCallbacks (s : Runners W Fn Env) (w : W) : Prop := (s.callbacks w).hasCallbacks = true

def Attended (s : Runners W Fn Env) (w : W) : Prop := ∃ t, (s.runner t).attends = some w

/-- A runner is about to enter the backend into `mBackends`. -/
def Adding (s : Runners W Fn Env) (w : W) : Prop :=
  ∃ t r, s.runner t = .addBackend r ∧ r.watcher = w

theorem Adding.attended (h : s.Adding w) : s.Attended w := by
  obtain ⟨t, r, ht, rfl⟩ := h
  exact ⟨t, by rw [ht]; rfl⟩

structure AttendedInv (s : Runners W Fn Env) : Prop where
  attended : ∀ w ∈ s.backend.mSubscriptions, s.HasCallbacks w ∨ s.Attended w
  listed : ∀ w ∈ s.backend.mSubscriptions, s.mBackends w = true ∨ s.Adding w
  going : s.isProcessExiting = false

/-- The steps that leave a subscription behind. -/
def Undisturbed [DecidableEq Fn] [DecidableEq Env] (s : Runners W Fn Env) :
    RunnerAction W Fn Env → Prop
  | .run t =>
      (∀ r, s.runner t = .watchFinish r .throws → r.watcher ∈ s.backend.mSubscriptions →
        s.HasCallbacks r.watcher) ∧
      ∀ w next, s.runner t = .finishUnwatch w next → w ∉ s.backend.mSubscriptions
  | .backendSubscribe t .throws => ∀ r, s.runner t = .subscribe r →
      r.watcher ∈ s.backend.mSubscriptions → s.HasCallbacks r.watcher
  | .unwatch t (.throws _) => ∀ w force next, s.runner t = .unwatch w force next →
      w ∈ s.backend.mSubscriptions → s.HasCallbacks w
  | .destroy t => ∀ r, s.runner t = .failed r → r.watcher ∈ s.backend.mSubscriptions →
      ((s.callbacks r.watcher).unwatch r.thread r.callback).hasCallbacks = true
  | .callbacks w a => ∀ c, (s.callbacks w).step a = some c → w ∈ s.backend.mSubscriptions →
      s.HasCallbacks w → c.hasCallbacks = true
  | .notifyProcessExiting => False
  | _ => True

/-- The invariant after a step of one runner. -/
theorem AttendedInv.of_step (h : s.AttendedInv) (hothers : ∀ t' ≠ t, s'.runner t' = s.runner t')
    (hgoing : s'.isProcessExiting = false)
    (hsubs : ∀ w ∈ s'.backend.mSubscriptions, w ∈ s.backend.mSubscriptions ∨
      ∃ r, s'.runner t = .addBackend r ∧ r.watcher = w)
    (hcallbacks : ∀ w ∈ s'.backend.mSubscriptions, w ∈ s.backend.mSubscriptions →
      s.HasCallbacks w → s'.HasCallbacks w ∨ s'.Attended w)
    (hattends : ∀ w ∈ s'.backend.mSubscriptions, (s.runner t).attends = some w →
      (s'.runner t).attends = some w ∨ s'.HasCallbacks w)
    (hlisted : ∀ w ∈ s'.backend.mSubscriptions, s.mBackends w = true → s'.mBackends w = true)
    (hadding : ∀ r, s.runner t = .addBackend r →
      s'.runner t = .addBackend r ∨ s'.mBackends r.watcher = true) : s'.AttendedInv where
  attended w hw := by
    rcases hsubs w hw with hold | ⟨r, hr, rfl⟩
    · rcases h.attended w hold with hcb | ⟨t', ht'⟩
      · exact hcallbacks w hw hold hcb
      · by_cases htt : t' = t
        · subst htt
          exact (hattends w hw ht').symm.imp_right fun hp => ⟨t', hp⟩
        · exact .inr ⟨t', (hothers t' htt).symm ▸ ht'⟩
    · exact .inr ⟨t, by rw [hr]; rfl⟩
  listed w hw := by
    rcases hsubs w hw with hold | ⟨r, hr, rfl⟩
    · rcases h.listed w hold with hin | ⟨t', r, ht', rfl⟩
      · exact .inl (hlisted w hw hin)
      · by_cases htt : t' = t
        · subst htt
          exact (hadding r ht').symm.imp_right fun hp => ⟨t', r, hp, rfl⟩
        · exact .inr ⟨t', r, (hothers t' htt).symm ▸ ht', rfl⟩
    · exact .inr ⟨t, r, hr, rfl⟩
  going := hgoing

end Runners

/-! ## The callbacks -/

namespace WatcherCallbacks

variable {c : WatcherCallbacks Fn Env}

end WatcherCallbacks

namespace BackendState

end BackendState

namespace Runners

variable {s s' : Runners W Fn Env} {t : Nat} {w : W} {marks : W → Prop}

section Steps

variable [DecidableEq W]

omit [DecidableEq W] in
/-- A runner goes on without a step of the backend. -/
theorem AttendedInv.advance (h : s.AttendedInv) (hbackend : s'.backend = s.backend)
    (hothers : ∀ t' ≠ t, s'.runner t' = s.runner t') (hgoing : s'.isProcessExiting = false)
    (hbackends : ∀ w, s.mBackends w = true → s'.mBackends w = true)
    (hcallbacks : ∀ w ∈ s.backend.mSubscriptions, s.HasCallbacks w → s'.HasCallbacks w ∨ s'.Attended w)
    (hattends : ∀ w ∈ s.backend.mSubscriptions, (s.runner t).attends = some w →
      (s'.runner t).attends = some w ∨ s'.HasCallbacks w)
    (hadding : ∀ r, s.runner t = .addBackend r →
      s'.runner t = .addBackend r ∨ s'.mBackends r.watcher = true) : s'.AttendedInv := by
  apply h.of_step hothers hgoing
  · exact fun w hw => .inl (hbackend ▸ hw)
  · exact fun w _ hw => hcallbacks w hw
  · exact fun w hw => hattends w (hbackend ▸ hw)
  · exact fun w _ => hbackends w
  · exact hadding

variable [DecidableEq Fn]

variable [DecidableEq Env]

end Steps

end Runners

end NativeWatcher
