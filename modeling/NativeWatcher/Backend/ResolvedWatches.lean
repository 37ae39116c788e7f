import NativeWatcher.Backend.ServedCallbacks

/-!
# A resolved subscription is watched

As long as every teardown is recorded, a watcher that the backend takes for valid has the watches
that `subscribe` installed, or `processEvents` has taken its stream and is about to mark it. So
the callbacks of a resolved runner have a watcher with watches, until it is in error or marked.
-/

namespace NativeWatcher

/-! ## The steps of the backend -/

namespace BackendState

variable {W : Type} [DecidableEq W] {b b' : BackendState W} {t : Nat} {w : W}

end BackendState

/-! ## The steps of the runners -/

namespace Runners

variable {W Fn Env : Type} {s s' : Runners W Fn Env} {t : Nat} {r : SubscribeRunner W Fn Env}
  {w : W}

/-- `processEvents` has taken the stream of the watcher, and has still to mark it. -/
def Taken (s : Runners W Fn Env) (w : W) : Prop := ∃ t, s.runner t = .takenStream w

theorem Taken.of_others (h : s.Taken w) (hothers : ∀ t' ≠ t, s'.runner t' = s.runner t')
    (hnot : s.runner t ≠ .takenStream w) : s'.Taken w := by
  obtain ⟨t', ht'⟩ := h
  refine ⟨t', (hothers t' ?_).trans ht'⟩
  rintro rfl
  exact hnot ht'

variable [DecidableEq W] [DecidableEq Fn] [DecidableEq Env]

end Runners

end NativeWatcher
