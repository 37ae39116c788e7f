import NativeWatcher.Backend.RunnerSteps

/-!
# A resolved subscription is served

Once the promise of a `SubscribeRunner` is resolved, and as long as the callback it added is
live, its watcher is in `mSubscriptions`; only the error of the watcher itself takes the
subscription away, and its callbacks with it. `mNeedsResubscribe` is not set, except by
`processEvents` of macOS for a root that is gone; a teardown may have put the watcher into
`mInvalidSubscriptions`. Either mark lets the next `watch` subscribe it again.

What may go wrong is an `isCancelled` that was true when `subscribe` or `finishSubscribe`
looked, and is acted on after a new callback was added. The watcher is pending in between, so
that the runner of the new callback still has its own `watch` to come.
-/

namespace NativeWatcher

variable {W Fn Env : Type}

namespace RunnerPoint

/-- The `SubscribeRunner` that stands here. -/
def subscriber : RunnerPoint W Fn Env → Option (SubscribeRunner W Fn Env)
  | .isCancelled r | .hasCallbacks r | .watch r | .subscribe r | .finishSubscribe r
  | .watchFinish r _ | .addBackend r | .recheck r | .failed r | .resolved r => some r
  | .unwatch _ _ (.subscribed r) | .finishUnwatch _ (.subscribed r) => some r
  | _ => none

/-- Between the two critical sections of `watch`. -/
def window : RunnerPoint W Fn Env → Option (SubscribeRunner W Fn Env)
  | .finishSubscribe r | .watchFinish r _ => some r
  | _ => none

/-- After `watch`. -/
def settled : RunnerPoint W Fn Env → Option (SubscribeRunner W Fn Env)
  | .addBackend r | .recheck r | .resolved r => some r
  | .unwatch _ _ (.subscribed r) | .finishUnwatch _ (.subscribed r) => some r
  | _ => none

/-- The watcher that was taken out for an error and has still to tell its callbacks. -/
def erring : RunnerPoint W Fn Env → Option W
  | .finishUnwatch w .notifyError | .notifyError w => some w
  | _ => none

/-- The runner has had its turn in `watch`. -/
def Late (p : RunnerPoint W Fn Env) (r : SubscribeRunner W Fn Env) : Prop :=
  p.window = some r ∨ p.settled = some r

theorem Late.subscriber {p : RunnerPoint W Fn Env} {r : SubscribeRunner W Fn Env} (h : p.Late r) :
    p.subscriber = some r := by
  rcases h with h | h
  all_goals
    cases p with
    | unwatch w force next => cases next <;> simp_all [window, settled, RunnerPoint.subscriber]
    | finishUnwatch w next => cases next <;> simp_all [window, settled, RunnerPoint.subscriber]
    | _ => simp_all [window, settled, RunnerPoint.subscriber]

theorem erring_of_subscriber {p : RunnerPoint W Fn Env} {r : SubscribeRunner W Fn Env}
    (h : p.subscriber = some r) : p.erring = none := by
  cases p with
  | finishUnwatch w next =>
      cases next with
      | notifyError => cases h
      | _ => rfl
  | notifyError w => cases h
  | _ => rfl

end RunnerPoint

namespace Runners

variable {s s' : Runners W Fn Env} {t : Nat} {r : SubscribeRunner W Fn Env} {w : W}
  {marks : W → Prop}

/-- The callback of the runner is live. -/
def Alive (s : Runners W Fn Env) (r : SubscribeRunner W Fn Env) : Prop :=
  s.isProcessExiting = false ∧
    ∃ id, r.added = some id ∧ (s.callbacks r.watcher).Live id r.callbackEnv

/-- The watcher was taken out for an error that its callbacks are still to be told. -/
def Erring (s : Runners W Fn Env) (w : W) : Prop := ∃ t, (s.runner t).erring = some w

/-- `mNeedsResubscribe` is not set, except for a watcher that `processEvents` may mark. -/
def Unmarked (marks : W → Prop) (b : BackendState W) (w : W) : Prop :=
  b.mNeedsResubscribe w = true → marks w

theorem unmarked_of_eq_false {b : BackendState W} (h : b.mNeedsResubscribe w = false) :
    Unmarked marks b w := by
  intro hneeds
  rw [h] at hneeds
  cases hneeds

/-- The watcher is in `mSubscriptions` and not marked, or it is in error. -/
def Served (marks : W → Prop) (s : Runners W Fn Env) (w : W) : Prop :=
  w ∈ s.backend.mSubscriptions ∧ Unmarked marks s.backend w ∨ s.Erring w

structure ServedInv (marks : W → Prop) (s : Runners W Fn Env) : Prop where
  sound : ∀ w, (s.callbacks w).Sound
  windows : s.backend.Windows
  numbered : ∀ t r id, (s.runner t).subscriber = some r → r.added = some id →
    id < (s.callbacks r.watcher).mNextCallbackId
  window : ∀ t r, (s.runner t).window = some r → ∃ i, s.backend.thread t = .watching r.watcher i
  /-- Only an error takes a watcher out by force. -/
  unwatches : ∀ t w force next, s.runner t = .unwatch w force next →
    (force = true → next = .notifyError) ∧ ∀ r, next = .subscribed r → r.watcher = w
  /-- A cancelled `finishSubscribe` finds no live callback whose runner has had its turn. -/
  cancelled : ∀ t r, s.runner t = .watchFinish r .cancelled → ∀ t' r', (s.runner t').Late r' →
    r'.watcher = r.watcher → ¬ s.Alive r'
  needs : ∀ t r, (s.runner t).window = some r → s.Alive r → Unmarked marks s.backend r.watcher
  served : ∀ t r, (s.runner t).settled = some r → s.Alive r → s.Served marks r.watcher

theorem servedInv_start : (start : Runners W Fn Env).ServedInv marks where
  sound _ := ⟨.start, by rintro ⟨⟩⟩
  windows := ⟨by rintro _ _ _ ⟨⟩, by rintro _ _ _ _ _ ⟨⟩⟩
  numbered _ _ _ h := by cases h
  window _ _ h := by cases h
  unwatches _ _ _ _ h := by cases h
  cancelled _ _ h := by cases h
  needs _ _ h := by cases h
  served _ _ h := by cases h

theorem ServedInv.not_isCancelled (h : s.ServedInv marks) (halive : s.Alive r) :
    s.isCancelled r.watcher = false := by
  obtain ⟨hexit, id, _, hlive⟩ := halive
  rw [isCancelled, hexit, hlive.mCancelled_eq (h.sound _).cancelled]
  rfl

/-- What every step of a runner does to the others. -/
structure Moves (s s' : Runners W Fn Env) (t : Nat) : Prop where
  callbacks : ∀ w, (s.callbacks w).Evolves (s'.callbacks w)
  exiting : s'.isProcessExiting = false → s.isProcessExiting = false
  others : ∀ t' ≠ t, s'.runner t' = s.runner t'

theorem Moves.alive (h : s.ServedInv marks) (hm : Moves s s' t) {t' : Nat}
    (hr : (s.runner t').subscriber = some r) (halive : s'.Alive r) : s.Alive r := by
  obtain ⟨hexit, id, hadded, hlive⟩ := halive
  exact ⟨hm.exiting hexit, id, hadded,
    (hm.callbacks r.watcher).live id (h.numbered t' r id hr hadded) _ hlive⟩

/-- The invariant after a step of one runner, from what the step does to its own point and
from what the others need. -/
theorem ServedInv.of_moves (h : s.ServedInv marks) (hm : Moves s s' t)
    (hthreads : ∀ t' ≠ t, s'.backend.thread t' = s.backend.thread t')
    (hwindows : s'.backend.Windows)
    (hnumbered : ∀ r id, (s'.runner t).subscriber = some r → r.added = some id →
      id < (s'.callbacks r.watcher).mNextCallbackId)
    (hwindow : ∀ r, (s'.runner t).window = some r → ∃ i, s'.backend.thread t = .watching r.watcher i)
    (hunwatches : ∀ w force next, s'.runner t = .unwatch w force next →
      (force = true → next = .notifyError) ∧ ∀ r, next = .subscribed r → r.watcher = w)
    (hcancelled : ∀ r, s'.runner t = .watchFinish r .cancelled →
      s.runner t = .watchFinish r .cancelled ∨ ∀ r', r'.watcher = r.watcher → ¬ s'.Alive r')
    (hlate : ∀ r, (s'.runner t).Late r → s'.Alive r → (s.runner t).Late r ∨
      r.watcher ∉ s.backend.mPendingSubscriptions)
    (hkeeps : ∀ t' r, t' ≠ t → (s.runner t').Late r → s'.Alive r →
      (Unmarked marks s.backend r.watcher → Unmarked marks s'.backend r.watcher) ∧
      (s.Served marks r.watcher → s'.Served marks r.watcher))
    (hneeds : ∀ r, (s'.runner t).window = some r → s'.Alive r →
      Unmarked marks s'.backend r.watcher)
    (hserved : ∀ r, (s'.runner t).settled = some r → s'.Alive r → s'.Served marks r.watcher) :
    s'.ServedInv marks where
  sound w := (hm.callbacks w).sound
  windows := hwindows
  numbered t' r id hr hadded := by
    by_cases htt : t' = t
    · subst htt
      exact hnumbered r id hr hadded
    · rw [hm.others t' htt] at hr
      exact (h.numbered t' r id hr hadded).trans_le (hm.callbacks _).next
  window t' r hr := by
    by_cases htt : t' = t
    · subst htt
      exact hwindow r hr
    · rw [hm.others t' htt] at hr
      rw [hthreads t' htt]
      exact h.window t' r hr
  unwatches t' w force next hp := by
    by_cases htt : t' = t
    · subst htt
      exact hunwatches w force next hp
    · exact h.unwatches t' w force next (hm.others t' htt ▸ hp)
  cancelled t₁ r₁ hp t₂ r₂ hl hw halive := by
    have hwas : s.runner t₁ = .watchFinish r₁ .cancelled := by
      by_cases h₁ : t₁ = t
      · subst h₁
        exact (hcancelled r₁ hp).resolve_right fun hnone => hnone r₂ hw halive
      · exact hm.others t₁ h₁ ▸ hp
    -- the runner was late before, or it has just had its turn and the watcher is not pending
    by_cases h₂ : t₂ = t
    · subst h₂
      rcases hlate r₂ hl halive with hold | hfree
      · exact h.cancelled t₁ r₁ hwas t₂ r₂ hold hw (hm.alive h hold.subscriber halive)
      · obtain ⟨i, hi⟩ := h.window t₁ r₁ (by rw [hwas]; rfl)
        exact hfree (hw ▸ h.windows.pending t₁ _ i hi)
    · rw [hm.others t₂ h₂] at hl
      exact h.cancelled t₁ r₁ hwas t₂ r₂ hl hw (hm.alive h hl.subscriber halive)
  needs t' r hr halive := by
    by_cases htt : t' = t
    · subst htt
      exact hneeds r hr halive
    · rw [hm.others t' htt] at hr
      have hl : (s.runner t').Late r := .inl hr
      exact (hkeeps t' r htt hl halive).1 (h.needs t' r hr (hm.alive h hl.subscriber halive))
  served t' r hr halive := by
    by_cases htt : t' = t
    · subst htt
      exact hserved r hr halive
    · rw [hm.others t' htt] at hr
      have hl : (s.runner t').Late r := .inr hr
      exact (hkeeps t' r htt hl halive).2 (h.served t' r hr (hm.alive h hl.subscriber halive))

theorem Moves.erring (hm : Moves s s' t)
    (hp : (s.runner t).erring = some w → (s'.runner t).erring = some w) (h : s.Erring w) :
    s'.Erring w := by
  obtain ⟨t', ht'⟩ := h
  by_cases htt : t' = t
  · subst htt
    exact ⟨t', hp ht'⟩
  · exact ⟨t', (hm.others t' htt).symm ▸ ht'⟩

/-- A step that leaves the backend alone. -/
theorem ServedInv.move (h : s.ServedInv marks) (hm : Moves s s' t) (hbackend : s'.backend = s.backend)
    (hnumbered : ∀ r id, (s'.runner t).subscriber = some r → r.added = some id →
      id < (s'.callbacks r.watcher).mNextCallbackId)
    (hwindow : ∀ r, (s'.runner t).window = some r → (s.runner t).window = some r)
    (hunwatches : ∀ w force next, s'.runner t = .unwatch w force next →
      (force = true → next = .notifyError) ∧ ∀ r, next = .subscribed r → r.watcher = w)
    (hcancelled : ∀ r, s'.runner t = .watchFinish r .cancelled →
      s.runner t = .watchFinish r .cancelled ∨ ∀ r', r'.watcher = r.watcher → ¬ s'.Alive r')
    (hsettled : ∀ r, (s'.runner t).settled = some r → s'.Alive r → (s.runner t).settled = some r)
    (herring : ∀ r, s'.Alive r → (s.runner t).erring = some r.watcher →
      (s'.runner t).erring = some r.watcher) : s'.ServedInv marks := by
  have hserved : ∀ r, s'.Alive r → s.Served marks r.watcher → s'.Served marks r.watcher := by
    rintro r halive (⟨hsub, hneeds⟩ | herr)
    · exact .inl ⟨hbackend ▸ hsub, hbackend ▸ hneeds⟩
    · exact .inr (hm.erring (herring r halive) herr)
  apply h.of_moves hm
  · exact fun _ _ => by rw [hbackend]
  · exact hbackend ▸ h.windows
  · exact hnumbered
  · intro r hr
    rw [hbackend]
    exact h.window t r (hwindow r hr)
  · exact hunwatches
  · exact hcancelled
  · intro r hl halive
    rcases hl with hl | hl
    · exact .inl (.inl (hwindow r hl))
    · exact .inl (.inr (hsettled r hl halive))
  · intro t' r _ _ halive
    exact ⟨fun hneeds => hbackend ▸ hneeds, hserved r halive⟩
  · intro r hr halive
    have hold : (s.runner t).Late r := .inl (hwindow r hr)
    rw [hbackend]
    exact h.needs t r (hwindow r hr) (hm.alive h hold.subscriber halive)
  · intro r hr halive
    have hset := hsettled r hr halive
    have hold : (s.runner t).Late r := .inr hset
    exact hserved r halive (h.served t r hset (hm.alive h hold.subscriber halive))

/-! ## The steps that leave the backend alone -/

theorem moves_setRunner (h : s.ServedInv marks) (t : Nat) (p : RunnerPoint W Fn Env) :
    Moves s (s.setRunner t p) t where
  callbacks w := .refl (h.sound w)
  exiting h := h
  others _ htt := Function.update_of_ne htt ..

@[simp] theorem runner_setRunner (s : Runners W Fn Env) (t : Nat) (p : RunnerPoint W Fn Env) :
    (s.setRunner t p).runner t = p := Function.update_self ..

theorem not_erring {p : RunnerPoint W Fn Env} (ht : s.runner t = p) (hp : p.erring = none) :
    (s.runner t).erring ≠ some w := by
  rw [ht, hp]
  exact (Option.some_ne_none w).symm

/-- The end of a thread, or the start of one that is no `SubscribeRunner`. -/
theorem ServedInv.plain (h : s.ServedInv marks) (hm : Moves s s' t) (hbackend : s'.backend = s.backend)
    {p : RunnerPoint W Fn Env} (hp : s'.runner t = p) (hplain : p.subscriber = none)
    (hunwatches : ∀ w force next, p = .unwatch w force next → force = true → next = .notifyError)
    (herring : ∀ r, s'.Alive r → (s.runner t).erring = some r.watcher →
      p.erring = some r.watcher) : s'.ServedInv marks := by
  have hlate : ∀ r, ¬ p.Late r := fun r hl => by
    rw [hl.subscriber] at hplain
    cases hplain
  apply h.move hm hbackend
  · intro r id hr
    rw [hp, hplain] at hr
    cases hr
  · exact fun r hr => absurd (.inl (hp ▸ hr)) (hlate r)
  · intro w force next hnext
    refine ⟨hunwatches w force next (hp ▸ hnext), ?_⟩
    rintro r rfl
    rw [← hp, hnext] at hplain
    cases hplain
  · intro r hr
    rw [← hp, hr] at hplain
    cases hplain
  · exact fun r hr => absurd (.inr (hp ▸ hr)) (hlate r)
  · rw [hp]
    exact herring

/-- A runner goes on to a point that it may have had already reached. -/
theorem ServedInv.advance (h : s.ServedInv marks) (hm : Moves s s' t)
    (hbackend : s'.backend = s.backend)
    (hnext : ∀ w, (s'.callbacks w).mNextCallbackId = (s.callbacks w).mNextCallbackId)
    {p : RunnerPoint W Fn Env} (hp : s'.runner t = p)
    (hr : (s.runner t).subscriber = some r) (hr' : p.subscriber = some r)
    (hwindow : p.window = none)
    (hunwatches : ∀ w force next, p = .unwatch w force next → force = false ∧ r.watcher = w)
    (hsettled : p.settled = some r → s'.Alive r → (s.runner t).settled = some r) :
    s'.ServedInv marks := by
  have hsame : ∀ r', p.subscriber = some r' → r' = r := fun r' h => Option.some.inj (h.symm.trans hr')
  have hnone := RunnerPoint.erring_of_subscriber hr
  apply h.move hm hbackend
  · intro r' id hr₁ hadded
    obtain rfl := hsame r' (hp ▸ hr₁)
    rw [hnext]
    exact h.numbered t r' id hr hadded
  · intro r' hr₁
    rw [hp, hwindow] at hr₁
    cases hr₁
  · intro w force next hpt
    obtain ⟨hforce, hw⟩ := hunwatches w force next (hp ▸ hpt)
    refine ⟨fun h => absurd (hforce.symm.trans h) (by decide), ?_⟩
    rintro r' rfl
    obtain rfl := hsame r' (by rw [← hp, hpt]; rfl)
    exact hw
  · intro r' hpt
    rw [hp] at hpt
    rw [hpt] at hwindow
    cases hwindow
  · intro r' hr₁ halive
    have hl : p.Late r' := .inr (hp ▸ hr₁)
    obtain rfl := hsame r' hl.subscriber
    exact hsettled (hp ▸ hr₁) halive
  · intro r' _ herr
    rw [hnone] at herr
    cases herr

section Steps

variable [DecidableEq W]

theorem evolves_setCallbacks (h : s.ServedInv marks) {c : WatcherCallbacks Fn Env}
    (hc : (s.callbacks w).Evolves c) (v : W) :
    (s.callbacks v).Evolves ((s.setCallbacks w c).callbacks v) := by
  unfold setCallbacks
  dsimp only
  by_cases hv : v = w
  · subst hv
    rw [Function.update_self]
    exact hc
  · rw [Function.update_of_ne hv]
    exact .refl (h.sound v)

theorem moves_setCallbacks (h : s.ServedInv marks) {c : WatcherCallbacks Fn Env}
    (hc : (s.callbacks w).Evolves c) (t : Nat) (p : RunnerPoint W Fn Env) :
    Moves s ((s.setCallbacks w c).setRunner t p) t where
  callbacks := evolves_setCallbacks h hc
  exiting h := h
  others _ htt := Function.update_of_ne htt ..

variable [DecidableEq Fn] [DecidableEq Env]

theorem servedInv_subscribe (h : s.ServedInv marks) (ht : s.runner t = .unused) (w : W)
    (thread : Nat) (env : Env) (fn : Fn) (creates : Bool) :
    (s.subscribe t w thread env fn creates).ServedInv marks := by
  have hevolves := WatcherCallbacks.evolves_watch (h.sound w) thread env fn creates
  -- the point of a new runner
  have hnew : ∀ added : Option Nat, (∀ id, added = some id →
      id < ((s.callbacks w).watch thread env fn creates).mNextCallbackId) →
      ((s.setCallbacks w ((s.callbacks w).watch thread env fn creates)).setRunner t
        (.isCancelled ⟨w, env, thread, fn, added⟩)).ServedInv marks := by
    intro added hadded
    have hm := moves_setCallbacks h hevolves t (.isCancelled ⟨w, env, thread, fn, added⟩)
    apply h.move hm rfl
    · intro r id hr hid
      rw [runner_setRunner] at hr
      cases hr
      show id < (Function.update s.callbacks w _ w).mNextCallbackId
      rw [Function.update_self]
      exact hadded id hid
    · intro r hr
      rw [runner_setRunner] at hr
      cases hr
    · intro w force next hp
      rw [runner_setRunner] at hp
      cases hp
    · intro r hp
      rw [runner_setRunner] at hp
      cases hp
    · intro r hr
      rw [runner_setRunner] at hr
      cases hr
    · intro r _ herr
      rw [ht] at herr
      cases herr
  unfold subscribe
  dsimp only
  split
  · exact hnew none (by rintro _ ⟨⟩)
  next hfound =>
      split
      next hcreates =>
          refine hnew _ fun id hid => ?_
          cases hid
          unfold WatcherCallbacks.watch
          dsimp only
          rw [if_neg hfound, if_pos hcreates]
          exact Nat.lt_succ_self _
      next =>
          have hm : Moves s (s.setCallbacks w ((s.callbacks w).watch thread env fn creates)) t :=
            ⟨evolves_setCallbacks h hevolves, fun h => h, fun _ _ => rfl⟩
          exact h.plain hm rfl ht rfl (by rintro _ _ _ ⟨⟩) fun r _ herr => ht ▸ herr

theorem servedInv_unsubscribe (h : s.ServedInv marks) (ht : s.runner t = .unused) (w : W)
    (thread : Nat) (fn : Fn) : (s.unsubscribe t w thread fn).ServedInv marks := by
  have hevolves := WatcherCallbacks.evolves_unwatch (h.sound w) thread fn
  unfold unsubscribe
  dsimp only
  split
  · refine h.plain (moves_setCallbacks h hevolves t _) rfl (runner_setRunner ..) rfl ?_
      fun _ _ herr => absurd herr (not_erring ht rfl)
    intro w force next hp hforce
    cases hp
    cases hforce
  · exact h.plain (moves_setCallbacks h hevolves t _) rfl (runner_setRunner ..) rfl
      (by rintro _ _ _ ⟨⟩) fun _ _ herr => absurd herr (not_erring ht rfl)

theorem servedInv_destroy (h : s.ServedInv marks) (ht : s.runner t = .failed r) :
    (s.destroy t r).ServedInv marks := by
  unfold destroy
  dsimp only
  split
  · have hevolves := WatcherCallbacks.evolves_unwatch (h.sound r.watcher) r.thread r.callback
    exact h.plain (moves_setCallbacks h hevolves t _) rfl (runner_setRunner ..) rfl
      (by rintro _ _ _ ⟨⟩) fun _ _ herr => absurd herr (not_erring ht rfl)
  · exact h.plain (moves_setRunner h t _) rfl (runner_setRunner ..) rfl
      (by rintro _ _ _ ⟨⟩) fun _ _ herr => absurd herr (not_erring ht rfl)

theorem servedInv_cleanupEnvironment (h : s.ServedInv marks) (ht : s.runner t = .unused) (w : W)
    (env : Env) : (s.cleanupEnvironment t w env).ServedInv marks := by
  have hevolves := WatcherCallbacks.evolves_cleanupEnvironment (h.sound w) env
  unfold cleanupEnvironment
  dsimp only
  split
  · refine h.plain (moves_setCallbacks h hevolves t _) rfl (runner_setRunner ..) rfl ?_
      fun _ _ herr => absurd herr (not_erring ht rfl)
    intro w force next hp hforce
    cases hp
    cases hforce
  · exact h.plain (moves_setCallbacks h hevolves t _) rfl (runner_setRunner ..) rfl
      (by rintro _ _ _ ⟨⟩) fun _ _ herr => absurd herr (not_erring ht rfl)

theorem servedInv_notifyError (h : s.ServedInv marks) (ht : s.runner t = .notifyError w) (err : String)
    (fails : Nat → Bool) :
    ((s.setCallbacks w ((s.callbacks w).notifyError err fails)).setRunner t .done).ServedInv marks := by
  have hevolves := WatcherCallbacks.evolves_notifyError (h.sound w) err fails
  refine h.plain (moves_setCallbacks h hevolves t _) rfl (runner_setRunner ..) rfl ?_ ?_
  · rintro _ _ _ ⟨⟩
  · -- no callback of the watcher is live any more
    rintro r ⟨_, id, _, hlive⟩ herr
    rw [ht] at herr
    cases herr
    change (Function.update s.callbacks r.watcher _ r.watcher).Live id r.callbackEnv at hlive
    rw [Function.update_self] at hlive
    exact absurd hlive (WatcherCallbacks.not_live_notifyError (h.sound _) err fails)

omit [DecidableEq W] [DecidableEq Fn] [DecidableEq Env] in
/-- A step that moves no runner. -/
theorem ServedInv.stay (h : s.ServedInv marks)
    (hcallbacks : ∀ w, (s.callbacks w).Evolves (s'.callbacks w))
    (hexiting : s'.isProcessExiting = false → s.isProcessExiting = false)
    (hrunner : s'.runner = s.runner) (hbackend : s'.backend = s.backend) : s'.ServedInv marks := by
  have hm : Moves s s' 0 := ⟨hcallbacks, hexiting, fun _ _ => by rw [hrunner]⟩
  apply h.move hm hbackend
  · intro r id hr hadded
    rw [hrunner] at hr
    exact (h.numbered 0 r id hr hadded).trans_le (hcallbacks _).next
  all_goals rw [hrunner]
  · exact fun _ hr => hr
  · exact h.unwatches 0
  · exact fun _ hr => .inl hr
  · exact fun _ hr _ => hr
  · exact fun _ _ herr => herr

theorem servedInv_callbacks (h : s.ServedInv marks) {a : WatcherCallbackAction Fn Env}
    {c : WatcherCallbacks Fn Env} (hc : (s.callbacks w).step a = some c) :
    (s.setCallbacks w c).ServedInv marks :=
  h.stay (evolves_setCallbacks h (WatcherCallbacks.evolves_step (h.sound w) hc)) (fun h => h) rfl rfl

omit [DecidableEq W] [DecidableEq Fn] [DecidableEq Env] in
theorem servedInv_exiting (h : s.ServedInv marks) :
    { s with isProcessExiting := true }.ServedInv marks :=
  h.stay (fun w => .refl (h.sound w)) (by rintro ⟨⟩) rfl rfl

omit [DecidableEq W] [DecidableEq Fn] [DecidableEq Env] in
theorem servedInv_finishSubscribe (h : s.ServedInv marks) (ht : s.runner t = .finishSubscribe r)
    {o : FinishOutcome} (ho : s.mayCancel r.watcher o.isCancelled = true) :
    (s.setRunner t (.watchFinish r o)).ServedInv marks := by
  have hwas : (s.runner t).window = some r := by rw [ht]; rfl
  have hsame : ∀ r', (RunnerPoint.watchFinish r o).window = some r' → r' = r :=
    fun r' h => (Option.some.inj h).symm
  apply h.move (moves_setRunner h t _) rfl
  all_goals rw [runner_setRunner]
  · intro r' id hr hadded
    cases hr
    exact h.numbered t r id (by rw [ht]; rfl) hadded
  · intro r' hr
    rw [hsame r' hr]
    exact hwas
  · rintro _ _ _ ⟨⟩
  · -- `isCancelled` was true, so that no callback is live
    rintro r' hp
    cases hp
    right
    intro r'' hw halive
    have hnot := h.not_isCancelled (s := s) (r := r'') halive
    rw [hw] at hnot
    change s.isCancelled r.watcher = true at ho
    rw [hnot] at ho
    cases ho
  · rintro _ ⟨⟩
  · exact fun _ _ herr => absurd herr (not_erring ht rfl)

/-! ## The steps of the backend -/

omit [DecidableEq Fn] [DecidableEq Env] in
theorem of_backendStep {a : BackendAction W} {p : BackendState W → RunnerPoint W Fn Env}
    (hs : s.backendStep a t p = some s') :
    ∃ b, s.backend.step a = some b ∧ s' = { s.setRunner t (p b) with backend := b } := by
  obtain ⟨b, hb, rfl⟩ := Option.map_eq_some_iff.mp hs
  exact ⟨b, hb, rfl⟩

omit [DecidableEq Fn] [DecidableEq Env] [DecidableEq W] in
theorem moves_backend (h : s.ServedInv marks) (t : Nat) (p : RunnerPoint W Fn Env) (b : BackendState W)
    (m : Option Nat) (backends : W → Bool) :
    Moves s { s.setRunner t p with backend := b, mMutex := m, mBackends := backends } t where
  callbacks w := .refl (h.sound w)
  exiting h := h
  others _ htt := Function.update_of_ne htt ..

omit [DecidableEq Fn] [DecidableEq Env] in
theorem servedInv_watchFinish (h : s.ServedInv marks) {o : FinishOutcome}
    (ht : s.runner t = .watchFinish r o) {p : RunnerPoint W Fn Env}
    (hp : p = .failed r ∨ p = .addBackend r ∧ o ≠ .throws) {b : BackendState W}
    (hb : s.backend.step (.watchFinish t o) = some b) :
    { s.setRunner t p with backend := b }.ServedInv marks := by
  have hm := moves_backend h t p b s.mMutex s.mBackends
  have hwas : (s.runner t).window = some r := by rw [ht]; rfl
  have hlate : (s.runner t).Late r := .inl hwas
  have hwindow : p.window = none := by
    rcases hp with rfl | ⟨rfl, _⟩ <;> rfl
  have hsub : ∀ r', p.subscriber = some r' → r' = r := by
    rcases hp with rfl | ⟨rfl, _⟩ <;> exact fun _ h => (Option.some.inj h).symm
  obtain ⟨w, i, hthread, hthreads, _, hgrows, hinserted, _, hneeds⟩ := BackendState.watchFinish_spec hb
  obtain ⟨j, hj⟩ := h.window t r hwas
  obtain rfl : w = r.watcher := by
    rw [hthread] at hj
    cases hj
    rfl
  -- a callback whose runner has had its turn is not live if this one was cancelled
  have hkept : ∀ t' r', (s.runner t').Late r' → s.Alive r' →
      Unmarked marks s.backend r'.watcher → Unmarked marks b r'.watcher := by
    intro t' r' hl halive hold hnew
    rcases hneeds r'.watcher hnew with hneed | ⟨hw, rfl⟩
    · exact hold hneed
    · exact absurd halive (h.cancelled t r ht t' r' hl hw)
  have hbackend : { s.setRunner t p with backend := b }.runner t = p := runner_setRunner ..
  have hset : ∀ r', p.settled = some r' → r' = r ∧ o ≠ .throws := by
    rintro r' hr
    rcases hp with rfl | ⟨rfl, ho⟩
    · cases hr
    · exact ⟨(Option.some.inj hr).symm, ho⟩
  apply h.of_moves hm
  · intro t' htt
    exact congrFun hthreads t' |>.trans (Function.update_of_ne htt ..)
  · exact BackendState.windows_step h.windows (by rintro _ _ _ ⟨⟩) hb
  · intro r' id hr hadded
    rw [hbackend] at hr
    rw [hsub r' hr] at hadded ⊢
    exact h.numbered t r id (by rw [ht]; rfl) hadded
  · intro r' hr
    rw [hbackend, hwindow] at hr
    cases hr
  · intro w force next hpt
    rw [hbackend] at hpt
    rcases hp with rfl | ⟨rfl, _⟩ <;> cases hpt
  · intro r' hpt
    rw [hbackend] at hpt
    rcases hp with rfl | ⟨rfl, _⟩ <;> cases hpt
  · intro r' hl _
    rw [hbackend] at hl
    rw [hsub r' hl.subscriber]
    exact .inl hlate
  · intro t' r' htt hl halive
    have hbefore := hm.alive h hl.subscriber halive
    refine ⟨hkept t' r' hl hbefore, ?_⟩
    rintro (⟨hsubs, hn⟩ | herr)
    · exact .inl ⟨hgrows hsubs, hkept t' r' hl hbefore hn⟩
    · refine .inr (hm.erring (fun herr => ?_) herr)
      rw [ht] at herr
      cases herr
  · intro r' hr
    rw [hbackend, hwindow] at hr
    cases hr
  · intro r' hr halive
    rw [hbackend] at hr
    obtain ⟨rfl, ho⟩ := hset r' hr
    have hbefore := hm.alive h hlate.subscriber halive
    exact .inl ⟨hinserted ho, hkept t r' hlate hbefore (h.needs t r' hwas hbefore)⟩

omit [DecidableEq Fn] [DecidableEq Env] in
theorem servedInv_backendSubscribe (h : s.ServedInv marks) (ht : s.runner t = .subscribe r)
    {o : SubscribeOutcome} (ho : s.mayCancel r.watcher o.isCancelled = true)
    {b : BackendState W} (hb : s.backend.step (.watch t r.watcher false o) = some b)
    {p : RunnerPoint W Fn Env}
    (hp : p = if s.backend.watchThrows r.watcher false o then .failed r
      else match b.thread t with
        | .watching _ _ => .finishSubscribe r
        | _ => .addBackend r) (m : Option Nat) :
    { s.setRunner t p with backend := b, mMutex := m }.ServedInv marks := by
  have hm := moves_backend h t p b m s.mBackends
  have hspec := BackendState.watch_spec hb
  have hat : { s.setRunner t p with backend := b, mMutex := m }.runner t = p := runner_setRunner ..
  -- what the point says of the window
  have hcases : p = .failed r ∨ (p = .finishSubscribe r ∧ ∃ i, b.thread t = .watching r.watcher i) ∨
      (p = .addBackend r ∧ r.watcher ∈ s.backend.mSubscriptions ∧
        b.mNeedsResubscribe r.watcher = false) := by
    rcases hspec.window with ⟨i, hthread, _, hthrows⟩ | ⟨hthread, hidle, _, hnothing⟩
    · have hti : b.thread t = .watching r.watcher i := by rw [hthread, Function.update_self]
      rw [hthrows, hti] at hp
      exact .inr (.inl ⟨hp, i, hti⟩)
    · rw [hthread, hidle] at hp
      split at hp
      next => exact .inl hp
      next hthrows => exact .inr (.inr ⟨hp, hnothing (by simpa using hthrows)⟩)
  have hsub : ∀ r', p.subscriber = some r' → r' = r := by
    rcases hcases with rfl | ⟨rfl, _⟩ | ⟨rfl, _⟩ <;> exact fun _ h => (Option.some.inj h).symm
  -- a live callback keeps the watcher from being cancelled
  have hneeds : ∀ r', s.Alive r' → r'.watcher = r.watcher → b.mNeedsResubscribe r.watcher = false := by
    intro r' halive hw
    apply hspec.needs
    rintro rfl
    have hnot := h.not_isCancelled halive
    rw [hw] at hnot
    change s.isCancelled r.watcher = true at ho
    rw [hnot] at ho
    cases ho
  have hkept : ∀ r', s.Alive r' → Unmarked marks s.backend r'.watcher →
      Unmarked marks b r'.watcher := by
    intro r' halive hold
    by_cases hw : r'.watcher = r.watcher
    · rw [hw]
      exact unmarked_of_eq_false (hneeds r' halive hw)
    · rw [Unmarked, hspec.others _ hw]
      exact hold
  have hsubscriber : (s.runner t).subscriber = some r := by rw [ht]; rfl
  apply h.of_moves hm
  · intro t' htt
    rcases hspec.window with ⟨i, hthread, _⟩ | ⟨hthread, _⟩
    · exact (congrFun hthread t').trans (Function.update_of_ne htt ..)
    · exact congrFun hthread t'
  · exact BackendState.windows_step h.windows (by rintro _ _ _ ⟨⟩) hb
  · intro r' id hr hadded
    rw [hat] at hr
    rw [hsub r' hr] at hadded ⊢
    exact h.numbered t r id hsubscriber hadded
  · intro r' hr
    rw [hat] at hr
    rcases hcases with rfl | ⟨rfl, hthread⟩ | ⟨rfl, _⟩
    · cases hr
    · cases hr
      exact hthread
    · cases hr
  · intro w force next hpt
    rw [hat] at hpt
    rcases hcases with rfl | ⟨rfl, _⟩ | ⟨rfl, _⟩ <;> cases hpt
  · intro r' hpt
    rw [hat] at hpt
    rcases hcases with rfl | ⟨rfl, _⟩ | ⟨rfl, _⟩ <;> cases hpt
  · intro r' hl _
    rw [hat] at hl
    rw [hsub r' hl.subscriber]
    exact .inr hspec.free
  · intro t' r' htt hl halive
    have hbefore := hm.alive h hl.subscriber halive
    refine ⟨hkept r' hbefore, ?_⟩
    rintro (⟨hsubs, hn⟩ | herr)
    · refine .inl ⟨?_, hkept r' hbefore hn⟩
      show r'.watcher ∈ b.mSubscriptions
      rw [hspec.subs]
      exact hsubs
    · refine .inr (hm.erring (fun herr => ?_) herr)
      rw [ht] at herr
      cases herr
  · intro r' hr halive
    rw [hat] at hr
    have hl : p.Late r' := .inl hr
    obtain rfl := hsub r' hl.subscriber
    exact unmarked_of_eq_false (hneeds r' (hm.alive h hsubscriber halive) rfl)
  · intro r' hr _
    rw [hat] at hr
    rcases hcases with rfl | ⟨rfl, _⟩ | ⟨rfl, hsubs, hn⟩
    · cases hr
    · cases hr
    · cases hr
      refine .inl ⟨?_, unmarked_of_eq_false hn⟩
      show r.watcher ∈ b.mSubscriptions
      rw [hspec.subs]
      exact hsubs

omit [DecidableEq Fn] [DecidableEq Env] in
theorem servedInv_unwatch (h : s.ServedInv marks) {force : Bool} {next : AfterUnwatch W Fn Env}
    (ht : s.runner t = .unwatch w force next) {o : UnsubscribeOutcome} {p : RunnerPoint W Fn Env}
    (hp : p = if (!force && (s.callbacks w).hasCallbacks) || decide (w ∉ s.backend.mSubscriptions)
        then next.returned w
      else match o with
        | .removed => .finishUnwatch w next
        | .throws _ => next.thrown) {b : BackendState W}
    (hb : s.backend.step (.unwatch t w (!force && (s.callbacks w).hasCallbacks) o) = some b) :
    { s.setRunner t p with backend := b }.ServedInv marks := by
  have hm := moves_backend h t p b s.mMutex s.mBackends
  have hspec := BackendState.unwatch_spec hb
  have hat : { s.setRunner t p with backend := b }.runner t = p := runner_setRunner ..
  obtain ⟨hforce, hwatcher⟩ := h.unwatches t w force next ht
  have hnone : (s.runner t).erring = none := by
    rw [ht]
    cases next <;> rfl
  -- where the runner goes
  have hcases : p = next.returned w ∨ p = .finishUnwatch w next ∨ p = next.thrown := by
    rw [hp]
    split
    · exact .inl rfl
    · cases o
      · exact .inr (.inl rfl)
      · exact .inr (.inr rfl)
  have hshape : p.window = none ∧ (∀ w' f n, p ≠ .unwatch w' f n) ∧
      ∀ r, p.subscriber = some r → next = .subscribed r := by
    rcases hcases with rfl | rfl | rfl <;> cases next <;>
      refine ⟨rfl, (by rintro _ _ _ ⟨⟩), fun r hr => ?_⟩ <;> cases hr <;> rfl
  have hwas : ∀ r, next = .subscribed r → (s.runner t).settled = some r := by
    rintro r rfl
    rw [ht]
    rfl
  -- a live callback keeps the subscription, unless it is taken out for an error
  have hkept : ∀ r, s.Alive r → r.watcher ∈ s.backend.mSubscriptions →
      r.watcher ∈ b.mSubscriptions ∨ p.erring = some r.watcher := by
    intro r halive hsubs
    by_cases hw : r.watcher = w
    · subst hw
      cases hkeep : (!force && (s.callbacks r.watcher).hasCallbacks) with
      | true =>
          rw [hkeep] at hspec
          rw [hspec.subs rfl]
          exact .inl hsubs
      | false =>
          obtain ⟨_, id, _, hlive⟩ := halive
          rw [hlive.hasCallbacks, Bool.and_true, Bool.not_eq_false'] at hkeep
          rw [hkeep] at hspec hp
          cases o with
          | removed =>
              right
              rw [hp, hforce hkeep]
              simp [hsubs, RunnerPoint.erring]
          | throws someRemoved => exact .inl ((hspec.kept rfl (by simp)).mpr hsubs)
    · exact .inl ((hspec.others _ hw).mpr hsubs)
  have hserved : ∀ r, s.Alive r → s.Served marks r.watcher →
      { s.setRunner t p with backend := b }.Served marks r.watcher := by
    rintro r halive (⟨hsubs, hn⟩ | herr)
    · rcases hkept r halive hsubs with hin | herr
      · refine .inl ⟨hin, ?_⟩
        show Unmarked marks b r.watcher
        rw [Unmarked, hspec.needs]
        exact hn
      · exact .inr ⟨t, hat.symm ▸ herr⟩
    · refine .inr (hm.erring (fun herr => ?_) herr)
      rw [hnone] at herr
      cases herr
  apply h.of_moves hm
  · intro t' htt
    rcases hspec.thread with hthread | hthread
    · exact congrFun hthread t'
    · exact (congrFun hthread t').trans (Function.update_of_ne htt ..)
  · exact BackendState.windows_step h.windows (by rintro _ _ _ ⟨⟩) hb
  · intro r id hr hadded
    rw [hat] at hr
    have hold : (s.runner t).Late r := .inr (hwas r (hshape.2.2 r hr))
    exact h.numbered t r id hold.subscriber hadded
  · intro r hr
    rw [hat, hshape.1] at hr
    cases hr
  · intro w' f n hpt
    exact absurd (hat ▸ hpt) (hshape.2.1 w' f n)
  · intro r hpt
    rw [hat] at hpt
    rw [hpt] at hshape
    cases hshape.1
  · intro r hl _
    rw [hat] at hl
    exact .inl (.inr (hwas r (hshape.2.2 r hl.subscriber)))
  · intro t' r htt hl halive
    refine ⟨fun hn => ?_, hserved r (hm.alive h hl.subscriber halive)⟩
    show Unmarked marks b r.watcher
    rw [Unmarked, hspec.needs]
    exact hn
  · intro r hr
    rw [hat, hshape.1] at hr
    cases hr
  · intro r hr halive
    rw [hat] at hr
    have hl : p.Late r := .inr hr
    have hset := hwas r (hshape.2.2 r hl.subscriber)
    have hold : (s.runner t).Late r := .inr hset
    have hbefore := hm.alive h hold.subscriber halive
    exact hserved r hbefore (h.served t r hset hbefore)

omit [DecidableEq W] [DecidableEq Fn] [DecidableEq Env] in
/-- A step of the backend that changes neither `mSubscriptions` nor `mNeedsResubscribe`, by a
runner that goes on. -/
theorem servedInv_quiet (h : s.ServedInv marks) {p : RunnerPoint W Fn Env} {b : BackendState W}
    {backends : W → Bool} (hsubs : b.mSubscriptions = s.backend.mSubscriptions)
    (hneeds : b.mNeedsResubscribe = s.backend.mNeedsResubscribe)
    (hthreads : ∀ t' ≠ t, b.thread t' = s.backend.thread t') (hwindows : b.Windows)
    (hwindow : p.window = none) (hunwatch : ∀ w f n, p ≠ .unwatch w f n)
    (hsubscriber : ∀ r, p.subscriber = some r → (s.runner t).settled = some r)
    (herring : ∀ w, (s.runner t).erring = some w → p.erring = some w) :
    { s.setRunner t p with backend := b, mBackends := backends }.ServedInv marks := by
  have hm := moves_backend h t p b s.mMutex backends
  have hat : { s.setRunner t p with backend := b, mBackends := backends }.runner t = p :=
    runner_setRunner ..
  have hserved : ∀ w, s.Served marks w →
      { s.setRunner t p with backend := b, mBackends := backends }.Served marks w := by
    rintro w (⟨hin, hn⟩ | herr)
    · refine .inl ⟨hsubs ▸ hin, ?_⟩
      show Unmarked marks b w
      rw [Unmarked, hneeds]
      exact hn
    · refine .inr (hm.erring (fun herr => ?_) herr)
      rw [hat]
      exact herring w herr
  have hlate : ∀ r, p.subscriber = some r → (s.runner t).Late r := fun r hr => .inr (hsubscriber r hr)
  apply h.of_moves hm hthreads hwindows
  · intro r id hr hadded
    rw [hat] at hr
    exact h.numbered t r id (hlate r hr).subscriber hadded
  · intro r hr
    rw [hat, hwindow] at hr
    cases hr
  · exact fun w' f n hpt => absurd (hat ▸ hpt) (hunwatch w' f n)
  · intro r hpt
    rw [hat] at hpt
    rw [hpt] at hwindow
    cases hwindow
  · intro r hl _
    rw [hat] at hl
    exact .inl (hlate r hl.subscriber)
  · intro t' r _ _ _
    refine ⟨fun hn => ?_, hserved _⟩
    show Unmarked marks b r.watcher
    rw [Unmarked, hneeds]
    exact hn
  · intro r hr
    rw [hat, hwindow] at hr
    cases hr
  · intro r hr halive
    rw [hat] at hr
    have hl : p.Late r := .inr hr
    have hold := hlate r hl.subscriber
    exact hserved _ (h.served t r (hsubscriber r hl.subscriber) (hm.alive h hold.subscriber halive))

omit [DecidableEq Fn] [DecidableEq Env] in
theorem servedInv_teardown (h : s.ServedInv marks)
    (hwindows : ((s.backend.setLive w false).invalidate w).Windows) :
    { s with backend := (s.backend.setLive w false).invalidate w }.ServedInv marks := by
  obtain ⟨hsubs, _, hthread⟩ := invalidate_frame (s.backend.setLive w false) w
  have hneeds : ((s.backend.setLive w false).invalidate w).mNeedsResubscribe =
      s.backend.mNeedsResubscribe := by
    unfold BackendState.invalidate
    split <;> rfl
  have hunmarked : ∀ v, Unmarked marks s.backend v →
      Unmarked marks ((s.backend.setLive w false).invalidate w) v := by
    intro v hn
    rw [Unmarked, hneeds]
    exact hn
  have hserved : ∀ v, s.Served marks v →
      { s with backend := (s.backend.setLive w false).invalidate w }.Served marks v := by
    rintro v (⟨hin, hn⟩ | herr)
    · exact .inl ⟨hsubs.symm ▸ hin, hunmarked v hn⟩
    · exact .inr herr
  exact
    { sound := h.sound
      windows := hwindows
      numbered := h.numbered
      window := fun t r hr => hthread.symm ▸ h.window t r hr
      unwatches := h.unwatches
      cancelled := h.cancelled
      needs := fun t r hr halive => hunmarked _ (h.needs t r hr halive)
      served := fun t r hr halive => hserved _ (h.served t r hr halive) }

omit [DecidableEq W] [DecidableEq Fn] [DecidableEq Env] in
/-- `processEvents` goes on, and may set marks that it is allowed to set. -/
theorem servedInv_stream (h : s.ServedInv marks) {p : RunnerPoint W Fn Env} {b : BackendState W}
    (hsubs : b.mSubscriptions = s.backend.mSubscriptions)
    (hpending : b.mPendingSubscriptions = s.backend.mPendingSubscriptions)
    (hthread : b.thread = s.backend.thread)
    (hneeds : ∀ v, Unmarked marks s.backend v → Unmarked marks b v)
    (hwas : (s.runner t).subscriber = none ∧ (s.runner t).erring = none)
    (hp : p.subscriber = none) (hunwatch : ∀ w f n, p ≠ .unwatch w f n) :
    { s.setRunner t p with backend := b }.ServedInv marks := by
  have hm := moves_backend h t p b s.mMutex s.mBackends
  have hat : { s.setRunner t p with backend := b }.runner t = p := runner_setRunner ..
  have hlate : ∀ r, ¬ p.Late r := fun r hl => by
    rw [hl.subscriber] at hp
    cases hp
  apply h.of_moves hm
  · exact fun t' _ => congrFun hthread t'
  · refine ⟨fun t w i ht => hpending ▸ h.windows.pending t w i (hthread ▸ ht), ?_⟩
    exact fun t t' w i i' ht ht' => h.windows.unique t t' w i i' (hthread ▸ ht) (hthread ▸ ht')
  · intro r id hr
    rw [hat, hp] at hr
    cases hr
  · exact fun r hr => absurd (.inl (hat ▸ hr)) (hlate r)
  · exact fun w f n hpt => absurd (hat ▸ hpt) (hunwatch w f n)
  · intro r hpt
    rw [hat] at hpt
    rw [hpt] at hp
    cases hp
  · exact fun r hl => absurd (hat ▸ hl) (hlate r)
  · intro t' r _ _ _
    refine ⟨hneeds r.watcher, ?_⟩
    rintro (⟨hin, hn⟩ | herr)
    · exact .inl ⟨hsubs ▸ hin, hneeds r.watcher hn⟩
    · refine .inr (hm.erring (fun herr => ?_) herr)
      rw [hwas.2] at herr
      cases herr
  · exact fun r hr => absurd (.inl (hat ▸ hr)) (hlate r)
  · exact fun r hr => absurd (.inr (hat ▸ hr)) (hlate r)

omit [DecidableEq Fn] in
theorem servedInv_run (h : s.ServedInv marks) (hmarks : ∀ w, s.runner t = .takenStream w → marks w)
    (hs : s.run t = some s') : s'.ServedInv marks := by
  have hidle : ∀ {p : RunnerPoint W Fn Env} {r}, s.runner t = p → p.subscriber = some r →
      (s.runner t).subscriber = some r := fun ht hr => ht ▸ hr
  unfold run at hs
  split at hs
  next r ht =>
      cases hs
      -- a live callback is not cancelled
      have hcancelled : s.Alive r → s.isCancelled r.watcher = false := h.not_isCancelled
      split
      next hc =>
          refine h.advance (moves_setRunner h t _) rfl (fun _ => rfl) (runner_setRunner ..)
            (hidle ht rfl) rfl rfl (by rintro _ _ _ ⟨⟩) fun _ halive => ?_
          rw [hcancelled halive] at hc
          cases hc
      next =>
          exact h.advance (moves_setRunner h t _) rfl (fun _ => rfl) (runner_setRunner ..)
            (hidle ht rfl) rfl rfl (by rintro _ _ _ ⟨⟩) (by rintro ⟨⟩)
  next r ht =>
      cases hs
      split
      next =>
          exact h.advance (moves_setRunner h t _) rfl (fun _ => rfl) (runner_setRunner ..)
            (hidle ht rfl) rfl rfl (by rintro _ _ _ ⟨⟩) (by rintro ⟨⟩)
      next hnone =>
          refine h.advance (moves_setRunner h t _) rfl (fun _ => rfl) (runner_setRunner ..)
            (hidle ht rfl) rfl rfl (by rintro _ _ _ ⟨⟩) fun _ halive => ?_
          obtain ⟨_, id, _, hlive⟩ := halive
          exact absurd hlive.hasCallbacksForEnvironment hnone
  next r ht =>
      split at hs
      next =>
          split at hs
          next hc =>
              cases hs
              refine h.advance (moves_setRunner h t _) rfl (fun _ => rfl) (runner_setRunner ..)
                (hidle ht rfl) rfl rfl (by rintro _ _ _ ⟨⟩) fun _ halive => ?_
              have hnot := h.not_isCancelled (s := s) (r := r) halive
              rw [hnot] at hc
              cases hc
          next =>
              cases hs
              exact h.advance (moves_backend h t _ s.backend _ s.mBackends) rfl (fun _ => rfl)
                (runner_setRunner ..) (hidle ht rfl) rfl rfl (by rintro _ _ _ ⟨⟩)
                (by rintro ⟨⟩)
      next => cases hs
  next r o ht =>
      split at hs
      next =>
          obtain ⟨b, hb, rfl⟩ := of_backendStep hs
          refine servedInv_watchFinish (r := r) h ht ?_ hb
          cases o with
          | throws => exact .inl rfl
          | _ => exact .inr ⟨rfl, by rintro ⟨⟩⟩
      next => cases hs
  next r ht =>
      cases hs
      exact h.advance (moves_backend h t _ s.backend s.mMutex _) rfl (fun _ => rfl)
        (runner_setRunner ..) (hidle ht rfl) rfl rfl (by rintro _ _ _ ⟨⟩) fun _ _ => by rw [ht]; rfl
  next r ht =>
      cases hs
      split
      next =>
          refine h.advance (moves_setRunner h t _) rfl (fun _ => rfl) (runner_setRunner ..)
            (hidle ht rfl) rfl rfl ?_ fun _ _ => by rw [ht]; rfl
          rintro _ _ _ ⟨⟩
          exact ⟨rfl, rfl⟩
      next =>
          exact h.advance (moves_setRunner h t _) rfl (fun _ => rfl) (runner_setRunner ..)
            (hidle ht rfl) rfl rfl (by rintro _ _ _ ⟨⟩) fun _ _ => by rw [ht]; rfl
  next w next ht =>
      split at hs
      next =>
          obtain ⟨b, hb, rfl⟩ := of_backendStep hs
          have hwindows := BackendState.windows_step h.windows (by rintro _ _ _ ⟨⟩) hb
          simp only [BackendState.step] at hb
          split at hb
          next =>
              cases hb
              refine servedInv_quiet h rfl rfl (fun _ htt => Function.update_of_ne htt ..) hwindows
                ?_ ?_ ?_ ?_
              · cases next <;> rfl
              · cases next <;> rintro _ _ _ ⟨⟩
              · rw [ht]
                cases next <;> rintro r ⟨⟩
                rfl
              · rw [ht]
                cases next <;> rintro w ⟨⟩
                rfl
          next => cases hb
      next => cases hs
  next w ht =>
      cases hs
      refine servedInv_stream h rfl rfl rfl (fun v hn => ?_) (by rw [ht]; exact ⟨rfl, rfl⟩) rfl
        (by rintro _ _ _ ⟨⟩)
      intro hset
      by_cases hv : v = w
      · exact hv ▸ hmarks w ht
      · exact hn ((Function.update_of_ne hv ..).symm.trans hset)
  next => cases hs

/-- The step sets `mNeedsResubscribe` of the watcher in `processEvents`. -/
def Marks (s : Runners W Fn Env) (w : W) (a : RunnerAction W Fn Env) : Prop :=
  ∃ t, a = .run t ∧ s.runner t = .takenStream w

theorem servedInv_step {a : RunnerAction W Fn Env} (h : s.ServedInv marks)
    (hmarks : ∀ w, s.Marks w a → marks w) (hs : s.step a = some s') : s'.ServedInv marks := by
  cases a with
  | subscribe t w thread env fn creates =>
      simp only [step] at hs
      split at hs
      next ht =>
          cases hs
          exact servedInv_subscribe h ht ..
      next => cases hs
  | unsubscribe t w thread fn =>
      simp only [step] at hs
      split at hs
      next ht =>
          cases hs
          exact servedInv_unsubscribe h ht ..
      next => cases hs
  | run t => exact servedInv_run h (fun w ht => hmarks w ⟨t, rfl, ht⟩) hs
  | backendSubscribe t o =>
      simp only [step] at hs
      split at hs
      next r ht =>
          split at hs
          next ho =>
              obtain ⟨b, hb, rfl⟩ := of_backendStep hs
              exact servedInv_backendSubscribe h ht ho hb rfl none
          next => cases hs
      next => cases hs
  | finishSubscribe t o =>
      simp only [step] at hs
      split at hs
      next r ht =>
          split at hs
          next ho =>
              cases hs
              exact servedInv_finishSubscribe h ht ho
          next => cases hs
      next => cases hs
  | unwatch t o =>
      simp only [step] at hs
      split at hs
      next w force next ht =>
          split at hs
          next =>
              obtain ⟨b, hb, rfl⟩ := of_backendStep hs
              exact servedInv_unwatch h ht rfl hb
          next => cases hs
      next => cases hs
  | destroy t =>
      simp only [step] at hs
      split at hs
      next r ht =>
          cases hs
          exact servedInv_destroy h ht
      next => cases hs
  | cleanupEnvironment t w env =>
      simp only [step] at hs
      split at hs
      next ht =>
          cases hs
          exact servedInv_cleanupEnvironment h ht ..
      next => cases hs
  | handleWatcherError t w =>
      simp only [step] at hs
      split at hs
      next ht =>
          cases hs
          refine h.plain (moves_setRunner h t _) rfl (runner_setRunner ..) rfl ?_
            fun _ _ herr => absurd herr (not_erring ht rfl)
          rintro _ _ _ ⟨⟩ _
          rfl
      next => cases hs
  | notifyError t err fails =>
      simp only [step] at hs
      split at hs
      next w ht =>
          cases hs
          exact servedInv_notifyError h ht ..
      next => cases hs
  | callbacks w a =>
      simp only [step] at hs
      split at hs
      · cases hs
      · obtain ⟨c, hc, rfl⟩ := Option.map_eq_some_iff.mp hs
        exact servedInv_callbacks h hc
  | teardown w =>
      simp only [step] at hs
      split at hs
      next =>
          obtain ⟨b, hb, rfl⟩ := Option.map_eq_some_iff.mp hs
          have hwindows := BackendState.windows_step h.windows (by rintro _ _ _ ⟨⟩) hb
          cases hb
          exact servedInv_teardown h hwindows
      next => cases hs
  | takeStream t w =>
      simp only [step] at hs
      split at hs
      next ht =>
          cases hs
          exact servedInv_stream h rfl rfl rfl (fun _ hn => hn) (by rw [ht]; exact ⟨rfl, rfl⟩) rfl
            (by rintro _ _ _ ⟨⟩)
      next => cases hs
  | notifyProcessExiting =>
      cases hs
      exact servedInv_exiting h

/-! ## Runs -/

theorem servedInv_of_reach {ok : Runners W Fn Env → RunnerAction W Fn Env → Prop}
    (h : (runnerMachine W Fn Env).Reach ok s) :
    s.ServedInv fun w => ∃ s a, ok s a ∧ Marks s w a := by
  apply Machine.Reach.invariant _ _ h
  · rintro s rfl
    exact servedInv_start
  · exact fun s a s' hinv hok hs => servedInv_step hinv (fun _ hmarks => ⟨s, a, hok, hmarks⟩) hs

/-- **A resolved subscription is served.** In every interleaving of steps that are `ok`: once the
runner is resolved and while the callback it added is live, its watcher is in `mSubscriptions`,
and not marked by `mNeedsResubscribe` if `processEvents` is not to mark it; or it is in error
and its callbacks are about to be told. -/
theorem resolved_is_served {ok : Runners W Fn Env → RunnerAction W Fn Env → Prop}
    (h : (runnerMachine W Fn Env).Reach ok s)
    (hresolved : s.runner t = .resolved r) (halive : s.Alive r) :
    r.watcher ∈ s.backend.mSubscriptions ∧
        ((∀ s a, ok s a → ¬ Marks s r.watcher a) →
          s.backend.mNeedsResubscribe r.watcher = false) ∨
      s.Erring r.watcher := by
  refine ((servedInv_of_reach h).served t r (by rw [hresolved]; rfl) halive).imp_left ?_
  rintro ⟨hin, hn⟩
  refine ⟨hin, fun hnot => Bool.eq_false_iff.mpr fun hneeds => ?_⟩
  obtain ⟨s, a, hok, hmarks⟩ := hn hneeds
  exact hnot s a hok hmarks

/-- A subscription from its constructor to its promise. -/
def subscribeRun : List (RunnerAction Nat Nat Nat) :=
  [.subscribe 0 0 0 0 7 true, .run 0, .run 0, .run 0, .backendSubscribe 0 .installed,
    .finishSubscribe 0 .started, .run 0, .run 0, .run 0]

theorem resolved_is_served_one :
    ∃ s : Runners Nat Nat Nat, Machine.execute step start subscribeRun = some s ∧
      s.runner 0 = .resolved ⟨0, 0, 0, 7, some 1⟩ ∧
      (0 ∈ s.backend.mSubscriptions ∧ s.backend.mNeedsResubscribe 0 = false ∨ s.Erring 0) := by
  have hstart : (runnerMachine Nat Nat Nat).Reach (fun s a => ¬ Marks s 0 a) start := .init rfl
  refine ⟨_, rfl, rfl, ?_⟩
  have hreach := hstart.execute (l := subscribeRun) (by
    refine ⟨?_, ?_, ?_, ?_, ?_, ?_, ?_, ?_, ?_, trivial⟩ <;> rintro ⟨t, ⟨⟩, ⟨⟩⟩) rfl
  refine (resolved_is_served (t := 0) (r := ⟨0, 0, 0, 7, some 1⟩) hreach rfl
    ⟨rfl, 1, rfl, List.not_mem_nil, _, List.mem_singleton_self _, rfl, rfl, rfl⟩).imp_left ?_
  exact fun ⟨hin, hneeds⟩ => ⟨hin, hneeds fun _ _ hnot => hnot⟩

end Steps

end Runners

end NativeWatcher
