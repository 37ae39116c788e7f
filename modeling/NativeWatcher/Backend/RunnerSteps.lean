import NativeWatcher.Backend.Runners
import NativeWatcher.Watcher.Delivery

/-!
# What the steps of the runners keep

A callback that is live, that is registered, not closing and of an environment that goes on,
was so ever since it was added, and as long as it is live its watcher is not cancelled.
-/

namespace NativeWatcher

/-! ## Live callbacks -/

namespace WatcherCallbacks

variable {Fn Env : Type} {c c' : WatcherCallbacks Fn Env} {id : Nat} {env : Env}

/-- The callback is registered for the environment, and neither of them is about to end. -/
def Live (c : WatcherCallbacks Fn Env) (id : Nat) (env : Env) : Prop :=
  env ∉ c.exiting ∧ ∃ it ∈ c.mCallbacks, it.id = id ∧ it.env = env ∧ it.closing = false

theorem Live.hasCallbacks (h : c.Live id env) : c.hasCallbacks = true := by
  obtain ⟨_, it, hit, _⟩ := h
  rw [WatcherCallbacks.hasCallbacks, Bool.not_eq_true', List.isEmpty_eq_false_iff]
  exact List.ne_nil_of_mem hit

theorem Live.hasCallbacksForEnvironment [DecidableEq Env] (h : c.Live id env) :
    c.hasCallbacksForEnvironment env = true := by
  obtain ⟨_, it, hit, _, henv, _⟩ := h
  exact List.any_eq_true.mpr ⟨it, hit, by simp [henv]⟩

theorem Live.mCancelled_eq (hc : c.CancelledAlone) (h : c.Live id env) : c.mCancelled = false := by
  obtain ⟨halive, it, hit, _, henv, _⟩ := h
  have hmem : it.toWatcherCallback ∈ c.registered := List.mem_map.mpr ⟨it, hit, rfl⟩
  by_contra hcancelled
  rcases hc (by simpa using hcancelled) with hnone | ⟨env', henv', hall⟩
  · rw [hnone] at hmem
    cases hmem
  · have hsame : env = env' := henv.symm.trans (hall _ hmem)
    exact halive (hsame ▸ henv')

section Step

variable [DecidableEq Fn] [DecidableEq Env] {a : WatcherCallbackAction Fn Env}

/-- An environment that is exiting goes on to. -/
theorem exiting_step (hs : c.step a = some c') : ∀ env ∈ c.exiting, env ∈ c'.exiting := by
  have hrelease : ∀ test, (c.release test).exiting = c.exiting := by
    intro test
    obtain ⟨_, h⟩ | ⟨_, _, _, _, _, h⟩ := release_cases c test <;> rw [h]
    rfl
  intro env henv
  cases a with
  | watch thread env callback creates =>
      cases hs
      rcases watch_cases c thread env callback creates with h | h <;> rw [h] <;> exact henv
  | unwatch thread callback =>
      cases hs
      unfold unwatch
      dsimp only
      split
      · exact hrelease _ ▸ henv
      · exact hrelease _ ▸ henv
  | dispatch batch fails =>
      simp only [step] at hs
      split at hs
      · cases hs
      · cases hs
        exact henv
  | notifyError err fails =>
      cases hs
      exact henv
  | callJSFunction id =>
      obtain ⟨_, _, rfl⟩ := Option.map_eq_some_iff.mp hs
      exact henv
  | finishErrorCallback callbackId =>
      simp only [step] at hs
      split at hs
      · cases hs
        show env ∈ (c.finishErrorCallback callbackId).exiting
        unfold finishErrorCallback
        dsimp only
        split
        · exact hrelease _ ▸ henv
        · exact hrelease _ ▸ henv
      · cases hs
  | cancelEnvironment env =>
      cases hs
      unfold cancelEnvironment
      dsimp only
      split
      · exact List.mem_cons_of_mem _ henv
      · exact List.mem_cons_of_mem _ henv
  | cleanupEnvironment env =>
      cases hs
      unfold cleanupEnvironment
      dsimp only
      split <;> exact henv
  | close id =>
      cases hs
      exact henv

/-- What the callbacks of a watcher keep. -/
structure Sound (c : WatcherCallbacks Fn Env) : Prop where
  ids : c.CallbacksInv
  cancelled : c.CancelledAlone

/-- How the callbacks of a watcher change. -/
structure Evolves (c c' : WatcherCallbacks Fn Env) : Prop where
  sound : c'.Sound
  next : c.mNextCallbackId ≤ c'.mNextCallbackId
  live : ∀ id < c.mNextCallbackId, ∀ env, c'.Live id env → c.Live id env

omit [DecidableEq Fn] [DecidableEq Env] in
theorem Evolves.refl (h : c.Sound) : c.Evolves c := ⟨h, Nat.le_refl _, fun _ _ _ hl => hl⟩

/-- A callback that is live after a step was live before it, if it was there. -/
theorem evolves_step (h : c.Sound) (hs : c.step a = some c') : c.Evolves c' := by
  have hspec := stepSpec_step h.ids hs
  refine ⟨⟨hspec.inv, cancelledAlone_step h.ids h.cancelled hs⟩, hspec.next, ?_⟩
  rintro id hid env ⟨halive, it, hit, rfl, rfl, hcl⟩
  -- it was open before, under the same id
  have hwas : c.Open it.id := by
    have hnow : c'.Open it.id := ⟨it, hit, rfl, hcl⟩
    rcases hspec.change it.id hid with ⟨_, _, _, ho⟩ | ⟨_, _, _, _, ho⟩ | ⟨_, _, _, _, ho⟩ |
      ⟨_, _, _, _, ho, _⟩
    · exact ho hnow
    · exact ho
    · exact ho hnow
    · exact ho
  obtain ⟨before, hbefore, hsame, hopen⟩ := hwas
  -- and it is the same callback
  have hreg : it.toWatcherCallback ∈ c.registered := by
    have hmem : it.toWatcherCallback ∈ c'.registered := List.mem_map.mpr ⟨it, hit, rfl⟩
    rcases registered_step h.ids hs with hsub | ⟨_, _, _, _, _, hnew⟩
    · exact hsub.subset hmem
    · rw [hnew] at hmem
      rcases List.mem_append.mp hmem with hmem | hmem
      · exact hmem
      · have hlast := List.mem_singleton.mp hmem
        rw [hlast] at hid
        exact absurd hid (Nat.lt_irrefl _)
  obtain ⟨it', hit', heq⟩ := List.mem_map.mp hreg
  obtain rfl : it' = before := by
    apply List.inj_on_of_nodup_map h.ids.nodup hit' hbefore
    rw [hsame, heq]
  refine ⟨fun hexit => halive (exiting_step hs _ hexit), it', hit', hsame, ?_, hopen⟩
  rw [heq]

theorem evolves_watch (h : c.Sound) (thread : Nat) (env : Env) (fn : Fn) (creates : Bool) :
    c.Evolves (c.watch thread env fn creates) :=
  evolves_step (a := .watch thread env fn creates) h rfl

theorem evolves_unwatch (h : c.Sound) (thread : Nat) (fn : Fn) :
    c.Evolves (c.unwatch thread fn) :=
  evolves_step (a := .unwatch thread fn) h rfl

theorem evolves_cleanupEnvironment (h : c.Sound) (env : Env) :
    c.Evolves (c.cleanupEnvironment env) :=
  evolves_step (a := .cleanupEnvironment env) h rfl

theorem evolves_notifyError (h : c.Sound) (err : String) (fails : Nat → Bool) :
    c.Evolves (c.notifyError err fails) :=
  evolves_step (a := .notifyError err fails) h rfl

omit [DecidableEq Fn] [DecidableEq Env] in
/-- The error of a watcher leaves none of its callbacks live. -/
theorem not_live_notifyError (h : c.Sound) (err : String) (fails : Nat → Bool) :
    ¬ (c.notifyError err fails).Live id env := by
  rintro ⟨_, it, hit, _, _, hcl⟩
  have hmem : it ∈ c.mCallbacks.map fun it =>
      if it.closing then it else (callError err fails it (c.tsfn it.id)).1 := by
    rw [← callEach_callbacks h.ids.nodup]
    exact hit
  obtain ⟨before, _, rfl⟩ := List.mem_map.mp hmem
  split at hcl
  next hclosing => exact absurd hcl (by simp [hclosing])
  next => cases hcl

end Step

end WatcherCallbacks

/-! ## The steps of the backend -/

namespace BackendState

variable {W : Type} [DecidableEq W] {b b' : BackendState W} {t : Nat} {w : W}

/-- The watchers in the window of `watch` are pending, each for one thread. -/
structure Windows (b : BackendState W) : Prop where
  pending : ∀ t w i, b.thread t = .watching w i → w ∈ b.mPendingSubscriptions
  unique : ∀ t t' w i i', b.thread t = .watching w i → b.thread t' = .watching w i' → t = t'

/-- `subscribe` is cancelled, it opens the window, or there is nothing to subscribe. -/
structure WatchSpec (b b' : BackendState W) (t : Nat) (w : W) (o : SubscribeOutcome) : Prop where
  free : w ∉ b.mPendingSubscriptions
  subs : b'.mSubscriptions = b.mSubscriptions
  others : ∀ v ≠ w, b'.mNeedsResubscribe v = b.mNeedsResubscribe v
  needs : o ≠ .cancelled → b'.mNeedsResubscribe w = false
  window : (∃ i, b'.thread = Function.update b.thread t (.watching w i) ∧
      b'.mPendingSubscriptions = insert w b.mPendingSubscriptions ∧
      b.watchThrows w false o = false) ∨
    (b'.thread = b.thread ∧ b.thread t = .idle ∧
      b'.mPendingSubscriptions = b.mPendingSubscriptions ∧
      (b.watchThrows w false o = false → w ∈ b.mSubscriptions ∧ b'.mNeedsResubscribe w = false))

theorem watch_spec {o : SubscribeOutcome} (hs : b.step (.watch t w false o) = some b') :
    WatchSpec b b' t w o := by
  simp only [step] at hs
  split at hs
  next hidle =>
      split at hs
      · cases hs
      next hfree =>
          cases hs
          constructor
          · exact hfree
          · exact watchBegin_subs ..
          · exact (watchBegin_cases b t w false o).1.needs
          · by_cases hsub : w ∈ b.mSubscriptions <;> by_cases hinv : w ∈ b.mInvalidSubscriptions <;>
              cases hneeds : b.mNeedsResubscribe w <;> cases o <;>
              simp [watchBegin, failWatch, setNeeds, setLive, setThread, hsub, hinv, hneeds]
          · by_cases hsub : w ∈ b.mSubscriptions <;> by_cases hinv : w ∈ b.mInvalidSubscriptions <;>
              cases hneeds : b.mNeedsResubscribe w <;> cases o <;>
              simp [watchBegin, watchThrows, failWatch, setNeeds, setLive, setThread, hsub, hinv,
                hneeds, hfree, hidle]
  next => cases hs

theorem watchFinish_spec {o : FinishOutcome} (hs : b.step (.watchFinish t o) = some b') :
    ∃ w i, b.thread t = .watching w i ∧ b'.thread = Function.update b.thread t .idle ∧
      b'.mPendingSubscriptions = b.mPendingSubscriptions.erase w ∧
      b.mSubscriptions ⊆ b'.mSubscriptions ∧ (o ≠ .throws → w ∈ b'.mSubscriptions) ∧
      b'.mSubscriptions ⊆ insert w b.mSubscriptions ∧
      (∀ v, b'.mNeedsResubscribe v = true → b.mNeedsResubscribe v = true ∨ v = w ∧ o = .cancelled) := by
  simp only [step] at hs
  split at hs
  next w i ht =>
      cases hs
      refine ⟨w, i, ht, ?_⟩
      cases o <;> cases i <;>
        simp +contextual [watchFinish, failWatch, setNeeds, setLive, setThread,
          Function.update_apply, Classical.or_iff_not_imp_right]
      all_goals
        intro v hv hne
        by_contra hneeds
        exact hne (hv (by simpa using hneeds))
  next => cases hs

/-- `unwatch` keeps the watcher, removes it, or puts it back. -/
structure UnwatchSpec (b b' : BackendState W) (t : Nat) (w : W) (keep : Bool)
    (o : UnsubscribeOutcome) : Prop where
  pending : b'.mPendingSubscriptions = b.mPendingSubscriptions
  needs : b'.mNeedsResubscribe = b.mNeedsResubscribe
  others : ∀ v ≠ w, v ∈ b'.mSubscriptions ↔ v ∈ b.mSubscriptions
  thread : b'.thread = b.thread ∨ b'.thread = Function.update b.thread t (.unwatching w)
  subs : keep = true → b'.mSubscriptions = b.mSubscriptions
  removed : keep = false → o = .removed → w ∉ b'.mSubscriptions
  kept : keep = false → o ≠ .removed → (w ∈ b'.mSubscriptions ↔ w ∈ b.mSubscriptions)

theorem unwatch_spec {keep : Bool} {o : UnsubscribeOutcome}
    (hs : b.step (.unwatch t w keep o) = some b') : UnwatchSpec b b' t w keep o := by
  simp only [step] at hs
  split at hs
  next =>
      split at hs
      · cases hs
      next =>
          cases hs
          constructor
          · exact unwatchBegin_pending ..
          · cases keep with
            | true => rfl
            | false =>
                by_cases hsub : w ∈ b.mSubscriptions <;> by_cases hinv : w ∈ b.mInvalidSubscriptions <;>
                  rcases o with _ | _ | _ <;> simp [unwatchBegin, setLive, setThread, hsub, hinv]
          · cases keep with
            | true => exact fun _ _ => Iff.rfl
            | false =>
                by_cases hsub : w ∈ b.mSubscriptions <;> by_cases hinv : w ∈ b.mInvalidSubscriptions <;>
                  rcases o with _ | _ | _ <;>
                  simp +contextual [unwatchBegin, setLive, setThread, hsub, hinv]
          · exact unwatchBegin_thread ..
          · rintro rfl
            rfl
          · rintro rfl rfl
            by_cases hsub : w ∈ b.mSubscriptions <;> simp [unwatchBegin, setLive, setThread, hsub]
          · rintro rfl ho
            by_cases hsub : w ∈ b.mSubscriptions <;> by_cases hinv : w ∈ b.mInvalidSubscriptions <;>
              rcases o with _ | _ | _ <;> simp_all [unwatchBegin, setLive]
  next => cases hs

theorem windows_step {a : BackendAction W} (h : b.Windows) (ha : ∀ t w o, a ≠ .watch t w true o)
    (hs : b.step a = some b') : b'.Windows := by
  -- the windows that a step leaves are as they were
  have hfewer : (∀ t w i, b'.thread t = .watching w i → b.thread t = .watching w i) →
      b'.mPendingSubscriptions = b.mPendingSubscriptions → b'.Windows := by
    intro hthread hpending
    refine ⟨fun t w i ht => hpending ▸ h.pending t w i (hthread t w i ht), ?_⟩
    exact fun t t' w i i' ht ht' => h.unique t t' w i i' (hthread t w i ht) (hthread t' w i' ht')
  cases a with
  | watch t w isCancelled o =>
      cases isCancelled with
      | true => exact absurd rfl (ha t w o)
      | false =>
          have hspec := watch_spec hs
          rcases hspec.window with ⟨i, hthread, hpending, _⟩ | ⟨hthread, _, hpending, _⟩
          · have hcases : ∀ t' v j, b'.thread t' = .watching v j →
                t' = t ∧ v = w ∨ v ≠ w ∧ b.thread t' = .watching v j := by
              intro t' v j ht'
              rw [hthread] at ht'
              by_cases htt : t' = t
              · subst htt
                rw [Function.update_self] at ht'
                cases ht'
                exact .inl ⟨rfl, rfl⟩
              · rw [Function.update_of_ne htt] at ht'
                refine .inr ⟨?_, ht'⟩
                rintro rfl
                exact hspec.free (h.pending t' v j ht')
            constructor
            · intro t' v j ht'
              rw [hpending]
              rcases hcases t' v j ht' with ⟨_, rfl⟩ | ⟨_, hold⟩
              · exact Finset.mem_insert_self ..
              · exact Finset.mem_insert_of_mem (h.pending t' v j hold)
            · intro t₁ t₂ v j j' h₁ h₂
              rcases hcases t₁ v j h₁ with ⟨rfl, rfl⟩ | ⟨hv, h₁⟩ <;>
                rcases hcases t₂ v j' h₂ with ⟨rfl, hw⟩ | ⟨hw, h₂⟩
              · rfl
              · exact absurd rfl hw
              · exact absurd hw hv
              · exact h.unique t₁ t₂ v j j' h₁ h₂
          · exact hfewer (fun _ _ _ ht => hthread ▸ ht) hpending
  | watchFinish t o =>
      obtain ⟨w, i, ht, hthread, hpending, _⟩ := watchFinish_spec hs
      have hcases : ∀ t' v j, b'.thread t' = .watching v j → v ≠ w ∧ b.thread t' = .watching v j := by
        intro t' v j ht'
        rw [hthread] at ht'
        obtain ⟨htt, hold⟩ := watching_of_update (by simp) ht'
        refine ⟨?_, hold⟩
        rintro rfl
        exact htt (h.unique t' t v j i hold ht)
      constructor
      · intro t' v j ht'
        obtain ⟨hv, hold⟩ := hcases t' v j ht'
        rw [hpending]
        exact Finset.mem_erase.mpr ⟨hv, h.pending t' v j hold⟩
      · exact fun t₁ t₂ v j j' h₁ h₂ => h.unique t₁ t₂ v j j' (hcases t₁ v j h₁).2 (hcases t₂ v j' h₂).2
  | unwatch t w keep o =>
      have hspec := unwatch_spec hs
      refine hfewer (fun t' v j ht' => ?_) hspec.pending
      rcases hspec.thread with hthread | hthread
      · exact hthread ▸ ht'
      · rw [hthread] at ht'
        exact (watching_of_update (by simp) ht').2
  | unwatchFinish t =>
      simp only [step] at hs
      split at hs
      next =>
          cases hs
          exact hfewer (fun t' v j ht' => (watching_of_update (by simp) ht').2) rfl
      next => cases hs
  | teardown w =>
      cases hs
      obtain ⟨_, hpending, hthread⟩ := invalidate_frame (b.setLive w false) w
      exact hfewer (fun _ _ _ ht => hthread ▸ ht) hpending

end BackendState

end NativeWatcher
