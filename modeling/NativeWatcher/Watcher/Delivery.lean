import NativeWatcher.Watcher.CallbackSteps

/-!
# What the callbacks are told

The batches of a watcher form a log, and its callbacks read it. A callback is handed the
batches from the time it was added, in order and once each, for as long as it is open; the
error of `notifyError` is the last thing it is handed.
-/

namespace NativeWatcher

open Broadcast

/-- The call that `triggerCallbacks` makes for a batch. -/
def EventBatch.data (b : EventBatch) : CallbackData := ⟨b.error, b.events, none⟩

/-- The call that `notifyError` makes. -/
def errorData (id : Nat) (err : String) : CallbackData := ⟨err, [], some id⟩

namespace WatcherCallbacks

variable {Fn Env : Type} {s s' : WatcherCallbacks Fn Env} {id : Nat} {seen : List EventBatch}
  {last : Option String}

/-! ## The calls of one callback -/

/-- A callback was handed the batches `seen`, and then the error `last`, if any. -/
structure Handed (s : WatcherCallbacks Fn Env) (id : Nat) (seen : List EventBatch)
    (last : Option String) : Prop where
  accepted : s.accepted id = seen.map EventBatch.data ++ last.toList.map (errorData id)
  lossy : Lossy s.batches (s.joined id) seen
  stopped : s.missed id = false → Stopped s.batches (s.joined id) seen
  upToDate : s.Open id → last = none ∧ (s.missed id = false → UpToDate s.batches (s.joined id) seen)

theorem Handed.added (hjoined : s.joined id = s.batches.length) (haccepted : s.accepted id = []) :
    s.Handed id [] none := by
  have hjoin : UpToDate s.batches (s.joined id) [] := hjoined ▸ .join s.batches
  exact ⟨haccepted, hjoin.stopped.lossy, fun _ => hjoin.stopped, fun _ => ⟨rfl, fun _ => hjoin⟩⟩

/-- Every change keeps the form of the calls. -/
theorem Handed.change (h : s.Handed id seen last) (hjoined : s'.joined id = s.joined id)
    (hchange : Change s s' id) : ∃ seen last, s'.Handed id seen last := by
  rcases hchange with ⟨hb, ha, hm, ho⟩ | ⟨batch, hb, ha, hm, ho⟩ | ⟨batch, hb, ha, hm, ho⟩ |
    ⟨err, hb, ha, hm, ho, hc⟩
  · refine ⟨seen, last, ha.trans h.accepted, ?_, ?_, fun hopen => ?_⟩
    all_goals rw [hb, hjoined]
    · exact h.lossy
    · rw [hm]
      exact h.stopped
    · rw [hm]
      exact h.upToDate (ho hopen)
  · obtain ⟨rfl, hup⟩ := h.upToDate ho
    refine ⟨seen ++ [batch], none, ?_, ?_, fun hmissed => ?_, fun _ => ⟨rfl, fun hmissed => ?_⟩⟩
    · rw [ha, h.accepted, List.map_append]
      simp [EventBatch.data]
    all_goals rw [hb, hjoined]
    · exact h.lossy.publish batch
    · exact ((hup (hm ▸ hmissed)).publish batch).stopped
    · exact (hup (hm ▸ hmissed)).publish batch
  · refine ⟨seen, last, ha.trans h.accepted, ?_, fun hmissed => ?_, fun hopen => ?_⟩
    · rw [hb, hjoined]
      exact h.lossy.skip batch
    · rw [hb, hjoined]
      exact (h.stopped (hm hmissed).1).publish batch
    · exact ⟨(h.upToDate (ho hopen)).1, fun hmissed => absurd hopen (hm hmissed).2⟩
  · obtain ⟨rfl, _⟩ := h.upToDate ho
    refine ⟨seen, some err, ?_, ?_, ?_, fun hopen => absurd hopen hc⟩
    · rw [ha, h.accepted]
      simp [errorData]
    all_goals rw [hb, hjoined]
    · exact h.lossy
    · rw [hm]
      exact h.stopped

structure DeliveryInv (s : WatcherCallbacks Fn Env) : Prop where
  ids : s.CallbacksInv
  handed : ∀ id < s.mNextCallbackId, ∃ seen last, s.Handed id seen last

theorem DeliveryInv.start : (start : WatcherCallbacks Fn Env).DeliveryInv where
  ids := .start
  handed _ _ := ⟨[], none, Handed.added rfl rfl⟩

theorem DeliveryInv.of_stepSpec (h : s.DeliveryInv) (hspec : StepSpec s s') : s'.DeliveryInv where
  ids := hspec.inv
  handed id hid := by
    by_cases hold : id < s.mNextCallbackId
    · obtain ⟨seen, last, hhanded⟩ := h.handed id hold
      exact hhanded.change (hspec.joined id hold) (hspec.change id hold)
    · obtain ⟨hjoined, haccepted, _⟩ := hspec.added id (Nat.le_of_not_lt hold) hid
      exact ⟨[], none, Handed.added hjoined haccepted⟩

section Runs

variable [DecidableEq Fn] [DecidableEq Env]

theorem deliveryInv_of_reachable (h : (watcherCallbackMachine Fn Env).Reachable s) :
    s.DeliveryInv := by
  apply Machine.Reachable.invariant _ _ h
  · rintro s rfl
    exact .start
  · exact fun s a s' hinv hs => hinv.of_stepSpec (stepSpec_step hinv.ids hs)

/-- **What a callback is called with.** The calls that its function accepts are batches of
the log since it was added, each once and in order, and then at most one error; they are
made in this order. Where no call failed the batches are an initial part, and for a callback
that is open they are all there are. -/
theorem calls_of_callback (h : (watcherCallbackMachine Fn Env).Reachable s)
    (hid : id < s.mNextCallbackId) :
    ∃ seen last,
      (s.tsfn id).channel.accepted = seen.map EventBatch.data ++ last.toList.map (errorData id) ∧
      (s.tsfn id).channel.handled <+: (s.tsfn id).channel.accepted ∧
      ((s.tsfn id).channel.discarded = false → (s.tsfn id).channel.handled ++
        (s.tsfn id).channel.queue = (s.tsfn id).channel.accepted) ∧
      seen.Sublist (s.batches.drop (s.joined id)) ∧
      (s.missed id = false → seen <+: s.batches.drop (s.joined id)) ∧
      (s.Open id → last = none ∧ (s.missed id = false → seen = s.batches.drop (s.joined id))) := by
  obtain ⟨seen, last, hhanded⟩ := (deliveryInv_of_reachable h).handed id hid
  refine ⟨seen, last, hhanded.accepted, (s.tsfn id).channel.handled_start,
    (s.tsfn id).channel.whole, hhanded.lossy.seen_sublist,
    fun hmissed => (hhanded.stopped hmissed).seen_start, fun hopen => ?_⟩
  obtain ⟨hlast, hup⟩ := hhanded.upToDate hopen
  exact ⟨hlast, fun hmissed => (hup hmissed).seen_eq⟩

/-- A file was created. -/
def createdBatch : EventBatch := ⟨"", [⟨[47, 97], .File, true, false, none⟩]⟩

/-- A callback is added, handed a batch, and called. -/
def oneCall : List (WatcherCallbackAction Nat Nat) :=
  [.watch 0 0 7 true, .dispatch createdBatch fun _ => false, .callJSFunction 1]

theorem calls_of_callback_one : ∃ s, Machine.execute step start oneCall = some s ∧ s.Open 1 ∧
    ∃ seen last, (s.tsfn 1).channel.accepted = seen.map EventBatch.data ++
      last.toList.map (errorData 1) ∧ last = none ∧ seen = [createdBatch] := by
  refine ⟨_, rfl, ⟨_, List.mem_singleton_self _, rfl, rfl⟩, ?_⟩
  have hstart : (watcherCallbackMachine Nat Nat).Reachable start := .init rfl
  obtain ⟨seen, last, haccepted, _, _, _, _, hopen⟩ :=
    calls_of_callback (hstart.execute (l := oneCall) rfl) (Nat.lt_succ_self 1)
  obtain ⟨hlast, hseen⟩ := hopen ⟨_, List.mem_singleton_self _, rfl, rfl⟩
  exact ⟨seen, last, haccepted, hlast, hseen rfl⟩

/-! ## After a callback is gone -/

theorem closed_step {a : WatcherCallbackAction Fn Env} (h : s.CallbacksInv)
    (hid : id < s.mNextCallbackId) (hclosed : ¬ s.Open id) (hs : s.step a = some s') :
    s'.accepted id = s.accepted id ∧ ¬ s'.Open id := by
  rcases (stepSpec_step h hs).change id hid with ⟨_, ha, _, ho⟩ | ⟨_, _, _, _, ho⟩ |
    ⟨_, _, ha, _, ho⟩ | ⟨_, _, _, _, ho, _⟩
  · exact ⟨ha, hclosed ∘ ho⟩
  · exact absurd ho hclosed
  · exact ⟨ha, hclosed ∘ ho⟩
  · exact absurd ho hclosed

/-- A callback that is not open is handed nothing more, whatever follows. -/
theorem closed_run {l : List (WatcherCallbackAction Fn Env)} (h : s.CallbacksInv)
    (hid : id < s.mNextCallbackId) (hclosed : ¬ s.Open id)
    (hs : Machine.execute step s l = some s') :
    s'.accepted id = s.accepted id ∧ ¬ s'.Open id := by
  have hkept := Machine.execute_invariant (P := fun s₁ => s₁.CallbacksInv ∧
    id < s₁.mNextCallbackId ∧ s₁.accepted id = s.accepted id ∧ ¬ s₁.Open id)
    (fun s₁ a s₂ hstep ⟨h₁, hid₁, ha₁, hc₁⟩ => by
      have hspec := stepSpec_step h₁ hstep
      obtain ⟨ha, hc⟩ := closed_step h₁ hid₁ hc₁ hstep
      exact ⟨hspec.inv, hid₁.trans_le hspec.next, ha.trans ha₁, hc⟩)
    hs ⟨h, hid, rfl, hclosed⟩
  exact hkept.2.2

/-- A thread registers a function at most once. -/
def Distinct (s : WatcherCallbacks Fn Env) : Prop :=
  (s.registered.map fun cb => (cb.threadId, cb.ref)).Nodup

theorem distinct_of_reachable (h : (watcherCallbackMachine Fn Env).Reachable s) : s.Distinct := by
  have hboth : s.CallbacksInv ∧ s.Distinct := by
    apply Machine.Reachable.invariant _ _ h
    · rintro s rfl
      exact ⟨.start, List.nodup_nil⟩
    · rintro s a s' ⟨hinv, hdistinct⟩ hs
      refine ⟨(stepSpec_step hinv hs).inv, ?_⟩
      rcases registered_step hinv hs with hsub | ⟨thread, env, callback, _, hnew, hreg⟩
      · exact hdistinct.sublist (hsub.map _)
      · rw [Distinct, hreg, List.map_append]
        refine List.nodup_append'.mpr ⟨hdistinct, List.nodup_singleton _, ?_⟩
        rintro pair hpair hlast
        obtain ⟨cb, hcb, rfl⟩ := List.mem_map.mp hpair
        have hne := List.any_eq_false.mp hnew cb hcb
        simp only [List.map_cons, List.map_nil, List.mem_singleton, Prod.mk.injEq] at hlast
        simp [SharedWatchers.isCallback, hlast.1, hlast.2] at hne
  exact hboth.2

/-- **Unsubscribed for good.** Once `unwatch` has returned, the callback it found has been
released once, keeps the calls that are queued, and is never handed another one. -/
theorem unwatched_for_good {it : Callback Fn Env} {thread : Nat} {callback : Fn}
    {s₁ : WatcherCallbacks Fn Env} {l : List (WatcherCallbackAction Fn Env)}
    (h : (watcherCallbackMachine Fn Env).Reachable s) (hit : it ∈ s.mCallbacks)
    (hfound : SharedWatchers.isCallback thread callback it.toWatcherCallback = true)
    (hunwatch : s.step (.unwatch thread callback) = some s₁)
    (hs : Machine.execute step s₁ l = some s') :
    (s₁.tsfn it.id).released = 1 ∧ (s₁.tsfn it.id).channel = (s.tsfn it.id).channel ∧
      s'.accepted it.id = s.accepted it.id := by
  have hinv := (deliveryInv_of_reachable h).ids
  let test := fun it : Callback Fn Env =>
    SharedWatchers.isCallback thread callback it.toWatcherCallback
  -- the first callback that passes the test is the only one
  have honly : ∀ it' ∈ s.mCallbacks, test it' = true → it' = it := by
    intro it' hit' htest
    apply List.inj_on_of_nodup_map (f := fun it : Callback Fn Env => (it.threadId, it.ref)) _ hit' hit
    · simp only [test, SharedWatchers.isCallback, Bool.and_eq_true, beq_iff_eq] at htest hfound
      rw [htest.1, htest.2, hfound.1, hfound.2]
    · have hdistinct := distinct_of_reachable h
      rw [Distinct, registered, List.map_map] at hdistinct
      exact hdistinct
  have hspec := stepSpec_step hinv hunwatch
  obtain ⟨hnone, _⟩ | ⟨before, it', after, hsplit, htest, hrelease⟩ := release_cases s test
  · exact absurd hfound (by simpa [test] using hnone it hit)
  · obtain rfl : it' = it := honly it' (hsplit ▸ by simp) htest
    have htsfn : s₁.tsfn = Function.update s.tsfn it'.id (s.tsfn it'.id).release := by
      cases hunwatch
      unfold unwatch
      dsimp only
      split
      all_goals
        show (s.release test).tsfn = _
        rw [hrelease]
        rfl
    have hcallbacks : s₁.mCallbacks = before ++ after := by
      cases hunwatch
      unfold unwatch
      dsimp only
      split
      all_goals
        show (s.release test).mCallbacks = _
        rw [hrelease]
    have hclosed : ¬ s₁.Open it'.id := by
      rintro ⟨other, hother, hid, _⟩
      rw [hcallbacks] at hother
      have hnodup := hinv.nodup
      rw [hsplit, List.map_append, List.map_cons, List.nodup_middle, ← List.map_append,
        List.nodup_cons] at hnodup
      exact hnodup.1 (List.mem_map.mpr ⟨other, hother, hid⟩)
    have haccepted : s₁.accepted it'.id = s.accepted it'.id := by
      rw [accepted, htsfn, Function.update_self]
      rfl
    have hnum := (hinv.numbered it' hit).trans_le hspec.next
    refine ⟨?_, ?_, ((closed_run hspec.inv hnum hclosed hs).1).trans haccepted⟩
    · rw [htsfn, Function.update_self]
      exact congrArg (· + 1) (hinv.held it' hit)
    · rw [htsfn, Function.update_self]
      rfl

/-- The callback is removed while a batch is queued for it, and another batch comes. -/
theorem unwatched_for_good_queued :
    ∃ s s₁ s', Machine.execute step start (oneCall.take 2) = some s ∧
      s.step (.unwatch 0 7) = some s₁ ∧
      Machine.execute step s₁ [.watch 0 0 8 true, .dispatch createdBatch fun _ => false] = some s' ∧
      (s₁.tsfn 1).released = 1 ∧ s'.accepted 1 = s.accepted 1 ∧
      s.accepted 1 = [createdBatch.data] := by
  have hstart : (watcherCallbackMachine Nat Nat).Reachable start := .init rfl
  refine ⟨_, _, _, rfl, rfl, rfl, ?_⟩
  obtain ⟨hreleased, _, haccepted⟩ := @unwatched_for_good Nat Nat _ _ _ _ ⟨⟨1, 7, 0, 0⟩, false⟩ 0 7
    _ [.watch 0 0 8 true, .dispatch createdBatch fun _ => false]
    (hstart.execute (l := oneCall.take 2) rfl) (List.mem_singleton_self _) rfl rfl rfl
  exact ⟨hreleased, haccepted, rfl⟩

/-! ## `mCancelled` -/

/-- A cancelled watcher has no callbacks, or only those of one exiting environment. -/
def CancelledAlone (s : WatcherCallbacks Fn Env) : Prop :=
  s.mCancelled = true → s.registered = [] ∨ ∃ env ∈ s.exiting, ∀ cb ∈ s.registered, cb.env = env

omit [DecidableEq Fn] [DecidableEq Env] in
theorem CancelledAlone.sub (h : s.CancelledAlone) (hcancelled : s'.mCancelled = s.mCancelled)
    (hexiting : s'.exiting = s.exiting) (hsub : s'.registered.Sublist s.registered) :
    s'.CancelledAlone := by
  intro hc
  rcases h (hcancelled ▸ hc) with hnone | ⟨env, henv, hall⟩
  · exact .inl (List.sublist_nil.mp (hnone ▸ hsub))
  · exact .inr ⟨env, hexiting ▸ henv, fun cb hcb => hall cb (hsub.subset hcb)⟩

omit [DecidableEq Fn] [DecidableEq Env] in
theorem CancelledAlone.release (h : s.CancelledAlone) (test : Callback Fn Env → Bool) :
    (s.release test).CancelledAlone := by
  refine h.sub ?_ ?_ (registered_release test)
  all_goals
    obtain ⟨_, hs⟩ | ⟨_, _, _, _, _, hs⟩ := release_cases s test
    · rw [hs]
    · rw [hs]
      rfl

omit [DecidableEq Fn] [DecidableEq Env] in
/-- A watcher that is cancelled because its last callback went. -/
theorem CancelledAlone.empty (hempty : s.mCallbacks.isEmpty = true) : s.CancelledAlone := by
  intro _
  left
  rw [registered, List.isEmpty_iff.mp hempty]
  rfl

theorem cancelledAlone_step {a : WatcherCallbackAction Fn Env} (h : s.CallbacksInv)
    (hc : s.CancelledAlone) (hs : s.step a = some s') : s'.CancelledAlone := by
  have hregistered := registered_step h hs
  cases a with
  | watch thread env callback creates =>
      cases hs
      intro hcancelled
      rcases watch_cases s thread env callback creates with hs | hs
      all_goals
        rw [hs] at hcancelled
        cases hcancelled
  | unwatch thread callback =>
      cases hs
      unfold unwatch
      dsimp only
      split
      next hempty =>
          exact .empty (s := { s.release _ with mCancelled := true })
            (Bool.and_eq_true _ _ ▸ hempty).2
      next => exact hc.release _
  | dispatch batch fails =>
      simp only [step] at hs
      split at hs
      · cases hs
      · cases hs
        rcases hregistered with hsub | ⟨_, _, _, hwatch, _⟩
        · exact hc.sub rfl rfl hsub
        · cases hwatch
  | notifyError err fails =>
      cases hs
      rcases hregistered with hsub | ⟨_, _, _, hwatch, _⟩
      · exact hc.sub rfl rfl hsub
      · cases hwatch
  | callJSFunction id =>
      obtain ⟨_, _, rfl⟩ := Option.map_eq_some_iff.mp hs
      exact hc
  | finishErrorCallback callbackId =>
      simp only [step] at hs
      split at hs
      · cases hs
        show (s.finishErrorCallback callbackId).CancelledAlone
        unfold finishErrorCallback
        dsimp only
        split
        next hempty => exact .empty (s := { s.release _ with mCancelled := true }) hempty
        next => exact hc.release _
      · cases hs
  | cancelEnvironment env =>
      cases hs
      unfold cancelEnvironment
      dsimp only
      split
      next hboth =>
          -- every callback is one of the environment
          intro _
          refine .inr ⟨env, List.mem_cons_self, fun cb hcb => ?_⟩
          obtain ⟨it, hit, rfl⟩ := List.mem_map.mp hcb
          rw [Bool.and_eq_true, Bool.not_eq_true', List.any_eq_false] at hboth
          simpa using hboth.2 it hit
      next =>
          intro hcancelled
          rcases hc hcancelled with hnone | ⟨env', henv, hall⟩
          · exact .inl hnone
          · exact .inr ⟨env', List.mem_cons_of_mem _ henv, hall⟩
  | cleanupEnvironment env =>
      cases hs
      unfold cleanupEnvironment
      dsimp only
      split
      next hempty =>
          intro _
          left
          show List.map _ _ = []
          rw [Bool.and_eq_true] at hempty
          rw [List.isEmpty_iff.mp hempty.2]
          rfl
      next => exact hc.sub rfl rfl (List.filter_sublist.map _)
  | close id =>
      cases hs
      exact hc

/-- **Cancelled in vain for nobody.** While a callback of an environment that is not exiting
is registered, the watcher is not cancelled. -/
theorem not_cancelled (h : (watcherCallbackMachine Fn Env).Reachable s) {it : Callback Fn Env}
    (hit : it ∈ s.mCallbacks) (halive : it.env ∉ s.exiting) : s.mCancelled = false := by
  have hboth : s.CallbacksInv ∧ s.CancelledAlone := by
    apply Machine.Reachable.invariant _ _ h
    · rintro s rfl
      exact ⟨.start, by rintro ⟨⟩⟩
    · rintro s a s' ⟨hinv, hc⟩ hs
      exact ⟨(stepSpec_step hinv hs).inv, cancelledAlone_step hinv hc hs⟩
  have hmem : it.toWatcherCallback ∈ s.registered := List.mem_map.mpr ⟨it, hit, rfl⟩
  by_contra hcancelled
  rcases hboth.2 (by simpa using hcancelled) with hnone | ⟨env, henv, hall⟩
  · rw [hnone] at hmem
    cases hmem
  · exact halive (hall _ hmem ▸ henv)

/-- The first environment exits while it has the only callback, and a second one joins. -/
theorem not_cancelled_second :
    ∃ s : WatcherCallbacks Nat Nat, Machine.execute step start
        [.watch 0 0 7 true, .cancelEnvironment 0, .watch 1 1 8 true] = some s ∧
      s.exiting = [0] ∧ s.mCancelled = false := by
  have hstart : (watcherCallbackMachine Nat Nat).Reachable start := .init rfl
  refine ⟨_, rfl, rfl, ?_⟩
  have hreach := hstart.execute
    (l := [.watch 0 0 7 true, .cancelEnvironment 0, .watch 1 1 8 true]) rfl
  exact @not_cancelled Nat Nat _ _ _ hreach ⟨⟨2, 8, 1, 1⟩, false⟩
    (List.mem_cons_of_mem _ (List.mem_singleton_self _)) (by decide)

end Runs

end WatcherCallbacks

end NativeWatcher
