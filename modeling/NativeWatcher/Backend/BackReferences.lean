import NativeWatcher.Backend.Subscriptions

/-!
# The backends a watcher lists

After `watch` returns, its caller adds the backend to `mBackends` of the watcher;
`unwatch` removes it there in a critical section of its own, after the window of
`finishUnsubscribe`. `cleanupEnvironment` finds the backends to unwatch only in that
list.

`unwatch` does not look at `mSubscriptions` again when it takes the lock back, so it
also drops the entry of a subscription that another thread made in between.
-/

namespace NativeWatcher

/-! ## States and steps -/

/-- One backend and the lists of all watchers. `expired` are the backends that are
destroyed; `adding` says which thread has returned from `watch` and not yet called
`addBackend`. -/
structure BackReferences (W B : Type) where
  backend : BackendState W
  mBackends : W → List B
  expired : B → Bool
  adding : Nat → Option W

inductive BackReferenceAction (W B : Type) where
  | watch (thread : Nat) (w : W) (isCancelled : Bool) (o : SubscribeOutcome)
  | watchFinish (thread : Nat) (o : FinishOutcome)
  | addBackend (thread : Nat)
  | unwatch (thread : Nat) (w : W) (keep : Bool) (o : UnsubscribeOutcome)
  /-- From `lock.lock()` after `finishUnsubscribe` on. -/
  | unwatchFinish (thread : Nat)
  | teardown (w : W)
  /-- Another backend is added or removed. -/
  | addOther (w : W) (b : B)
  | removeOther (w : W) (b : B)
  /-- Another backend is destroyed. -/
  | expire (b : B)

namespace BackReferences

variable {W B : Type} [DecidableEq W] [DecidableEq B]

def start : BackReferences W B :=
  ⟨.start, fun _ => [], fun _ => false, fun _ => none⟩

/-- `Watcher::addBackend`. -/
def addBackend (s : BackReferences W B) (w : W) (b : B) : BackReferences W B :=
  if (s.mBackends w).any fun existing => !s.expired existing && existing == b then s
  else { s with mBackends := Function.update s.mBackends w (s.mBackends w ++ [b]) }

/-- `Watcher::removeBackend`. -/
def removeBackend (s : BackReferences W B) (w : W) (b : B) : BackReferences W B :=
  let kept := (s.mBackends w).filter fun existing => !(s.expired existing || existing == b)
  { s with mBackends := Function.update s.mBackends w kept }

/-- The backends `cleanupEnvironment` unwatches. -/
def cleanupBackends (s : BackReferences W B) (w : W) : List B :=
  (s.mBackends w).filter fun existing => !s.expired existing

def setAdding (s : BackReferences W B) (t : Nat) (o : Option W) : BackReferences W B :=
  { s with adding := Function.update s.adding t o }

/-- `watch` up to the unlock, or to its return. -/
def watch (s : BackReferences W B) (t : Nat) (w : W) (isCancelled : Bool)
    (o : SubscribeOutcome) : Option (BackReferences W B) :=
  (s.backend.step (.watch t w isCancelled o)).map fun backend =>
    let s' := { s with backend := backend }
    match backend.thread t with
    | .idle => if s.backend.watchThrows w isCancelled o then s' else s'.setAdding t (some w)
    | _ => s'

/-- `watch` from `finishSubscribe` on. -/
def watchFinish (s : BackReferences W B) (t : Nat) (o : FinishOutcome) :
    Option (BackReferences W B) :=
  match s.backend.thread t with
  | .watching w wasInvalid =>
      let s' := { s with backend := s.backend.watchFinish t w wasInvalid o }
      match o with
      | .throws => some s'
      | _ => some (s'.setAdding t (some w))
  | _ => none

variable (own : B)

/-- One critical section of `mMutex` of the backend or of a watcher. -/
def step (s : BackReferences W B) : BackReferenceAction W B → Option (BackReferences W B)
  | .watch t w isCancelled o =>
      if s.adding t = none then s.watch t w isCancelled o else none
  | .watchFinish t o => s.watchFinish t o
  | .addBackend t =>
      match s.adding t with
      | some w => some ((s.addBackend w own).setAdding t none)
      | none => none
  | .unwatch t w keep o =>
      if s.adding t = none then
        (s.backend.step (.unwatch t w keep o)).map fun backend => { s with backend := backend }
      else none
  | .unwatchFinish t =>
      match s.backend.thread t with
      | .unwatching w =>
          some { s.removeBackend w own with backend := s.backend.setThread t .idle }
      | _ => none
  | .teardown w => (s.backend.step (.teardown w)).map fun backend => { s with backend := backend }
  | .addOther w b => if b = own then none else some (s.addBackend w b)
  | .removeOther w b => if b = own then none else some (s.removeBackend w b)
  | .expire b =>
      if b = own then none else some { s with expired := Function.update s.expired b true }

end BackReferences

/-- The interleavings of any number of threads. -/
def backReferenceMachine (W : Type) {B : Type} [DecidableEq W] [DecidableEq B] (own : B) :
    Machine (BackReferences W B) (BackReferenceAction W B) :=
  .ofStep .start (BackReferences.step own)

/-! ## The entry of the backend -/

section Listed

variable {W B : Type} {own : B} {s s' : BackReferences W B} {t : Nat} {w : W}

/-- The watcher lists the backend. -/
def Listed (own : B) (s : BackReferences W B) (w : W) : Prop :=
  own ∈ s.mBackends w ∧ s.expired own = false

/-- A thread is in `watch` of the watcher, or between `watch` and `addBackend`. -/
def Listing (s : BackReferences W B) (w : W) : Prop :=
  ∃ t, s.adding t = some w ∨ ∃ i, s.backend.thread t = .watching w i

/-- No thread is in `watch` or `unwatch` of the watcher. -/
def Settled (s : BackReferences W B) (w : W) : Prop :=
  ∀ t, s.adding t ≠ some w ∧ (∀ i, s.backend.thread t ≠ .watching w i) ∧
    s.backend.thread t ≠ .unwatching w

/-- What a step must avoid. `unwatch` must not remove the entry of a watcher that is
subscribed again, unless a `watch` of it is under way that adds the entry back; and
such a `watch` must not fail. -/
def KeepsEntry (own : B) (s : BackReferences W B) : BackReferenceAction W B → Prop
  | .unwatchFinish t =>
      ∀ w, s.backend.thread t = .unwatching w → w ∈ s.backend.mSubscriptions → Listing s w
  | .watchFinish t .throws =>
      ∀ w i, s.backend.thread t = .watching w i → w ∈ s.backend.mSubscriptions →
        Listed own s w ∨ ∃ t', s.adding t' = some w
  | _ => True

structure BackReferenceInv (own : B) (s : BackReferences W B) : Prop where
  alive : s.expired own = false
  found : ∀ w ∈ s.backend.mSubscriptions, own ∈ s.mBackends w ∨ Listing s w
  returned : ∀ t w, s.adding t = some w → s.backend.thread t = .idle

theorem backReferenceInv_start :
    BackReferenceInv own (BackReferences.start : BackReferences W B) where
  alive := rfl
  found w hw := absurd hw (Finset.notMem_empty w)
  returned _ _ ht := nomatch ht

variable [DecidableEq W]

/-! ## One step -/

omit [DecidableEq W] in
/-- A step that subscribes nothing, and after which the entries are there or on their
way as before. -/
theorem BackReferenceInv.keep (h : BackReferenceInv own s) (halive : s'.expired own = false)
    (hsubs : ∀ v ∈ s'.backend.mSubscriptions, v ∈ s.backend.mSubscriptions)
    (hmem : ∀ v, own ∈ s.mBackends v → own ∈ s'.mBackends v)
    (hlisting : ∀ v ∈ s'.backend.mSubscriptions, Listing s v →
      own ∈ s'.mBackends v ∨ Listing s' v)
    (hreturned : ∀ t v, s'.adding t = some v → s'.backend.thread t = .idle) :
    BackReferenceInv own s' where
  alive := halive
  found v hv := by
    rcases h.found v (hsubs v hv) with hl | hl
    · exact Or.inl (hmem v hl)
    · exact hlisting v hv hl
  returned := hreturned

omit [DecidableEq W] in
/-- Only thread `t` moves, and what it was about to do for `v` is not lost. -/
theorem Listing.of_others (hthread : ∀ t' ≠ t, s'.backend.thread t' = s.backend.thread t')
    (hadding : ∀ t' ≠ t, s'.adding t' = s.adding t') {v : W} (hl : Listing s v)
    (ht : (s.adding t = some v ∨ ∃ i, s.backend.thread t = .watching v i) → Listing s' v) :
    Listing s' v := by
  obtain ⟨t', hl⟩ := hl
  by_cases htt : t' = t
  · subst htt
    exact ht hl
  · refine ⟨t', ?_⟩
    rw [hthread t' htt, hadding t' htt]
    exact hl

/-- How `watch` leaves the threads. -/
theorem watch_cases {isCancelled : Bool} {o : SubscribeOutcome}
    (hs : s.watch t w isCancelled o = some s') :
    s.backend.thread t = .idle ∧ s'.backend.mSubscriptions = s.backend.mSubscriptions ∧
      s'.mBackends = s.mBackends ∧ s'.expired = s.expired ∧
      (∀ t' ≠ t, s'.backend.thread t' = s.backend.thread t') ∧
      (∀ t' ≠ t, s'.adding t' = s.adding t') ∧
      (s'.backend.thread t = .idle ∨ s'.adding t = s.adding t) := by
  obtain ⟨b, hb, rfl⟩ := Option.map_eq_some_iff.mp hs
  simp only [BackendState.step] at hb
  split at hb
  next hidle =>
      split at hb
      · cases hb
      next hw =>
          obtain rfl := Option.some.inj hb
          have hsubs := watchBegin_subs s.backend t w isCancelled o
          have hthread : ∀ t' ≠ t,
              (s.backend.watchBegin t w isCancelled o).thread t' = s.backend.thread t' := by
            intro t' ht
            obtain ⟨-, ⟨hthread, -⟩ | ⟨i, hthread, -⟩⟩ :=
              watchBegin_cases s.backend t w isCancelled o
            · rw [hthread]
            · rw [hthread, Function.update_of_ne ht]
          refine ⟨hidle, ?_⟩
          -- Whether `adding` changes depends on how `watch` came back.
          split
          next hback =>
              split
              · exact ⟨hsubs, rfl, rfl, hthread, fun _ _ => rfl, Or.inr rfl⟩
              · exact ⟨hsubs, rfl, rfl, hthread,
                  fun t' ht => Function.update_of_ne ht .., Or.inl hback⟩
          next => exact ⟨hsubs, rfl, rfl, hthread, fun _ _ => rfl, Or.inr rfl⟩
  next => cases hb

theorem backReferenceInv_watch {isCancelled : Bool} {o : SubscribeOutcome}
    (h : BackReferenceInv own s) (ht : s.adding t = none)
    (hs : s.watch t w isCancelled o = some s') : BackReferenceInv own s' := by
  obtain ⟨hidle, hsubs, hlists, hexpired, hthread, hadding, hback⟩ := watch_cases hs
  refine h.keep (hexpired ▸ h.alive) (fun v hv => hsubs ▸ hv) (fun v hm => hlists ▸ hm)
    (fun v _ hl => Or.inr (hl.of_others hthread hadding ?_)) ?_
  · rw [ht, hidle]
    rintro (hv | ⟨i, hv⟩) <;> cases hv
  · intro t' v ht'
    by_cases htt : t' = t
    · subst htt
      rcases hback with hback | hback
      · exact hback
      · rw [hback, ht] at ht'
        cases ht'
    · rw [hadding t' htt] at ht'
      rw [hthread t' htt]
      exact h.returned t' v ht'

/-- How `watch` from `finishSubscribe` on leaves the threads. -/
theorem watchFinish_moves {o : FinishOutcome} (hs : s.watchFinish t o = some s') :
    ∃ w i, s.backend.thread t = .watching w i ∧
      s'.mBackends = s.mBackends ∧ s'.expired = s.expired ∧
      s'.backend.thread = Function.update s.backend.thread t .idle ∧
      (∀ t' ≠ t, s'.adding t' = s.adding t') ∧
      ((o = .throws ∧ s'.adding t = s.adding t ∧
          s'.backend.mSubscriptions = s.backend.mSubscriptions) ∨
        (s'.adding t = some w ∧
          s'.backend.mSubscriptions = insert w s.backend.mSubscriptions)) := by
  unfold BackReferences.watchFinish at hs
  split at hs
  next w i ht =>
      refine ⟨w, i, ht, ?_⟩
      have hthread := watchFinish_thread s.backend t w i o
      cases o with
      | throws =>
          obtain rfl := Option.some.inj hs
          refine ⟨rfl, rfl, hthread, fun _ _ => rfl, Or.inl ⟨rfl, rfl, ?_⟩⟩
          cases i <;> rfl
      | started =>
          obtain rfl := Option.some.inj hs
          exact ⟨rfl, rfl, hthread, fun t' htt => Function.update_of_ne htt ..,
            Or.inr ⟨Function.update_self .., rfl⟩⟩
      | cancelled =>
          obtain rfl := Option.some.inj hs
          exact ⟨rfl, rfl, hthread, fun t' htt => Function.update_of_ne htt ..,
            Or.inr ⟨Function.update_self .., rfl⟩⟩
  next => cases hs

theorem backReferenceInv_watchFinish {o : FinishOutcome} (h : BackReferenceInv own s)
    (hok : KeepsEntry own s (.watchFinish t o)) (hs : s.watchFinish t o = some s') :
    BackReferenceInv own s' := by
  obtain ⟨w, i, ht, hlists, hexpired, hthread, hadding, ho⟩ := watchFinish_moves hs
  have hnone : s.adding t = none := by
    cases ha : s.adding t with
    | none => rfl
    | some v =>
        have hidle := h.returned t v ha
        rw [ht] at hidle
        cases hidle
  -- The other watchers are listed, or on their way in other threads.
  have hother : ∀ v ≠ w, v ∈ s.backend.mSubscriptions → own ∈ s'.mBackends v ∨ Listing s' v := by
    intro v hvw hv
    rw [hlists]
    refine (h.found v hv).imp_right fun hl => hl.of_others (t := t) ?_ hadding ?_
    · intro t' htt
      rw [hthread, Function.update_of_ne htt]
    · rw [hnone, ht]
      rintro (hv | ⟨j, hv⟩) <;> cases hv
      exact absurd rfl hvw
  refine ⟨hexpired ▸ h.alive, fun v hv => ?_, fun t' v ht' => ?_⟩
  · by_cases hvw : v = w
    · subst hvw
      rcases ho with ⟨rfl, hkeep, hsubs⟩ | ⟨hadd, -⟩
      · rcases hok v i ht (hsubs ▸ hv) with hl | ⟨t', ht'⟩
        · exact Or.inl (hlists ▸ hl.1)
        · refine Or.inr ⟨t', Or.inl ?_⟩
          by_cases htt : t' = t
          · rw [htt, hkeep, ← htt, ht']
          · rw [hadding t' htt, ht']
      · exact Or.inr ⟨t, Or.inl hadd⟩
    · refine hother v hvw ?_
      rcases ho with ⟨-, -, hsubs⟩ | ⟨-, hsubs⟩
      · exact hsubs ▸ hv
      · rw [hsubs] at hv
        exact (Finset.mem_insert.mp hv).resolve_left hvw
  · rw [hthread]
    by_cases htt : t' = t
    · rw [htt, Function.update_self]
    · rw [Function.update_of_ne htt]
      exact h.returned t' v ((hadding t' htt).symm.trans ht')

theorem backReferenceInv_unwatch {keep : Bool} {o : UnsubscribeOutcome} {b : BackendState W}
    (h : BackReferenceInv own s) (hnone : s.adding t = none)
    (hb : s.backend.step (.unwatch t w keep o) = some b) :
    BackReferenceInv own { s with backend := b } := by
  simp only [BackendState.step] at hb
  split at hb
  next hidle =>
      split at hb
      · cases hb
      next =>
          obtain rfl := Option.some.inj hb
          have hthread : ∀ t' ≠ t,
              (s.backend.unwatchBegin t w keep o).thread t' = s.backend.thread t' := by
            intro t' htt
            rcases unwatchBegin_thread s.backend t w keep o with hthread | hthread
            · rw [hthread]
            · rw [hthread, Function.update_of_ne htt]
          refine h.keep h.alive (fun v hv => unwatchBegin_subs hv) (fun _ hm => hm)
            (fun v _ hl => Or.inr ?_) ?_
          · refine hl.of_others hthread ?_ ?_
            · exact fun _ _ => rfl
            · rw [hnone, hidle]
              rintro (hv | ⟨i, hv⟩) <;> cases hv
          · intro t' v ht'
            have htt : t' ≠ t := by
              rintro rfl
              rw [hnone] at ht'
              cases ht'
            exact (hthread t' htt).trans (h.returned t' v ht')
  next => cases hb

variable [DecidableEq B]

theorem mem_addBackend {b c : B} {v : W} (hc : c ∈ s.mBackends v) :
    c ∈ (s.addBackend w b).mBackends v := by
  unfold BackReferences.addBackend
  split
  · exact hc
  · by_cases hvw : v = w
    · subst hvw
      show c ∈ Function.update s.mBackends v (s.mBackends v ++ [b]) v
      rw [Function.update_self]
      exact List.mem_append_left _ hc
    · show c ∈ Function.update s.mBackends w (s.mBackends w ++ [b]) v
      rw [Function.update_of_ne hvw]
      exact hc

theorem mem_addBackend_self (s : BackReferences W B) (w : W) (b : B) :
    b ∈ (s.addBackend w b).mBackends w := by
  unfold BackReferences.addBackend
  split
  next hany =>
      obtain ⟨c, hc, heq⟩ := List.any_eq_true.mp hany
      rw [Bool.and_eq_true, beq_iff_eq] at heq
      exact heq.2 ▸ hc
  next =>
      show b ∈ Function.update s.mBackends w (s.mBackends w ++ [b]) w
      rw [Function.update_self]
      exact List.mem_append_right _ List.mem_cons_self

/-- `addBackend` touches nothing but the list. -/
theorem addBackend_frame (s : BackReferences W B) (w : W) (b : B) :
    (s.addBackend w b).backend = s.backend ∧ (s.addBackend w b).expired = s.expired ∧
      (s.addBackend w b).adding = s.adding := by
  unfold BackReferences.addBackend
  split <;> exact ⟨rfl, rfl, rfl⟩

theorem mem_removeBackend {b c : B} {v : W} (hc : c ∈ s.mBackends v)
    (halive : s.expired c = false) (hne : v = w → c ≠ b) :
    c ∈ (s.removeBackend w b).mBackends v := by
  unfold BackReferences.removeBackend
  by_cases hvw : v = w
  · subst hvw
    simp [hc, halive, hne rfl]
  · simpa [Function.update_of_ne hvw] using hc

theorem backReferenceInv_addBackend (h : BackReferenceInv own s) (ht : s.adding t = some w) :
    BackReferenceInv own ((s.addBackend w own).setAdding t none) := by
  obtain ⟨hbackend, hexpired, hadding⟩ := addBackend_frame s w own
  have hthread : ∀ t', ((s.addBackend w own).setAdding t none).backend.thread t' =
      s.backend.thread t' := fun t' => congrArg (·.thread t') hbackend
  have hother : ∀ t' ≠ t, ((s.addBackend w own).setAdding t none).adding t' =
      s.adding t' := fun t' htt =>
    (Function.update_of_ne htt ..).trans (congrFun hadding t')
  refine h.keep ((congrFun hexpired own).trans h.alive) ?_ (fun v hv => mem_addBackend hv)
    (fun v _ hl => ?_) (fun t' v ht' => ?_)
  · intro v hv
    exact (congrArg (v ∈ ·.mSubscriptions) hbackend).mp hv
  · by_cases hvw : v = w
    · exact Or.inl (hvw ▸ mem_addBackend_self s w own)
    · refine Or.inr (hl.of_others (fun t' _ => hthread t') hother ?_)
      rw [ht, h.returned t w ht]
      rintro (hv | ⟨i, hv⟩) <;> cases hv
      exact absurd rfl hvw
  · rw [hthread]
    by_cases htt : t' = t
    · rw [htt, h.returned t w ht]
    · exact h.returned t' v ((hother t' htt).symm.trans ht')

theorem backReferenceInv_unwatchFinish (h : BackReferenceInv own s)
    (hok : KeepsEntry own s (.unwatchFinish t)) (ht : s.backend.thread t = .unwatching w) :
    BackReferenceInv own
      { s.removeBackend w own with backend := s.backend.setThread t .idle } := by
  have hthread : ∀ t' ≠ t, (s.backend.setThread t .idle).thread t' = s.backend.thread t' :=
    fun t' htt => Function.update_of_ne htt ..
  -- The thread that leaves was in no window.
  have hlisting : ∀ v, Listing s v →
      Listing { s.removeBackend w own with backend := s.backend.setThread t .idle } v := by
    rintro v ⟨t', ha | ⟨i, hw⟩⟩
    · exact ⟨t', Or.inl ha⟩
    · refine ⟨t', Or.inr ⟨i, ?_⟩⟩
      have htt : t' ≠ t := by
        rintro rfl
        rw [ht] at hw
        cases hw
      exact (hthread t' htt).trans hw
  refine ⟨h.alive, fun v hv => ?_, fun t' v ht' => ?_⟩
  · by_cases hvw : v = w
    · subst hvw
      exact Or.inr (hlisting v (hok v ht hv))
    · rcases h.found v hv with hl | hl
      · exact Or.inl (mem_removeBackend hl h.alive fun heq => absurd heq hvw)
      · exact Or.inr (hlisting v hl)
  · by_cases htt : t' = t
    · rw [htt]
      exact Function.update_self ..
    · exact (hthread t' htt).trans (h.returned t' v ht')

theorem backReferenceInv_step {a : BackReferenceAction W B} (h : BackReferenceInv own s)
    (hok : KeepsEntry own s a) (hs : s.step own a = some s') : BackReferenceInv own s' := by
  cases a with
  | watch t w isCancelled o =>
      simp only [BackReferences.step] at hs
      split at hs
      next ht => exact backReferenceInv_watch h ht hs
      next => cases hs
  | watchFinish t o => exact backReferenceInv_watchFinish h hok hs
  | addBackend t =>
      simp only [BackReferences.step] at hs
      split at hs
      next w ht =>
          obtain rfl := Option.some.inj hs
          exact backReferenceInv_addBackend h ht
      next => cases hs
  | unwatch t w keep o =>
      simp only [BackReferences.step] at hs
      split at hs
      next ht =>
          obtain ⟨b, hb, rfl⟩ := Option.map_eq_some_iff.mp hs
          exact backReferenceInv_unwatch h ht hb
      next => cases hs
  | unwatchFinish t =>
      simp only [BackReferences.step] at hs
      split at hs
      next w ht =>
          obtain rfl := Option.some.inj hs
          exact backReferenceInv_unwatchFinish h hok ht
      next => cases hs
  | teardown w =>
      -- The watcher is only marked: its subscription and the threads stay as they were.
      obtain rfl := Option.some.inj hs
      obtain ⟨hsubs, -, hthread⟩ := invalidate_frame (s.backend.setLive w false) w
      refine h.keep h.alive (fun v hv => hsubs ▸ hv) (fun _ hm => hm) (fun v _ hl => Or.inr ?_) ?_
      · obtain ⟨t, hl⟩ := hl
        refine ⟨t, hl.imp_right ?_⟩
        rintro ⟨i, hi⟩
        exact ⟨i, (congrFun hthread t).trans hi⟩
      · intro t v ht
        exact (congrFun hthread t).trans (h.returned t v ht)
  | addOther w b =>
      simp only [BackReferences.step] at hs
      split at hs
      · cases hs
      next hb =>
          obtain rfl := Option.some.inj hs
          obtain ⟨hbackend, hexpired, hadding⟩ := addBackend_frame s w b
          refine ⟨(congrFun hexpired own).trans h.alive, fun v hv => ?_, fun t v ht => ?_⟩
          · rw [hbackend] at hv
            refine (h.found v hv).imp mem_addBackend ?_
            rintro ⟨t, ht⟩
            exact ⟨t, by rw [hbackend, hadding]; exact ht⟩
          · rw [hadding] at ht
            rw [hbackend]
            exact h.returned t v ht
  | removeOther w b =>
      simp only [BackReferences.step] at hs
      split at hs
      · cases hs
      next hb =>
          obtain rfl := Option.some.inj hs
          exact ⟨h.alive, fun v hv => (h.found v hv).imp_left fun hl =>
            mem_removeBackend hl h.alive fun _ => Ne.symm hb, h.returned⟩
  | expire b =>
      simp only [BackReferences.step] at hs
      split at hs
      · cases hs
      next hb =>
          obtain rfl := Option.some.inj hs
          exact ⟨(Function.update_of_ne (Ne.symm hb) ..).trans h.alive, h.found, h.returned⟩

/-- **A subscribed watcher lists its backend, while no removal drops a later entry.** So
`cleanupEnvironment` reaches every backend that still serves the watcher. -/
theorem cleanup_finds_backend (h : (backReferenceMachine W own).Reach (KeepsEntry own) s)
    (hsettled : Settled s w) (hw : w ∈ s.backend.mSubscriptions) :
    own ∈ s.mBackends w ∧ own ∈ s.cleanupBackends w := by
  have hinv : BackReferenceInv own s := by
    refine h.invariant ?_ ?_
    · rintro _ rfl
      exact backReferenceInv_start
    · rintro s a s' hi hok hs
      exact backReferenceInv_step hi hok hs
  have hl : own ∈ s.mBackends w := by
    rcases hinv.found w hw with hl | ⟨t, ht | ⟨i, ht⟩⟩
    · exact hl
    · exact absurd ht (hsettled t).1
    · exact absurd ht ((hsettled t).2.1 i)
  refine ⟨hl, List.mem_filter.mpr ⟨hl, ?_⟩⟩
  rw [hinv.alive]
  rfl

/-- A watcher subscribed again while its `unwatch` is in `finishUnsubscribe`. -/
theorem cleanup_finds_backend_again :
    ∃ s : BackReferences Nat Bool, s.backend.mSubscriptions = {0} ∧
      true ∈ s.mBackends 0 ∧ true ∈ s.cleanupBackends 0 := by
  have h₀ : (backReferenceMachine Nat true).Reach (KeepsEntry true) .start := .init rfl
  have h₁ := h₀.extend (BackReferenceAction.watch 0 0 false .installed) trivial rfl
  have h₂ := h₁.extend (BackReferenceAction.watchFinish 0 .started) trivial rfl
  have h₃ := h₂.extend (BackReferenceAction.addBackend 0) trivial rfl
  have h₄ := h₃.extend (BackReferenceAction.unwatch 0 0 false .removed) trivial rfl
  have h₅ := h₄.extend (BackReferenceAction.watch 1 0 false .installed) trivial rfl
  have h₆ := h₅.extend (BackReferenceAction.watchFinish 1 .started) trivial rfl
  have h₇ := h₆.extend (BackReferenceAction.unwatchFinish 0)
    (fun w hw _ => ⟨1, Or.inl (by cases hw; rfl)⟩) rfl
  have h₈ := h₇.extend (BackReferenceAction.addBackend 1) trivial rfl
  refine ⟨_, rfl, cleanup_finds_backend h₈ (fun t => ?_) (Finset.mem_singleton_self 0)⟩
  match t with
  | 0 => exact ⟨nofun, nofun, nofun⟩
  | 1 => exact ⟨nofun, nofun, nofun⟩
  | _ + 2 => exact ⟨nofun, nofun, nofun⟩

/-- The other thread adds the backend before the removal: the watcher is subscribed and
nothing finds the backend. -/
theorem cleanup_misses_backend :
    ∃ s : BackReferences Nat Bool, (backReferenceMachine Nat true).Reachable s ∧
      Settled s 0 ∧ 0 ∈ s.backend.mSubscriptions ∧ s.mBackends 0 = [] ∧
      s.cleanupBackends 0 = [] := by
  have h₀ : (backReferenceMachine Nat true).Reachable .start := .init rfl
  have h₁ := h₀.extend (BackReferenceAction.watch 0 0 false .installed) trivial rfl
  have h₂ := h₁.extend (BackReferenceAction.watchFinish 0 .started) trivial rfl
  have h₃ := h₂.extend (BackReferenceAction.addBackend 0) trivial rfl
  have h₄ := h₃.extend (BackReferenceAction.unwatch 0 0 false .removed) trivial rfl
  have h₅ := h₄.extend (BackReferenceAction.watch 1 0 false .installed) trivial rfl
  have h₆ := h₅.extend (BackReferenceAction.watchFinish 1 .started) trivial rfl
  have h₇ := h₆.extend (BackReferenceAction.addBackend 1) trivial rfl
  have h₈ := h₇.extend (BackReferenceAction.unwatchFinish 0) trivial rfl
  refine ⟨_, h₈, fun t => ?_, Finset.mem_singleton_self 0, rfl, rfl⟩
  match t with
  | 0 => exact ⟨nofun, nofun, nofun⟩
  | 1 => exact ⟨nofun, nofun, nofun⟩
  | _ + 2 => exact ⟨nofun, nofun, nofun⟩

end Listed

end NativeWatcher
