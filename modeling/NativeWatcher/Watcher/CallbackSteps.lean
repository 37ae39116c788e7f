import NativeWatcher.Watcher.Callbacks

/-!
# The steps of the callbacks

What a step adds to the calls of one callback. A callback is open while it is registered
and not closing. A batch is handed to the callbacks that are open, and the error of
`notifyError` closes each of them; nothing else is ever added, and a callback that is no
longer open stays so.
-/

namespace NativeWatcher

open Broadcast

namespace WatcherCallbacks

variable {Fn Env : Type} {s s' : WatcherCallbacks Fn Env} {id : Nat}

/-! ## What a step does to one callback -/

/-- The callback is registered and not closing. -/
def Open (s : WatcherCallbacks Fn Env) (id : Nat) : Prop :=
  ∃ it ∈ s.mCallbacks, it.id = id ∧ it.closing = false

def registered (s : WatcherCallbacks Fn Env) : List (WatcherCallback Fn Env) :=
  s.mCallbacks.map Callback.toWatcherCallback

def accepted (s : WatcherCallbacks Fn Env) (id : Nat) : List CallbackData :=
  (s.tsfn id).channel.accepted

/-- What a step adds to the calls of one callback. -/
inductive Change (s s' : WatcherCallbacks Fn Env) (id : Nat) : Prop
  | quiet (hbatches : s'.batches = s.batches) (haccepted : s'.accepted id = s.accepted id)
      (hmissed : s'.missed id = s.missed id) (hopen : s'.Open id → s.Open id)
  | handed (batch : EventBatch) (hbatches : s'.batches = s.batches ++ [batch])
      (haccepted : s'.accepted id = s.accepted id ++ [⟨batch.error, batch.events, none⟩])
      (hmissed : s'.missed id = s.missed id) (hopen : s.Open id)
  | passed (batch : EventBatch) (hbatches : s'.batches = s.batches ++ [batch])
      (haccepted : s'.accepted id = s.accepted id)
      (hmissed : s'.missed id = false → s.missed id = false ∧ ¬ s'.Open id)
      (hopen : s'.Open id → s.Open id)
  | failed (err : String) (hbatches : s'.batches = s.batches)
      (haccepted : s'.accepted id = s.accepted id ++ [⟨err, [], some id⟩])
      (hmissed : s'.missed id = s.missed id) (hopen : s.Open id) (hclosed : ¬ s'.Open id)

@[simp] theorem released_call (f : ThreadSafeFunction) (fails : Bool) (data : CallbackData) :
    (f.call fails data).2.released = f.released := by
  unfold ThreadSafeFunction.call
  split
  · rfl
  · split <;> rfl

@[simp] theorem accepted_release (f : ThreadSafeFunction) :
    f.release.channel.accepted = f.channel.accepted := rfl

@[simp] theorem accepted_abort (f : ThreadSafeFunction) :
    f.abort.channel.accepted = f.channel.accepted := rfl

/-- A call is accepted, or the function is closed or failed. -/
theorem call_cases (f : ThreadSafeFunction) (fails : Bool) (data : CallbackData) :
    (f.call fails data).1 = .napi_ok ∧ fails = false ∧
        (f.call fails data).2.channel.accepted = f.channel.accepted ++ [data] ∨
      (f.call fails data).1 = .napi_closing ∧
        (f.call fails data).2.channel.accepted = f.channel.accepted ∨
      (f.call fails data).1 = .napi_generic_failure ∧ fails = true ∧
        (f.call fails data).2.channel.accepted = f.channel.accepted := by
  unfold ThreadSafeFunction.call
  split
  next => exact .inr (.inl ⟨rfl, rfl⟩)
  next hopen =>
      split
      next hfails => exact .inr (.inr ⟨rfl, hfails, rfl⟩)
      next hfails =>
          exact .inl ⟨rfl, by simpa using hfails, Channel.accepted_send (by simpa using hopen) data⟩

/-- Either no callback passes the test, or the first one that does is dropped, and its
function released. -/
theorem release_cases (s : WatcherCallbacks Fn Env) (test : Callback Fn Env → Bool) :
    (∀ it ∈ s.mCallbacks, test it = false) ∧ s.release test = s ∨
      ∃ before it after, s.mCallbacks = before ++ it :: after ∧ test it = true ∧
        s.release test =
          { s.setTsfn it.id (s.tsfn it.id).release with mCallbacks := before ++ after } := by
  unfold release
  cases hfind : s.mCallbacks.find? test with
  | none =>
      refine .inl ⟨fun it hit => ?_, rfl⟩
      simpa using List.find?_eq_none.mp hfind it hit
  | some it =>
      obtain ⟨htest, before, after, hsplit, hbefore⟩ := List.find?_eq_some_iff_append.mp hfind
      refine .inr ⟨before, it, after, hsplit, htest, ?_⟩
      have herase : s.mCallbacks.eraseP test = before ++ after := by
        rw [hsplit, List.eraseP_append_right, List.eraseP_cons_of_pos htest]
        exact fun a ha => by simpa using hbefore a ha
      rw [herase]

theorem batches_release (test : Callback Fn Env → Bool) : (s.release test).batches = s.batches := by
  obtain ⟨_, h⟩ | ⟨_, _, _, _, _, h⟩ := release_cases s test <;> rw [h]
  rfl

/-- A step that drops callbacks, and does nothing to what was accepted. -/
theorem Change.of_subset (hbatches : s'.batches = s.batches)
    (haccepted : s'.accepted id = s.accepted id) (hmissed : s'.missed id = s.missed id)
    (hsub : ∀ it ∈ s'.mCallbacks, it ∈ s.mCallbacks) : Change s s' id :=
  .quiet hbatches haccepted hmissed fun ⟨it, hit, hopen⟩ => ⟨it, hsub it hit, hopen⟩

theorem change_release (test : Callback Fn Env → Bool) : Change s (s.release test) id := by
  obtain ⟨_, h⟩ | ⟨before, it, after, hsplit, _, h⟩ := release_cases s test
  · rw [h]
    exact .of_subset rfl rfl rfl fun _ hit => hit
  · rw [h]
    refine .of_subset rfl ?_ rfl ?_
    · show ((Function.update s.tsfn it.id _) id).channel.accepted = _
      by_cases hid : id = it.id
      · subst hid
        rw [Function.update_self]
        rfl
      · rw [Function.update_of_ne hid]
        rfl
    · intro it' hit
      rw [hsplit]
      exact List.mem_append.mpr ((List.mem_append.mp hit).imp_right (List.mem_cons_of_mem _))

/-- Ids are given out once, and a thread-safe function is released when its callback goes. -/
structure CallbacksInv (s : WatcherCallbacks Fn Env) : Prop where
  nodup : (s.mCallbacks.map fun it => it.id).Nodup
  numbered : ∀ it ∈ s.mCallbacks, it.id < s.mNextCallbackId
  unused : ∀ id, s.mNextCallbackId ≤ id → s.missed id = false
  held : ∀ it ∈ s.mCallbacks, (s.tsfn it.id).released = 0
  once : ∀ id, (s.tsfn id).released ≤ 1

namespace CallbacksInv

theorem start : (start : WatcherCallbacks Fn Env).CallbacksInv where
  nodup := List.nodup_nil
  numbered _ h := absurd h List.not_mem_nil
  unused _ _ := rfl
  held _ h := absurd h List.not_mem_nil
  once _ := Nat.zero_le _

/-- A step that neither adds nor drops a callback. -/
theorem keep (h : s.CallbacksInv)
    (hids : (s'.mCallbacks.map fun it => it.id) = s.mCallbacks.map fun it => it.id)
    (hnext : s'.mNextCallbackId = s.mNextCallbackId)
    (hmissed : ∀ id, s.mNextCallbackId ≤ id → s'.missed id = s.missed id)
    (hreleased : ∀ id, (s'.tsfn id).released = (s.tsfn id).released) : s'.CallbacksInv := by
  have hback : ∀ it ∈ s'.mCallbacks, ∃ it₀ ∈ s.mCallbacks, it₀.id = it.id := by
    intro it hit
    have hmem : it.id ∈ s'.mCallbacks.map fun it => it.id := List.mem_map.mpr ⟨it, hit, rfl⟩
    rw [hids] at hmem
    exact List.mem_map.mp hmem
  constructor
  · rw [hids]
    exact h.nodup
  · intro it hit
    obtain ⟨it₀, hit₀, hid⟩ := hback it hit
    rw [hnext, ← hid]
    exact h.numbered it₀ hit₀
  · intro id hid
    rw [hnext] at hid
    exact (hmissed id hid).trans (h.unused id hid)
  · intro it hit
    obtain ⟨it₀, hit₀, hid⟩ := hback it hit
    rw [hreleased, ← hid]
    exact h.held it₀ hit₀
  · intro id
    rw [hreleased]
    exact h.once id

/-- A step that drops callbacks and releases their functions. -/
theorem drop (h : s.CallbacksInv) (hsub : s'.mCallbacks.Sublist s.mCallbacks)
    (hnext : s'.mNextCallbackId = s.mNextCallbackId) (hmissed : s'.missed = s.missed)
    (hreleased : ∀ id, (s'.tsfn id).released = (s.tsfn id).released ∨
      (∃ it ∈ s.mCallbacks, it.id = id) ∧ (∀ it ∈ s'.mCallbacks, it.id ≠ id) ∧
        (s'.tsfn id).released = (s.tsfn id).released + 1) : s'.CallbacksInv where
  nodup := h.nodup.sublist (hsub.map _)
  numbered it hit := hnext ▸ h.numbered it (hsub.subset hit)
  unused i hid := by
    rw [hmissed]
    exact h.unused i (hnext ▸ hid)
  held it hit := by
    rcases hreleased it.id with hr | ⟨_, hgone, _⟩
    · rw [hr]
      exact h.held it (hsub.subset hit)
    · exact absurd rfl (hgone it hit)
  once id := by
    rcases hreleased id with hr | ⟨⟨it, hit, rfl⟩, _, hr⟩
    · rw [hr]
      exact h.once id
    · rw [hr, h.held it hit]

theorem release (h : s.CallbacksInv) (test : Callback Fn Env → Bool) :
    (s.release test).CallbacksInv := by
  obtain ⟨_, hs⟩ | ⟨before, it, after, hsplit, _, hs⟩ := release_cases s test
  · rw [hs]
    exact h
  · rw [hs]
    have hnodup := h.nodup
    rw [hsplit, List.map_append, List.map_cons, List.nodup_middle, ← List.map_append,
      List.nodup_cons] at hnodup
    refine h.drop ?_ rfl rfl fun id => ?_
    · rw [hsplit]
      exact (List.Sublist.refl before).append (List.sublist_cons_self ..)
    · by_cases hid : id = it.id
      · subst hid
        refine .inr ⟨⟨it, hsplit ▸ by simp, rfl⟩, fun it' hit' heq => ?_, ?_⟩
        · exact hnodup.1 (List.mem_map.mpr ⟨it', hit', heq⟩)
        · show ((Function.update s.tsfn it.id _) it.id).released = _
          rw [Function.update_self]
          rfl
      · refine .inl ?_
        show ((Function.update s.tsfn it.id _) id).released = _
        rw [Function.update_of_ne hid]

end CallbacksInv

/-- The callbacks of an environment are aborted, and no others. -/
theorem foldl_abort (removed : List (Callback Fn Env))
    (hnodup : (removed.map fun it => it.id).Nodup) (tsfn : Nat → ThreadSafeFunction) (id : Nat) :
    removed.foldl (fun tsfn it => Function.update tsfn it.id (tsfn it.id).abort) tsfn id =
      if id ∈ removed.map (fun it => it.id) then (tsfn id).abort else tsfn id := by
  induction removed generalizing tsfn with
  | nil => rfl
  | cons it removed ih =>
      rw [List.map_cons, List.nodup_cons] at hnodup
      rw [List.foldl_cons, ih hnodup.2]
      by_cases hid : id = it.id
      · subst hid
        rw [if_neg hnodup.1, if_pos (by simp), Function.update_self]
      · rw [Function.update_of_ne hid]
        simp [hid]

/-! ## Steps -/

/-- What a step keeps, and what it does to every callback it finds. -/
structure StepSpec (s s' : WatcherCallbacks Fn Env) : Prop where
  inv : s'.CallbacksInv
  next : s.mNextCallbackId ≤ s'.mNextCallbackId
  joined : ∀ id < s.mNextCallbackId, s'.joined id = s.joined id
  change : ∀ id < s.mNextCallbackId, Change s s' id
  added : ∀ id, s.mNextCallbackId ≤ id → id < s'.mNextCallbackId →
    s'.joined id = s'.batches.length ∧ s'.accepted id = [] ∧ s'.missed id = false

theorem StepSpec.of_drop (hinv : s'.CallbacksInv) (hnext : s'.mNextCallbackId = s.mNextCallbackId)
    (hjoined : s'.joined = s.joined) (hchange : ∀ id, Change s s' id) : StepSpec s s' where
  inv := hinv
  next := hnext.ge
  joined id _ := congrFun hjoined id
  change id _ := hchange id
  added _ hid hid' := absurd (hnext ▸ hid') (Nat.not_lt.mpr hid)

theorem Change.congr {s'' : WatcherCallbacks Fn Env} (h : Change s s' id)
    (hbatches : s''.batches = s'.batches) (haccepted : s''.accepted id = s'.accepted id)
    (hmissed : s''.missed id = s'.missed id) (hcallbacks : s''.mCallbacks = s'.mCallbacks) :
    Change s s'' id := by
  have hopen : s''.Open id ↔ s'.Open id := by
    unfold Open
    rw [hcallbacks]
  rcases h with ⟨hb, ha, hm, ho⟩ | ⟨b, hb, ha, hm, ho⟩ | ⟨b, hb, ha, hm, ho⟩ | ⟨e, hb, ha, hm, ho, hc⟩
  · exact .quiet (hbatches.trans hb) (haccepted.trans ha) (hmissed.trans hm) (ho ∘ hopen.mp)
  · exact .handed b (hbatches.trans hb) (haccepted.trans ha) (hmissed.trans hm) ho
  · refine .passed b (hbatches.trans hb) (haccepted.trans ha) ?_ (ho ∘ hopen.mp)
    rw [hmissed, hopen]
    exact hm
  · exact .failed e (hbatches.trans hb) (haccepted.trans ha) (hmissed.trans hm) ho (hc ∘ hopen.mp)

/-- The fields that a step spec does not speak of. -/
theorem StepSpec.congr {s'' : WatcherCallbacks Fn Env} (h : StepSpec s s')
    (hcallbacks : s''.mCallbacks = s'.mCallbacks)
    (hnext : s''.mNextCallbackId = s'.mNextCallbackId) (htsfn : s''.tsfn = s'.tsfn)
    (hbatches : s''.batches = s'.batches) (hjoined : s''.joined = s'.joined)
    (hmissed : s''.missed = s'.missed) : StepSpec s s'' where
  inv := by
    refine h.inv.keep (congrArg _ hcallbacks) hnext (fun id _ => congrFun hmissed id) fun id => ?_
    rw [htsfn]
  next := hnext ▸ h.next
  joined id hid := (congrFun hjoined id).trans (h.joined id hid)
  change id hid := by
    refine (h.change id hid).congr hbatches ?_ (congrFun hmissed id) hcallbacks
    rw [accepted, htsfn]
    rfl
  added id hid hid' := by
    rw [hnext] at hid'
    rw [hjoined, hbatches, hmissed, accepted, htsfn]
    exact h.added id hid hid'

theorem stepSpec_refl (h : s.CallbacksInv) : StepSpec s s :=
  .of_drop h rfl rfl fun _ => .of_subset rfl rfl rfl fun _ hit => hit

theorem stepSpec_release (h : s.CallbacksInv) (test : Callback Fn Env → Bool) :
    StepSpec s (s.release test) := by
  refine .of_drop (h.release test) ?_ ?_ fun _ => change_release test
  all_goals
    obtain ⟨_, hs⟩ | ⟨_, _, _, _, _, hs⟩ := release_cases s test
    · rw [hs]
    · rw [hs]
      rfl

theorem stepSpec_finishErrorCallback (h : s.CallbacksInv) (callbackId : Nat) :
    StepSpec s (s.finishErrorCallback callbackId) := by
  unfold finishErrorCallback
  dsimp only
  split
  · exact (stepSpec_release h _).congr rfl rfl rfl rfl rfl rfl
  · exact stepSpec_release h _

theorem stepSpec_callJSFunction (h : s.CallbacksInv) (hs : s.callJSFunction id = some s') :
    StepSpec s s' := by
  obtain ⟨⟨data, channel⟩, hhandle, rfl⟩ := Option.map_eq_some_iff.mp hs
  obtain ⟨_, _, haccepted, _⟩ := Channel.of_handle hhandle
  have hrel : ∀ id', (Function.update s.tsfn id { s.tsfn id with channel := channel } id').released =
      (s.tsfn id').released := by
    intro id'
    by_cases hid : id' = id
    · subst hid
      rw [Function.update_self]
    · rw [Function.update_of_ne hid]
  refine .of_drop (h.keep rfl rfl (fun _ _ => rfl) hrel) rfl rfl fun id' => ?_
  refine .of_subset rfl ?_ rfl fun _ hit => hit
  show (Function.update s.tsfn id _ id').channel.accepted = _
  by_cases hid : id' = id
  · subst hid
    rw [Function.update_self]
    exact haccepted
  · rw [Function.update_of_ne hid]
    rfl

theorem stepSpec_close (h : s.CallbacksInv) (id : Nat) :
    StepSpec s (s.setTsfn id (s.tsfn id).close) := by
  have hrel : ∀ id', (Function.update s.tsfn id (s.tsfn id).close id').released =
      (s.tsfn id').released := by
    intro id'
    by_cases hid : id' = id
    · subst hid
      rw [Function.update_self]
      rfl
    · rw [Function.update_of_ne hid]
  refine .of_drop (h.keep rfl rfl (fun _ _ => rfl) hrel) rfl rfl fun id' => ?_
  refine .of_subset rfl ?_ rfl fun _ hit => hit
  show (Function.update s.tsfn id _ id').channel.accepted = _
  by_cases hid : id' = id
  · subst hid
    rw [Function.update_self]
    rfl
  · rw [Function.update_of_ne hid]
    rfl

/-! ### The two loops -/

/-- A callback that is open after a loop was open before it. -/
theorem open_of_map (called : Callback Fn Env → Callback Fn Env)
    (hid : ∀ it, (called it).id = it.id)
    (h : s'.mCallbacks = s.mCallbacks.map fun it => if it.closing then it else called it)
    (hopen : s'.Open id) :
    ∃ it ∈ s.mCallbacks, it.id = id ∧ it.closing = false ∧ (called it).closing = false := by
  obtain ⟨it', hit', hid', hcl⟩ := hopen
  rw [h] at hit'
  obtain ⟨it, hit, rfl⟩ := List.mem_map.mp hit'
  split at hcl
  next hclosing => exact absurd hcl (by simp [hclosing])
  next hclosing =>
      rw [if_neg hclosing, hid] at hid'
      exact ⟨it, hit, hid', by simpa using hclosing, hcl⟩

theorem map_id_callEach
    {body : Callback Fn Env → ThreadSafeFunction → Callback Fn Env × ThreadSafeFunction}
    (hid : ∀ it f, (body it f).1.id = it.id) (h : s.CallbacksInv) :
    ((callEach body s.mCallbacks s.tsfn).1.map fun it => it.id) =
      s.mCallbacks.map fun it => it.id := by
  rw [callEach_callbacks h.nodup, List.map_map]
  apply List.map_congr_left
  intro it _
  dsimp only [Function.comp_apply]
  split
  · rfl
  · exact hid ..

theorem released_callEach
    {body : Callback Fn Env → ThreadSafeFunction → Callback Fn Env × ThreadSafeFunction}
    (hrel : ∀ it f, (body it f).2.released = f.released) (h : s.CallbacksInv) (id : Nat) :
    ((callEach body s.mCallbacks s.tsfn).2 id).released = (s.tsfn id).released := by
  by_cases hopen : s.Open id
  · obtain ⟨it, hit, rfl, hcl⟩ := hopen
    rw [callEach_tsfn_of_open h.nodup hit hcl]
    exact hrel ..
  · rw [callEach_tsfn_of_closing]
    exact fun it hit hid => by_contra fun hcl => hopen ⟨it, hit, hid, by simpa using hcl⟩

theorem stepSpec_notifyError (h : s.CallbacksInv) (err : String) (fails : Nat → Bool) :
    StepSpec s (s.notifyError err fails) := by
  have hcallbacks : (s.notifyError err fails).mCallbacks = s.mCallbacks.map fun it =>
      if it.closing then it else (callError err fails it (s.tsfn it.id)).1 :=
    callEach_callbacks h.nodup
  have hinv : (s.notifyError err fails).CallbacksInv :=
    h.keep (map_id_callEach (fun _ _ => rfl) h) rfl (fun _ _ => rfl)
      (released_callEach (fun _ _ => released_call ..) h)
  -- every callback is closing when the loop ends
  have hclosed : ∀ id, ¬ (s.notifyError err fails).Open id := by
    intro id hopen
    obtain ⟨it, _, _, _, hcl⟩ := open_of_map
      (fun it => (callError err fails it (s.tsfn it.id)).1) (fun _ => rfl) hcallbacks hopen
    cases hcl
  refine .of_drop hinv rfl rfl fun id => ?_
  by_cases hopen : s.Open id
  · have hwas := hopen
    obtain ⟨it, hit, rfl, hcl⟩ := hopen
    have htsfn : (s.notifyError err fails).tsfn it.id = (callError err fails it (s.tsfn it.id)).2 :=
      callEach_tsfn_of_open h.nodup hit hcl
    rcases call_cases (s.tsfn it.id) (fails it.id) ⟨err, [], some it.id⟩ with
      ⟨_, _, ha⟩ | ⟨_, ha⟩ | ⟨_, _, ha⟩
    · refine .failed err rfl ?_ rfl hwas (hclosed _)
      rw [accepted, htsfn]
      exact ha
    all_goals
      refine .quiet rfl ?_ rfl fun h => absurd h (hclosed _)
      rw [accepted, htsfn]
      exact ha
  · refine .quiet rfl ?_ rfl fun h => absurd h (hclosed _)
    refine congrArg (fun f : ThreadSafeFunction => f.channel.accepted) (callEach_tsfn_of_closing ?_)
    exact fun it hit hid => by_contra fun hcl => hopen ⟨it, hit, hid, by simpa using hcl⟩

theorem stepSpec_dispatch (h : s.CallbacksInv) (batch : EventBatch) (fails : Nat → Bool) :
    StepSpec s (s.dispatch batch fails) := by
  have hcallbacks : (s.dispatch batch fails).mCallbacks = s.mCallbacks.map fun it =>
      if it.closing then it else (callBatch batch fails it (s.tsfn it.id)).1 :=
    callEach_callbacks h.nodup
  have hmiss : ∀ id, (s.dispatch batch fails).missed id =
      (s.missed id || (fails id && s.mCallbacks.any fun it => it.id == id && !it.closing)) :=
    fun _ => rfl
  have hinv : (s.dispatch batch fails).CallbacksInv := by
    refine h.keep (map_id_callEach (id_callBatch _ _) h) rfl (fun id hid => ?_)
      (released_callEach (fun _ _ => released_call ..) h)
    have hnone : (s.mCallbacks.any fun it => it.id == id && !it.closing) = false := by
      rw [List.any_eq_false]
      intro it hit
      have hlt := h.numbered it hit
      have hne : it.id ≠ id := by omega
      simp [hne]
    rw [hmiss, hnone, Bool.and_false, Bool.or_false]
  have hback : ∀ id, (s.dispatch batch fails).Open id → ∃ it ∈ s.mCallbacks, it.id = id ∧
      it.closing = false ∧ (callBatch batch fails it (s.tsfn it.id)).1.closing = false :=
    fun id hopen => open_of_map (fun it => (callBatch batch fails it (s.tsfn it.id)).1)
      (fun _ => id_callBatch ..) hcallbacks hopen
  refine .of_drop hinv rfl rfl fun id => ?_
  by_cases hopen : s.Open id
  · have hwas := hopen
    obtain ⟨it, hit, rfl, hcl⟩ := hopen
    have htsfn : (s.dispatch batch fails).tsfn it.id =
        (callBatch batch fails it (s.tsfn it.id)).2 :=
      callEach_tsfn_of_open h.nodup hit hcl
    have hany : (s.mCallbacks.any fun it' => it'.id == it.id && !it'.closing) = true :=
      List.any_eq_true.mpr ⟨it, hit, by simp [hcl]⟩
    rcases call_cases (s.tsfn it.id) (fails it.id) ⟨batch.error, batch.events, none⟩ with
      ⟨_, hf, ha⟩ | ⟨hst, ha⟩ | ⟨_, hf, ha⟩
    · refine .handed batch rfl ?_ ?_ hwas
      · rw [accepted, htsfn]
        exact ha
      · rw [hmiss, hf, Bool.false_and, Bool.or_false]
    · refine .passed batch rfl ?_ (fun hm => ⟨?_, fun hnow => ?_⟩) fun _ => hwas
      · rw [accepted, htsfn]
        exact ha
      · rw [hmiss, Bool.or_eq_false_iff] at hm
        exact hm.1
      · obtain ⟨it', hit', hid, _, hcl'⟩ := hback _ hnow
        obtain rfl : it' = it := List.inj_on_of_nodup_map h.nodup hit' hit hid
        rw [callBatch] at hcl'
        simp only [hst, if_true] at hcl'
        cases hcl'
    · refine .passed batch rfl ?_ (fun hm => ?_) fun _ => hwas
      · rw [accepted, htsfn]
        exact ha
      · rw [hmiss, hf, hany] at hm
        simp at hm
  · refine .passed batch rfl ?_ (fun hm => ⟨?_, fun hnow => ?_⟩) fun hnow => ?_
    · refine congrArg (fun f : ThreadSafeFunction => f.channel.accepted) (callEach_tsfn_of_closing ?_)
      exact fun it hit hid => by_contra fun hcl => hopen ⟨it, hit, hid, by simpa using hcl⟩
    · rw [hmiss, Bool.or_eq_false_iff] at hm
      exact hm.1
    all_goals
      obtain ⟨it, hit, hid, hcl, _⟩ := hback _ hnow
      exact absurd ⟨it, hit, hid, hcl⟩ hopen

section Registration

variable [DecidableEq Fn]

theorem stepSpec_unwatch (h : s.CallbacksInv) (thread : Nat) (callback : Fn) :
    StepSpec s (s.unwatch thread callback) := by
  unfold unwatch
  dsimp only
  split
  · exact (stepSpec_release h _).congr rfl rfl rfl rfl rfl rfl
  · exact stepSpec_release h _

/-- `watch` gives out the next id, or changes no callback. -/
theorem watch_cases (s : WatcherCallbacks Fn Env) (thread : Nat) (env : Env) (callback : Fn)
    (creates : Bool) :
    s.watch thread env callback creates = { s with mCancelled := false } ∨
      s.watch thread env callback creates =
        { s with
          mCallbacks := s.mCallbacks ++ [⟨⟨s.mNextCallbackId, callback, env, thread⟩, false⟩]
          mNextCallbackId := s.mNextCallbackId + 1
          mCancelled := false
          tsfn := Function.update s.tsfn s.mNextCallbackId .create
          joined := Function.update s.joined s.mNextCallbackId s.batches.length } := by
  unfold watch
  dsimp only
  split
  · exact .inl rfl
  · split
    · exact .inr rfl
    · exact .inl rfl

theorem stepSpec_watch (h : s.CallbacksInv) (thread : Nat) (env : Env) (callback : Fn)
    (creates : Bool) : StepSpec s (s.watch thread env callback creates) := by
  rcases watch_cases s thread env callback creates with hs | hs
  · rw [hs]
    exact (stepSpec_refl h).congr rfl rfl rfl rfl rfl rfl
  · rw [hs]
    have hold : ∀ it ∈ s.mCallbacks, it.id ≠ s.mNextCallbackId :=
      fun it hit => Nat.ne_of_lt (h.numbered it hit)
    have htsfn : ∀ id, id ≠ s.mNextCallbackId →
        Function.update s.tsfn s.mNextCallbackId .create id = s.tsfn id :=
      fun id hid => Function.update_of_ne hid ..
    constructor
    · constructor
      · rw [List.map_append]
        refine List.nodup_append'.mpr ⟨h.nodup, List.nodup_singleton _, ?_⟩
        rintro id hid hnew
        obtain ⟨it, hit, rfl⟩ := List.mem_map.mp hid
        exact hold it hit (List.mem_singleton.mp hnew)
      · intro it hit
        rcases List.mem_append.mp hit with hit | hit
        · exact Nat.lt_succ_of_lt (h.numbered it hit)
        · cases List.mem_singleton.mp hit
          exact Nat.lt_succ_self _
      · exact fun id hid => h.unused id (Nat.le_of_succ_le hid)
      · intro it hit
        rcases List.mem_append.mp hit with hit | hit
        · dsimp only
          rw [htsfn _ (hold it hit)]
          exact h.held it hit
        · cases List.mem_singleton.mp hit
          dsimp only
          rw [Function.update_self]
          rfl
      · intro id
        by_cases hid : id = s.mNextCallbackId
        · subst hid
          dsimp only
          rw [Function.update_self]
          exact Nat.zero_le _
        · dsimp only
          rw [htsfn _ hid]
          exact h.once id
    · exact Nat.le_succ _
    · exact fun id hid => Function.update_of_ne (Nat.ne_of_lt hid) ..
    · intro id hid
      refine .quiet rfl ?_ rfl ?_
      · rw [accepted]
        dsimp only
        rw [htsfn _ (Nat.ne_of_lt hid)]
        rfl
      · rintro ⟨it, hit, hidit, hcl⟩
        rcases List.mem_append.mp hit with hit | hit
        · exact ⟨it, hit, hidit, hcl⟩
        · cases List.mem_singleton.mp hit
          exact absurd hidit (Nat.ne_of_gt hid)
    · intro id hid hid'
      obtain rfl : id = s.mNextCallbackId := by
        dsimp only at hid'
        omega
      refine ⟨Function.update_self .., ?_, h.unused _ (Nat.le_refl _)⟩
      rw [accepted]
      dsimp only
      rw [Function.update_self]
      rfl

variable [DecidableEq Env]

omit [DecidableEq Fn] in
theorem stepSpec_cancelEnvironment (h : s.CallbacksInv) (env : Env) :
    StepSpec s (s.cancelEnvironment env) := by
  unfold cancelEnvironment
  dsimp only
  split
  · exact (stepSpec_refl h).congr rfl rfl rfl rfl rfl rfl
  · exact (stepSpec_refl h).congr rfl rfl rfl rfl rfl rfl

omit [DecidableEq Fn] in
theorem stepSpec_cleanupEnvironment (h : s.CallbacksInv) (env : Env) :
    StepSpec s (s.cleanupEnvironment env) := by
  let removed := s.mCallbacks.filter fun cb => cb.env == env
  let dropped : WatcherCallbacks Fn Env := { s with
    mCallbacks := s.mCallbacks.filter fun cb => cb.env != env
    tsfn := removed.foldl (fun tsfn it => Function.update tsfn it.id (tsfn it.id).abort) s.tsfn }
  have htsfn : ∀ id, dropped.tsfn id =
      if id ∈ removed.map (fun it => it.id) then (s.tsfn id).abort else s.tsfn id :=
    foldl_abort removed (h.nodup.sublist (List.filter_sublist.map _)) s.tsfn
  have hinv : dropped.CallbacksInv := by
    refine h.drop List.filter_sublist rfl rfl fun id => ?_
    rw [htsfn]
    split
    next hmem =>
        obtain ⟨it, hit, rfl⟩ := List.mem_map.mp hmem
        obtain ⟨hit, henv⟩ := List.mem_filter.mp hit
        refine .inr ⟨⟨it, hit, rfl⟩, fun it' hit' hid => ?_, rfl⟩
        obtain ⟨hit', henv'⟩ := List.mem_filter.mp hit'
        obtain rfl : it' = it := List.inj_on_of_nodup_map h.nodup hit' hit hid
        simp_all
    next => exact .inl rfl
  have hspec : StepSpec s dropped := by
    refine .of_drop hinv rfl rfl fun id => .of_subset rfl ?_ rfl fun it hit => List.mem_of_mem_filter hit
    rw [accepted, htsfn]
    split <;> rfl
  unfold cleanupEnvironment
  dsimp only
  split
  · exact hspec.congr rfl rfl rfl rfl rfl rfl
  · exact hspec

/-- **Every step** keeps the ids and the releases in order, and hands a callback at most one
call. -/
theorem stepSpec_step {a : WatcherCallbackAction Fn Env} (h : s.CallbacksInv)
    (hs : s.step a = some s') : StepSpec s s' := by
  cases a with
  | watch thread env callback creates =>
      cases hs
      exact stepSpec_watch h ..
  | unwatch thread callback =>
      cases hs
      exact stepSpec_unwatch h ..
  | dispatch batch fails =>
      simp only [step] at hs
      split at hs
      · cases hs
      · cases hs
        exact stepSpec_dispatch h ..
  | notifyError err fails =>
      cases hs
      exact stepSpec_notifyError h ..
  | callJSFunction id => exact stepSpec_callJSFunction h hs
  | finishErrorCallback callbackId =>
      simp only [step] at hs
      split at hs
      · cases hs
        exact (stepSpec_finishErrorCallback h callbackId).congr rfl rfl rfl rfl rfl rfl
      · cases hs
  | cancelEnvironment env =>
      cases hs
      exact stepSpec_cancelEnvironment h ..
  | cleanupEnvironment env =>
      cases hs
      exact stepSpec_cleanupEnvironment h ..
  | close id =>
      cases hs
      exact stepSpec_close h ..

/-! ## Who is registered -/

omit [DecidableEq Fn] [DecidableEq Env] in
theorem map_registered {called : Callback Fn Env → Callback Fn Env} (l : List (Callback Fn Env))
    (h : ∀ it, (called it).toWatcherCallback = it.toWatcherCallback) :
    (l.map fun it => if it.closing then it else called it).map Callback.toWatcherCallback =
      l.map Callback.toWatcherCallback := by
  rw [List.map_map]
  apply List.map_congr_left
  intro it _
  dsimp only [Function.comp_apply]
  split
  · rfl
  · exact h it

omit [DecidableEq Fn] [DecidableEq Env] in
theorem registered_release (test : Callback Fn Env → Bool) :
    (s.release test).registered.Sublist s.registered := by
  obtain ⟨_, hs⟩ | ⟨before, it, after, hsplit, _, hs⟩ := release_cases s test
  · rw [hs]
  · rw [hs, registered, registered, hsplit]
    exact ((List.Sublist.refl before).append (List.sublist_cons_self ..)).map _

omit [DecidableEq Fn] [DecidableEq Env] in
theorem registered_dispatch (h : s.CallbacksInv) (batch : EventBatch) (fails : Nat → Bool) :
    (s.dispatch batch fails).registered = s.registered := by
  refine (congrArg (List.map _) (callEach_callbacks h.nodup)).trans (map_registered _ fun it => ?_)
  unfold callBatch
  dsimp only
  split <;> rfl

omit [DecidableEq Fn] [DecidableEq Env] in
theorem isEmpty_of_registered (h : s'.registered = s.registered) :
    s'.mCallbacks.isEmpty = s.mCallbacks.isEmpty := by
  rw [← List.isEmpty_map (f := Callback.toWatcherCallback), ← List.isEmpty_map
    (f := Callback.toWatcherCallback) (l := s.mCallbacks)]
  exact congrArg _ h

/-- A step drops callbacks, or `watch` adds one that was not registered. -/
theorem registered_step {a : WatcherCallbackAction Fn Env} (h : s.CallbacksInv)
    (hs : s.step a = some s') :
    s'.registered.Sublist s.registered ∨
      ∃ thread env callback, a = .watch thread env callback true ∧
        (s.registered.any (SharedWatchers.isCallback thread callback)) = false ∧
        s'.registered = s.registered ++ [⟨s.mNextCallbackId, callback, env, thread⟩] := by
  cases a with
  | watch thread env callback creates =>
      cases hs
      unfold watch
      dsimp only
      split
      next => exact .inl (List.Sublist.refl _)
      next hnew =>
          split
          next hcreates =>
              subst hcreates
              refine .inr ⟨thread, env, callback, rfl, ?_, ?_⟩
              · rw [registered, List.any_map]
                simpa using hnew
              · exact List.map_append
          next => exact .inl (List.Sublist.refl _)
  | unwatch thread callback =>
      cases hs
      refine .inl ?_
      unfold unwatch
      dsimp only
      split
      · exact registered_release _
      · exact registered_release _
  | dispatch batch fails =>
      simp only [step] at hs
      split at hs
      · cases hs
      · cases hs
        exact .inl (registered_dispatch h batch fails ▸ List.Sublist.refl _)
  | notifyError err fails =>
      cases hs
      have hsame : (s.notifyError err fails).registered = s.registered :=
        (congrArg (List.map _) (callEach_callbacks h.nodup)).trans (map_registered _ fun _ => rfl)
      exact .inl (hsame ▸ List.Sublist.refl _)
  | callJSFunction id =>
      obtain ⟨_, _, rfl⟩ := Option.map_eq_some_iff.mp hs
      exact .inl (List.Sublist.refl _)
  | finishErrorCallback callbackId =>
      simp only [step] at hs
      split at hs
      · cases hs
        refine .inl ?_
        show (s.finishErrorCallback callbackId).registered.Sublist _
        unfold finishErrorCallback
        dsimp only
        split
        · exact registered_release _
        · exact registered_release _
      · cases hs
  | cancelEnvironment env =>
      cases hs
      refine .inl ?_
      unfold cancelEnvironment
      dsimp only
      split
      · exact List.Sublist.refl _
      · exact List.Sublist.refl _
  | cleanupEnvironment env =>
      cases hs
      refine .inl ?_
      unfold cleanupEnvironment
      dsimp only
      split
      · exact List.filter_sublist.map _
      · exact List.filter_sublist.map _
  | close id =>
      cases hs
      exact .inl (List.Sublist.refl _)

/-- The log grows by the loop of `triggerCallbacks` only. -/
theorem batches_step {a : WatcherCallbackAction Fn Env} (hs : s.step a = some s')
    (ha : ∀ batch fails, a ≠ .dispatch batch fails) : s'.batches = s.batches := by
  cases a with
  | watch thread env callback creates =>
      cases hs
      rcases watch_cases s thread env callback creates with hs | hs <;> rw [hs]
  | unwatch thread callback =>
      cases hs
      unfold unwatch
      dsimp only
      split
      · exact batches_release _
      · exact batches_release _
  | dispatch batch fails => exact absurd rfl (ha batch fails)
  | notifyError err fails =>
      cases hs
      rfl
  | callJSFunction id =>
      obtain ⟨_, _, rfl⟩ := Option.map_eq_some_iff.mp hs
      rfl
  | finishErrorCallback callbackId =>
      simp only [step] at hs
      split at hs
      · cases hs
        show (s.finishErrorCallback callbackId).batches = _
        unfold finishErrorCallback
        dsimp only
        split
        · exact batches_release _
        · exact batches_release _
      · cases hs
  | cancelEnvironment env =>
      cases hs
      unfold cancelEnvironment
      dsimp only
      split <;> rfl
  | cleanupEnvironment env =>
      cases hs
      unfold cleanupEnvironment
      dsimp only
      split <;> rfl
  | close id =>
      cases hs
      rfl

theorem of_stepOther {a : WatcherCallbackAction Fn Env} (hs : s.stepOther a = some s') :
    s.step a = some s' ∧ s'.batches = s.batches := by
  have hstep : s.step a = some s' := by
    cases a with
    | dispatch batch fails => cases hs
    | _ => exact hs
  refine ⟨hstep, batches_step hstep ?_⟩
  rintro batch fails rfl
  cases hs

end Registration

end WatcherCallbacks

end NativeWatcher
