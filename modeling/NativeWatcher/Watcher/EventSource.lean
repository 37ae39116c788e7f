import NativeWatcher.Watcher.Delivery
import NativeWatcher.Event.Tells

/-!
# From the event list to the consumers

Whatever fills the event list of a watcher, `triggerCallbacks` moves what it tells to the
callbacks. A consumer that folds the events it is handed over what had been told before it
joined holds what a consumer of every batch holds, so that a result about the batches of a
backend is one about its JavaScript callbacks.
-/

namespace NativeWatcher

open Broadcast

/-! ## What a log tells -/

/-- What the log has told. -/
def told (V : Finset EventKey) (batches : List EventBatch) : Finset EventKey :=
  deliver V (batches.flatMap EventBatch.events)

theorem told_snoc (V : Finset EventKey) (batches : List EventBatch) (batch : EventBatch) :
    told V (batches ++ [batch]) = deliver (told V batches) batch.events := by
  rw [told, told, deliver, List.flatMap_append, List.foldl_append]
  simp [deliver]

/-- A consumer that joins an open callback with what was told before holds what is told, once
the calls it accepted are made. -/
theorem WatcherCallbacks.deliver_accepted {Fn Env : Type} {s : WatcherCallbacks Fn Env} {id : Nat}
    (h : s.DeliveryInv) (hopen : s.Open id) (hmissed : s.missed id = false)
    (V : Finset EventKey) :
    deliver (told V (s.batches.take (s.joined id)))
      ((s.accepted id).flatMap CallbackData.events) = told V s.batches := by
  have hwas := hopen
  obtain ⟨it, hit, rfl, _⟩ := hopen
  obtain ⟨seen, last, hhanded⟩ := h.handed it.id (h.ids.numbered it hit)
  obtain ⟨rfl, hup⟩ := hhanded.upToDate hwas
  have hevents : (s.accepted it.id).flatMap CallbackData.events = seen.flatMap EventBatch.events := by
    rw [hhanded.accepted]
    simp only [Option.toList_none, List.map_nil, List.append_nil, List.flatMap_map]
    rfl
  have hfold := (hup hmissed).foldl (fun V batch => deliver V batch.events) V
  have hflat : ∀ (V : Finset EventKey) (l : List EventBatch),
      l.foldl (fun V batch => deliver V batch.events) V = told V l := by
    intro V l
    induction l using List.reverseRecOn with
    | nil => rfl
    | append_singleton l batch ih =>
        rw [List.foldl_append, ih, told_snoc]
        rfl
  rw [hflat, hflat, hflat] at hfold
  rw [hevents]
  exact hfold

/-! ## A source and its callbacks -/

/-- What fills the event list of one watcher. What a consumer of every batch holds is not part
of the program. -/
structure EventSource (σ α : Type) where
  mEvents : σ → EventList
  view : σ → Finset EventKey
  step : σ → α → Option σ
  drain : σ → σ
  view_step : ∀ {s a s'}, step s a = some s' → view s' = view s
  view_drain : ∀ s, view (drain s) = deliver (view s) (mEvents s).drain.1.events

structure Delivery (σ Fn Env : Type) where
  source : σ
  callbacks : WatcherCallbacks Fn Env

inductive DeliveryAction (α Fn Env : Type) where
  | source (action : α)
  | triggerCallbacks (fails : Nat → Bool)
  /-- Anything else that happens to the callbacks. -/
  | callbacks (action : WatcherCallbackAction Fn Env)

namespace Delivery

variable {σ α Fn Env : Type} {S : EventSource σ α} {d d' : Delivery σ Fn Env}

def start (s₀ : σ) : Delivery σ Fn Env := ⟨s₀, .start⟩

/-- `triggerCallbacks`. -/
def triggerCallbacks (S : EventSource σ α) (d : Delivery σ Fn Env) (fails : Nat → Bool) :
    Delivery σ Fn Env :=
  if d.callbacks.mCallbacks.isEmpty then d
  else
    let batch := (S.mEvents d.source).drain.1
    let d := { d with source := S.drain d.source }
    if batch.events.isEmpty && batch.error == "" then d
    else { d with callbacks := d.callbacks.dispatch batch fails }

theorem source_triggerCallbacks (fails : Nat → Bool) :
    (d.triggerCallbacks S fails).source =
      if d.callbacks.mCallbacks.isEmpty then d.source else S.drain d.source := by
  unfold triggerCallbacks
  dsimp only
  split
  · rfl
  · split
    · rfl
    · rfl

/-- The round drops no callback. -/
theorem isEmpty_triggerCallbacks (h : d.callbacks.CallbacksInv) (fails : Nat → Bool) :
    (d.triggerCallbacks S fails).callbacks.mCallbacks.isEmpty = d.callbacks.mCallbacks.isEmpty := by
  unfold triggerCallbacks
  dsimp only
  split
  · rfl
  · split
    · rfl
    · exact WatcherCallbacks.isEmpty_of_registered (WatcherCallbacks.registered_dispatch h ..)

/-- The condition on the steps of the source. -/
def SourceMeets (ok : σ → α → Prop) (d : Delivery σ Fn Env) : DeliveryAction α Fn Env → Prop
  | .source action => ok d.source action
  | _ => True

instance (ok : σ → α → Prop) [∀ s a, Decidable (ok s a)] (d : Delivery σ Fn Env)
    (a : DeliveryAction α Fn Env) : Decidable (d.SourceMeets ok a) := by
  cases a <;> unfold SourceMeets <;> infer_instance

/-- The batches make up the view, and the callbacks are in order. -/
structure Tells (S : EventSource σ α) (V : Finset EventKey) (d : Delivery σ Fn Env) : Prop where
  callbacks : d.callbacks.DeliveryInv
  view : told V d.callbacks.batches = S.view d.source

/-- Draining keeps what was told in step, whether or not there is a batch to hand on. -/
theorem Tells.triggerCallbacks {V : Finset EventKey} (h : d.Tells S V) (fails : Nat → Bool) :
    (d.triggerCallbacks S fails).Tells S V := by
  have hview := S.view_drain d.source
  unfold Delivery.triggerCallbacks
  dsimp only
  split
  next => exact h
  next =>
      split
      next hnone =>
          refine ⟨h.callbacks, ?_⟩
          rw [Bool.and_eq_true, List.isEmpty_iff] at hnone
          rw [hnone.1] at hview
          exact h.view.trans hview.symm
      next =>
          refine ⟨h.callbacks.of_stepSpec (WatcherCallbacks.stepSpec_dispatch h.callbacks.ids ..), ?_⟩
          show told V (d.callbacks.batches ++ [_]) = _
          rw [told_snoc, h.view]
          exact hview.symm

variable [DecidableEq Fn] [DecidableEq Env]

def step (S : EventSource σ α) (d : Delivery σ Fn Env) :
    DeliveryAction α Fn Env → Option (Delivery σ Fn Env)
  | .source action => (S.step d.source action).map fun source => { d with source := source }
  | .triggerCallbacks fails => some (d.triggerCallbacks S fails)
  | .callbacks action =>
      (d.callbacks.stepOther action).map fun callbacks => { d with callbacks := callbacks }

theorem tells_step {V : Finset EventKey} {a : DeliveryAction α Fn Env} (h : d.Tells S V)
    (hs : d.step S a = some d') : d'.Tells S V := by
  cases a with
  | source action =>
      obtain ⟨source, hstep, rfl⟩ := Option.map_eq_some_iff.mp hs
      exact ⟨h.callbacks, h.view.trans (S.view_step hstep).symm⟩
  | triggerCallbacks fails =>
      cases hs
      exact h.triggerCallbacks fails
  | callbacks action =>
      obtain ⟨callbacks, hother, rfl⟩ := Option.map_eq_some_iff.mp hs
      obtain ⟨hstep, hbatches⟩ := WatcherCallbacks.of_stepOther hother
      refine ⟨h.callbacks.of_stepSpec (WatcherCallbacks.stepSpec_step h.callbacks.ids hstep), ?_⟩
      rw [hbatches]
      exact h.view

theorem tells_of_reach {s₀ : σ} {ok : Delivery σ Fn Env → DeliveryAction α Fn Env → Prop}
    (h : (Machine.ofStep (start s₀) (step S)).Reach ok d) : d.Tells S (S.view s₀) := by
  apply Machine.Reach.invariant _ _ h
  · rintro d rfl
    exact ⟨.start, rfl⟩
  · exact fun d a d' hd _ hs => tells_step hd hs

/-- An invariant of the source, drained at any time, is one of the source with its callbacks. -/
theorem source_invariant {P : σ → Prop} {s₀ : σ} {ok : σ → α → Prop} (h0 : P s₀)
    (hstep : ∀ s a s', P s → ok s a → S.step s a = some s' → P s')
    (hdrain : ∀ s, P s → P (S.drain s))
    (h : (Machine.ofStep (start s₀ : Delivery σ Fn Env) (step S)).Reach (SourceMeets ok) d) :
    P d.source := by
  apply Machine.Reach.invariant _ _ h
  · rintro d rfl
    exact h0
  · intro d a d' hd hok hs
    cases a with
    | source action =>
        obtain ⟨source, hsource, rfl⟩ := Option.map_eq_some_iff.mp hs
        exact hstep _ _ _ hd hok hsource
    | triggerCallbacks fails =>
        cases hs
        unfold triggerCallbacks
        dsimp only
        split
        · exact hd
        · split
          · exact hdrain _ hd
          · exact hdrain _ hd
    | callbacks action =>
        obtain ⟨callbacks, _, rfl⟩ := Option.map_eq_some_iff.mp hs
        exact hd

omit [DecidableEq Fn] [DecidableEq Env] in
/-- What a consumer holds that joined an open callback with what had been told before, once the
calls that were accepted have been made, is what a consumer of every batch holds. -/
theorem Tells.consumer_joins {V : Finset EventKey} {id : Nat} (h : d.Tells S V)
    (hopen : d.callbacks.Open id) (hmissed : d.callbacks.missed id = false)
    (hkept : (d.callbacks.tsfn id).channel.discarded = false) (rest : List Event) :
    deliver (told V (d.callbacks.batches.take (d.callbacks.joined id)))
        ((d.callbacks.tsfn id).channel.handled.flatMap CallbackData.events ++
          (d.callbacks.tsfn id).channel.queue.flatMap CallbackData.events ++ rest) =
      deliver (S.view d.source) rest := by
  have hwhole := (d.callbacks.tsfn id).channel.whole hkept
  have haccepted := WatcherCallbacks.deliver_accepted h.callbacks hopen hmissed V
  rw [deliver, WatcherCallbacks.accepted] at haccepted
  rw [← List.flatMap_append, hwhole, deliver, List.foldl_append, haccepted, h.view]
  rfl

end Delivery

/-! ## Reported operations -/

/-- An event list, the keys that are live, and what a consumer of every batch holds. -/
structure ReportedList where
  mEvents : EventList
  live : Finset EventKey
  view : Finset EventKey

inductive ReportedAction where
  | report (op : EventOp)
  | error (err : String)

namespace ReportedList

def start (live : Finset EventKey) : ReportedList := ⟨.empty, live, live⟩

def step (s : ReportedList) : ReportedAction → Option ReportedList
  | .report op => some { s with mEvents := s.mEvents.apply op, live := liveStep s.live op }
  | .error err => some { s with mEvents := s.mEvents.error err }

/-- The reported operations are legal for the keys that are live. -/
def Sound (s : ReportedList) : ReportedAction → Prop
  | .report op => LegalOp s.live op
  | .error _ => True

instance (s : ReportedList) (a : ReportedAction) : Decidable (s.Sound a) := by
  cases a <;> unfold Sound <;> infer_instance

def source : EventSource ReportedList ReportedAction where
  mEvents := mEvents
  view := view
  step := step
  drain s := { s with mEvents := s.mEvents.drain.2, view := deliver s.view s.mEvents.drain.1.events }
  view_step := by
    intro s a s' hs
    cases a <;> cases hs <;> rfl
  view_drain _ := rfl

theorem tells_of_reach {Fn Env : Type} [DecidableEq Fn] [DecidableEq Env] {S₀ : Finset EventKey}
    {d : Delivery ReportedList Fn Env}
    (h : (Machine.ofStep (Delivery.start (start S₀)) (Delivery.step source)).Reach
      (Delivery.SourceMeets Sound) d) : d.source.mEvents.Tells d.source.view d.source.live := by
  apply Delivery.source_invariant (P := fun s => s.mEvents.Tells s.view s.live) _ _ _ h
  · exact EventList.Tells.of_empty S₀
  · intro s a s' htells hok hs
    cases a with
    | report op =>
        cases hs
        exact htells.apply hok
    | error err =>
        cases hs
        exact htells.error err
  · exact fun s htells => htells.drain

/-- **No event is lost on the way.** Take a consumer that joined with what had been told
before its callback was added. What it was handed, what is queued for it and what is still
in the event list make of it one that holds the live keys. -/
theorem consumer_holds_live {Fn Env : Type} [DecidableEq Fn] [DecidableEq Env]
    (S₀ : Finset EventKey) (d : Delivery ReportedList Fn Env)
    (h : (Machine.ofStep (Delivery.start (start S₀)) (Delivery.step source)).Reach
      (Delivery.SourceMeets Sound) d) (id : Nat)
    (hopen : d.callbacks.Open id) (hmissed : d.callbacks.missed id = false)
    (hkept : (d.callbacks.tsfn id).channel.discarded = false) :
    deliver (told S₀ (d.callbacks.batches.take (d.callbacks.joined id)))
        ((d.callbacks.tsfn id).channel.handled.flatMap CallbackData.events ++
          (d.callbacks.tsfn id).channel.queue.flatMap CallbackData.events ++
          d.source.mEvents.drain.1.events) =
      d.source.live :=
  ((Delivery.tells_of_reach h).consumer_joins hopen hmissed hkept _).trans (tells_of_reach h).deliver

/-- A file is created before the callback is added, and told; another one is not yet. -/
def laterCreation : List (DeliveryAction ReportedAction Nat Nat) :=
  [.callbacks (.watch 0 0 7 true), .source (.report (.create ([47, 97], .File))),
    .triggerCallbacks fun _ => false, .callbacks (.watch 0 0 8 true),
    .source (.report (.create ([47, 98], .File)))]

theorem consumer_holds_live_later :
    ∃ d, Machine.execute (Delivery.step source) (Delivery.start (start ∅)) laterCreation = some d ∧
      d.source.live = {([47, 97], .File), ([47, 98], .File)} ∧
      deliver (told ∅ (d.callbacks.batches.take (d.callbacks.joined 2)))
        d.source.mEvents.drain.1.events = d.source.live := by
  have hstart : (Machine.ofStep (Delivery.start (start ∅) : Delivery _ Nat Nat)
      (Delivery.step source)).Reach (Delivery.SourceMeets Sound) (Delivery.start (start ∅)) :=
    .init rfl
  refine ⟨_, rfl, by decide, ?_⟩
  have hreach := hstart.execute (l := laterCreation)
    ⟨trivial, by decide, trivial, trivial, by decide, trivial⟩ rfl
  exact consumer_holds_live ∅ _ hreach 2
    ⟨_, List.mem_cons_of_mem _ (List.mem_singleton_self _), rfl, rfl⟩ rfl rfl

end ReportedList

end NativeWatcher
