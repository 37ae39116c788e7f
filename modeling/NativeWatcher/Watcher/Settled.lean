import NativeWatcher.Watcher.Rest
import NativeWatcher.Watcher.EventSource

/-!
# From a change to the JavaScript callbacks

The backend with the debouncer, and the callbacks of one watcher: what `triggerCallbacks` drains
in a round is what the callbacks are handed. Once the threads are at rest and the queued calls
have been made, the consumers hold all that the list was told of.
-/

namespace NativeWatcher

open EventList

variable {W σ α Fn Env : Type}

/-- The list of one watcher, with what a consumer of every batch holds. -/
def Notifier.source (N : Notifier W σ α) (id : W) : EventSource (σ × Finset EventKey) α where
  mEvents s := N.mEvents s.1 id
  view := Prod.snd
  step s a := (N.step s.1 a).map fun s' => (s', s.2)
  drain s := (N.drain s.1 id, deliver s.2 (N.mEvents s.1 id).drain.1.events)
  view_step hs := by
    obtain ⟨s', -, rfl⟩ := Option.map_eq_some_iff.mp hs
    rfl
  view_drain _ := rfl

/-- What the steps of the backend and the drains keep of the list of one watcher. -/
structure Notifier.Keeps (N : Notifier W σ α) (id : W) (ok : σ → Finset EventKey → α → Prop)
    (P : σ → Finset EventKey → Prop) : Prop where
  meets : ∀ {s V a}, ok s V a → N.ok s a
  step : ∀ {s V a s'}, P s V → ok s V a → N.step s a = some s' → P s' V
  notify : ∀ {s V id' s'}, P s V → N.notify s id' = some s' → P s' V
  drain_self : ∀ {s V}, P s V → P (N.drain s id) (deliver V (N.mEvents s id).drain.1.events)
  drain_of_ne : ∀ {s V id'}, id' ≠ id → P s V → P (N.drain s id') V

/-- The callbacks of one watcher, with the backend and the debouncer. What a consumer of every
batch holds is not part of the program. -/
structure Attached (W σ Fn Env : Type) where
  debounced : Debounced W σ
  view : Finset EventKey
  callbacks : WatcherCallbacks Fn Env

inductive AttachedAction (W α Fn Env : Type) where
  | debounced (a : DebouncedAction W α)
  /-- The round calls the watcher. -/
  | triggerCallbacks (fails : Nat → Bool)
  /-- Anything else that happens to the callbacks. -/
  | callbacks (a : WatcherCallbackAction Fn Env)

namespace Attached

variable {x x' : Attached W σ Fn Env}

def delivery (x : Attached W σ Fn Env) : Delivery (σ × Finset EventKey) Fn Env :=
  ⟨(x.debounced.source, x.view), x.callbacks⟩

variable [DecidableEq W]

/-- The callbacks say whether the watcher has some. -/
def leaves (id : W) : DebouncedAction W α → Bool
  | .triggerCallbacks id' | .watch id' | .unwatch id' => decide (id' ≠ id)
  | _ => true

variable (N : Notifier W σ α) (id : W)

def triggerCallbacks (x : Attached W σ Fn Env) (fails : Nat → Bool) :
    Option (Attached W σ Fn Env) :=
  let handed := x.delivery.triggerCallbacks (N.source id) fails
  (x.debounced.triggerCallbacks N id).map fun d => ⟨d, handed.source.2, handed.callbacks⟩

def setCallbacks (x : Attached W σ Fn Env) (callbacks : WatcherCallbacks Fn Env) :
    Attached W σ Fn Env :=
  { x with
    debounced := { x.debounced with
      watched := Function.update x.debounced.watched id (!callbacks.mCallbacks.isEmpty) }
    callbacks := callbacks }

def step [DecidableEq Fn] [DecidableEq Env] (x : Attached W σ Fn Env) :
    AttachedAction W α Fn Env → Option (Attached W σ Fn Env)
  | .debounced a =>
      if leaves id a then (x.debounced.step N a).map fun d => { x with debounced := d } else none
  | .triggerCallbacks fails => x.triggerCallbacks N id fails
  | .callbacks a => (x.callbacks.stepOther a).map (x.setCallbacks id)

/-- A first callback finds the list empty. -/
def Sound (ok : σ → Finset EventKey → α → Prop) (x : Attached W σ Fn Env) :
    AttachedAction W α Fn Env → Prop
  | .debounced (.source a) => ok x.debounced.source x.view a
  | .debounced a => x.debounced.Sound N id a
  | .callbacks (.watch ..) =>
      x.callbacks.mCallbacks.isEmpty = false ∨ (N.mEvents x.debounced.source id).waits = false
  | _ => True

structure Inv (P : σ → Finset EventKey → Prop) (V : Finset EventKey) (x : Attached W σ Fn Env) :
    Prop where
  rest : x.debounced.RestInv N id
  watched : x.debounced.watched id = !x.callbacks.mCallbacks.isEmpty
  tells : x.delivery.Tells (N.source id) V
  kept : P x.debounced.source x.view

variable {N id} {ok : σ → Finset EventKey → α → Prop} {P : σ → Finset EventKey → Prop}
  {V : Finset EventKey}

/-- A step that leaves the callbacks of the watcher. -/
theorem Inv.debounced (h : x.Inv N id P V) (K : N.Keeps id ok P) {a : DebouncedAction W α}
    {d : Debounced W σ} (hleaves : leaves id a = true) (hok : x.Sound N id ok (.debounced a))
    (hs : x.debounced.step N a = some d) :
    ({ x with debounced := d } : Attached W σ Fn Env).Inv N id P V := by
  have hmeets : x.debounced.Sound N id a := by
    cases a with
    | source a => exact K.meets hok
    | _ => exact hok
  have hkept : d.watched id = x.debounced.watched id ∧ P d.source x.view := by
    cases a with
    | source a =>
        obtain ⟨s, hsource, rfl⟩ := Option.map_eq_some_iff.mp hs
        exact ⟨rfl, K.step h.kept hok hsource⟩
    | notify id' =>
        obtain ⟨-, s, hnotified, rfl⟩ := Debounced.of_notify hs
        exact ⟨rfl, K.notify h.kept hnotified⟩
    | debounce a =>
        obtain ⟨-, s, -, rfl⟩ := Debounced.of_act hs
        exact ⟨rfl, h.kept⟩
    | triggerCallbacks id' =>
        have hne : id' ≠ id := of_decide_eq_true hleaves
        rw [Debounced.of_triggerCallbacks hs]
        refine ⟨rfl, ?_⟩
        show P (if x.debounced.watched id' then _ else _) x.view
        split
        · exact K.drain_of_ne hne h.kept
        · exact h.kept
    | watch id' | unwatch id' =>
        have hne : id' ≠ id := of_decide_eq_true hleaves
        cases hs
        exact ⟨Function.update_of_ne hne.symm .., h.kept⟩
    | add id' | remove id' =>
        rw [Debounced.of_edit hs]
        exact ⟨rfl, h.kept⟩
  exact ⟨h.rest.step hmeets hs, hkept.1.trans h.watched, ⟨h.tells.callbacks, h.tells.view⟩, hkept.2⟩

/-- The round hands on what it drains. -/
theorem Inv.triggerCallbacks (h : x.Inv N id P V) (K : N.Keeps id ok P) {fails : Nat → Bool}
    (hs : x.triggerCallbacks N id fails = some x') : x'.Inv N id P V := by
  obtain ⟨d, hround, rfl⟩ := Option.map_eq_some_iff.mp hs
  have hhanded := h.tells.triggerCallbacks fails
  refine ⟨h.rest.triggerCallbacks hround, ?_, ⟨hhanded.callbacks, hhanded.view⟩, ?_⟩
  · rw [Debounced.of_triggerCallbacks hround]
    refine h.watched.trans (congrArg _ ?_)
    exact (Delivery.isEmpty_triggerCallbacks h.tells.callbacks.ids fails).symm
  · rw [Debounced.of_triggerCallbacks hround, Delivery.source_triggerCallbacks, h.watched]
    show P (if (!x.callbacks.mCallbacks.isEmpty) = true then _ else _)
      (if x.callbacks.mCallbacks.isEmpty = true then x.delivery.source else _).2
    cases x.callbacks.mCallbacks.isEmpty with
    | true => exact h.kept
    | false => exact K.drain_self h.kept

theorem Inv.callbacks [DecidableEq Fn] [DecidableEq Env] (h : x.Inv N id P V)
    {a : WatcherCallbackAction Fn Env} (hok : x.Sound N id ok (.callbacks a))
    {callbacks : WatcherCallbacks Fn Env} (hs : x.callbacks.stepOther a = some callbacks) :
    (x.setCallbacks id callbacks).Inv N id P V := by
  obtain ⟨hstep, hbatches⟩ := WatcherCallbacks.of_stepOther hs
  have hids := h.tells.callbacks.ids
  refine ⟨h.rest.of_watched fun hwatched hin hwaits => ⟨?_, hin⟩, Function.update_self ..,
    ⟨h.tells.callbacks.of_stepSpec (WatcherCallbacks.stepSpec_step hids hstep), ?_⟩, h.kept⟩
  · -- Only `watch` gives a watcher its first callback.
    rw [Function.update_self] at hwatched
    rw [h.watched]
    cases hempty : x.callbacks.mCallbacks.isEmpty with
    | false => rfl
    | true =>
        rcases WatcherCallbacks.registered_step hids hstep with hsub | ⟨_, _, _, rfl, -, -⟩
        · have hnone : x.callbacks.registered = [] := by
            rw [WatcherCallbacks.registered, List.isEmpty_iff.mp hempty]
            rfl
          have hsame := List.sublist_nil.mp (hnone ▸ hsub)
          rw [WatcherCallbacks.isEmpty_of_registered (hsame.trans hnone.symm), hempty] at hwatched
          exact hwatched
        · rcases hok with hsome | hquiet
          · exact Bool.noConfusion (hempty.symm.trans hsome)
          · exact Bool.noConfusion (hwaits.symm.trans hquiet)
  · show told V callbacks.batches = x.view
    rw [hbatches]
    exact h.tells.view

theorem Inv.step [DecidableEq Fn] [DecidableEq Env] (h : x.Inv N id P V) (K : N.Keeps id ok P)
    {a : AttachedAction W α Fn Env} (hok : x.Sound N id ok a) (hs : x.step N id a = some x') :
    x'.Inv N id P V := by
  cases a with
  | debounced a =>
      simp only [Attached.step] at hs
      split at hs
      next hleaves =>
        obtain ⟨d, hstep, rfl⟩ := Option.map_eq_some_iff.mp hs
        exact h.debounced K hleaves hok hstep
      next => cases hs
  | triggerCallbacks fails => exact h.triggerCallbacks K hs
  | callbacks a =>
      obtain ⟨callbacks, hother, rfl⟩ := Option.map_eq_some_iff.mp hs
      exact h.callbacks hok hother

theorem inv_of_reach [DecidableEq Fn] [DecidableEq Env] {x₀ : Attached W σ Fn Env}
    (K : N.Keeps id ok P) (h₀ : x₀.Inv N id P V)
    (h : (Machine.ofStep x₀ (Attached.step N id)).Reach (Sound N id ok) x) : x.Inv N id P V := by
  refine h.invariant ?_ fun _ _ _ hi hok hs => hi.step K hok hs
  rintro _ rfl
  exact h₀

omit [DecidableEq W] in
/-- The backend has no notification to make, and the debouncer sleeps. -/
structure AtRest (N : Notifier W σ α) (id : W) (d : Debounced W σ) : Prop where
  owed : N.owed d.source = ∅
  triggers : d.triggers = false
  waiting : d.debounce.point = .waiting
  flag : d.debounce.mFlag = false
  running : d.debounce.mRunning = true
  known : id ∈ d.mCallbacks

omit [DecidableEq W] in
/-- At rest, and with the queued calls made, an open callback has been told what is told. -/
theorem Inv.at_rest (h : x.Inv N id P V) (hrest : AtRest N id x.debounced) {cb : Nat}
    (hopen : x.callbacks.Open cb) (hmissed : x.callbacks.missed cb = false)
    (hkept : (x.callbacks.tsfn cb).channel.discarded = false)
    (hcalled : (x.callbacks.tsfn cb).channel.queue = []) :
    (N.mEvents x.debounced.source id).waits = false ∧
      deliver (told V (x.callbacks.batches.take (x.callbacks.joined cb)))
        ((x.callbacks.tsfn cb).channel.handled.flatMap CallbackData.events) = x.view := by
  refine ⟨?_, ?_⟩
  · obtain ⟨it, hit, -⟩ := hopen
    refine h.rest.at_rest hrest.owed hrest.triggers hrest.waiting hrest.flag hrest.running ?_
      hrest.known
    rw [h.watched]
    cases hmem : x.callbacks.mCallbacks with
    | nil =>
        rw [hmem] at hit
        cases hit
    | cons => rfl
  · have hjoins := h.tells.consumer_joins hopen hmissed hkept []
    change deliver _ (_ ++ List.flatMap _ (x.callbacks.tsfn cb).channel.queue ++ []) = _ at hjoins
    rw [hcalled, List.flatMap_nil, List.append_nil, List.append_nil] at hjoins
    exact hjoins

end Attached

end NativeWatcher
