import NativeWatcher.Lib.Broadcast
import NativeWatcher.Event.EventList
import NativeWatcher.Watcher.Registry

/-!
# The callbacks of a watcher

What a watcher does under its `mMutex` with its callbacks: `watch`, `unwatch`,
`triggerCallbacks`, `notifyError`, `finishErrorCallback`, and the bodies of the loops of
`cancelEnvironment` and `cleanupEnvironment`. Every callback has a thread-safe function of
its own, named here by the id of the callback, whose queue is emptied on the JavaScript
thread by `callJSFunction`.

A thread-safe function that was released goes on until its queue is empty; one that was
aborted, by the watcher or by the end of the environment, drops what it holds.
-/

namespace NativeWatcher

open Broadcast

structure Callback (Fn Env : Type) extends WatcherCallback Fn Env where
  closing : Bool

/-- `watcher` and `callbackId` are set together, by `notifyError`. -/
structure CallbackData where
  error : String
  events : List Event
  callbackId : Option Nat

/-- The outcomes of `napi_call_threadsafe_function`; `napi_generic_failure` stands for any
other. -/
inductive NapiStatus where
  | napi_ok
  | napi_closing
  | napi_generic_failure
deriving DecidableEq

/-- The channel to one JavaScript function, and how often it was released. -/
structure ThreadSafeFunction where
  channel : Channel CallbackData
  released : Nat

namespace ThreadSafeFunction

def create : ThreadSafeFunction := ⟨.empty, 0⟩

/-- `napi_call_threadsafe_function`. The queue has no bound. -/
def call (f : ThreadSafeFunction) (fails : Bool) (data : CallbackData) :
    NapiStatus × ThreadSafeFunction :=
  if f.channel.discarded then (.napi_closing, f)
  else if fails then (.napi_generic_failure, f)
  else (.napi_ok, { f with channel := f.channel.send data })

/-- `napi_release_threadsafe_function` with `napi_tsfn_release`. -/
def release (f : ThreadSafeFunction) : ThreadSafeFunction := { f with released := f.released + 1 }

/-- `napi_release_threadsafe_function` with `napi_tsfn_abort`. -/
def abort (f : ThreadSafeFunction) : ThreadSafeFunction := ⟨f.channel.discard, f.released + 1⟩

/-- The environment ends. -/
def close (f : ThreadSafeFunction) : ThreadSafeFunction := { f with channel := f.channel.discard }

end ThreadSafeFunction

/-- The last three fields are not part of the program: the batches handed to the callbacks,
how many there had been when a callback was added, and the callbacks that a failed call
left out. -/
structure WatcherCallbacks (Fn Env : Type) where
  mCallbacks : List (Callback Fn Env)
  mNextCallbackId : Nat
  mCancelled : Bool
  tsfn : Nat → ThreadSafeFunction
  /-- The calls of `finishErrorCallback` that `callJSFunction` still has to make. -/
  finishing : List Nat
  /-- The environments whose process is exiting. -/
  exiting : List Env
  batches : List EventBatch
  joined : Nat → Nat
  missed : Nat → Bool

inductive WatcherCallbackAction (Fn Env : Type) where
  /-- `napi_create_threadsafe_function` may fail. -/
  | watch (thread : Nat) (env : Env) (callback : Fn) (creates : Bool)
  | unwatch (thread : Nat) (callback : Fn)
  /-- The loop of `triggerCallbacks`; the calls that fail are given by the callback. -/
  | dispatch (batch : EventBatch) (fails : Nat → Bool)
  | notifyError (err : String) (fails : Nat → Bool)
  /-- The JavaScript thread takes the next call of a thread-safe function. -/
  | callJSFunction (id : Nat)
  | finishErrorCallback (callbackId : Nat)
  | cancelEnvironment (env : Env)
  | cleanupEnvironment (env : Env)
  /-- The environment of a thread-safe function ends. -/
  | close (id : Nat)

namespace WatcherCallbacks

variable {Fn Env : Type}

def start : WatcherCallbacks Fn Env where
  mCallbacks := []
  mNextCallbackId := 1
  mCancelled := false
  tsfn := fun _ => .create
  finishing := []
  exiting := []
  batches := []
  joined := fun _ => 0
  missed := fun _ => false

def setTsfn (s : WatcherCallbacks Fn Env) (id : Nat) (f : ThreadSafeFunction) :
    WatcherCallbacks Fn Env :=
  { s with tsfn := Function.update s.tsfn id f }

/-- A loop over the callbacks that are not closing. -/
def callEach (body : Callback Fn Env → ThreadSafeFunction → Callback Fn Env × ThreadSafeFunction) :
    List (Callback Fn Env) → (Nat → ThreadSafeFunction) →
      List (Callback Fn Env) × (Nat → ThreadSafeFunction)
  | [], tsfn => ([], tsfn)
  | it :: rest, tsfn =>
      let (it, tsfn) :=
        if it.closing then (it, tsfn)
        else
          let (called, f) := body it (tsfn it.id)
          (called, Function.update tsfn it.id f)
      let (rest, tsfn) := callEach body rest tsfn
      (it :: rest, tsfn)

def hasCallbacks (s : WatcherCallbacks Fn Env) : Bool := !s.mCallbacks.isEmpty

def hasCallbacksForEnvironment [DecidableEq Env] (s : WatcherCallbacks Fn Env) (env : Env) : Bool :=
  s.mCallbacks.any fun callback => callback.env == env

/-- The body of the loop of `triggerCallbacks`. -/
def callBatch (batch : EventBatch) (fails : Nat → Bool) (it : Callback Fn Env)
    (f : ThreadSafeFunction) : Callback Fn Env × ThreadSafeFunction :=
  let (status, f) := f.call (fails it.id) ⟨batch.error, batch.events, none⟩
  (if status = .napi_closing then { it with closing := true } else it, f)

/-- The body of the loop of `notifyError`. -/
def callError (err : String) (fails : Nat → Bool) (it : Callback Fn Env)
    (f : ThreadSafeFunction) : Callback Fn Env × ThreadSafeFunction :=
  let (_, f) := f.call (fails it.id) ⟨err, [], some it.id⟩
  ({ it with closing := true }, f)

/-- The loop of `triggerCallbacks`. -/
def dispatch (s : WatcherCallbacks Fn Env) (batch : EventBatch) (fails : Nat → Bool) :
    WatcherCallbacks Fn Env :=
  let (mCallbacks, tsfn) := callEach (callBatch batch fails) s.mCallbacks s.tsfn
  { s with
    mCallbacks := mCallbacks
    tsfn := tsfn
    batches := s.batches ++ [batch]
    missed := fun id =>
      s.missed id || (fails id && s.mCallbacks.any fun it => it.id == id && !it.closing) }

def notifyError (s : WatcherCallbacks Fn Env) (err : String) (fails : Nat → Bool) :
    WatcherCallbacks Fn Env :=
  let (mCallbacks, tsfn) := callEach (callError err fails) s.mCallbacks s.tsfn
  { s with mCallbacks := mCallbacks, tsfn := tsfn }

/-- The first callback that passes the test is released and dropped. -/
def release (s : WatcherCallbacks Fn Env) (test : Callback Fn Env → Bool) :
    WatcherCallbacks Fn Env :=
  match s.mCallbacks.find? test with
  | none => s
  | some it =>
      { s.setTsfn it.id (s.tsfn it.id).release with mCallbacks := s.mCallbacks.eraseP test }

/-- `finishErrorCallback` up to `unref`. -/
def finishErrorCallback (s : WatcherCallbacks Fn Env) (callbackId : Nat) :
    WatcherCallbacks Fn Env :=
  let s := s.release fun it => it.id == callbackId
  if s.mCallbacks.isEmpty then { s with mCancelled := true } else s

/-- `callJSFunction` with an environment: the JavaScript function is called, and
`finishErrorCallback` is still to come. -/
def callJSFunction (s : WatcherCallbacks Fn Env) (id : Nat) : Option (WatcherCallbacks Fn Env) :=
  (s.tsfn id).channel.handle.map fun (data, channel) =>
    { s.setTsfn id { s.tsfn id with channel := channel } with
      finishing := data.callbackId.toList ++ s.finishing }

variable [DecidableEq Fn]

/-- `watch`. -/
def watch (s : WatcherCallbacks Fn Env) (thread : Nat) (env : Env) (callback : Fn)
    (creates : Bool) : WatcherCallbacks Fn Env :=
  let s := { s with mCancelled := false }
  if s.mCallbacks.any fun it => SharedWatchers.isCallback thread callback it.toWatcherCallback then s
  else if creates then
    let id := s.mNextCallbackId
    { s with
      mCallbacks := s.mCallbacks ++ [⟨⟨id, callback, env, thread⟩, false⟩]
      mNextCallbackId := id + 1
      tsfn := Function.update s.tsfn id .create
      joined := Function.update s.joined id s.batches.length }
  else s

/-- `unwatch` up to `unref`. -/
def unwatch (s : WatcherCallbacks Fn Env) (thread : Nat) (callback : Fn) :
    WatcherCallbacks Fn Env :=
  let test := fun it : Callback Fn Env =>
    SharedWatchers.isCallback thread callback it.toWatcherCallback
  let removed := s.mCallbacks.any test
  let s := s.release test
  if removed && s.mCallbacks.isEmpty then { s with mCancelled := true } else s

variable [DecidableEq Env]

/-- The body of the loop of `cancelEnvironment`. -/
def cancelEnvironment (s : WatcherCallbacks Fn Env) (env : Env) : WatcherCallbacks Fn Env :=
  let hasThisEnv := s.mCallbacks.any fun cb => cb.env == env
  let hasOtherEnv := s.mCallbacks.any fun cb => cb.env != env
  let s := { s with exiting := env :: s.exiting }
  if hasThisEnv && !hasOtherEnv then { s with mCancelled := true } else s

/-- The body of the first loop of `cleanupEnvironment`. -/
def cleanupEnvironment (s : WatcherCallbacks Fn Env) (env : Env) : WatcherCallbacks Fn Env :=
  let removed := s.mCallbacks.filter fun cb => cb.env == env
  let mCallbacks := s.mCallbacks.filter fun cb => cb.env != env
  let s := { s with
    mCallbacks := mCallbacks
    tsfn := removed.foldl (fun tsfn it => Function.update tsfn it.id (tsfn it.id).abort) s.tsfn }
  if !removed.isEmpty && mCallbacks.isEmpty then { s with mCancelled := true } else s

def step (s : WatcherCallbacks Fn Env) :
    WatcherCallbackAction Fn Env → Option (WatcherCallbacks Fn Env)
  | .watch thread env callback creates => some (s.watch thread env callback creates)
  | .unwatch thread callback => some (s.unwatch thread callback)
  | .dispatch batch fails =>
      if s.mCallbacks.isEmpty || (batch.events.isEmpty && batch.error == "") then none
      else some (s.dispatch batch fails)
  | .notifyError err fails => some (s.notifyError err fails)
  | .callJSFunction id => s.callJSFunction id
  | .finishErrorCallback callbackId =>
      if callbackId ∈ s.finishing then
        some { s.finishErrorCallback callbackId with finishing := s.finishing.erase callbackId }
      else none
  | .cancelEnvironment env => some (s.cancelEnvironment env)
  | .cleanupEnvironment env => some (s.cleanupEnvironment env)
  | .close id => some (s.setTsfn id (s.tsfn id).close)

/-- A step other than the loop of `triggerCallbacks`, whose batch comes from elsewhere. -/
def stepOther (s : WatcherCallbacks Fn Env) :
    WatcherCallbackAction Fn Env → Option (WatcherCallbacks Fn Env)
  | .dispatch _ _ => none
  | action => s.step action

end WatcherCallbacks

/-- The interleavings of the threads at one watcher. -/
def watcherCallbackMachine (Fn Env : Type) [DecidableEq Fn] [DecidableEq Env] :
    Machine (WatcherCallbacks Fn Env) (WatcherCallbackAction Fn Env) :=
  .ofStep .start WatcherCallbacks.step

namespace WatcherCallbacks

variable {Fn Env : Type} {s s' : WatcherCallbacks Fn Env} {id : Nat}

/-! ## The loops -/

section CallEach

variable {body : Callback Fn Env → ThreadSafeFunction → Callback Fn Env × ThreadSafeFunction}
  {l : List (Callback Fn Env)} {tsfn : Nat → ThreadSafeFunction} {it : Callback Fn Env}

/-- A round of the loop, and the rounds that follow. -/
theorem callEach_cons (body) (it : Callback Fn Env) (l : List (Callback Fn Env)) (tsfn) :
    callEach body (it :: l) tsfn =
      if it.closing then (it :: (callEach body l tsfn).1, (callEach body l tsfn).2)
      else
        let f := body it (tsfn it.id)
        let rest := callEach body l (Function.update tsfn it.id f.2)
        (f.1 :: rest.1, rest.2) := by
  rw [callEach]
  cases it.closing <;> rfl

/-- A thread-safe function whose callback is closing, or gone, is left alone. -/
theorem callEach_tsfn_of_closing (h : ∀ it ∈ l, it.id = id → it.closing = true) :
    (callEach body l tsfn).2 id = tsfn id := by
  induction l generalizing tsfn with
  | nil => rfl
  | cons it l ih =>
      have hrest : ∀ it ∈ l, it.id = id → it.closing = true :=
        fun it hit => h it (List.mem_cons_of_mem _ hit)
      rw [callEach_cons]
      split
      next => exact ih hrest
      next hclosing =>
          have hne : id ≠ it.id := fun hid => hclosing (h it List.mem_cons_self hid.symm)
          exact (ih hrest).trans (Function.update_of_ne hne ..)

/-- Every callback that is not closing is called once, with its own function. -/
theorem callEach_tsfn_of_open (hnodup : (l.map fun it => it.id).Nodup) (hit : it ∈ l)
    (hopen : it.closing = false) :
    (callEach body l tsfn).2 it.id = (body it (tsfn it.id)).2 := by
  induction l generalizing tsfn with
  | nil => cases hit
  | cons it' l ih =>
      rw [List.map_cons, List.nodup_cons] at hnodup
      rw [callEach_cons]
      rcases List.mem_cons.mp hit with rfl | hmem
      · have hgone : ∀ it' ∈ l, it'.id = it.id → it'.closing = true :=
          fun it' hmem hid => absurd (List.mem_map.mpr ⟨it', hmem, hid⟩) hnodup.1
        rw [if_neg (by simp [hopen])]
        exact (callEach_tsfn_of_closing hgone).trans (Function.update_self ..)
      · have hne : it.id ≠ it'.id := fun hid => hnodup.1 (List.mem_map.mpr ⟨it, hmem, hid⟩)
        split
        next => exact ih hnodup.2 hmem
        next =>
            apply (ih hnodup.2 hmem).trans
            rw [Function.update_of_ne hne]

theorem callEach_callbacks (hnodup : (l.map fun it => it.id).Nodup) :
    (callEach body l tsfn).1 =
      l.map fun it => if it.closing then it else (body it (tsfn it.id)).1 := by
  induction l generalizing tsfn with
  | nil => rfl
  | cons it l ih =>
      rw [List.map_cons, List.nodup_cons] at hnodup
      rw [callEach_cons, List.map_cons]
      split
      next => exact congrArg _ (ih hnodup.2)
      next =>
          refine congrArg ((body it (tsfn it.id)).1 :: ·) ((ih hnodup.2).trans ?_)
          apply List.map_congr_left
          intro it' hmem
          have hne : it'.id ≠ it.id := fun hid => hnodup.1 (List.mem_map.mpr ⟨it', hmem, hid⟩)
          rw [Function.update_of_ne hne]

end CallEach

@[simp] theorem id_callBatch (batch : EventBatch) (fails : Nat → Bool) (it : Callback Fn Env)
    (f : ThreadSafeFunction) : (callBatch batch fails it f).1.id = it.id := by
  unfold callBatch
  dsimp only
  split <;> rfl

@[simp] theorem id_callError (err : String) (fails : Nat → Bool) (it : Callback Fn Env)
    (f : ThreadSafeFunction) : (callError err fails it f).1.id = it.id := rfl

end WatcherCallbacks

end NativeWatcher
