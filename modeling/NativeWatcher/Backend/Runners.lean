import NativeWatcher.Backend.Subscriptions
import NativeWatcher.Watcher.CallbackSteps

/-!
# The runners

`SubscribeRunner` and `UnsubscribeRunner` over one backend: the constructors on a JavaScript
thread, `execute` on a worker thread with one step for each of its reads and critical
sections, and the destructor. With them run `cleanupEnvironment`, `handleWatcherError`, the
teardown of a watcher by the platform and the callbacks of the watchers, in any order.

`subscribe` of the backend runs under `mMutex` and `finishSubscribe` without it; both look at
`isCancelled` on the way, so that between the look and the end of the critical section the
callbacks may have changed.

On macOS `processEvents` takes the stream of a watcher whose root is gone and then sets
`mNeedsResubscribe`: two steps, and neither under `mMutex`.
-/

namespace NativeWatcher

/-- What a `SubscribeRunner` holds; `added` is the id of the callback it has added, if it has
added one. -/
structure SubscribeRunner (W Fn Env : Type) where
  watcher : W
  callbackEnv : Env
  thread : Nat
  callback : Fn
  added : Option Nat

/-- What comes after `Backend::unwatch`. -/
inductive AfterUnwatch (W Fn Env : Type) where
  | subscribed (r : SubscribeRunner W Fn Env)
  | unsubscribed
  /-- In `handleWatcherError`. -/
  | notifyError

/-- Where a runner stands, or a thread in `cleanupEnvironment` or `handleWatcherError`. -/
inductive RunnerPoint (W Fn Env : Type) where
  | unused
  /-- Before `isCancelled()`. -/
  | isCancelled (r : SubscribeRunner W Fn Env)
  /-- Before the first `hasCallbacksForEnvironment`. -/
  | hasCallbacks (r : SubscribeRunner W Fn Env)
  /-- Before the lock of `Backend::watch`. -/
  | watch (r : SubscribeRunner W Fn Env)
  /-- In `Backend::watch` with the lock, after `isCancelled()`. -/
  | subscribe (r : SubscribeRunner W Fn Env)
  /-- In `finishSubscribe`. -/
  | finishSubscribe (r : SubscribeRunner W Fn Env)
  /-- Before the lock that follows `finishSubscribe`. -/
  | watchFinish (r : SubscribeRunner W Fn Env) (o : FinishOutcome)
  | addBackend (r : SubscribeRunner W Fn Env)
  /-- Before the second `hasCallbacksForEnvironment`. -/
  | recheck (r : SubscribeRunner W Fn Env)
  /-- Before the lock of `Backend::unwatch`. -/
  | unwatch (w : W) (force : Bool) (next : AfterUnwatch W Fn Env)
  /-- In `finishUnsubscribe`. -/
  | finishUnwatch (w : W) (next : AfterUnwatch W Fn Env)
  /-- An exception has left `execute`, and the destructor is still to come. -/
  | failed (r : SubscribeRunner W Fn Env)
  | resolved (r : SubscribeRunner W Fn Env)
  /-- In `handleWatcherError`, after `unwatch`. -/
  | notifyError (w : W)
  /-- In `processEvents` of macOS, with the stream taken, before `mNeedsResubscribe` is set. -/
  | takenStream (w : W)
  | done

structure Runners (W Fn Env : Type) where
  backend : BackendState W
  /-- The runner that holds `mMutex` of the backend between two steps. -/
  mMutex : Option Nat
  callbacks : W → WatcherCallbacks Fn Env
  /-- Whether `mBackends` of the watcher has the backend. -/
  mBackends : W → Bool
  isProcessExiting : Bool
  runner : Nat → RunnerPoint W Fn Env

inductive RunnerAction (W Fn Env : Type) where
  /-- The constructor of a `SubscribeRunner`; `creates` is for `watch`. -/
  | subscribe (t : Nat) (w : W) (thread : Nat) (env : Env) (fn : Fn) (creates : Bool)
  /-- The constructor of an `UnsubscribeRunner`. -/
  | unsubscribe (t : Nat) (w : W) (thread : Nat) (fn : Fn)
  /-- A step whose outcome the state decides. -/
  | run (t : Nat)
  /-- `subscribe` of the backend, to the end of its critical section. -/
  | backendSubscribe (t : Nat) (o : SubscribeOutcome)
  | finishSubscribe (t : Nat) (o : FinishOutcome)
  /-- `unwatch` to the end of its first critical section. -/
  | unwatch (t : Nat) (o : UnsubscribeOutcome)
  /-- The destructor of a failed runner. -/
  | destroy (t : Nat)
  /-- The part of `cleanupEnvironment` that concerns one watcher. -/
  | cleanupEnvironment (t : Nat) (w : W) (env : Env)
  | handleWatcherError (t : Nat) (w : W)
  /-- `notifyError` in `handleWatcherError`. -/
  | notifyError (t : Nat) (err : String) (fails : Nat → Bool)
  /-- Anything else that happens to the callbacks of a watcher. -/
  | callbacks (w : W) (a : WatcherCallbackAction Fn Env)
  /-- The platform gives the watches of a watcher up. -/
  | teardown (w : W)
  /-- `processEvents` of macOS takes the stream of a watcher whose root is gone. -/
  | takeStream (t : Nat) (w : W)
  | notifyProcessExiting

/-- `watch`, `unwatch` and `cleanupEnvironment` belong to the runners. -/
def WatcherCallbackAction.registers {Fn Env : Type} : WatcherCallbackAction Fn Env → Bool
  | .watch .. | .unwatch .. | .cleanupEnvironment .. => true
  | _ => false

def SubscribeOutcome.isCancelled : SubscribeOutcome → Bool
  | .cancelled => true
  | _ => false

def FinishOutcome.isCancelled : FinishOutcome → Bool
  | .cancelled => true
  | _ => false

/-- The point after `unwatch`. -/
def AfterUnwatch.returned {W Fn Env : Type} (w : W) : AfterUnwatch W Fn Env → RunnerPoint W Fn Env
  | .subscribed r => .resolved r
  | .unsubscribed => .done
  | .notifyError => .notifyError w

/-- The point after an exception in `unwatch`. -/
def AfterUnwatch.thrown {W Fn Env : Type} : AfterUnwatch W Fn Env → RunnerPoint W Fn Env
  | .subscribed r => .failed r
  | _ => .done

namespace Runners

variable {W Fn Env : Type}

def start : Runners W Fn Env where
  backend := .start
  mMutex := none
  callbacks := fun _ => .start
  mBackends := fun _ => false
  isProcessExiting := false
  runner := fun _ => .unused

def setRunner (s : Runners W Fn Env) (t : Nat) (p : RunnerPoint W Fn Env) : Runners W Fn Env :=
  { s with runner := Function.update s.runner t p }

/-- `isCancelled`. -/
def isCancelled (s : Runners W Fn Env) (w : W) : Bool :=
  s.isProcessExiting || (s.callbacks w).mCancelled

variable [DecidableEq W]

def setCallbacks (s : Runners W Fn Env) (w : W) (callbacks : WatcherCallbacks Fn Env) :
    Runners W Fn Env :=
  { s with callbacks := Function.update s.callbacks w callbacks }

def setBackends (s : Runners W Fn Env) (w : W) (b : Bool) : Runners W Fn Env :=
  { s with mBackends := Function.update s.mBackends w b }

/-- A step of the backend, by a runner that moves on with it. -/
def backendStep (s : Runners W Fn Env) (a : BackendAction W) (t : Nat)
    (p : BackendState W → RunnerPoint W Fn Env) : Option (Runners W Fn Env) :=
  (s.backend.step a).map fun backend => { s.setRunner t (p backend) with backend := backend }

/-- `subscribe` and `finishSubscribe` are cancelled only if `isCancelled` says so. -/
def mayCancel (s : Runners W Fn Env) (w : W) : Bool → Bool
  | true => s.isCancelled w
  | false => true

/-- The constructor of a `SubscribeRunner`. If `watch` throws there is no runner. -/
def subscribe [DecidableEq Fn] (s : Runners W Fn Env) (t : Nat) (w : W) (thread : Nat) (env : Env)
    (fn : Fn) (creates : Bool) : Runners W Fn Env :=
  let before := s.callbacks w
  let found := before.mCallbacks.any fun it =>
    SharedWatchers.isCallback thread fn it.toWatcherCallback
  let s := s.setCallbacks w (before.watch thread env fn creates)
  if found then s.setRunner t (.isCancelled ⟨w, env, thread, fn, none⟩)
  else if creates then s.setRunner t (.isCancelled ⟨w, env, thread, fn, some before.mNextCallbackId⟩)
  else s

/-- The constructor of an `UnsubscribeRunner`. -/
def unsubscribe [DecidableEq Fn] (s : Runners W Fn Env) (t : Nat) (w : W) (thread : Nat) (fn : Fn) :
    Runners W Fn Env :=
  let before := s.callbacks w
  let found := before.mCallbacks.any fun it =>
    SharedWatchers.isCallback thread fn it.toWatcherCallback
  let callbacks := before.unwatch thread fn
  let s := s.setCallbacks w callbacks
  if found && callbacks.mCallbacks.isEmpty then s.setRunner t (.unwatch w false .unsubscribed)
  else s.setRunner t .done

/-- The destructor of a failed runner. -/
def destroy [DecidableEq Fn] (s : Runners W Fn Env) (t : Nat) (r : SubscribeRunner W Fn Env) :
    Runners W Fn Env :=
  let s := if r.added.isSome then
      s.setCallbacks r.watcher ((s.callbacks r.watcher).unwatch r.thread r.callback)
    else s
  s.setRunner t .done

variable [DecidableEq Env]

/-- The part of `cleanupEnvironment` that concerns one watcher. -/
def cleanupEnvironment (s : Runners W Fn Env) (t : Nat) (w : W) (env : Env) : Runners W Fn Env :=
  let before := s.callbacks w
  let callbacks := before.cleanupEnvironment env
  let s := s.setCallbacks w callbacks
  if before.hasCallbacksForEnvironment env && callbacks.mCallbacks.isEmpty && s.mBackends w then
    s.setRunner t (.unwatch w false .unsubscribed)
  else s.setRunner t .done

/-- A step whose outcome the state decides. -/
def run (s : Runners W Fn Env) (t : Nat) : Option (Runners W Fn Env) :=
  match s.runner t with
  | .isCancelled r =>
      some (s.setRunner t (if s.isCancelled r.watcher then .recheck r else .hasCallbacks r))
  | .hasCallbacks r =>
      some (s.setRunner t
        (if (s.callbacks r.watcher).hasCallbacksForEnvironment r.callbackEnv then .watch r
          else .recheck r))
  | .watch r =>
      if s.mMutex = none ∧ r.watcher ∉ s.backend.mPendingSubscriptions then
        if s.isCancelled r.watcher then some (s.setRunner t (.addBackend r))
        else some { s.setRunner t (.subscribe r) with mMutex := some t }
      else none
  | .watchFinish r o =>
      if s.mMutex = none then
        s.backendStep (.watchFinish t o) t fun _ =>
          match o with
          | .throws => .failed r
          | _ => .addBackend r
      else none
  | .addBackend r => some ((s.setBackends r.watcher true).setRunner t (.recheck r))
  | .recheck r =>
      some (s.setRunner t
        (if !s.isProcessExiting &&
            !(s.callbacks r.watcher).hasCallbacksForEnvironment r.callbackEnv then
          .unwatch r.watcher false (.subscribed r)
        else .resolved r))
  | .finishUnwatch w next =>
      if s.mMutex = none then
        (s.setBackends w false).backendStep (.unwatchFinish t) t fun _ => next.returned w
      else none
  | .takenStream w => some { s.setRunner t .done with backend := s.backend.setNeeds w true }
  | _ => none

variable [DecidableEq Fn]

def step (s : Runners W Fn Env) : RunnerAction W Fn Env → Option (Runners W Fn Env)
  | .subscribe t w thread env fn creates =>
      match s.runner t with
      | .unused => some (s.subscribe t w thread env fn creates)
      | _ => none
  | .unsubscribe t w thread fn =>
      match s.runner t with
      | .unused => some (s.unsubscribe t w thread fn)
      | _ => none
  | .run t => s.run t
  | .backendSubscribe t o =>
      match s.runner t with
      | .subscribe r =>
          if s.mayCancel r.watcher o.isCancelled then
            { s with mMutex := none }.backendStep (.watch t r.watcher false o) t fun backend =>
              if s.backend.watchThrows r.watcher false o then .failed r
              else
                match backend.thread t with
                | .watching _ _ => .finishSubscribe r
                | _ => .addBackend r
          else none
      | _ => none
  | .finishSubscribe t o =>
      match s.runner t with
      | .finishSubscribe r =>
          if s.mayCancel r.watcher o.isCancelled then
            some (s.setRunner t (.watchFinish r o))
          else none
      | _ => none
  | .unwatch t o =>
      match s.runner t with
      | .unwatch w force next =>
          if s.mMutex = none then
            let keep := !force && (s.callbacks w).hasCallbacks
            s.backendStep (.unwatch t w keep o) t fun _ =>
              if keep || decide (w ∉ s.backend.mSubscriptions) then next.returned w
              else
                match o with
                | .removed => .finishUnwatch w next
                | .throws _ => next.thrown
          else none
      | _ => none
  | .destroy t =>
      match s.runner t with
      | .failed r => some (s.destroy t r)
      | _ => none
  | .cleanupEnvironment t w env =>
      match s.runner t with
      | .unused => some (s.cleanupEnvironment t w env)
      | _ => none
  | .handleWatcherError t w =>
      match s.runner t with
      | .unused => some (s.setRunner t (.unwatch w true .notifyError))
      | _ => none
  | .notifyError t err fails =>
      match s.runner t with
      | .notifyError w =>
          some ((s.setCallbacks w ((s.callbacks w).notifyError err fails)).setRunner t .done)
      | _ => none
  | .callbacks w a =>
      if a.registers then none
      else ((s.callbacks w).step a).map fun callbacks => s.setCallbacks w callbacks
  | .teardown w =>
      if s.mMutex = none then
        (s.backend.step (.teardown w)).map fun backend => { s with backend := backend }
      else none
  | .takeStream t w =>
      match s.runner t with
      | .unused =>
          some { s.setRunner t (.takenStream w) with backend := s.backend.setLive w false }
      | _ => none
  | .notifyProcessExiting => some { s with isProcessExiting := true }

end Runners

/-- The runners of any number of watchers, in any order. -/
def runnerMachine (W Fn Env : Type) [DecidableEq W] [DecidableEq Fn] [DecidableEq Env] :
    Machine (Runners W Fn Env) (RunnerAction W Fn Env) :=
  .ofStep .start Runners.step

end NativeWatcher
