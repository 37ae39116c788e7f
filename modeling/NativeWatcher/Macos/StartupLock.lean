import NativeWatcher.Lib.Machine
import Mathlib.Logic.Function.Basic

/-!
# The backend lock while a stream starts

`Backend::watch` holds `mMutex` while `startStream` waits for the serial queue of the
backend: for the callbacks of its stream, for an empty block, and for the block that
processes the events of the startup. An exception in a block of the queue reaches
`handleBackendError`, which locks `mMutex` again.
-/

namespace NativeWatcher

/-! ## States and steps -/

/-- The blocks of the serial queue. -/
inductive QueueBlock where
  /-- `FSEventsCallback` of a stream. -/
  | callback (stream : Nat)
  /-- The empty block of `flushStreamCallbacks`, submitted by a client. -/
  | empty (t : Nat)
  /-- The block at the end of `startStream`. -/
  | startup (t : Nat)
  /-- The empty block of `stopStreamAfterCallback`, submitted by a thread of its own. -/
  | stop (stream : Nat)
deriving DecidableEq

/-- Where the callback at the head of the queue stands. -/
inductive CallbackPoint where
  | processing
  /-- In `handleBackendError`, before the lock. -/
  | handling
  /-- In `handleError`, with the lock. -/
  | cleaning
deriving DecidableEq

/-- Where a client stands. -/
inductive StarterPoint where
  | outside
  /-- In `subscribe`, before `flushStreamCallbacks`, with the lock. -/
  | subscribing (stream : Nat)
  /-- In `FSEventStreamFlushSync`. -/
  | flushing (stream : Nat)
  /-- In the `dispatch_sync` of the empty block. -/
  | draining
  /-- Before the `dispatch_sync` of the startup block. -/
  | drained
  /-- In the `dispatch_sync` of the startup block. -/
  | starting
  /-- The startup block runs, on the thread that submitted it. -/
  | processing
  /-- In `handleBackendError` of the startup block, before the lock. -/
  | handling
  /-- In `unsubscribe`, with the lock. -/
  | unsubscribing
  /-- In `cleanupComplete.wait()`. -/
  | cleaning

/-- Who holds `mMutex`. -/
inductive LockHolder where
  | client (t : Nat)
  | queue
deriving DecidableEq

structure StartupState where
  mMutex : Option LockHolder
  mQueue : List QueueBlock
  /-- The callback at the head of the queue, if it has begun. -/
  running : Option CallbackPoint
  client : Nat → StarterPoint

inductive StartupAction where
  | watch (t stream : Nat)
  /-- `startStream` throws or is cancelled before the flush, or is not called. -/
  | leave (t : Nat)
  | flush (t : Nat)
  | flushed (t : Nat)
  | drained (t : Nat)
  | dispatchStartup (t : Nat)
  | beginStartup (t : Nat)
  | endStartup (t : Nat) (throws : Bool)
  /-- The streams hand a callback to the queue. -/
  | deliver (stream : Nat)
  | beginCallback
  | endCallback (throws : Bool)
  /-- `handleError` on the queue. -/
  | lockQueue
  | unlockQueue
  | unwatch (t : Nat)
  | unsubscribed (t : Nat)
  | cleanedUp (t : Nat)
  /-- The thread of `stopStreamAfterCallback`. -/
  | stop (stream : Nat)
  | stopped

namespace StartupState

def start : StartupState := ⟨none, [], none, fun _ => .outside⟩

def setClient (s : StartupState) (t : Nat) (p : StarterPoint) : StartupState :=
  { s with client := Function.update s.client t p }

def dispatch (s : StartupState) (block : QueueBlock) : StartupState :=
  { s with mQueue := s.mQueue ++ [block] }

/-- A client takes the lock, if it is free. -/
def lock (s : StartupState) (t : Nat) (p : StarterPoint) : Option StartupState :=
  match s.mMutex with
  | none => some { s.setClient t p with mMutex := some (.client t) }
  | some _ => none

def unlock (s : StartupState) (t : Nat) (p : StarterPoint) : StartupState :=
  { s.setClient t p with mMutex := none }

/-- A step of a client, by the place where it must be. -/
def clientStep (s : StartupState) : StarterPoint → StartupAction → Option StartupState
  | .outside, .watch t stream => s.lock t (.subscribing stream)
  | .outside, .unwatch t => s.lock t .unsubscribing
  | .subscribing _, .leave t => some (s.unlock t .outside)
  | .subscribing stream, .flush t => some (s.setClient t (.flushing stream))
  | .flushing stream, .flushed t =>
      if .callback stream ∈ s.mQueue then none
      else some ((s.setClient t .draining).dispatch (.empty t))
  | .draining, .drained t =>
      match s.mQueue with
      | .empty t' :: rest =>
          if t' = t then some { s.setClient t .drained with mQueue := rest } else none
      | _ => none
  | .drained, .dispatchStartup t => some ((s.setClient t .starting).dispatch (.startup t))
  | .starting, .beginStartup t =>
      match s.mQueue with
      | .startup t' :: _ => if t' = t then some (s.setClient t .processing) else none
      | _ => none
  | .processing, .endStartup t throws =>
      if throws then some (s.setClient t .handling)
      else some { s.unlock t .outside with mQueue := s.mQueue.tail }
  | .unsubscribing, .unsubscribed t => some (s.unlock t .cleaning)
  | .cleaning, .cleanedUp t =>
      match s.mMutex with
      | none => some (s.setClient t .outside)
      | some _ => none
  | _, _ => none

/-- A step of the queue, by the block at its head and how far it is. -/
def queueStep (s : StartupState) : List QueueBlock → Option CallbackPoint →
    StartupAction → Option StartupState
  | .callback _ :: _, none, .beginCallback => some { s with running := some .processing }
  | .callback _ :: rest, some .processing, .endCallback throws =>
      if throws then some { s with running := some .handling }
      else some { s with running := none, mQueue := rest }
  | .callback _ :: _, some .handling, .lockQueue =>
      match s.mMutex with
      | none => some { s with running := some .cleaning, mMutex := some .queue }
      | some _ => none
  | .callback _ :: rest, some .cleaning, .unlockQueue =>
      some { s with running := none, mMutex := none, mQueue := rest }
  | .stop _ :: rest, none, .stopped => some { s with mQueue := rest }
  | _, _, _ => none

def step (s : StartupState) : StartupAction → Option StartupState
  | .deliver stream => some (s.dispatch (.callback stream))
  | .stop stream => some (s.dispatch (.stop stream))
  | .watch t stream => s.clientStep (s.client t) (.watch t stream)
  | .leave t => s.clientStep (s.client t) (.leave t)
  | .flush t => s.clientStep (s.client t) (.flush t)
  | .flushed t => s.clientStep (s.client t) (.flushed t)
  | .drained t => s.clientStep (s.client t) (.drained t)
  | .dispatchStartup t => s.clientStep (s.client t) (.dispatchStartup t)
  | .beginStartup t => s.clientStep (s.client t) (.beginStartup t)
  | .endStartup t throws => s.clientStep (s.client t) (.endStartup t throws)
  | .unwatch t => s.clientStep (s.client t) (.unwatch t)
  | .unsubscribed t => s.clientStep (s.client t) (.unsubscribed t)
  | .cleanedUp t => s.clientStep (s.client t) (.cleanedUp t)
  | a => s.queueStep s.mQueue s.running a

end StartupState

/-- The interleavings of any number of clients and streams. -/
def startupMachine : Machine StartupState StartupAction := .ofStep .start StartupState.step

/-! ## Deadlocks -/

section Startup

variable {s s' : StartupState} {t : Nat}

/-- The block a client waits for in the queue. -/
def StarterPoint.awaited (t : Nat) : StarterPoint → Option QueueBlock
  | .flushing stream => some (.callback stream)
  | .draining => some (.empty t)
  | .starting => some (.startup t)
  | _ => none

/-- The queue is serial: who waits for a block waits for those before it as well. -/
def WaitsFor (s : StartupState) (t : Nat) (block : QueueBlock) : Prop :=
  ∃ own before rest, (s.client t).awaited t = some own ∧ s.mQueue = before ++ own :: rest ∧
    block ∈ before ++ [own]

/-- The block is at the head of the queue and about to lock `mMutex`. -/
def NeedsLock (s : StartupState) (block : QueueBlock) : Prop :=
  s.mQueue.head? = some block ∧ s.running = some .handling

/-- No client holds `mMutex` while it waits for a block that needs it, and none locks it
twice. -/
structure DeadlockFree (s : StartupState) : Prop where
  queue : ∀ t block, s.mMutex = some (.client t) → WaitsFor s t block → ¬ NeedsLock s block
  twice : ∀ t, s.mMutex = some (.client t) → s.client t ≠ .handling

/-- A client in `subscribe` that has begun to wait for the queue. -/
def StarterPoint.committed : StarterPoint → Prop
  | .flushing _ | .draining | .drained | .starting => True
  | _ => False

/-- What a step must avoid: an exception in the startup block, or in a callback while a
client is between the flush and its startup block, and a flush while a callback with an
exception waits for the lock. -/
def NoCycle (s : StartupState) : StartupAction → Prop
  | .endStartup _ throws => throws = false
  | .endCallback throws => throws = true → ∀ t, ¬ (s.client t).committed
  | .flush _ => s.running ≠ some .handling
  | _ => True

structure StartupInv (s : StartupState) : Prop where
  /-- No startup block has thrown. -/
  handling : ∀ t, s.client t ≠ .handling
  /-- A callback that wants the lock will get it. -/
  running : s.running = some .handling → ∀ t, ¬ (s.client t).committed

theorem startupInv_start : StartupInv .start where
  handling _ := nofun
  running h := nomatch h

/-- A client that awaits a block of the queue is committed to it. -/
theorem committed_of_awaited {p : StarterPoint} {block : QueueBlock}
    (h : p.awaited t = some block) : p.committed := by
  cases p with
  | flushing stream => trivial
  | draining => trivial
  | starting => trivial
  | _ => cases h

theorem StartupInv.deadlockFree (h : StartupInv s) : DeadlockFree s where
  queue t block _ hw hn := by
    obtain ⟨own, before, rest, hawaited, -, -⟩ := hw
    exact h.running hn.2 t (committed_of_awaited hawaited)
  twice t _ := h.handling t

/-- A client moves, and is committed only if it was before or nobody waits for the lock. -/
theorem StartupInv.move (h : StartupInv s) {p : StarterPoint}
    (hclient : s'.client = Function.update s.client t p) (hrunning : s'.running = s.running)
    (hp : p ≠ .handling)
    (hcommitted : p.committed → (s.client t).committed ∨ s.running ≠ some .handling) :
    StartupInv s' := by
  refine ⟨fun t' => ?_, fun hr t' => ?_⟩
  · rw [hclient]
    by_cases htt : t' = t
    · rw [htt, Function.update_self]
      exact hp
    · rw [Function.update_of_ne htt]
      exact h.handling t'
  · rw [hrunning] at hr
    rw [hclient]
    by_cases htt : t' = t
    · rw [htt, Function.update_self]
      intro hc
      rcases hcommitted hc with hold | hne
      · exact h.running hr t hold
      · exact hne hr
    · rw [Function.update_of_ne htt]
      exact h.running hr t'

/-- A step of the queue or of another thread. -/
theorem StartupInv.others (h : StartupInv s) (hclient : s'.client = s.client)
    (hrunning : s'.running = some .handling → ∀ t, ¬ (s.client t).committed) :
    StartupInv s' :=
  ⟨fun t => hclient ▸ h.handling t, fun hr t => hclient ▸ hrunning hr t⟩

theorem startupInv_lock {p : StarterPoint} (h : StartupInv s) (hs : s.lock t p = some s')
    (hp : p ≠ .handling) (hcommitted : ¬ p.committed) : StartupInv s' := by
  unfold StartupState.lock at hs
  split at hs
  · obtain rfl := Option.some.inj hs
    exact h.move rfl rfl hp fun hc => absurd hc hcommitted
  · cases hs

theorem startupInv_queueStep {a : StartupAction} (h : StartupInv s) (hok : NoCycle s a)
    (hs : s.queueStep s.mQueue s.running a = some s') : StartupInv s' := by
  unfold StartupState.queueStep at hs
  split at hs
  · obtain rfl := Option.some.inj hs
    exact h.others rfl nofun
  · split at hs
    next hthrows =>
        obtain rfl := Option.some.inj hs
        exact h.others rfl fun _ => hok hthrows
    next =>
        obtain rfl := Option.some.inj hs
        exact h.others rfl nofun
  · split at hs
    · obtain rfl := Option.some.inj hs
      exact h.others rfl nofun
    · cases hs
  · obtain rfl := Option.some.inj hs
    exact h.others rfl nofun
  · obtain rfl := Option.some.inj hs
    exact h.others rfl h.running
  · cases hs

theorem startupInv_step {a : StartupAction} (h : StartupInv s) (hok : NoCycle s a)
    (hs : s.step a = some s') : StartupInv s' := by
  cases a with
  | watch t stream =>
      cases hc : s.client t <;> simp only [StartupState.step, StartupState.clientStep, hc] at hs
      · exact startupInv_lock h hs nofun id
      all_goals cases hs
  | unwatch t =>
      cases hc : s.client t <;> simp only [StartupState.step, StartupState.clientStep, hc] at hs
      · exact startupInv_lock h hs nofun id
      all_goals cases hs
  | leave t =>
      cases hc : s.client t <;> simp only [StartupState.step, StartupState.clientStep, hc] at hs
      case subscribing =>
        obtain rfl := Option.some.inj hs
        exact h.move rfl rfl nofun False.elim
      all_goals cases hs
  | flush t =>
      cases hc : s.client t <;> simp only [StartupState.step, StartupState.clientStep, hc] at hs
      case subscribing =>
        obtain rfl := Option.some.inj hs
        exact h.move rfl rfl nofun fun _ => Or.inr hok
      all_goals cases hs
  | flushed t =>
      cases hc : s.client t <;> simp only [StartupState.step, StartupState.clientStep, hc] at hs
      case flushing =>
        split at hs
        · cases hs
        · obtain rfl := Option.some.inj hs
          exact h.move rfl rfl nofun fun _ => Or.inl (by rw [hc]; trivial)
      all_goals cases hs
  | drained t =>
      cases hc : s.client t <;> simp only [StartupState.step, StartupState.clientStep, hc] at hs
      case draining =>
        split at hs
        · split at hs
          · obtain rfl := Option.some.inj hs
            exact h.move rfl rfl nofun fun _ => Or.inl (by rw [hc]; trivial)
          · cases hs
        · cases hs
      all_goals cases hs
  | dispatchStartup t =>
      cases hc : s.client t <;> simp only [StartupState.step, StartupState.clientStep, hc] at hs
      case drained =>
        obtain rfl := Option.some.inj hs
        exact h.move rfl rfl nofun fun _ => Or.inl (by rw [hc]; trivial)
      all_goals cases hs
  | beginStartup t =>
      cases hc : s.client t <;> simp only [StartupState.step, StartupState.clientStep, hc] at hs
      case starting =>
        split at hs
        · split at hs
          · obtain rfl := Option.some.inj hs
            exact h.move rfl rfl nofun False.elim
          · cases hs
        · cases hs
      all_goals cases hs
  | endStartup t throws =>
      cases hc : s.client t <;> simp only [StartupState.step, StartupState.clientStep, hc] at hs
      case processing =>
        -- The guard excludes the exception.
        have hthrows : throws = false := hok
        rw [hthrows, if_neg Bool.false_ne_true] at hs
        obtain rfl := Option.some.inj hs
        exact h.move rfl rfl nofun False.elim
      all_goals cases hs
  | unsubscribed t =>
      cases hc : s.client t <;> simp only [StartupState.step, StartupState.clientStep, hc] at hs
      case unsubscribing =>
        obtain rfl := Option.some.inj hs
        exact h.move rfl rfl nofun False.elim
      all_goals cases hs
  | cleanedUp t =>
      cases hc : s.client t <;> simp only [StartupState.step, StartupState.clientStep, hc] at hs
      case cleaning =>
        split at hs
        · obtain rfl := Option.some.inj hs
          exact h.move rfl rfl nofun False.elim
        · cases hs
      all_goals cases hs
  | deliver stream =>
      obtain rfl := Option.some.inj hs
      exact h.others rfl h.running
  | stop stream =>
      obtain rfl := Option.some.inj hs
      exact h.others rfl h.running
  | beginCallback => exact startupInv_queueStep h hok hs
  | endCallback throws => exact startupInv_queueStep h hok hs
  | lockQueue => exact startupInv_queueStep h hok hs
  | unlockQueue => exact startupInv_queueStep h hok hs
  | stopped => exact startupInv_queueStep h hok hs

/-- **A starting stream does not deadlock on the backend lock, while no exception meets
it.** -/
theorem start_deadlock_free (h : startupMachine.Reach NoCycle s) : DeadlockFree s := by
  refine StartupInv.deadlockFree (h.invariant ?_ ?_)
  · rintro _ rfl
    exact startupInv_start
  · rintro s a s' hi hok hs
    exact startupInv_step hi hok hs

/-- One client starts a stream while a callback of another stream is processed, and
throws after the startup has ended. -/
theorem start_deadlock_free_late :
    ∃ s, DeadlockFree s ∧ s.client 0 = .outside ∧ s.running = some .cleaning := by
  have h₀ : startupMachine.Reach NoCycle .start := .init rfl
  have h₁ := h₀.extend (StartupAction.watch 0 1) trivial rfl
  have h₂ := h₁.extend (StartupAction.flush 0) nofun rfl
  have h₃ := h₂.extend (StartupAction.flushed 0) trivial rfl
  have h₄ := h₃.extend (StartupAction.drained 0) trivial rfl
  have h₅ := h₄.extend (StartupAction.dispatchStartup 0) trivial rfl
  have h₆ := h₅.extend (StartupAction.deliver 2) trivial rfl
  have h₇ := h₆.extend (StartupAction.beginStartup 0) trivial rfl
  have h₈ := h₇.extend (StartupAction.endStartup 0 false) rfl rfl
  have h₉ := h₈.extend StartupAction.beginCallback trivial rfl
  have hthrow := h₉.extend (StartupAction.endCallback true)
    (fun _ t => match t with | 0 => id | _ + 1 => id) rfl
  have hlock := hthrow.extend StartupAction.lockQueue trivial rfl
  exact ⟨_, start_deadlock_free hlock, rfl, rfl⟩

/-- The startup block throws: the client locks `mMutex` a second time. And the callback
of another stream throws while a client waits for the queue. -/
theorem start_deadlocks :
    (∃ s, startupMachine.Reachable s ∧ s.mMutex = some (.client 0) ∧ s.client 0 = .handling) ∧
      (∃ s block, startupMachine.Reachable s ∧ s.mMutex = some (.client 0) ∧
        WaitsFor s 0 block ∧ NeedsLock s block) ∧
      ¬ ∀ s, startupMachine.Reachable s → DeadlockFree s := by
  have h₀ : startupMachine.Reachable .start := .init rfl
  have hstartup := h₀.execute (l := [.watch 0 1, .flush 0, .flushed 0, .drained 0,
    .dispatchStartup 0, .beginStartup 0, .endStartup 0 true]) rfl
  have hcallback := h₀.execute (l := [.watch 0 1, .deliver 2, .beginCallback, .flush 0,
    .flushed 0, .endCallback true]) rfl
  refine ⟨⟨_, hstartup, rfl, rfl⟩, ⟨_, .callback 2, hcallback, rfl,
    ⟨.empty 0, [.callback 2], [], rfl, rfl, List.mem_cons_self⟩, rfl, rfl⟩, fun hall => ?_⟩
  exact (hall _ hstartup).twice 0 rfl rfl

end Startup

end NativeWatcher
