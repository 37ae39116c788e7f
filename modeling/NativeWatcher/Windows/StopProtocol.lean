import NativeWatcher.Lib.Machine
import Mathlib.Logic.Function.Basic
import Mathlib.Tactic.SplitIfs

/-!
# Starting and stopping a directory watch on Windows

One `Subscription`: the backend thread runs its APCs and the completions of its
overlapped reads, one at a time, whenever it sleeps; other threads request the stop and
wait for it. `beginStop` cancels a pending read and leaves the rest to its completion.

`finishStop` sets `mStopped` before it closes the directory handle and reports an
overflow, and `waitForStop` looks at `mStopped` first: a thread that does so in between
returns while the handle is still open.
-/

namespace NativeWatcher

/-! ## States -/

/-- `DEFAULT_BUF_SIZE`. -/
def DEFAULT_BUF_SIZE : Nat := 1024 * 1024

/-- `NETWORK_BUF_SIZE`. -/
def NETWORK_BUF_SIZE : Nat := 64 * 1024

def ERROR_SUCCESS : Nat := 0
def ERROR_ACCESS_DENIED : Nat := 5
def ERROR_INVALID_PARAMETER : Nat := 87
def ERROR_OPERATION_ABORTED : Nat := 995
def ERROR_NOTIFY_ENUM_DIR : Nat := 1022

/-- What the backend thread does after `requestStop`. -/
inductive AfterStop where
  /-- It notifies `mStartSignal` in `run`. -/
  | start
  /-- It returns to its loop. -/
  | sleep
  /-- It waits for the stop, in the `unwatch` of `handleWatcherError`. -/
  | wait

/-- Where the backend thread stands, as far as the subscription is concerned. -/
inductive BackendPoint where
  /-- In `SleepEx`, or busy with other subscriptions. -/
  | sleeping
  /-- In `run`, before `poll`. -/
  | running
  /-- In `run`, before `readTree`. -/
  | reading
  /-- In `run`, before it looks at the requests to stop. -/
  | deciding
  /-- Before `mStartSignal.notify()`. -/
  | starting
  /-- At the beginning of `processEvents`. -/
  | processing (errorCode numBytes : Nat)
  /-- In the loop of `processEvents`. -/
  | records
  /-- Before the `mWatcher->notify()` of `processEvents`. -/
  | notifying
  /-- Before `failOverflow`. -/
  | overflowing
  /-- Before the `unwatch` of `handleWatcherError`. -/
  | failing
  | requestStop (next : AfterStop)
  | beginStop (next : AfterStop)
  | finishStop (next : AfterStop)
  /-- In `finishStop`, before `CloseHandle`. -/
  | closing (next : AfterStop)
  /-- In `finishStop`, before it reports an overflow. -/
  | reporting (next : AfterStop)
  /-- In `finishStop`, before `mStoppedSignal.notify()`. -/
  | signalling (next : AfterStop)
  /-- In `waitForStop`, before and after it looked at `mStopped`. -/
  | waitForStop
  | waiting
  /-- Before the `notifyError` of `handleWatcherError`. -/
  | notifyError

/-- Where another thread stands. -/
inductive StopperPoint where
  | outside
  /-- In `requestStop`, before `QueueUserAPC`. -/
  | queueing
  /-- In `mStoppedSignal.wait()`. -/
  | waiting

structure StopState where
  point : BackendPoint
  mRunning : Bool
  mPollPending : Bool
  /-- A read is outstanding, and its completion will be delivered once. -/
  outstanding : Bool
  mStopRequested : Bool
  mStopped : Bool
  mOverflowed : Bool
  mStartSignal : Bool
  mStoppedSignal : Bool
  handleOpen : Bool
  mReadBuffer : Nat
  mWriteBuffer : Nat
  runQueued : Bool
  stopsQueued : Nat
  stopper : Nat → StopperPoint
  /-- How often the body of `finishStop` was entered. -/
  finished : Nat
  /-- Some `waitForStop` has returned. -/
  returned : Bool

/-- How `ReadDirectoryChangesW` returns. -/
inductive ReadResult where
  | started
  | invalidParameter
  | failed

inductive RecordResult where
  | event
  | malformed
  | last

/-- What the backend thread finds on its next step. -/
structure BackendAnswer where
  /-- The first and the second attempt of `poll`. -/
  read : ReadResult × ReadResult
  scanThrows : Bool
  isCancelled : Bool
  isDirectory : Bool
  record : RecordResult
  /-- The subscription is still the one in `mSubscriptions`. -/
  subscribed : Bool

inductive StopAction where
  /-- The backend thread delivers an APC or a completion. -/
  | runApc
  | stopApc
  | complete (errorCode numBytes : Nat)
  /-- The backend thread goes on. -/
  | backend (answer : BackendAnswer)
  /-- Another thread enters `requestStop`, and queues the APC or fails to. -/
  | requestStop (t : Nat)
  | queueApc (t : Nat) (success : Bool)
  /-- Another thread enters `waitForStop` and looks at `mStopped`. -/
  | waitForStop (t : Nat)
  | wake (t : Nat)

/-! ## Steps -/

namespace StopState

/-- After `subscribe`. -/
def start : StopState where
  point := .sleeping
  mRunning := true
  mPollPending := false
  outstanding := false
  mStopRequested := false
  mStopped := false
  mOverflowed := false
  mStartSignal := false
  mStoppedSignal := false
  handleOpen := true
  mReadBuffer := DEFAULT_BUF_SIZE
  mWriteBuffer := DEFAULT_BUF_SIZE
  runQueued := true
  stopsQueued := 0
  stopper := fun _ => .outside
  finished := 0
  returned := false

def goto (s : StopState) (p : BackendPoint) : StopState := { s with point := p }

def resume (s : StopState) : AfterStop → StopState
  | .start => s.goto .starting
  | .sleep => s.goto .sleeping
  | .wait => s.goto .waitForStop

def setStopper (s : StopState) (t : Nat) (p : StopperPoint) : StopState :=
  { s with stopper := Function.update s.stopper t p }

def resize (s : StopState) : StopState :=
  { s with mReadBuffer := NETWORK_BUF_SIZE, mWriteBuffer := NETWORK_BUF_SIZE }

/-- `poll`, with what comes after it when it returns and when it throws. -/
def poll (s : StopState) (read : ReadResult × ReadResult) (next throws : BackendPoint) :
    StopState :=
  if s.mRunning then
    match read.1 with
    | .started => { s with mPollPending := true, outstanding := true, point := next }
    | .failed => s.goto throws
    | .invalidParameter =>
        if NETWORK_BUF_SIZE < s.mWriteBuffer then
          match read.2 with
          | .started =>
              { s.resize with mPollPending := true, outstanding := true, point := next }
          | _ => s.resize.goto throws
        else s.goto throws
  else s.goto next

/-- `processEvents` up to the loop over the records. -/
def processEvents (s : StopState) (errorCode numBytes : Nat) (a : BackendAnswer) : StopState :=
  if !s.mRunning then s.goto (.finishStop .sleep)
  else if errorCode = ERROR_OPERATION_ABORTED then s.goto .sleeping
  else if errorCode = ERROR_INVALID_PARAMETER then
    if s.mReadBuffer ≤ NETWORK_BUF_SIZE then s.goto .failing
    else s.resize.poll a.read .sleeping .failing
  else if errorCode = ERROR_NOTIFY_ENUM_DIR then s.goto .overflowing
  else if errorCode = ERROR_ACCESS_DENIED ∧ !a.isDirectory then s.goto .failing
  else if errorCode ≠ ERROR_SUCCESS then s.goto .failing
  else if numBytes = 0 then s.goto .overflowing
  else if s.mWriteBuffer < numBytes then s.goto .overflowing
  else
    let s := { s with mWriteBuffer := s.mReadBuffer, mReadBuffer := s.mWriteBuffer }
    s.poll a.read .records .failing

/-- The backend thread goes on, `none` where it is blocked or asleep. -/
def backend (s : StopState) (a : BackendAnswer) : Option StopState :=
  match s.point with
  | .sleeping => none
  | .running => some (s.poll a.read .reading (.requestStop .start))
  | .reading => some (s.goto (if a.scanThrows then .requestStop .start else .deciding))
  | .deciding =>
      some (s.goto (if a.isCancelled || s.mStopRequested then .requestStop .start else .starting))
  | .starting => some { s.goto .sleeping with mStartSignal := true }
  | .processing errorCode numBytes => some (s.processEvents errorCode numBytes a)
  | .records =>
      match a.record with
      | .event => some s
      | .malformed => some (s.goto .overflowing)
      | .last => some (s.goto .notifying)
  | .notifying => some (s.goto .sleeping)
  | .overflowing => some { s.goto (.requestStop .sleep) with mOverflowed := true }
  | .failing => some (s.goto (if a.subscribed then .requestStop .wait else .notifyError))
  | .requestStop next =>
      if s.mStopRequested then some (s.resume next)
      else some { s.goto (.beginStop next) with mStopRequested := true }
  | .beginStop next =>
      let s := { s with mRunning := false }
      -- With a read outstanding, `CancelIoEx` brings its completion about.
      if s.mPollPending then some (s.resume next) else some (s.goto (.finishStop next))
  | .finishStop next =>
      if s.mStopped then some (s.resume next)
      else some { s.goto (.closing next) with mStopped := true, finished := s.finished + 1 }
  | .closing next => some { s.goto (.reporting next) with handleOpen := false }
  | .reporting next => some (s.goto (.signalling next))
  | .signalling next => some { s.resume next with mStoppedSignal := true }
  | .waitForStop =>
      if s.mStopped then some { s.goto .notifyError with returned := true }
      else some (s.goto .waiting)
  | .waiting =>
      if s.mStoppedSignal then some { s.goto .notifyError with returned := true } else none
  | .notifyError => some (s.goto .sleeping)

def step (s : StopState) : StopAction → Option StopState
  | .runApc =>
      match s.point with
      | .sleeping =>
          if s.runQueued then some { s.goto .running with runQueued := false } else none
      | _ => none
  | .stopApc =>
      match s.point with
      | .sleeping =>
          if s.stopsQueued = 0 then none
          else some { s.goto (.beginStop .sleep) with stopsQueued := s.stopsQueued - 1 }
      | _ => none
  | .complete errorCode numBytes =>
      match s.point with
      | .sleeping =>
          if s.outstanding then
            some { s.goto (.processing errorCode numBytes) with
              outstanding := false, mPollPending := false }
          else none
      | _ => none
  | .backend a => s.backend a
  | .requestStop t =>
      match s.stopper t with
      | .outside =>
          if s.mStopRequested then some s
          else some { s.setStopper t .queueing with mStopRequested := true }
      | _ => none
  | .queueApc t success =>
      match s.stopper t with
      | .queueing =>
          if success then
            some { s.setStopper t .outside with stopsQueued := s.stopsQueued + 1 }
          else some { s.setStopper t .outside with mStopRequested := false }
      | _ => none
  | .waitForStop t =>
      match s.stopper t with
      | .outside =>
          if s.mStopped then some { s with returned := true } else some (s.setStopper t .waiting)
      | _ => none
  | .wake t =>
      match s.stopper t with
      | .waiting =>
          if s.mStoppedSignal then some { s.setStopper t .outside with returned := true }
          else none
      | _ => none

end StopState

/-- The interleavings of the backend thread with any number of others. -/
def stopMachine : Machine StopState StopAction := .ofStep .start StopState.step

/-! ## What always holds -/

section Stop

variable {s s' : StopState}

/-- The backend thread is in the body of `finishStop`. -/
def InFinishStop (s : StopState) : Prop :=
  match s.point with
  | .closing _ | .reporting _ | .signalling _ => True
  | _ => False

/-- `mStopped` is set, and the handle is not closed or an overflow not reported yet. -/
def Unfinished (s : StopState) : Prop :=
  match s.point with
  | .closing _ => True
  | .reporting _ => s.mOverflowed = true
  | _ => False

/-- What each place of the backend thread implies. -/
def PointInv (s : StopState) : Prop :=
  match s.point with
  | .processing _ _ => s.outstanding = false
  | .finishStop _ => s.mRunning = false ∧ s.outstanding = false
  | .closing _ | .reporting _ | .signalling _ => s.mStopped = true
  | .records | .notifying | .overflowing => s.mRunning = true
  | _ => True

structure StopInv (s : StopState) : Prop where
  pending : s.mPollPending = s.outstanding
  stopped : s.mStopped = true → s.mRunning = false ∧ s.outstanding = false
  once : s.finished = if s.mStopped then 1 else 0
  point : PointInv s
  closed : s.mStopped = true → (∀ next, s.point ≠ .closing next) → s.handleOpen = false
  signalled : s.mStoppedSignal = true → s.mStopped = true ∧ ¬ InFinishStop s

theorem stopInv_start : StopInv .start where
  pending := rfl
  stopped h := nomatch h
  once := rfl
  point := trivial
  closed h := nomatch h
  signalled h := nomatch h

/-- Two states that agree in all that `finishStop` looks at or writes. -/
structure SameStop (s s' : StopState) : Prop where
  running : s'.mRunning = s.mRunning
  stopped : s'.mStopped = s.mStopped
  overflowed : s'.mOverflowed = s.mOverflowed
  signal : s'.mStoppedSignal = s.mStoppedSignal
  handle : s'.handleOpen = s.handleOpen
  finished : s'.finished = s.finished

theorem SameStop.goto (s : StopState) (p : BackendPoint) : SameStop s (s.goto p) :=
  ⟨rfl, rfl, rfl, rfl, rfl, rfl⟩

/-- A step that does not enter or leave `finishStop`. -/
theorem StopInv.elsewhere (h : StopInv s) (hs : SameStop s s')
    (hpending : s'.mPollPending = s'.outstanding)
    (hread : s.mRunning = false → s.outstanding = false → s'.outstanding = false)
    (hin : ¬ InFinishStop s) (hout : ¬ InFinishStop s') (hpoint : PointInv s') : StopInv s' where
  pending := hpending
  stopped hst := by
    obtain ⟨hrun, hout⟩ := h.stopped (hs.stopped ▸ hst)
    exact ⟨hs.running.trans hrun, hread hrun hout⟩
  once := by rw [hs.finished, hs.stopped, h.once]
  point := hpoint
  closed hst _ := by
    refine hs.handle.trans (h.closed (hs.stopped ▸ hst) fun next hc => hin ?_)
    rw [InFinishStop, hc]
    trivial
  signalled hsig := ⟨hs.stopped.trans (h.signalled (hs.signal ▸ hsig)).1, hout⟩

/-- The backend thread moves to another place. -/
theorem StopInv.goto (h : StopInv s) {p : BackendPoint} (hin : ¬ InFinishStop s)
    (hout : ¬ InFinishStop (s.goto p)) (hpoint : PointInv (s.goto p)) : StopInv (s.goto p) :=
  h.elsewhere (.goto s p) h.pending (fun _ => id) hin hout hpoint

theorem not_inFinishStop {p : BackendPoint} (hp : s.point = p)
    (hout : ¬ InFinishStop (s.goto p)) : ¬ InFinishStop s := by
  unfold InFinishStop
  rw [hp]
  exact hout

/-- In the body of `finishStop` the signal is still to come. -/
theorem StopInv.not_signalled (h : StopInv s) {p : BackendPoint} (hp : s.point = p)
    (hin : InFinishStop (s.goto p)) : s.mStoppedSignal ≠ true := by
  intro hsig
  have hout := (h.signalled hsig).2
  unfold InFinishStop at hout
  rw [hp] at hout
  exact hout hin

/-- The places after `requestStop` need nothing. -/
theorem StopInv.resume (h : StopInv s) (hin : ¬ InFinishStop s) (next : AfterStop) :
    StopInv (s.resume next) := by
  cases next with
  | start => exact h.goto hin id trivial
  | sleep => exact h.goto hin id trivial
  | wait => exact h.goto hin id trivial

/-! ## `poll` and `processEvents` -/

theorem poll_same (s : StopState) (read : ReadResult × ReadResult)
    (next throws : BackendPoint) : SameStop s (s.poll read next throws) := by
  unfold StopState.poll
  split
  · split
    · exact ⟨rfl, rfl, rfl, rfl, rfl, rfl⟩
    · exact .goto ..
    · split
      · split <;> exact ⟨rfl, rfl, rfl, rfl, rfl, rfl⟩
      · exact .goto ..
  · exact .goto ..

/-- `poll` starts a read or throws; a subscription that does not run is left alone. -/
theorem poll_cases (s : StopState) (read : ReadResult × ReadResult)
    (next throws : BackendPoint) :
    ((s.poll read next throws).point = next ∨ (s.poll read next throws).point = throws) ∧
      (s.mPollPending = s.outstanding → (s.poll read next throws).mPollPending =
        (s.poll read next throws).outstanding) ∧
      (s.mRunning = false → (s.poll read next throws).outstanding = s.outstanding) := by
  unfold StopState.poll
  split
  next hrun =>
      have hne : s.mRunning ≠ false := by simp [hrun]
      split
      · exact ⟨Or.inl rfl, fun _ => rfl, fun hr => absurd hr hne⟩
      · exact ⟨Or.inr rfl, id, fun hr => absurd hr hne⟩
      · split
        · split
          · exact ⟨Or.inl rfl, fun _ => rfl, fun hr => absurd hr hne⟩
          · exact ⟨Or.inr rfl, id, fun hr => absurd hr hne⟩
        · exact ⟨Or.inr rfl, id, fun hr => absurd hr hne⟩
  next => exact ⟨Or.inl rfl, id, fun _ => rfl⟩

theorem StopInv.poll (h : StopInv s) (hin : ¬ InFinishStop s) {read : ReadResult × ReadResult}
    {next throws : BackendPoint} (hpoint : ∀ x : StopState, x.mRunning = s.mRunning →
      x.point = next ∨ x.point = throws → ¬ InFinishStop x ∧ PointInv x) :
    StopInv (s.poll read next throws) := by
  have hsame := poll_same s read next throws
  obtain ⟨hp, hpending, hread⟩ := poll_cases s read next throws
  obtain ⟨hout, hinv⟩ := hpoint _ hsame.running hp
  exact h.elsewhere hsame (hpending h.pending) (fun hr ho => (hread hr).trans ho) hin hout hinv

theorem StopInv.processEvents {errorCode numBytes : Nat} (h : StopInv s)
    (hpoint : s.point = .processing errorCode numBytes) (a : BackendAnswer) :
    StopInv (s.processEvents errorCode numBytes a) := by
  have hin : ¬ InFinishStop s := not_inFinishStop hpoint id
  have hread : s.outstanding = false := by
    have hinv := h.point
    rwa [PointInv, hpoint] at hinv
  unfold StopState.processEvents
  split
  next hrun =>
      have hrun : s.mRunning = false := by simpa using hrun
      exact h.goto hin id ⟨hrun, hread⟩
  next hrun =>
      have hrun : s.mRunning = true := by simpa using hrun
      -- Only `poll` does more than move.
      split
      · exact h.goto hin id trivial
      split
      · split
        · exact h.goto hin id trivial
        · have hresize : StopInv s.resize :=
            ⟨h.pending, h.stopped, h.once, h.point, h.closed, h.signalled⟩
          refine hresize.poll hin fun x _ hx => ?_
          rcases hx with hx | hx <;> rw [InFinishStop, PointInv, hx] <;> exact ⟨id, trivial⟩
      split
      · exact h.goto hin id hrun
      split
      · exact h.goto hin id trivial
      split
      · exact h.goto hin id trivial
      split
      · exact h.goto hin id hrun
      split
      · exact h.goto hin id hrun
      · have hswap : StopInv { s with
            mWriteBuffer := s.mReadBuffer, mReadBuffer := s.mWriteBuffer } :=
          ⟨h.pending, h.stopped, h.once, h.point, h.closed, h.signalled⟩
        refine hswap.poll hin fun x hx hp => ?_
        rcases hp with hp | hp <;> rw [InFinishStop, PointInv, hp]
        · exact ⟨id, hx.trans hrun⟩
        · exact ⟨id, trivial⟩

/-! ## One step -/

theorem StopInv.backend {a : BackendAnswer} (h : StopInv s) (hs : s.backend a = some s') :
    StopInv s' := by
  have hinv := h.point
  unfold StopState.backend at hs
  cases hp : s.point with
  | sleeping =>
      rw [hp] at hs
      cases hs
  | running =>
      rw [hp] at hs
      obtain rfl := Option.some.inj hs
      refine h.poll (not_inFinishStop hp id) fun x _ hx => ?_
      rcases hx with hx | hx <;> rw [InFinishStop, PointInv, hx] <;> exact ⟨id, trivial⟩
  | reading =>
      rw [hp] at hs
      obtain rfl := Option.some.inj hs
      have hin : ¬ InFinishStop s := not_inFinishStop hp id
      split
      · exact h.goto hin id trivial
      · exact h.goto hin id trivial
  | deciding =>
      rw [hp] at hs
      obtain rfl := Option.some.inj hs
      have hin : ¬ InFinishStop s := not_inFinishStop hp id
      split
      · exact h.goto hin id trivial
      · exact h.goto hin id trivial
  | starting =>
      rw [hp] at hs
      obtain rfl := Option.some.inj hs
      have hin : ¬ InFinishStop s := not_inFinishStop hp id
      exact h.elsewhere ⟨rfl, rfl, rfl, rfl, rfl, rfl⟩ h.pending (fun _ => id) hin id trivial
  | processing errorCode numBytes =>
      rw [hp] at hs
      obtain rfl := Option.some.inj hs
      exact h.processEvents hp a
  | records =>
      rw [hp] at hs
      have hin : ¬ InFinishStop s := not_inFinishStop hp id
      have hrun : s.mRunning = true := by rwa [PointInv, hp] at hinv
      dsimp only at hs
      split at hs
      · exact Option.some.inj hs ▸ h
      · exact Option.some.inj hs ▸ h.goto hin id hrun
      · exact Option.some.inj hs ▸ h.goto hin id hrun
  | notifying =>
      rw [hp] at hs
      obtain rfl := Option.some.inj hs
      exact h.goto (not_inFinishStop hp id) id trivial
  | overflowing =>
      rw [hp] at hs
      obtain rfl := Option.some.inj hs
      have hrun : s.mRunning = true := by rwa [PointInv, hp] at hinv
      have hstop : s.mStopped = false :=
        Bool.eq_false_iff.mpr fun hst => Bool.noConfusion (hrun.symm.trans (h.stopped hst).1)
      -- The subscription still runs, so that nothing is stopped yet.
      refine ⟨h.pending, fun hst => absurd hst (by simp [StopState.goto, hstop]), h.once, trivial,
        fun hst => absurd hst (by simp [StopState.goto, hstop]), fun hsig => ?_⟩
      exact absurd (h.signalled hsig).1 (by simp [hstop])
  | failing =>
      rw [hp] at hs
      obtain rfl := Option.some.inj hs
      have hin : ¬ InFinishStop s := not_inFinishStop hp id
      split
      · exact h.goto hin id trivial
      · exact h.goto hin id trivial
  | requestStop next =>
      rw [hp] at hs
      have hin : ¬ InFinishStop s := not_inFinishStop hp id
      dsimp only at hs
      split at hs
      · exact Option.some.inj hs ▸ h.resume hin next
      · obtain rfl := Option.some.inj hs
        exact h.elsewhere ⟨rfl, rfl, rfl, rfl, rfl, rfl⟩ h.pending (fun _ => id) hin id trivial
  | beginStop next =>
      rw [hp] at hs
      have hin : ¬ InFinishStop s := not_inFinishStop hp id
      have hstop : StopInv { s with mRunning := false } := by
        refine ⟨h.pending, fun hst => ⟨rfl, (h.stopped hst).2⟩, h.once, ?_, h.closed, h.signalled⟩
        rw [PointInv, hp]
        trivial
      dsimp only at hs
      split at hs
      · exact Option.some.inj hs ▸ hstop.resume hin next
      next hpending =>
          obtain rfl := Option.some.inj hs
          have hread : s.outstanding = false := by
            rw [← h.pending]
            exact Bool.eq_false_iff.mpr hpending
          exact hstop.goto hin id ⟨rfl, hread⟩
  | finishStop next =>
      rw [hp] at hs
      have hin : ¬ InFinishStop s := not_inFinishStop hp id
      have hidle : s.mRunning = false ∧ s.outstanding = false := by rwa [PointInv, hp] at hinv
      dsimp only at hs
      split at hs
      · exact Option.some.inj hs ▸ h.resume hin next
      next hst =>
          obtain rfl := Option.some.inj hs
          -- The test of `mStopped` has let it through, so that it is the first time.
          refine ⟨h.pending, fun _ => hidle, ?_, rfl, fun _ hc => absurd rfl (hc next), fun hsig => ?_⟩
          · have hzero : s.finished = 0 := by
              rw [h.once, if_neg hst]
            show s.finished + 1 = 1
            rw [hzero]
          · exact absurd (h.signalled hsig).1 hst
  | closing next =>
      rw [hp] at hs
      obtain rfl := Option.some.inj hs
      have hst : s.mStopped = true := by rwa [PointInv, hp] at hinv
      exact ⟨h.pending, h.stopped, h.once, hst, fun _ _ => rfl,
        fun hsig => absurd hsig (h.not_signalled hp trivial)⟩
  | reporting next =>
      rw [hp] at hs
      obtain rfl := Option.some.inj hs
      have hst : s.mStopped = true := by rwa [PointInv, hp] at hinv
      exact ⟨h.pending, h.stopped, h.once, hst, fun hst _ => h.closed hst (by simp [hp]),
        fun hsig => absurd hsig (h.not_signalled hp trivial)⟩
  | signalling next =>
      rw [hp] at hs
      obtain rfl := Option.some.inj hs
      have hst : s.mStopped = true := by rwa [PointInv, hp] at hinv
      have hclosed := h.closed hst (by simp [hp])
      cases next <;> exact ⟨h.pending, h.stopped, h.once, trivial, fun _ _ => hclosed,
        fun _ => ⟨hst, id⟩⟩
  | waitForStop =>
      rw [hp] at hs
      have hin : ¬ InFinishStop s := not_inFinishStop hp id
      dsimp only at hs
      split at hs
      · obtain rfl := Option.some.inj hs
        exact h.elsewhere ⟨rfl, rfl, rfl, rfl, rfl, rfl⟩ h.pending (fun _ => id) hin id trivial
      · exact Option.some.inj hs ▸ h.goto hin id trivial
  | waiting =>
      rw [hp] at hs
      have hin : ¬ InFinishStop s := not_inFinishStop hp id
      dsimp only at hs
      split at hs
      · obtain rfl := Option.some.inj hs
        exact h.elsewhere ⟨rfl, rfl, rfl, rfl, rfl, rfl⟩ h.pending (fun _ => id) hin id trivial
      · cases hs
  | notifyError =>
      rw [hp] at hs
      obtain rfl := Option.some.inj hs
      exact h.goto (not_inFinishStop hp id) id trivial

/-- The other threads touch neither the flags nor the backend thread. -/
theorem StopInv.others (h : StopInv s) (hs : SameStop s s') (hpoint : s'.point = s.point)
    (hpending : s'.mPollPending = s.mPollPending) (hread : s'.outstanding = s.outstanding) :
    StopInv s' := by
  have hin : InFinishStop s' ↔ InFinishStop s := by
    unfold InFinishStop
    rw [hpoint]
  refine ⟨by rw [hpending, hread, h.pending], fun hst => ?_, by rw [hs.finished, hs.stopped, h.once],
    ?_, fun hst hc => ?_, fun hsig => ?_⟩
  · rw [hs.running, hread]
    exact h.stopped (hs.stopped ▸ hst)
  · have hinv := h.point
    unfold PointInv at hinv ⊢
    rwa [hpoint, hread, hs.running, hs.stopped]
  · exact hs.handle.trans (h.closed (hs.stopped ▸ hst) fun next => hpoint ▸ hc next)
  · rw [hin, hs.stopped]
    exact h.signalled (hs.signal ▸ hsig)

/-- The backend thread wakes up for an APC or a completion. -/
theorem StopInv.wakeUp (h : StopInv s) (hs : SameStop s s') (hp : s.point = .sleeping)
    (hpoint : ¬ InFinishStop s' ∧ ¬ Unfinished s' ∧ PointInv s')
    (hpending : s'.mPollPending = s'.outstanding)
    (hread : s.outstanding = false → s'.outstanding = false) : StopInv s' := by
  have hin : ¬ InFinishStop s := not_inFinishStop hp id
  exact h.elsewhere hs hpending (fun _ => hread) hin hpoint.1 hpoint.2.2

/-- What a step does: the backend thread goes on, or wakes up, or another thread moves
and may return from `waitForStop`. -/
theorem step_cases {a : StopAction} (h : StopInv s) (hs : s.step a = some s') :
    (∃ answer, a = .backend answer ∧ s.backend answer = some s') ∨
      (SameStop s s' ∧ s.point = .sleeping ∧ s'.returned = s.returned ∧
        (¬ InFinishStop s' ∧ ¬ Unfinished s' ∧ PointInv s') ∧
        s'.mPollPending = s'.outstanding ∧ (s.outstanding = false → s'.outstanding = false)) ∨
      (SameStop s s' ∧ s'.point = s.point ∧ s'.mPollPending = s.mPollPending ∧
        s'.outstanding = s.outstanding ∧ (s'.returned = s.returned ∨
          (∃ t, a = .waitForStop t ∧ s.mStopped = true) ∨ s.mStoppedSignal = true)) := by
  have hsame : ∀ {x : StopState}, x.mRunning = s.mRunning → x.mStopped = s.mStopped →
      x.mOverflowed = s.mOverflowed → x.mStoppedSignal = s.mStoppedSignal →
      x.handleOpen = s.handleOpen → x.finished = s.finished → SameStop s x :=
    fun h₁ h₂ h₃ h₄ h₅ h₆ => ⟨h₁, h₂, h₃, h₄, h₅, h₆⟩
  cases a with
  | runApc =>
      simp only [StopState.step] at hs
      split at hs
      next hp =>
          split at hs
          · obtain rfl := Option.some.inj hs
            exact Or.inr (Or.inl ⟨hsame rfl rfl rfl rfl rfl rfl, hp, rfl, ⟨id, id, trivial⟩,
              h.pending, id⟩)
          · cases hs
      next => cases hs
  | stopApc =>
      simp only [StopState.step] at hs
      split at hs
      next hp =>
          split at hs
          · cases hs
          · obtain rfl := Option.some.inj hs
            exact Or.inr (Or.inl ⟨hsame rfl rfl rfl rfl rfl rfl, hp, rfl, ⟨id, id, trivial⟩,
              h.pending, id⟩)
      next => cases hs
  | complete errorCode numBytes =>
      simp only [StopState.step] at hs
      split at hs
      next hp =>
          split at hs
          · obtain rfl := Option.some.inj hs
            exact Or.inr (Or.inl ⟨hsame rfl rfl rfl rfl rfl rfl, hp, rfl, ⟨id, id, rfl⟩, rfl,
              fun _ => rfl⟩)
          · cases hs
      next => cases hs
  | backend a => exact Or.inl ⟨a, rfl, hs⟩
  | requestStop t =>
      simp only [StopState.step] at hs
      split at hs
      · split at hs <;>
          · obtain rfl := Option.some.inj hs
            exact Or.inr (Or.inr ⟨hsame rfl rfl rfl rfl rfl rfl, rfl, rfl, rfl, Or.inl rfl⟩)
      · cases hs
  | queueApc t success =>
      simp only [StopState.step] at hs
      split at hs
      · split at hs <;>
          · obtain rfl := Option.some.inj hs
            exact Or.inr (Or.inr ⟨hsame rfl rfl rfl rfl rfl rfl, rfl, rfl, rfl, Or.inl rfl⟩)
      · cases hs
  | waitForStop t =>
      simp only [StopState.step] at hs
      split at hs
      · split at hs
        next hst =>
            obtain rfl := Option.some.inj hs
            exact Or.inr (Or.inr ⟨hsame rfl rfl rfl rfl rfl rfl, rfl, rfl, rfl,
              Or.inr (Or.inl ⟨t, rfl, hst⟩)⟩)
        next =>
            obtain rfl := Option.some.inj hs
            exact Or.inr (Or.inr ⟨hsame rfl rfl rfl rfl rfl rfl, rfl, rfl, rfl, Or.inl rfl⟩)
      · cases hs
  | wake t =>
      simp only [StopState.step] at hs
      split at hs
      · split at hs
        next hsig =>
            obtain rfl := Option.some.inj hs
            exact Or.inr (Or.inr ⟨hsame rfl rfl rfl rfl rfl rfl, rfl, rfl, rfl,
              Or.inr (Or.inr hsig)⟩)
        next => cases hs
      · cases hs

theorem stopInv_step {a : StopAction} (h : StopInv s) (hs : s.step a = some s') :
    StopInv s' := by
  rcases step_cases h hs with ⟨answer, -, hb⟩ | ⟨hsame, hp, -, hpoint, hpending, hread⟩ |
    ⟨hsame, hp, hpending, hread, -⟩
  · exact h.backend hb
  · exact h.wakeUp hsame hp hpoint hpending hread
  · exact h.others hsame hp hpending hread

theorem stopInv_reachable (h : stopMachine.Reachable s) : StopInv s := by
  refine h.invariant ?_ ?_
  · rintro _ rfl
    exact stopInv_start
  · rintro s a s' hi hs
    exact stopInv_step hi hs

/-! ## After the stop -/

/-- The subscription delivers events, or notifies the watcher. The report of
`handleWatcherError` is made by the backend, after it has waited for the stop itself. -/
def Delivers (s : StopState) : StopAction → Prop
  | .backend a =>
      match s.point, a.record with
      | .records, .event => True
      | .notifying, _ | .overflowing, _ => True
      | .reporting _, _ => s.mOverflowed = true
      | _, _ => False
  | _ => False

/-- What a step must avoid: a look at `mStopped` while `finishStop` has the handle still
to close or an overflow still to report. -/
def LooksInTime (s : StopState) : StopAction → Prop
  | .waitForStop _ => ¬ Unfinished s
  | _ => True

/-- `mStopped` is set, and all that matters in `finishStop` is done. -/
def Finished (s : StopState) : Prop := s.mStopped = true ∧ ¬ Unfinished s

theorem Finished.closed (h : StopInv s) (hf : Finished s) : s.handleOpen = false := by
  refine h.closed hf.1 fun next hc => hf.2 ?_
  rw [Unfinished, hc]
  trivial

theorem Finished.not_delivers (h : StopInv s) (hf : Finished s) (a : StopAction) :
    ¬ Delivers s a := by
  have hinv := h.point
  have hrun := (h.stopped hf.1).1
  have hunfinished := hf.2
  cases a with
  | backend a =>
      unfold Delivers
      unfold PointInv at hinv
      unfold Unfinished at hunfinished
      cases hp : s.point with
      | records =>
          rw [hp] at hinv
          exact fun _ => Bool.noConfusion (hrun.symm.trans hinv)
      | notifying =>
          rw [hp] at hinv
          exact fun _ => Bool.noConfusion (hrun.symm.trans hinv)
      | overflowing =>
          rw [hp] at hinv
          exact fun _ => Bool.noConfusion (hrun.symm.trans hinv)
      | reporting next =>
          rw [hp] at hunfinished
          exact hunfinished
      | _ => exact id
  | _ => exact id

/-- The body of `finishStop` is not entered again. -/
theorem Finished.backend {a : BackendAnswer} (h : StopInv s) (hf : Finished s)
    (hs : s.backend a = some s') : Finished s' := by
  obtain ⟨hst, hunfinished⟩ := hf
  have hrun := (h.stopped hst).1
  have hinv := h.point
  unfold StopState.backend at hs
  cases hp : s.point with
  | sleeping =>
      rw [hp] at hs
      cases hs
  | running =>
      rw [hp] at hs
      obtain rfl := Option.some.inj hs
      -- `poll` looks at `mRunning` first.
      have hpoll : ∀ next throws, s.poll a.read next throws = s.goto next := by
        intro next throws
        rw [StopState.poll, if_neg (by simp [hrun])]
      rw [hpoll]
      exact ⟨hst, id⟩
  | reading =>
      rw [hp] at hs
      obtain rfl := Option.some.inj hs
      split <;> exact ⟨hst, id⟩
  | deciding =>
      rw [hp] at hs
      obtain rfl := Option.some.inj hs
      split <;> exact ⟨hst, id⟩
  | processing errorCode numBytes =>
      rw [hp] at hs
      obtain rfl := Option.some.inj hs
      rw [StopState.processEvents, if_pos (by simp [hrun])]
      exact ⟨hst, id⟩
  -- Records are read and an overflow is handled only while the subscription runs.
  | records =>
      rw [PointInv, hp] at hinv
      exact Bool.noConfusion (hrun.symm.trans hinv)
  | overflowing =>
      rw [PointInv, hp] at hinv
      exact Bool.noConfusion (hrun.symm.trans hinv)
  | failing =>
      rw [hp] at hs
      obtain rfl := Option.some.inj hs
      split <;> exact ⟨hst, id⟩
  | requestStop next =>
      rw [hp] at hs
      dsimp only at hs
      split at hs
      · obtain rfl := Option.some.inj hs
        cases next <;> exact ⟨hst, id⟩
      · obtain rfl := Option.some.inj hs
        exact ⟨hst, id⟩
  | beginStop next =>
      rw [hp] at hs
      dsimp only at hs
      split at hs
      · obtain rfl := Option.some.inj hs
        cases next <;> exact ⟨hst, id⟩
      · obtain rfl := Option.some.inj hs
        exact ⟨hst, id⟩
  | finishStop next =>
      rw [hp] at hs
      dsimp only at hs
      rw [if_pos hst] at hs
      obtain rfl := Option.some.inj hs
      cases next <;> exact ⟨hst, id⟩
  | closing next =>
      rw [Unfinished, hp] at hunfinished
      exact absurd trivial hunfinished
  | signalling next =>
      rw [hp] at hs
      obtain rfl := Option.some.inj hs
      cases next <;> exact ⟨hst, id⟩
  | waitForStop =>
      rw [hp] at hs
      dsimp only at hs
      rw [if_pos hst] at hs
      obtain rfl := Option.some.inj hs
      exact ⟨hst, id⟩
  | waiting =>
      rw [hp] at hs
      dsimp only at hs
      split at hs
      · obtain rfl := Option.some.inj hs
        exact ⟨hst, id⟩
      · cases hs
  | _ =>
      rw [hp] at hs
      obtain rfl := Option.some.inj hs
      exact ⟨hst, id⟩

theorem Finished.others (hf : Finished s) (hs : SameStop s s') (hpoint : s'.point = s.point) :
    Finished s' := by
  refine ⟨hs.stopped.trans hf.1, ?_⟩
  have hunfinished := hf.2
  unfold Unfinished at hunfinished ⊢
  rwa [hpoint, hs.overflowed]

theorem Finished.step {a : StopAction} (h : StopInv s) (hf : Finished s)
    (hs : s.step a = some s') : Finished s' := by
  rcases step_cases h hs with ⟨answer, -, hb⟩ | ⟨hsame, -, -, hpoint, -⟩ | ⟨hsame, hp, -⟩
  · exact hf.backend h hb
  · exact ⟨hsame.stopped.trans hf.1, hpoint.2.1⟩
  · exact hf.others hsame hp

/-- Outside of `finishStop` all is done, once `mStopped` is set. -/
theorem finished_of_outside (hst : s.mStopped = true) (hin : ¬ InFinishStop s) :
    Finished s := by
  refine ⟨hst, fun hu => hin ?_⟩
  unfold Unfinished at hu
  unfold InFinishStop
  cases hp : s.point with
  | closing next => trivial
  | reporting next => trivial
  | signalling next => trivial
  | _ =>
      rw [hp] at hu
      exact hu

@[simp]
theorem resume_returned (s : StopState) (next : AfterStop) :
    (s.resume next).returned = s.returned := by
  cases next <;> rfl

@[simp]
theorem poll_returned (s : StopState) (read : ReadResult × ReadResult)
    (next throws : BackendPoint) : (s.poll read next throws).returned = s.returned := by
  unfold StopState.poll
  split
  · split
    · rfl
    · rfl
    · split
      · split <;> rfl
      · rfl
  · rfl

@[simp]
theorem processEvents_returned (s : StopState) (errorCode numBytes : Nat) (a : BackendAnswer) :
    (s.processEvents errorCode numBytes a).returned = s.returned := by
  unfold StopState.processEvents
  split_ifs <;> simp [StopState.goto, StopState.resize]

/-- The backend thread returns from `waitForStop` only outside of `finishStop`. -/
theorem backend_returned {a : BackendAnswer} (h : StopInv s) (hs : s.backend a = some s') :
    s'.returned = s.returned ∨ Finished s := by
  cases hp : s.point with
  | waitForStop =>
      have hin : ¬ InFinishStop s := not_inFinishStop hp id
      simp only [StopState.backend, hp] at hs
      split at hs
      next hst => exact Or.inr (finished_of_outside hst hin)
      next => exact Or.inl (Option.some.inj hs ▸ rfl)
  | waiting =>
      simp only [StopState.backend, hp] at hs
      split at hs
      next hsig =>
          obtain ⟨hst, hin⟩ := h.signalled hsig
          exact Or.inr (finished_of_outside hst hin)
      next => cases hs
  | records =>
      simp only [StopState.backend, hp] at hs
      split at hs <;> exact Or.inl (Option.some.inj hs ▸ rfl)
  | requestStop next =>
      simp only [StopState.backend, hp] at hs
      split at hs <;> refine Or.inl (Option.some.inj hs ▸ ?_) <;> simp [StopState.goto]
  | beginStop next =>
      simp only [StopState.backend, hp] at hs
      split at hs <;> refine Or.inl (Option.some.inj hs ▸ ?_) <;> simp [StopState.goto]
  | finishStop next =>
      simp only [StopState.backend, hp] at hs
      split at hs <;> refine Or.inl (Option.some.inj hs ▸ ?_) <;> simp [StopState.goto]
  | sleeping =>
      simp only [StopState.backend, hp] at hs
      cases hs
  | _ =>
      simp only [StopState.backend, hp] at hs
      refine Or.inl (Option.some.inj hs ▸ ?_)
      simp [StopState.goto]

/-- Who waited in time returns to a finished stop. -/
structure ReturnInv (s : StopState) : Prop where
  inv : StopInv s
  finished : s.returned = true → Finished s

theorem returnInv_step {a : StopAction} (hi : ReturnInv s) (hok : LooksInTime s a)
    (hs : s.step a = some s') : ReturnInv s' := by
  obtain ⟨h, hf⟩ := hi
  refine ⟨stopInv_step h hs, fun hr => ?_⟩
  refine Finished.step h ?_ hs
  rcases step_cases h hs with ⟨answer, -, hb⟩ | ⟨-, -, hret, -⟩ | ⟨-, -, -, -, hret⟩
  · rcases backend_returned h hb with hret | hfin
    · exact hf (hret ▸ hr)
    · exact hfin
  · exact hf (hret ▸ hr)
  · rcases hret with hret | ⟨t, rfl, hst⟩ | hsig
    · exact hf (hret ▸ hr)
    · exact ⟨hst, hok⟩
    · obtain ⟨hst, hin⟩ := h.signalled hsig
      exact finished_of_outside hst hin

/-- **The stop closes before it reports, to those who look in time.** In every run the
body of `finishStop` runs at most once and never during a read; and once a
`waitForStop` has returned, the handle is closed and the subscription delivers nothing
more, whatever comes next. -/
theorem stop_closes_first (s : StopState) :
    (stopMachine.Reachable s →
      s.finished ≤ 1 ∧ (InFinishStop s → s.outstanding = false ∧ s.mPollPending = false)) ∧
    (stopMachine.Reach LooksInTime s → s.returned = true →
      ∀ l s', Machine.execute StopState.step s l = some s' →
        s'.handleOpen = false ∧ ∀ a, ¬ Delivers s' a) := by
  refine ⟨fun h => ?_, fun h hr l s' hl => ?_⟩
  · have hinv := stopInv_reachable h
    refine ⟨?_, fun hin => ?_⟩
    · rw [hinv.once]
      split <;> decide
    · have hst : s.mStopped = true := by
        have hpoint := hinv.point
        unfold InFinishStop at hin
        unfold PointInv at hpoint
        cases hp : s.point <;> rw [hp] at hin hpoint <;> trivial
      have hread := (hinv.stopped hst).2
      exact ⟨hread, hinv.pending.trans hread⟩
  · have hfin : ReturnInv s := by
      refine h.invariant ?_ ?_
      · rintro _ rfl
        exact ⟨stopInv_start, nofun⟩
      · rintro s a s' hi hok hs
        exact returnInv_step hi hok hs
    -- From here on no step is restricted.
    obtain ⟨hi, hf⟩ := Machine.execute_invariant (P := fun s => StopInv s ∧ Finished s)
      (fun s a s' hs hp => ⟨stopInv_step hp.1 hs, hp.2.step hp.1 hs⟩) hl ⟨hfin.inv, hfin.finished hr⟩
    exact ⟨hf.closed hi, fun a => hf.not_delivers hi a⟩

/-- Reads start, nothing is cancelled, and the records hold one event. -/
def plainAnswer : BackendAnswer := ⟨(.started, .started), false, false, true, .event, true⟩

/-- `run`, and a completion that lost events, up to the body of `finishStop`. -/
def overflowRun : List StopAction :=
  [.runApc, .backend plainAnswer, .backend plainAnswer, .backend plainAnswer,
    .backend plainAnswer, .complete ERROR_SUCCESS 0, .backend plainAnswer, .backend plainAnswer,
    .backend plainAnswer, .backend plainAnswer, .backend plainAnswer]

/-- A thread that waits for the signal of an overflowed subscription. -/
theorem stop_closes_first_overflow :
    ∃ s, s.returned = true ∧ s.mOverflowed = true ∧ s.handleOpen = false ∧
      ∀ a, ¬ Delivers s a := by
  have h₀ : stopMachine.Reach LooksInTime .start := .init rfl
  have hwait : Machine.Admits LooksInTime StopState.step .start
      (.waitForStop 1 :: overflowRun ++ [.backend plainAnswer, .backend plainAnswer,
        .backend plainAnswer, .wake 1]) :=
    ⟨id, trivial, trivial, trivial, trivial, trivial, trivial, trivial, trivial, trivial, trivial,
      trivial, trivial, trivial, trivial, trivial, trivial⟩
  have h := h₀.execute hwait rfl
  obtain ⟨hclosed, hquiet⟩ := (stop_closes_first _).2 h rfl [] _ rfl
  exact ⟨_, rfl, rfl, hclosed, hquiet⟩

/-- A thread that looks at `mStopped` in the body of `finishStop` returns while the
handle is open, and the watcher is notified later. -/
theorem stop_reports_first :
    ∃ s, stopMachine.Reachable s ∧ s.returned = true ∧ s.handleOpen = true ∧
      ∃ l s' a, Machine.execute StopState.step s l = some s' ∧ Delivers s' a ∧
        (s'.step a).isSome = true := by
  have h₀ : stopMachine.Reachable .start := .init rfl
  have h := h₀.execute (l := overflowRun ++ [.requestStop 1, .waitForStop 1]) rfl
  exact ⟨_, h, rfl, rfl, [.backend plainAnswer], _, .backend plainAnswer, rfl, rfl, rfl⟩

end Stop

end NativeWatcher
