import NativeWatcher.Lib.Machine
import Mathlib.Data.Finset.Basic
import Mathlib.Data.Finset.Erase
import Mathlib.Logic.Function.Basic

/-!
# The life of an FSEvents stream

A `State` object and the stream its pointer names, from `startStream` to the release by
the thread of `stopStreamAfterCallback`. The pointer is taken out by an atomic exchange,
and who takes it sees to the stop.

`watcher->state` is one pointer for all backends: "fs-events" and "default" are two, and a
failed backend keeps its `mSubscriptions`. `startStream`, `unwatch` with `unsubscribe` and
`cleanupAfterError` read the pointer more than once, each under the lock of its own
backend only.
-/

namespace NativeWatcher

/-! ## Streams and `State` objects -/

/-- A stream, what was done to it, and how many stops of it are at which point: a callback
has the stream and is about to call `stopStreamAfterCallback`, the thread of that function
is before `FSEventStreamStop`, before the empty block, before `FSEventStreamRelease`,
before `cleanupComplete.notify()`. -/
structure StreamData (B : Type) where
  /-- The `State` of its `WatcherContext`. -/
  context : Nat
  /-- The backend whose `mQueue` runs its callbacks. -/
  queue : B
  stops : Nat
  releases : Nat
  taken : Nat
  stopping : Nat
  draining : Nat
  releasing : Nat
  signalling : Nat

namespace StreamData

variable {B : Type}

def new (context : Nat) (queue : B) : StreamData B := ⟨context, queue, 0, 0, 0, 0, 0, 0, 0⟩

/-- `FSEventStreamStart` fails. -/
def failStart (d : StreamData B) : StreamData B := { d with releases := d.releases + 1 }

def stopStreamAfterCallback (d : StreamData B) : StreamData B :=
  { d with stopping := d.stopping + 1 }

/-- A stop on the spot, while the process exits. -/
def stopNow (d : StreamData B) : StreamData B :=
  { d with stops := d.stops + 1, releases := d.releases + 1 }

/-- The exchange in `processEvents`. -/
def take (d : StreamData B) : StreamData B := { d with taken := d.taken + 1 }

/-- `stopStreamAfterCallback` in `processEvents`. -/
def dispatchStop (d : StreamData B) : StreamData B :=
  { d with taken := d.taken - 1, stopping := d.stopping + 1 }

/-- `FSEventStreamStop` and `FSEventStreamInvalidate`. -/
def stop (d : StreamData B) : StreamData B :=
  { d with stopping := d.stopping - 1, stops := d.stops + 1, draining := d.draining + 1 }

def drain (d : StreamData B) : StreamData B :=
  { d with draining := d.draining - 1, releasing := d.releasing + 1 }

/-- `FSEventStreamRelease`. -/
def release (d : StreamData B) : StreamData B :=
  { d with
    releasing := d.releasing - 1, releases := d.releases + 1, signalling := d.signalling + 1 }

/-- `cleanupComplete.notify()`. -/
def signal (d : StreamData B) : StreamData B := { d with signalling := d.signalling - 1 }

end StreamData

/-- A `State`. The backend is also the one of its `callbackQueue`. -/
structure StreamState (B W : Type) where
  backend : B
  watcher : W
  stream : Option Nat
  initializing : Bool
  cleanupComplete : Bool

/-! ## States of the system -/

/-- Where a thread stands in `watch`, `unwatch` or `handleError` of a backend. In
`startStream`, `own` is the `State` of `subscribe` and `x` the one `startStream` read. -/
inductive StreamThread (B W : Type) where
  | outside
  /-- In `startStream`, before it reads `watcher->state`. -/
  | creating (b : B) (w : W) (own : Nat) (wasInvalid : Bool)
  /-- Before `FSEventStreamStart`. -/
  | starting (b : B) (w : W) (own x i : Nat) (wasInvalid : Bool)
  /-- In `scanIdentityIndex`. -/
  | scanning (b : B) (w : W) (own x i : Nat) (wasInvalid : Bool)
  /-- Before `flushStreamCallbacks`. -/
  | flushing (b : B) (w : W) (own x i : Nat) (wasInvalid : Bool)
  /-- Before the startup block. -/
  | awaiting (b : B) (w : W) (own x i : Nat) (wasInvalid : Bool)
  /-- The startup block is processed. -/
  | processing (b : B) (w : W)
  /-- After `subscribe`, before `lock.unlock()`. -/
  | leaving (b : B) (w : W)
  /-- Before `lock.lock()` and the insertion. -/
  | subscribed (b : B) (w : W)
  /-- In `unwatch`, between its `watcher->state` and the one of `unsubscribe`. -/
  | unsubscribing (b : B) (w : W) (o : Option Nat)
  /-- In `cleanupComplete.wait()`. -/
  | finishing (b : B) (w : W) (x : Nat)
  /-- After it, before the lock. -/
  | finished (b : B) (w : W) (x : Nat)
  /-- In the loop of `cleanupAfterError`, with the watchers still to visit. -/
  | cleaning (b : B) (l : Finset W)
  /-- Before `unsubscribe` in the loop. -/
  | retiring (b : B) (w : W) (l : Finset W)

/-- What runs on the queue of a backend: `processEvents` for a `State`, before the
exchange, after it, after `mNeedsResubscribe = true`; and the thread whose startup block
this is. -/
inductive QueuePoint where
  | idle
  | running (x : Nat) (startup : Option Nat)
  | taken (x i : Nat) (startup : Option Nat)
  | marked (x i : Nat) (startup : Option Nat)

/-- The `State` objects and the streams are numbered. -/
structure StreamsState (B W : Type) where
  mMutex : B → Option Nat
  mSubscriptions : B → Finset W
  mPendingSubscriptions : B → Finset W
  mInvalidSubscriptions : B → Finset W
  mNeedsResubscribe : W → Bool
  /-- `watcher->state`. -/
  state : W → Option Nat
  object : Nat → StreamState B W
  created : Nat
  stream : Nat → StreamData B
  streams : Nat
  queue : B → QueuePoint
  thread : Nat → StreamThread B W

/-- How the scan of `startStream` ends. -/
inductive ScanEnd where
  | complete
  | cancelled (exiting : Bool)
  | throws

inductive StreamsAction (B W : Type) where
  | watch (t : Nat) (b : B) (w : W) (isCancelled : Bool)
  /-- `checkWatcher` and `FSEventStreamCreate`. -/
  | create (t : Nat) (success : Bool)
  /-- `FSEventStreamStart`. -/
  | start (t : Nat) (success : Bool)
  | scan (t : Nat) (outcome : ScanEnd)
  | flush (t : Nat)
  | startup (t : Nat)
  | leave (t : Nat)
  | insert (t : Nat)
  /-- `unwatch` up to `unsubscribe`; `keep`: not forced, and the watcher has callbacks. -/
  | unwatch (t : Nat) (b : B) (w : W) (keep : Bool)
  | unsubscribe (t : Nat)
  | wait (t : Nat)
  | finish (t : Nat)
  | cleanupAfterError (t : Nat) (b : B)
  | check (t : Nat) (w : W)
  | retire (t : Nat)
  | cleanedUp (t : Nat)
  /-- A callback of the stream gets to `processEvents`. -/
  | callback (i : Nat)
  /-- A changed or removed root: the exchange in `processEvents`. -/
  | take (b : B)
  | mark (b : B)
  | dispatchStop (b : B)
  /-- `processEvents` returns. -/
  | endCallback (b : B)
  /-- The thread of `stopStreamAfterCallback`. -/
  | stop (i : Nat)
  | drain (i : Nat)
  | release (i : Nat)
  | signal (i : Nat)

/-! ## Steps -/

namespace StreamsState

variable {B W : Type}

/-- Nothing is subscribed; the numbers from `created` and `streams` on stand for nothing. -/
def start (b : B) (w : W) : StreamsState B W where
  mMutex := fun _ => none
  mSubscriptions := fun _ => ∅
  mPendingSubscriptions := fun _ => ∅
  mInvalidSubscriptions := fun _ => ∅
  mNeedsResubscribe := fun _ => false
  state := fun _ => none
  object := fun _ => ⟨b, w, none, true, false⟩
  created := 0
  stream := fun _ => .new 0 b
  streams := 0
  queue := fun _ => .idle
  thread := fun _ => .outside

def setThread (s : StreamsState B W) (t : Nat) (p : StreamThread B W) : StreamsState B W :=
  { s with thread := Function.update s.thread t p }

def setObject (s : StreamsState B W) (x : Nat) (d : StreamState B W) : StreamsState B W :=
  { s with object := Function.update s.object x d }

def setStream (s : StreamsState B W) (i : Nat) (d : StreamData B) : StreamsState B W :=
  { s with stream := Function.update s.stream i d }

/-- `std::make_shared<State>()`. -/
def newObject (s : StreamsState B W) (b : B) (w : W) : StreamsState B W :=
  { s with
    object := Function.update s.object s.created ⟨b, w, none, true, false⟩,
    created := s.created + 1 }

/-- `state->stream.exchange(nullptr)`, and `f` for the stream. -/
def exchange (s : StreamsState B W) (x : Nat) (f : StreamData B → StreamData B) :
    StreamsState B W :=
  match (s.object x).stream with
  | some i => (s.setObject x { s.object x with stream := none }).setStream i (f (s.stream i))
  | none => s

/-- The exchange, followed by `stopStreamAfterCallback`. -/
def exchangeStop (s : StreamsState B W) (x : Nat) : StreamsState B W :=
  s.exchange x .stopStreamAfterCallback

def notifyComplete (s : StreamsState B W) (x : Nat) : StreamsState B W :=
  s.setObject x { s.object x with cleanupComplete := true }

/-- The exchange, followed by a stop on the spot. -/
def exchangeExit (s : StreamsState B W) (x : Nat) : StreamsState B W :=
  match (s.object x).stream with
  | some _ => (s.exchange x .stopNow).notifyComplete x
  | none => s

section Control

variable [DecidableEq B] [DecidableEq W]

def setMutex (s : StreamsState B W) (b : B) (o : Option Nat) : StreamsState B W :=
  { s with mMutex := Function.update s.mMutex b o }

def setState (s : StreamsState B W) (w : W) (o : Option Nat) : StreamsState B W :=
  { s with state := Function.update s.state w o }

def setNeeds (s : StreamsState B W) (w : W) (needs : Bool) : StreamsState B W :=
  { s with mNeedsResubscribe := Function.update s.mNeedsResubscribe w needs }

def setQueue (s : StreamsState B W) (b : B) (q : QueuePoint) : StreamsState B W :=
  { s with queue := Function.update s.queue b q }

def setSubscriptions (s : StreamsState B W) (b : B) (l : Finset W) : StreamsState B W :=
  { s with mSubscriptions := Function.update s.mSubscriptions b l }

def setPending (s : StreamsState B W) (b : B) (l : Finset W) : StreamsState B W :=
  { s with mPendingSubscriptions := Function.update s.mPendingSubscriptions b l }

def setInvalid (s : StreamsState B W) (b : B) (l : Finset W) : StreamsState B W :=
  { s with mInvalidSubscriptions := Function.update s.mInvalidSubscriptions b l }

/-- `subscribe` up to `startStream`. -/
def subscribe (s : StreamsState B W) (t : Nat) (b : B) (w : W) (wasInvalid : Bool) :
    StreamsState B W :=
  let own := s.created
  let s := (s.newObject b w).setMutex b (some t)
  (s.setThread t (.creating b w own wasInvalid)).setState w (some own)

/-- `watch` up to `startStream`. -/
def watch (s : StreamsState B W) (t : Nat) (b : B) (w : W) (isCancelled : Bool) :
    StreamsState B W :=
  if isCancelled then s
  else
    let isNew := decide (w ∉ s.mSubscriptions b)
    let needsResubscribe := s.mNeedsResubscribe w
    let invalid := decide (w ∈ s.mInvalidSubscriptions b)
    let s := s.setNeeds w false
    let wasInvalid := !isNew && (invalid || needsResubscribe)
    let s := if isNew then s else s.setInvalid b ((s.mInvalidSubscriptions b).erase w)
    if isNew || wasInvalid then
      (s.setPending b (insert w (s.mPendingSubscriptions b))).subscribe t b w wasInvalid
    else s

/-- The handlers of `subscribe` and of `watch`, after an exception of `startStream`, but for
the exchange and the lock. -/
def abandon (s : StreamsState B W) (t : Nat) (b : B) (w : W) (wasInvalid : Bool) :
    StreamsState B W :=
  let s := s.setState w none
  let s := s.setPending b ((s.mPendingSubscriptions b).erase w)
  let s := if wasInvalid then s.setInvalid b (insert w (s.mInvalidSubscriptions b)) else s
  s.setThread t .outside

/-- The exchange in the handler of `subscribe`, and `lock.unlock()`. -/
def rethrow (s : StreamsState B W) (b : B) (own : Nat) : StreamsState B W :=
  (s.exchangeStop own).setMutex b none

/-- `startStream` up to `FSEventStreamStart`, for the `State` it has read. -/
def create (s : StreamsState B W) (t : Nat) (b : B) (w : W) (own x : Nat) (wasInvalid : Bool) :
    StreamsState B W :=
  let i := s.streams
  let s := { s.setStream i (.new x b) with streams := i + 1 }
  (s.setObject x { s.object x with stream := some i }).setThread t
    (.starting b w own x i wasInvalid)

/-- `FSEventStreamStart` fails: the release, and `state->stream = nullptr`. -/
def failStart (s : StreamsState B W) (x i : Nat) : StreamsState B W :=
  (s.setObject x { s.object x with stream := none }).setStream i (s.stream i).failStart

/-- `startStream` after the scan of a cancelled watcher. -/
def cancelStart (s : StreamsState B W) (t : Nat) (b : B) (w : W) (x : Nat) (exiting : Bool) :
    StreamsState B W :=
  let s := (s.setNeeds w true).setThread t (.leaving b w)
  if exiting then s.exchangeExit x else s.exchangeStop x

/-- The end of the scan of `startStream`. -/
def scan (s : StreamsState B W) (t : Nat) (b : B) (w : W) (own x i : Nat) (wasInvalid : Bool) :
    ScanEnd → StreamsState B W
  | .complete => s.setThread t (.flushing b w own x i wasInvalid)
  | .cancelled exiting => s.cancelStart t b w x exiting
  | .throws => (s.abandon t b w wasInvalid).rethrow b own

/-- The startup block, up to `processEvents`. -/
def startup (s : StreamsState B W) (t : Nat) (b : B) (w : W) (x i : Nat) : StreamsState B W :=
  if (s.object x).stream = some i then
    ((s.setThread t (.processing b w)).setObject x
      { s.object x with initializing := false }).setQueue b (.running x (some t))
  else s.setThread t (.leaving b w)

/-- `unwatch` up to `unsubscribe`. -/
def unwatch (s : StreamsState B W) (t : Nat) (b : B) (w : W) (keep : Bool) :
    StreamsState B W :=
  if keep then s
  else
    let deleted := decide (w ∈ s.mSubscriptions b)
    let s := s.setSubscriptions b ((s.mSubscriptions b).erase w)
    let s := s.setInvalid b ((s.mInvalidSubscriptions b).erase w)
    if deleted then
      (s.setMutex b (some t)).setThread t (.unsubscribing b w (s.state w))
    else s

/-- `unsubscribe`. -/
def unsubscribe (s : StreamsState B W) (w : W) : StreamsState B W :=
  match s.state w with
  | some x => s.exchangeStop x
  | none => s

/-- `unwatch` after `unsubscribe`, up to the wait of `finishUnsubscribe`. -/
def beginFinish (s : StreamsState B W) (t : Nat) (b : B) (w : W) (o : Option Nat) :
    StreamsState B W :=
  let p : StreamThread B W :=
    match o with
    | some x => .finishing b w x
    | none => .outside
  (s.setThread t p).setMutex b none

/-- `finishUnsubscribe` from the lock on. -/
def finish (s : StreamsState B W) (t : Nat) (w : W) (x : Nat) : StreamsState B W :=
  (if s.state w = some x then s.setState w none else s).setThread t .outside

/-- One watcher in the loop of `cleanupAfterError`, up to `unsubscribe`. -/
def check (s : StreamsState B W) (t : Nat) (b : B) (w : W) (l : Finset W) :
    StreamsState B W :=
  match s.state w with
  | some x =>
      if (s.object x).backend = b then s.setThread t (.retiring b w (l.erase w))
      else s.setThread t (.cleaning b (l.erase w))
  | none => s.setThread t (.cleaning b (l.erase w))

/-- A block of the queue returns; `startStream` goes on after its own. -/
def endBlock (s : StreamsState B W) (b : B) (startup : Option Nat) : StreamsState B W :=
  let s := s.setQueue b .idle
  match startup with
  | some t =>
      match s.thread t with
      | .processing b' w => s.setThread t (.leaving b' w)
      | _ => s
  | none => s

/-- The watcher may be taken up by `watch` or `unwatch`. -/
def free (s : StreamsState B W) (b : B) (w : W) : Prop :=
  s.mMutex b = none ∧ w ∉ s.mPendingSubscriptions b

instance (s : StreamsState B W) (b : B) (w : W) : Decidable (s.free b w) :=
  inferInstanceAs (Decidable (_ ∧ _))

/-- A step of a thread that is in `watch`. -/
def watchStep (s : StreamsState B W) (t : Nat) :
    StreamThread B W → StreamsAction B W → Option (StreamsState B W)
  | .outside, .watch _ b w isCancelled =>
      if s.free b w then some (s.watch t b w isCancelled) else none
  | .creating b w own wasInvalid, .create _ success =>
      if success then
        -- Without a `State` the process ends on a null pointer.
        match s.state w with
        | some x => some (s.create t b w own x wasInvalid)
        | none => none
      else some ((s.abandon t b w wasInvalid).rethrow b own)
  | .starting b w own x i wasInvalid, .start _ success =>
      if success then some (s.setThread t (.scanning b w own x i wasInvalid))
      else some (((s.abandon t b w wasInvalid).failStart x i).rethrow b own)
  | .scanning b w own x i wasInvalid, .scan _ outcome =>
      some (s.scan t b w own x i wasInvalid outcome)
  | .flushing b w own x i wasInvalid, .flush _ =>
      some (s.setThread t (.awaiting b w own x i wasInvalid))
  | .awaiting b w _ x i _, .startup _ =>
      match s.queue b with
      | .idle => some (s.startup t b w x i)
      | _ => none
  | .leaving b w, .leave _ => some ((s.setThread t (.subscribed b w)).setMutex b none)
  | .subscribed b w, .insert _ =>
      if s.mMutex b = none then
        some (((s.setPending b ((s.mPendingSubscriptions b).erase w)).setSubscriptions b
          (insert w (s.mSubscriptions b))).setThread t .outside)
      else none
  | _, _ => none

/-- A step of a thread that is in `unwatch` or in `handleError`. -/
def unwatchStep (s : StreamsState B W) (t : Nat) :
    StreamThread B W → StreamsAction B W → Option (StreamsState B W)
  | .outside, .unwatch _ b w keep => if s.free b w then some (s.unwatch t b w keep) else none
  | .unsubscribing b w o, .unsubscribe _ => some ((s.unsubscribe w).beginFinish t b w o)
  | .finishing b w x, .wait _ =>
      if (s.object x).cleanupComplete then some (s.setThread t (.finished b w x)) else none
  | .finished b w x, .finish _ => if s.mMutex b = none then some (s.finish t w x) else none
  | .outside, .cleanupAfterError _ b =>
      if s.mMutex b = none then
        some ((s.setMutex b (some t)).setThread t (.cleaning b (s.mSubscriptions b)))
      else none
  | .cleaning b l, .check _ w => if w ∈ l then some (s.check t b w l) else none
  | .retiring b w l, .retire _ => some ((s.unsubscribe w).setThread t (.cleaning b l))
  | .cleaning b l, .cleanedUp _ =>
      if l = ∅ then some ((s.setThread t .outside).setMutex b none) else none
  | _, _ => none

/-- A step of what runs on a queue. -/
def queueStep (s : StreamsState B W) (b : B) :
    QueuePoint → StreamsAction B W → Option (StreamsState B W)
  | .idle, .callback i =>
      let x := (s.stream i).context
      if (s.object x).stream = some i ∧ (s.object x).initializing = false then
        some (s.setQueue b (.running x none))
      else none
  | .running x startup, .take _ =>
      match (s.object x).stream with
      | some i => some ((s.exchange x .take).setQueue b (.taken x i startup))
      | none => none
  | .taken x i startup, .mark _ =>
      some ((s.setNeeds (s.object x).watcher true).setQueue b (.marked x i startup))
  | .marked _ i startup, .dispatchStop _ =>
      some ((s.endBlock b startup).setStream i (s.stream i).dispatchStop)
  | .running _ startup, .endCallback _ => some (s.endBlock b startup)
  | _, _ => none

def step (s : StreamsState B W) (a : StreamsAction B W) : Option (StreamsState B W) :=
  match a with
  | .watch t .. | .create t _ | .start t _ | .scan t _ | .flush t | .startup t | .leave t
  | .insert t => s.watchStep t (s.thread t) a
  | .unwatch t .. | .unsubscribe t | .wait t | .finish t | .cleanupAfterError t _
  | .check t _ | .retire t | .cleanedUp t => s.unwatchStep t (s.thread t) a
  | .callback i => s.queueStep (s.stream i).queue (s.queue (s.stream i).queue) a
  | .take b | .mark b | .dispatchStop b | .endCallback b => s.queueStep b (s.queue b) a
  | .stop i =>
      if 0 < (s.stream i).stopping then some (s.setStream i (s.stream i).stop) else none
  | .drain i =>
      -- `dispatch_sync` on the `callbackQueue` of the `State`.
      match s.queue (s.object (s.stream i).context).backend with
      | .idle =>
          if 0 < (s.stream i).draining then some (s.setStream i (s.stream i).drain) else none
      | _ => none
  | .release i =>
      if 0 < (s.stream i).releasing then some (s.setStream i (s.stream i).release) else none
  | .signal i =>
      if 0 < (s.stream i).signalling then
        some ((s.setStream i (s.stream i).signal).notifyComplete (s.stream i).context)
      else none

end Control

end StreamsState

/-- The interleavings of any number of threads, on any number of backends. -/
def streamsMachine {B W : Type} [DecidableEq B] [DecidableEq W] (b : B) (w : W) :
    Machine (StreamsState B W) (StreamsAction B W) :=
  .ofStep (.start b w) StreamsState.step

/-! ## What is stopped once -/

/-- Stops of the stream that are under way. -/
def StreamData.active {B : Type} (d : StreamData B) : Nat :=
  d.taken + d.stopping + d.draining + d.releasing + d.signalling

namespace StreamThread

variable {B W : Type}

/-- `startStream` is to store a stream in the `State`, or to use the one it has stored. -/
def startsOn : StreamThread B W → Nat → Prop
  | .creating _ _ own _, x => own = x
  | .starting _ _ _ x' _ _, x | .scanning _ _ _ x' _ _, x | .flushing _ _ _ x' _ _, x => x' = x
  | _, _ => False

def creates : StreamThread B W → Nat → Prop
  | .creating _ _ own _, x => own = x
  | _, _ => False

theorem startsOn_of_creates {p : StreamThread B W} {x : Nat} (h : p.creates x) : p.startsOn x := by
  cases p
  case creating => exact h
  all_goals exact h.elim

/-- The thread has locked `mMutex` of the backend. -/
def holds : StreamThread B W → B → Prop
  | .creating b' _ _ _, b | .starting b' _ _ _ _ _, b | .scanning b' _ _ _ _ _, b
  | .flushing b' _ _ _ _ _, b | .awaiting b' _ _ _ _ _, b | .processing b' _, b
  | .leaving b' _, b | .unsubscribing b' _ _, b | .cleaning b' _, b | .retiring b' _ _, b =>
      b' = b
  | _, _ => False

end StreamThread

namespace StreamsState

variable {B W : Type}

/-- A stop of the stream of the `State` is under way or complete. -/
def StopInitiated (s : StreamsState B W) (x : Nat) : Prop :=
  ∃ i < s.streams, (s.stream i).context = x ∧
    (0 < (s.stream i).active ∨ (s.object x).cleanupComplete = true)

/-- The action has a thread use the stream. -/
def Uses (s : StreamsState B W) (i : Nat) : StreamsAction B W → Prop
  | .start t _ => ∃ b w own x wasInvalid, s.thread t = .starting b w own x i wasInvalid
  | .scan t (.cancelled true) =>
      ∃ b w own x j wasInvalid, s.thread t = .scanning b w own x j wasInvalid ∧
        (s.object x).stream = some i
  | .flush t => ∃ b w own x wasInvalid, s.thread t = .flushing b w own x i wasInvalid
  | .stop j | .release j => j = i
  | _ => False

/-- The streams of the `State` objects are stopped and released at most once, are not used
after that, and nobody waits for the stop of a stream that nobody stops. -/
structure StoppedOnce [DecidableEq B] [DecidableEq W] (s : StreamsState B W) : Prop where
  one : ∀ i < s.streams, ∀ j < s.streams, (s.stream i).context = (s.stream j).context → i = j
  stops : ∀ i < s.streams, (s.stream i).stops ≤ 1
  releases : ∀ i < s.streams, (s.stream i).releases ≤ 1
  used : ∀ a i, i < s.streams → s.Uses i a → (s.step a).isSome = true → (s.stream i).releases = 0
  complete : ∀ x, (s.object x).cleanupComplete = true →
    ∃ i < s.streams, (s.stream i).context = x ∧ (s.stream i).releases = 1
  finishing : ∀ t b w x, s.thread t = .finishing b w x → s.StopInitiated x

end StreamsState

/-- The step does not meet, through `watcher->state`, the `startStream` of another thread:
`startStream` reads the `State` that its own `subscribe` has stored, `unsubscribe` does not
find one whose `startStream` is under way, and it finds the one `unwatch` waits for unless
that is being stopped. -/
def Undisturbed {B W : Type} (s : StreamsState B W) : StreamsAction B W → Prop
  | .create t _ => ∀ b w own wasInvalid, s.thread t = .creating b w own wasInvalid →
      s.state w = some own
  | .unsubscribe t => ∀ b w o, s.thread t = .unsubscribing b w o →
      (∀ x, s.state w = some x → ∀ t', ¬ (s.thread t').startsOn x) ∧
      ∀ x, o = some x → s.state w = some x ∨ s.StopInitiated x
  | .retire t => ∀ b w l, s.thread t = .retiring b w l →
      ∀ x, s.state w = some x → ∀ t', ¬ (s.thread t').startsOn x
  | _ => True

/-! ## The invariant -/

section StreamsInvariant

variable {B W : Type}

namespace StreamsState

/-- The pointer of the `State` names the stream. -/
def held (o : StreamState B W) (i : Nat) : Nat := if o.stream = some i then 1 else 0

/-- The object of a backend and a watcher. -/
def Owned (s : StreamsState B W) (b : B) (w : W) (x : Nat) : Prop :=
  x < s.created ∧ (s.object x).backend = b ∧ (s.object x).watcher = w

/-- What holds of a thread at its place. -/
def PointInv (s : StreamsState B W) (t : Nat) : StreamThread B W → Prop
  | .outside | .subscribed .. => True
  | .creating b w own _ => s.mMutex b = some t ∧ s.Owned b w own ∧
      (s.object own).initializing = true ∧ ∀ i < s.streams, (s.stream i).context ≠ own
  | .starting b w own x i _ | .scanning b w own x i _ | .flushing b w own x i _ =>
      s.mMutex b = some t ∧ s.Owned b w own ∧ own = x ∧ (s.object x).initializing = true ∧
        (s.object x).stream = some i
  | .awaiting b w own x _ _ => s.mMutex b = some t ∧ s.Owned b w own ∧ own = x
  | .processing b _ | .leaving b _ | .unsubscribing b _ _ | .cleaning b _ | .retiring b _ _ =>
      s.mMutex b = some t
  | .finishing _ _ x | .finished _ _ x => s.StopInitiated x

/-- What holds of the queue of a backend. -/
def QueueInv (s : StreamsState B W) (b : B) : QueuePoint → Prop
  | .idle => True
  | .running x _ =>
      x < s.created ∧ (s.object x).backend = b ∧ (s.object x).initializing = false
  | .taken _ i _ | .marked _ i _ =>
      i < s.streams ∧ (s.stream i).queue = b ∧ 0 < (s.stream i).taken

/-- A stream is in the pointer of its `State`, or at one point of one stop, or released. -/
structure StreamInv (o : StreamState B W) (i : Nat) (d : StreamData B) : Prop where
  released : held o i + d.taken + d.stopping + d.draining + d.releasing + d.releases ≤ 1
  stopped : held o i + d.taken + d.stopping + d.stops ≤ 1
  signalled : d.signalling + o.cleanupComplete.toNat ≤ d.releases

end StreamsState

open StreamsState StreamThread

structure StreamsInv (s : StreamsState B W) : Prop where
  pointer : ∀ x i, (s.object x).stream = some i → i < s.streams ∧ (s.stream i).context = x
  context : ∀ i < s.streams, (s.stream i).context < s.created ∧
    (s.stream i).queue = (s.object (s.stream i).context).backend
  unique : ∀ i < s.streams, ∀ j < s.streams, (s.stream i).context = (s.stream j).context → i = j
  stream : ∀ i < s.streams, StreamInv (s.object (s.stream i).context) i (s.stream i)
  fresh : ∀ i, s.streams ≤ i → (s.stream i).active = 0
  complete : ∀ x, (s.object x).cleanupComplete = true → ∃ i < s.streams, (s.stream i).context = x
  state : ∀ w x, s.state w = some x → x < s.created ∧ (s.object x).watcher = w
  installed : ∀ w x, s.state w = some x →
    (∃ i, (s.object x).stream = some i) ∨ s.StopInitiated x ∨ ∃ t, (s.thread t).creates x
  thread : ∀ t, s.PointInv t (s.thread t)
  queue : ∀ b, s.QueueInv b (s.queue b)

variable {s : StreamsState B W}

/-! ## From one state to another -/

/-- What the places of threads and queues rely on is still there in the later state. -/
structure Persists (s s' : StreamsState B W) : Prop where
  mMutex : s'.mMutex = s.mMutex
  created : s.created ≤ s'.created
  streams : s.streams ≤ s'.streams
  owner : ∀ x < s.created, (s'.object x).backend = (s.object x).backend ∧
    (s'.object x).watcher = (s.object x).watcher
  initialized : ∀ x < s.created, (s.object x).initializing = false →
    (s'.object x).initializing = false
  queue : ∀ i < s.streams, (s'.stream i).queue = (s.stream i).queue
  stopInitiated : ∀ x, s.StopInitiated x → s'.StopInitiated x

namespace Persists

variable {s' : StreamsState B W}

theorem owned (e : Persists s s') {b : B} {w : W} {x : Nat} (hx : s.Owned b w x) :
    s'.Owned b w x :=
  ⟨Nat.lt_of_lt_of_le hx.1 e.created, (e.owner x hx.1).1.trans hx.2.1,
    (e.owner x hx.1).2.trans hx.2.2⟩

/-- A thread stays at its place, if the stream it starts is left to it. -/
theorem pointInv (e : Persists s s') {t : Nat} {p : StreamThread B W}
    (hstarts : ∀ x < s.created, p.startsOn x → (s.object x).initializing = true →
      (s'.object x).initializing = true ∧
        ∀ i, (s.object x).stream = some i → (s'.object x).stream = some i)
    (hcreates : ∀ x, p.creates x → (∀ i < s.streams, (s.stream i).context ≠ x) →
      ∀ i < s'.streams, (s'.stream i).context ≠ x)
    (h : s.PointInv t p) : s'.PointInv t p := by
  have hmutex : ∀ b, s'.mMutex b = s.mMutex b := congrFun e.mMutex
  have hstarting : ∀ {b w own x i}, s.mMutex b = some t ∧ s.Owned b w own ∧ own = x ∧
      (s.object x).initializing = true ∧ (s.object x).stream = some i → p.startsOn x →
      s'.mMutex b = some t ∧ s'.Owned b w own ∧ own = x ∧
        (s'.object x).initializing = true ∧ (s'.object x).stream = some i := by
    rintro b w own _ i ⟨hm, howner, rfl, hinit, hi⟩ hp
    obtain ⟨hinit', hpointer⟩ := hstarts own howner.1 hp hinit
    exact ⟨(hmutex b).trans hm, e.owned howner, rfl, hinit', hpointer i hi⟩
  cases p
  case creating b w own k =>
    obtain ⟨hm, howner, hinit, hnone⟩ := h
    exact ⟨(hmutex b).trans hm, e.owned howner, (hstarts own howner.1 rfl hinit).1,
      hcreates own rfl hnone⟩
  case starting => exact hstarting h rfl
  case scanning => exact hstarting h rfl
  case flushing => exact hstarting h rfl
  case awaiting b w own x i k => exact ⟨(hmutex b).trans h.1, e.owned h.2.1, h.2.2⟩
  case finishing => exact e.stopInitiated _ h
  case finished => exact e.stopInitiated _ h
  case outside => trivial
  case subscribed => trivial
  all_goals exact (hmutex _).trans h

theorem queueInv (e : Persists s s') {b : B} {q : QueuePoint}
    (htaken : ∀ x i startup, q = .taken x i startup ∨ q = .marked x i startup →
      i < s.streams → 0 < (s.stream i).taken → 0 < (s'.stream i).taken)
    (h : s.QueueInv b q) : s'.QueueInv b q := by
  cases q
  case idle => trivial
  case running x startup =>
    obtain ⟨hx, hb, hinit⟩ := h
    exact ⟨Nat.lt_of_lt_of_le hx e.created, (e.owner x hx).1.trans hb, e.initialized x hx hinit⟩
  case taken x i startup =>
    obtain ⟨hi, hb, hpos⟩ := h
    exact ⟨Nat.lt_of_lt_of_le hi e.streams, (e.queue i hi).trans hb,
      htaken x i startup (Or.inl rfl) hi hpos⟩
  case marked x i startup =>
    obtain ⟨hi, hb, hpos⟩ := h
    exact ⟨Nat.lt_of_lt_of_le hi e.streams, (e.queue i hi).trans hb,
      htaken x i startup (Or.inr rfl) hi hpos⟩

end Persists

/-! ## One stream at a time -/

section Modify

variable (s) (x i : Nat) (o : StreamState B W) (d : StreamData B)

theorem modify_object (y : Nat) :
    ((s.setObject x o).setStream i d).object y = if y = x then o else s.object y :=
  Function.update_apply ..

theorem modify_stream (j : Nat) :
    ((s.setObject x o).setStream i d).stream j = if j = i then d else s.stream j :=
  Function.update_apply ..

end Modify

/-- What a step may do to a stream and its `State`: the pointer is left alone, or nobody
starts on it. -/
structure Modification (s : StreamsState B W) (x i : Nat) (o : StreamState B W)
    (d : StreamData B) : Prop where
  lt : i < s.streams
  context : (s.stream i).context = x
  sameStream : d.context = x ∧ d.queue = (s.stream i).queue
  sameObject : o.backend = (s.object x).backend ∧ o.watcher = (s.object x).watcher
  initializing : o.initializing = (s.object x).initializing ∨
    o.initializing = false ∧ ∀ t, ¬ (s.thread t).startsOn x
  pointer : o.stream = (s.object x).stream ∨ o.stream = none ∧ ∀ t, ¬ (s.thread t).startsOn x
  stream : StreamInv o i d
  initiated : 0 < (s.stream i).active ∨ (s.object x).cleanupComplete = true →
    0 < d.active ∨ o.cleanupComplete = true
  held : (s.object x).stream = some i →
    (o.stream = some i ∨ 0 < d.active ∨ o.cleanupComplete = true) ∨ ∀ w, s.state w ≠ some x
  complete : (s.object x).cleanupComplete = true → o.cleanupComplete = true
  taken : ∀ b, (∃ x' startup, s.queue b = .taken x' i startup ∨
    s.queue b = .marked x' i startup) → 0 < d.taken

namespace Modification

variable {x i : Nat} {o : StreamState B W} {d : StreamData B}

theorem stream_context (m : Modification s x i o d) (j : Nat) :
    (((s.setObject x o).setStream i d).stream j).context = (s.stream j).context := by
  rw [modify_stream]
  split
  next hj => rw [hj, m.sameStream.1, m.context]
  next => rfl

theorem stream_queue (m : Modification s x i o d) (j : Nat) :
    (((s.setObject x o).setStream i d).stream j).queue = (s.stream j).queue := by
  rw [modify_stream]
  split
  next hj => rw [hj, m.sameStream.2]
  next => rfl

theorem object_same (m : Modification s x i o d) (y : Nat) :
    (((s.setObject x o).setStream i d).object y).backend = (s.object y).backend ∧
      (((s.setObject x o).setStream i d).object y).watcher = (s.object y).watcher := by
  rw [modify_object]
  split
  next hy => exact hy ▸ m.sameObject
  next => exact ⟨rfl, rfl⟩

theorem stopInitiated (m : Modification s x i o d) {y : Nat} (hy : s.StopInitiated y) :
    ((s.setObject x o).setStream i d).StopInitiated y := by
  obtain ⟨j, hj, hjy, hactive⟩ := hy
  refine ⟨j, hj, (m.stream_context j).trans hjy, ?_⟩
  rw [modify_stream, modify_object]
  by_cases hji : j = i
  · -- The stream itself is stopped, and `y` is its `State`.
    subst hji
    have hyx : y = x := hjy.symm.trans m.context
    subst hyx
    rw [if_pos rfl, if_pos rfl]
    exact m.initiated hactive
  · rw [if_neg hji]
    rcases hactive with hactive | hcleanup
    · exact Or.inl hactive
    · refine Or.inr ?_
      split
      next hyx => exact m.complete (hyx ▸ hcleanup)
      next => exact hcleanup

theorem persists (m : Modification s x i o d) :
    Persists s ((s.setObject x o).setStream i d) where
  mMutex := rfl
  created := Nat.le_refl _
  streams := Nat.le_refl _
  owner y _ := m.object_same y
  initialized y _ hy := by
    rw [modify_object]
    split
    next hyx =>
        rcases m.initializing with hsame | ⟨hfalse, -⟩
        · exact hsame.trans (hyx ▸ hy)
        · exact hfalse
    next => exact hy
  queue j _ := m.stream_queue j
  stopInitiated _ := m.stopInitiated

/-- A thread that starts still finds its stream. -/
theorem starting (m : Modification s x i o d) {t y : Nat} (hstarts : (s.thread t).startsOn y)
    (hinit : (s.object y).initializing = true) :
    (((s.setObject x o).setStream i d).object y).initializing = true ∧
      ∀ j, (s.object y).stream = some j →
        (((s.setObject x o).setStream i d).object y).stream = some j := by
  rw [modify_object]
  split
  next hyx =>
      subst hyx
      constructor
      · rcases m.initializing with hsame | ⟨-, hnone⟩
        · exact hsame.trans hinit
        · exact absurd hstarts (hnone t)
      · intro j hj
        rcases m.pointer with hsame | ⟨-, hnone⟩
        · exact hsame.trans hj
        · exact absurd hstarts (hnone t)
  next => exact ⟨hinit, fun _ hj => hj⟩

theorem still_taken (m : Modification s x i o d) {b : B} {x' j : Nat} {startup : Option Nat}
    (hq : s.queue b = .taken x' j startup ∨ s.queue b = .marked x' j startup)
    (hpos : 0 < (s.stream j).taken) :
    0 < (((s.setObject x o).setStream i d).stream j).taken := by
  rw [modify_stream]
  split
  next hji => exact m.taken b ⟨x', startup, hji ▸ hq⟩
  next => exact hpos

/-- The `State` of a watcher is started, stopped, or about to be. -/
theorem installed (m : Modification s x i o d) (h : StreamsInv s) {w : W} {y : Nat}
    (hy : s.state w = some y) :
    (∃ j, (((s.setObject x o).setStream i d).object y).stream = some j) ∨
      ((s.setObject x o).setStream i d).StopInitiated y ∨ ∃ t, (s.thread t).creates y := by
  rcases h.installed w y hy with ⟨j, hj⟩ | hinit | hcreates
  · by_cases hyx : y = x
    · subst hyx
      have hji : j = i :=
        h.unique j (h.pointer y j hj).1 i m.lt ((h.pointer y j hj).2.trans m.context.symm)
      subst hji
      rcases m.held hj with (hstream | hactive) | hnone
      · refine Or.inl ⟨j, ?_⟩
        rw [modify_object, if_pos rfl]
        exact hstream
      · refine Or.inr (Or.inl ⟨j, m.lt, (m.stream_context j).trans m.context, ?_⟩)
        rw [modify_stream, if_pos rfl, modify_object, if_pos rfl]
        exact hactive
      · exact absurd hy (hnone w)
    · refine Or.inl ⟨j, ?_⟩
      rw [modify_object, if_neg hyx]
      exact hj
  · exact Or.inr (Or.inl (m.stopInitiated hinit))
  · exact Or.inr (Or.inr hcreates)

end Modification

theorem StreamsInv.modify (h : StreamsInv s) {x i : Nat} {o : StreamState B W} {d : StreamData B}
    (m : Modification s x i o d) : StreamsInv ((s.setObject x o).setStream i d) := by
  constructor
  case pointer =>
    intro y j hy
    rw [modify_object] at hy
    rw [m.stream_context]
    split at hy
    next hyx =>
        rcases m.pointer with hsame | ⟨hnone, -⟩
        · rw [hyx]
          exact h.pointer x j (hsame ▸ hy)
        · rw [hnone] at hy
          cases hy
    next => exact h.pointer y j hy
  case context =>
    intro j hj
    rw [m.stream_context, m.stream_queue, (m.object_same _).1]
    exact h.context j hj
  case unique =>
    intro j hj k hk hjk
    rw [m.stream_context, m.stream_context] at hjk
    exact h.unique j hj k hk hjk
  case stream =>
    intro j hj
    rw [m.stream_context, modify_object, modify_stream]
    by_cases hji : j = i
    · rw [if_pos hji, hji, if_pos m.context]
      exact m.stream
    · rw [if_neg hji, if_neg fun hjx => hji (h.unique j hj i m.lt (hjx.trans m.context.symm))]
      exact h.stream j hj
  case fresh =>
    intro j hj
    rw [modify_stream, if_neg (Nat.ne_of_gt (Nat.lt_of_lt_of_le m.lt hj))]
    exact h.fresh j hj
  case complete =>
    intro y hy
    rw [modify_object] at hy
    split at hy
    next hyx => exact ⟨i, m.lt, (m.stream_context i).trans (m.context.trans hyx.symm)⟩
    next =>
        obtain ⟨j, hj, hjy⟩ := h.complete y hy
        exact ⟨j, hj, (m.stream_context j).trans hjy⟩
  case state =>
    intro w y hy
    exact ⟨(h.state w y hy).1, (m.object_same y).2.trans (h.state w y hy).2⟩
  case installed => exact fun w y hy => m.installed h hy
  case thread =>
    intro t
    refine m.persists.pointInv (fun y _ => m.starting) ?_ (h.thread t)
    intro y _ hnone j hj
    rw [m.stream_context]
    exact hnone j hj
  case queue =>
    intro b
    exact m.persists.queueInv (fun y j startup hq _ => m.still_taken hq) (h.queue b)

/-- A stream keeps its places in the queues. -/
theorem StreamsInv.queued (h : StreamsInv s) {i : Nat} (b : B)
    (hq : ∃ x startup, s.queue b = .taken x i startup ∨ s.queue b = .marked x i startup) :
    0 < (s.stream i).taken := by
  rcases hq with ⟨x, startup, hq | hq⟩
  all_goals
    have hb := h.queue b
    rw [hq] at hb
    exact hb.2.2

theorem StreamsInv.setStream (h : StreamsInv s) {i : Nat} (hi : i < s.streams)
    {d : StreamData B} (hd : d.context = (s.stream i).context ∧ d.queue = (s.stream i).queue)
    (hinv : StreamInv (s.object (s.stream i).context) i d) (hactive : 0 < d.active)
    (htaken : ∀ b, (∃ x' startup, s.queue b = .taken x' i startup ∨
      s.queue b = .marked x' i startup) → 0 < d.taken) : StreamsInv (s.setStream i d) := by
  have hsame : s.setObject (s.stream i).context (s.object (s.stream i).context) = s := by
    unfold StreamsState.setObject
    rw [Function.update_eq_self]
  have hmodify := h.modify ⟨hi, rfl, hd, ⟨rfl, rfl⟩, Or.inl rfl, Or.inl rfl, hinv,
    fun _ => Or.inl hactive, fun _ => Or.inl (Or.inr (Or.inl hactive)), id, htaken⟩
  rwa [hsame] at hmodify

/-- The exchange, where nobody starts on the `State`. -/
theorem StreamsInv.exchange (h : StreamsInv s) {x : Nat} (hx : ∀ t, ¬ (s.thread t).startsOn x)
    {f : StreamData B → StreamData B}
    (hf : ∀ d, (f d).context = d.context ∧ (f d).queue = d.queue ∧ d.taken ≤ (f d).taken ∧
      0 < (f d).active)
    (hinv : ∀ i d, (s.object x).stream = some i → StreamInv (s.object x) i d →
      StreamInv { s.object x with stream := none } i (f d)) :
    StreamsInv (s.exchange x f) := by
  unfold StreamsState.exchange
  split
  next i hi =>
      obtain ⟨hlt, hctx⟩ := h.pointer x i hi
      exact h.modify
        { lt := hlt
          context := hctx
          sameStream := ⟨(hf _).1.trans hctx, (hf _).2.1⟩
          sameObject := ⟨rfl, rfl⟩
          initializing := Or.inl rfl
          pointer := Or.inr ⟨rfl, hx⟩
          stream := hinv i _ hi (hctx ▸ h.stream i hlt)
          initiated := fun _ => Or.inl (hf _).2.2.2
          held := fun _ => Or.inl (Or.inr (Or.inl (hf _).2.2.2))
          complete := id
          taken := fun b hq => Nat.lt_of_lt_of_le (h.queued b hq) (hf _).2.2.1 }
  next => exact h

/-- After the exchange of a stream that is there, its stop is under way. -/
theorem StreamsInv.exchange_initiated (h : StreamsInv s) {x i : Nat}
    (hi : (s.object x).stream = some i) {f : StreamData B → StreamData B}
    (hf : ∀ d, (f d).context = d.context ∧ 0 < (f d).active) :
    (s.exchange x f).StopInitiated x := by
  obtain ⟨hlt, hctx⟩ := h.pointer x i hi
  unfold StreamsState.exchange
  rw [hi]
  refine ⟨i, hlt, ?_, Or.inl ?_⟩
  · rw [modify_stream, if_pos rfl, (hf _).1, hctx]
  · rw [modify_stream, if_pos rfl]
    exact (hf _).2

theorem streamInv_exchangeStop {o : StreamState B W} {i : Nat} {d : StreamData B}
    (hi : o.stream = some i) (h : StreamInv o i d) :
    StreamInv { o with stream := none } i d.stopStreamAfterCallback := by
  have hreleased := h.released
  have hstopped := h.stopped
  have hsignalled := h.signalled
  simp only [held, hi, if_true] at hreleased hstopped
  constructor
  all_goals
    simp only [held, StreamData.stopStreamAfterCallback, reduceCtorEq, if_false]
    omega

theorem exchange_keeps {x y : Nat} {f : StreamData B → StreamData B}
    (hf : ∀ d, (f d).context = d.context ∧ 0 < (f d).active) (h : s.StopInitiated y) :
    (s.exchange x f).StopInitiated y := by
  unfold StreamsState.exchange
  split
  next i hi =>
      obtain ⟨j, hj, hjy, hactive⟩ := h
      refine ⟨j, hj, ?_, ?_⟩
      · rw [modify_stream]
        split
        next hji => rw [(hf _).1, ← hji, hjy]
        next => exact hjy
      · rw [modify_stream, modify_object]
        split
        · exact Or.inl (hf _).2
        · rcases hactive with hactive | hcleanup
          · exact Or.inl hactive
          · refine Or.inr ?_
            split
            next hyx => exact hyx ▸ hcleanup
            next => exact hcleanup
  next => exact h

/-- An exchange leaves the threads, the locks, the queues and the backends alone. -/
theorem exchange_frame (s : StreamsState B W) (x : Nat) (f : StreamData B → StreamData B) :
    (s.exchange x f).thread = s.thread ∧ (s.exchange x f).mMutex = s.mMutex ∧
      (s.exchange x f).queue = s.queue ∧ (s.exchange x f).state = s.state := by
  unfold StreamsState.exchange
  split
  all_goals exact ⟨rfl, rfl, rfl, rfl⟩

theorem StreamsInv.exchangeStop (h : StreamsInv s) {x : Nat}
    (hx : ∀ t, ¬ (s.thread t).startsOn x) : StreamsInv (s.exchangeStop x) :=
  h.exchange hx (fun _ => ⟨rfl, rfl, Nat.le_refl _, by
    simp only [StreamData.active, StreamData.stopStreamAfterCallback]
    omega⟩) fun _ _ => streamInv_exchangeStop

/-- The exchange and the stop on the spot. -/
theorem StreamsInv.exchangeExit (h : StreamsInv s) {x : Nat}
    (hx : ∀ t, ¬ (s.thread t).startsOn x) : StreamsInv (s.exchangeExit x) := by
  unfold StreamsState.exchangeExit
  split
  next i hi =>
      obtain ⟨hlt, hctx⟩ := h.pointer x i hi
      have hstream := h.stream i hlt
      rw [hctx] at hstream
      have hmodify : StreamsInv ((s.setObject x { s.object x with
          stream := none, cleanupComplete := true }).setStream i (s.stream i).stopNow) := by
        refine h.modify ⟨hlt, hctx, ⟨hctx, rfl⟩, ⟨rfl, rfl⟩, Or.inl rfl, Or.inr ⟨rfl, hx⟩, ?_,
          fun _ => Or.inr rfl, fun _ => Or.inl (Or.inr (Or.inr rfl)), fun _ => rfl, h.queued⟩
        have hreleased := hstream.released
        have hstopped := hstream.stopped
        have hsignalled := hstream.signalled
        simp only [held, hi, if_true] at hreleased hstopped
        constructor
        all_goals
          simp only [held, StreamData.stopNow, reduceCtorEq, if_false, Bool.toNat_true]
          omega
      have heq : (s.exchange x .stopNow).notifyComplete x = (s.setObject x { s.object x with
          stream := none, cleanupComplete := true }).setStream i (s.stream i).stopNow := by
        unfold StreamsState.exchange
        rw [hi]
        simp only [notifyComplete, StreamsState.setObject, StreamsState.setStream,
          Function.update_self, Function.update_idem]
      rw [heq]
      exact hmodify
  next => exact h

/-! ## Threads, locks and queues -/

/-- The subscriptions and the flags of the watchers do not matter. -/
theorem StreamsInv.congr (h : StreamsInv s) {s' : StreamsState B W}
    (hmutex : s'.mMutex = s.mMutex) (hstate : s'.state = s.state)
    (hobject : s'.object = s.object) (hcreated : s'.created = s.created)
    (hstream : s'.stream = s.stream) (hstreams : s'.streams = s.streams)
    (hqueue : s'.queue = s.queue) (hthread : s'.thread = s.thread) : StreamsInv s' := by
  rcases s with ⟨mMutex, _, _, _, _, state, object, created, stream, streams, queue, thread⟩
  rcases s' with ⟨mMutex', _, _, _, _, state', object', created', stream', streams', queue',
    thread'⟩
  subst hmutex hstate hobject hcreated hstream hstreams hqueue hthread
  exact ⟨h.pointer, h.context, h.unique, h.stream, h.fresh, h.complete, h.state, h.installed,
    h.thread, h.queue⟩

@[simp]
theorem setThread_thread_self (t : Nat) (p : StreamThread B W) : (s.setThread t p).thread t = p :=
  Function.update_self ..

/-- A thread moves on; if it was to start on a `State`, that is not installed. -/
theorem StreamsInv.setThread (h : StreamsInv s) {t : Nat} {p : StreamThread B W}
    (hp : s.PointInv t p) (hcreates : ∀ x, (s.thread t).creates x → ∀ w, s.state w ≠ some x) :
    StreamsInv (s.setThread t p) := by
  refine ⟨h.pointer, h.context, h.unique, h.stream, h.fresh, h.complete, h.state, ?_, ?_,
    h.queue⟩
  · intro w x hx
    rcases h.installed w x hx with hheld | hinit | ⟨t', ht'⟩
    · exact Or.inl hheld
    · exact Or.inr (Or.inl hinit)
    · refine Or.inr (Or.inr ⟨t', ?_⟩)
      have htt : t' ≠ t := by
        rintro rfl
        exact hcreates x ht' w hx
      simp only [StreamsState.setThread, Function.update_of_ne htt]
      exact ht'
  · intro t'
    by_cases htt : t' = t
    · subst htt
      simp only [StreamsState.setThread, Function.update_self]
      exact hp
    · simp only [StreamsState.setThread, Function.update_of_ne htt]
      exact h.thread t'

theorem pointInv_mutex {t : Nat} {p : StreamThread B W} {b : B} (h : s.PointInv t p)
    (hb : p.holds b) : s.mMutex b = some t := by
  cases p
  case outside => exact hb.elim
  case subscribed => exact hb.elim
  case finishing => exact hb.elim
  case finished => exact hb.elim
  case creating => exact hb ▸ h.1
  case starting => exact hb ▸ h.1
  case scanning => exact hb ▸ h.1
  case flushing => exact hb ▸ h.1
  case awaiting => exact hb ▸ h.1
  all_goals exact hb ▸ h

variable [DecidableEq B] [DecidableEq W]

omit [DecidableEq W] in
theorem pointInv_setMutex {t : Nat} {p : StreamThread B W} {b : B} {o : Option Nat}
    (h : s.PointInv t p) (hb : ¬ p.holds b) : (s.setMutex b o).PointInv t p := by
  have hother : ∀ b', b' ≠ b → (s.setMutex b o).mMutex b' = s.mMutex b' := fun b' hne =>
    Function.update_of_ne hne ..
  cases p
  case outside => trivial
  case subscribed => trivial
  case finishing => exact h
  case finished => exact h
  case creating => exact ⟨(hother _ hb).trans h.1, h.2⟩
  case starting => exact ⟨(hother _ hb).trans h.1, h.2⟩
  case scanning => exact ⟨(hother _ hb).trans h.1, h.2⟩
  case flushing => exact ⟨(hother _ hb).trans h.1, h.2⟩
  case awaiting => exact ⟨(hother _ hb).trans h.1, h.2⟩
  all_goals exact (hother _ hb).trans h

omit [DecidableEq W] in
theorem StreamsInv.setMutex (h : StreamsInv s) {b : B} {o : Option Nat}
    (hb : ∀ t, ¬ (s.thread t).holds b) : StreamsInv (s.setMutex b o) :=
  ⟨h.pointer, h.context, h.unique, h.stream, h.fresh, h.complete, h.state, h.installed,
    fun t => pointInv_setMutex (h.thread t) (hb t), h.queue⟩

omit [DecidableEq W] in
theorem StreamsInv.lock (h : StreamsInv s) {b : B} {o : Option Nat} (hb : s.mMutex b = none) :
    StreamsInv (s.setMutex b o) := by
  refine h.setMutex fun t ht => ?_
  have hmutex := pointInv_mutex (h.thread t) ht
  rw [hb] at hmutex
  cases hmutex

omit [DecidableEq W] in
/-- Only the thread that has the lock is in a place that needs it. -/
theorem StreamsInv.unlock (h : StreamsInv s) {t : Nat} {b : B} {o : Option Nat}
    (hb : s.mMutex b = some t) (ht : ¬ (s.thread t).holds b) : StreamsInv (s.setMutex b o) := by
  refine h.setMutex fun t' ht' => ?_
  have hmutex := pointInv_mutex (h.thread t') ht'
  rw [hb] at hmutex
  obtain rfl := Option.some.inj hmutex
  exact ht ht'

omit [DecidableEq B] in
theorem StreamsInv.setState (h : StreamsInv s) {w : W} {o : Option Nat}
    (ho : ∀ x, o = some x →
      x < s.created ∧ (s.object x).watcher = w ∧ ∃ t, (s.thread t).creates x) :
    StreamsInv (s.setState w o) := by
  refine ⟨h.pointer, h.context, h.unique, h.stream, h.fresh, h.complete, ?_, ?_, h.thread,
    h.queue⟩
  · intro w' x hx
    simp only [StreamsState.setState, Function.update_apply] at hx
    split at hx
    next hw =>
        obtain ⟨hlt, hwatcher, -⟩ := ho x hx
        exact ⟨hlt, hwatcher.trans hw.symm⟩
    next => exact h.state w' x hx
  · intro w' x hx
    simp only [StreamsState.setState, Function.update_apply] at hx
    split at hx
    · exact Or.inr (Or.inr (ho x hx).2.2)
    · exact h.installed w' x hx

omit [DecidableEq W] in
theorem StreamsInv.setQueue (h : StreamsInv s) {b : B} {q : QueuePoint} (hq : s.QueueInv b q) :
    StreamsInv (s.setQueue b q) := by
  refine ⟨h.pointer, h.context, h.unique, h.stream, h.fresh, h.complete, h.state, h.installed,
    h.thread, ?_⟩
  intro b'
  simp only [StreamsState.setQueue, Function.update_apply]
  split
  next hb => exact hb ▸ hq
  next => exact h.queue b'

/-! ## `watch` -/

omit [DecidableEq B] [DecidableEq W] in
/-- The `State` a thread starts on is of the backend that it has locked. -/
theorem pointInv_startsOn {t x : Nat} {p : StreamThread B W} (h : s.PointInv t p)
    (hx : p.startsOn x) :
    s.mMutex (s.object x).backend = some t ∧ (s.object x).initializing = true := by
  cases p
  case creating b w own k =>
    obtain rfl : own = x := hx
    obtain ⟨hm, ⟨-, rfl, -⟩, hinit, -⟩ := h
    exact ⟨hm, hinit⟩
  case starting b w own y i k =>
    obtain rfl : y = x := hx
    obtain ⟨hm, ⟨-, rfl, -⟩, rfl, hinit, -⟩ := h
    exact ⟨hm, hinit⟩
  case scanning b w own y i k =>
    obtain rfl : y = x := hx
    obtain ⟨hm, ⟨-, rfl, -⟩, rfl, hinit, -⟩ := h
    exact ⟨hm, hinit⟩
  case flushing b w own y i k =>
    obtain rfl : y = x := hx
    obtain ⟨hm, ⟨-, rfl, -⟩, rfl, hinit, -⟩ := h
    exact ⟨hm, hinit⟩
  all_goals exact hx.elim

omit [DecidableEq B] [DecidableEq W] in
/-- Nobody else starts on a `State` of the backend that a thread has locked. -/
theorem StreamsInv.not_startsOn (h : StreamsInv s) {t x : Nat} {b : B}
    (hm : s.mMutex b = some t) (hx : (s.object x).backend = b)
    (ht : ¬ (s.thread t).startsOn x) (t' : Nat) : ¬ (s.thread t').startsOn x := by
  intro hstarts
  have hlocked := (pointInv_startsOn (h.thread t') hstarts).1
  rw [hx, hm] at hlocked
  obtain rfl := Option.some.inj hlocked
  exact ht hstarts

omit [DecidableEq B] [DecidableEq W] in
/-- A new `State`. -/
theorem StreamsInv.newObject (h : StreamsInv s) (b : B) (w : W) :
    StreamsInv (s.newObject b w) := by
  have hobject : ∀ x < s.created, (s.newObject b w).object x = s.object x := fun x hx =>
    Function.update_of_ne (Nat.ne_of_lt hx) ..
  have hnew : (s.newObject b w).object s.created = ⟨b, w, none, true, false⟩ :=
    Function.update_self ..
  have hcases : ∀ x, (s.newObject b w).object x = s.object x ∨ x = s.created := by
    intro x
    by_cases hx : x = s.created
    · exact Or.inr hx
    · exact Or.inl (Function.update_of_ne hx ..)
  have hpersists : Persists s (s.newObject b w) := by
    refine ⟨rfl, Nat.le_succ _, Nat.le_refl _, ?_, ?_, fun _ _ => rfl, ?_⟩
    · intro x hx
      rw [hobject x hx]
      exact ⟨rfl, rfl⟩
    · intro x hx hinit
      rw [hobject x hx]
      exact hinit
    · rintro x ⟨i, hi, rfl, hactive⟩
      exact ⟨i, hi, rfl, (hobject _ (h.context i hi).1).symm ▸ hactive⟩
  constructor
  case pointer =>
    intro x i hx
    rcases hcases x with hold | rfl
    · exact h.pointer x i (hold ▸ hx)
    · rw [hnew] at hx
      cases hx
  case context =>
    intro i hi
    obtain ⟨hlt, hqueue⟩ := h.context i hi
    exact ⟨Nat.lt_succ_of_lt hlt, (hobject _ hlt).symm ▸ hqueue⟩
  case unique => exact h.unique
  case stream =>
    intro i hi
    exact (hobject _ (h.context i hi).1).symm ▸ h.stream i hi
  case fresh => exact h.fresh
  case complete =>
    intro x hx
    rcases hcases x with hold | rfl
    · exact h.complete x (hold ▸ hx)
    · rw [hnew] at hx
      cases hx
  case state =>
    intro w' x hx
    obtain ⟨hlt, hwatcher⟩ := h.state w' x hx
    exact ⟨Nat.lt_succ_of_lt hlt, (hobject x hlt).symm ▸ hwatcher⟩
  case installed =>
    intro w' x hx
    rcases h.installed w' x hx with ⟨i, hi⟩ | hinit | hcreates
    · exact Or.inl ⟨i, (hobject x (h.state w' x hx).1).symm ▸ hi⟩
    · exact Or.inr (Or.inl (hpersists.stopInitiated x hinit))
    · exact Or.inr (Or.inr hcreates)
  case thread =>
    intro t
    refine hpersists.pointInv (fun x hx _ hinit => ?_) (fun _ _ hnone => hnone) (h.thread t)
    rw [hobject x hx]
    exact ⟨hinit, fun _ hi => hi⟩
  case queue => exact fun b' => hpersists.queueInv (fun _ _ _ _ _ hpos => hpos) (h.queue b')

theorem streamsInv_subscribe (h : StreamsInv s) {t : Nat} {b : B} {w : W} {wasInvalid : Bool}
    (hb : s.mMutex b = none) (ht : s.thread t = .outside) :
    StreamsInv (s.subscribe t b w wasInvalid) := by
  have hobject : (s.newObject b w).object s.created = ⟨b, w, none, true, false⟩ :=
    Function.update_self ..
  have hlocked : StreamsInv ((s.newObject b w).setMutex b (some t)) := (h.newObject b w).lock hb
  have hpoint : ((s.newObject b w).setMutex b (some t)).PointInv t
      (.creating b w s.created wasInvalid) := by
    refine ⟨Function.update_self .., ⟨Nat.lt_succ_self _, ?_, ?_⟩, ?_, ?_⟩
    · exact congrArg StreamState.backend hobject
    · exact congrArg StreamState.watcher hobject
    · exact congrArg StreamState.initializing hobject
    · exact fun i hi => Nat.ne_of_lt (h.context i hi).1
  refine (hlocked.setThread hpoint ?_).setState ?_
  · intro x hx
    have hx' : (s.thread t).creates x := hx
    rw [ht] at hx'
    exact hx'.elim
  · intro x hx
    obtain rfl := Option.some.inj hx
    refine ⟨Nat.lt_succ_self _, congrArg StreamState.watcher hobject, t, ?_⟩
    simp only [StreamsState.setThread, Function.update_self]
    rfl

theorem streamsInv_watch (h : StreamsInv s) {t : Nat} {b : B} {w : W} {isCancelled : Bool}
    (hb : s.mMutex b = none) (ht : s.thread t = .outside) :
    StreamsInv (s.watch t b w isCancelled) := by
  simp only [StreamsState.watch]
  split
  · exact h
  · split
    · split
      all_goals
        refine streamsInv_subscribe (h.congr ?_ ?_ ?_ ?_ ?_ ?_ ?_ ?_) hb ht
        all_goals rfl
    · split
      all_goals exact h.congr rfl rfl rfl rfl rfl rfl rfl rfl

section Create

omit [DecidableEq B] [DecidableEq W]

variable (s) (t : Nat) (b : B) (w : W) (own : Nat) (wasInvalid : Bool)

theorem create_object (x : Nat) : (s.create t b w own own wasInvalid).object x =
    if x = own then { s.object own with stream := some s.streams } else s.object x :=
  Function.update_apply ..

theorem create_stream_last :
    (s.create t b w own own wasInvalid).stream s.streams = .new own b :=
  Function.update_self ..

theorem create_stream_old {i : Nat} (hi : i ≠ s.streams) :
    (s.create t b w own own wasInvalid).stream i = s.stream i :=
  Function.update_of_ne hi ..

variable {t b w own wasInvalid}

/-- A stream is created for a `State` that has none. -/
theorem persists_create : Persists s (s.create t b w own own wasInvalid) := by
  have hstream : ∀ i < s.streams, (s.create t b w own own wasInvalid).stream i = s.stream i :=
    fun i hi => create_stream_old s t b w own wasInvalid (Nat.ne_of_lt hi)
  refine ⟨rfl, Nat.le_refl _, Nat.le_succ _, ?_, ?_, ?_, ?_⟩
  · intro x _
    rw [create_object]
    split
    next hx => exact hx ▸ ⟨rfl, rfl⟩
    next => exact ⟨rfl, rfl⟩
  · intro x _ hinit
    rw [create_object]
    split
    next hx => exact hx ▸ hinit
    next => exact hinit
  · intro i hi
    rw [hstream i hi]
  · rintro x ⟨i, hi, hx, hactive⟩
    refine ⟨i, Nat.lt_succ_of_lt hi, ?_, ?_⟩
    · rw [hstream i hi, hx]
    · rw [hstream i hi, create_object]
      split
      next hx => exact hx ▸ hactive
      next => exact hactive

end Create

omit [DecidableEq B] [DecidableEq W] in
/-- A stream for the `State` that `subscribe` has made. -/
theorem streamsInv_create (h : StreamsInv s) {t : Nat} {b : B} {w : W} {own : Nat}
    {wasInvalid : Bool} (ht : s.thread t = .creating b w own wasInvalid) :
    StreamsInv (s.create t b w own own wasInvalid) := by
  obtain ⟨hm, howner, hinit, hnone⟩ : s.PointInv t (.creating b w own wasInvalid) :=
    ht ▸ h.thread t
  have hcleanup : (s.object own).cleanupComplete = false := by
    cases hc : (s.object own).cleanupComplete
    · rfl
    · obtain ⟨i, hi, hown⟩ := h.complete own hc
      exact absurd hown (hnone i hi)
  have hpersists : Persists s (s.create t b w own own wasInvalid) := persists_create s
  have hother : ∀ x, x ≠ own → (s.create t b w own own wasInvalid).object x = s.object x :=
    fun x hx => (create_object ..).trans (if_neg hx)
  have hself : (s.create t b w own own wasInvalid).object own =
      { s.object own with stream := some s.streams } := (create_object ..).trans (if_pos rfl)
  have hlast : (s.create t b w own own wasInvalid).stream s.streams = .new own b :=
    create_stream_last ..
  have holdlt : ∀ i < s.streams, (s.create t b w own own wasInvalid).stream i = s.stream i :=
    fun i hi => create_stream_old s t b w own wasInvalid (Nat.ne_of_lt hi)
  have hlt : ∀ i, i < s.streams + 1 → i = s.streams ∨ i < s.streams := fun i hi =>
    (Nat.lt_succ_iff_lt_or_eq.mp hi).symm
  constructor
  case pointer =>
    intro x i hx
    rw [create_object] at hx
    split at hx
    next hxo =>
        obtain rfl : s.streams = i := Option.some.inj hx
        exact ⟨Nat.lt_succ_self _, (congrArg StreamData.context hlast).trans hxo.symm⟩
    next =>
        obtain ⟨hi, hctx⟩ := h.pointer x i hx
        exact ⟨Nat.lt_succ_of_lt hi, (congrArg StreamData.context (holdlt i hi)).trans hctx⟩
  case context =>
    intro i hi
    rcases hlt i hi with rfl | hi
    · rw [hlast]
      exact ⟨howner.1, (hpersists.owned howner).2.1.symm⟩
    · rw [holdlt i hi, (hpersists.owner _ (h.context i hi).1).1]
      exact h.context i hi
  case unique =>
    intro i hi j hj hij
    rcases hlt i hi with rfl | hi <;> rcases hlt j hj with rfl | hj
    · rfl
    · rw [hlast, holdlt j hj] at hij
      exact absurd hij.symm (hnone j hj)
    · rw [hlast, holdlt i hi] at hij
      exact absurd hij (hnone i hi)
    · rw [holdlt i hi, holdlt j hj] at hij
      exact h.unique i hi j hj hij
  case stream =>
    intro i hi
    rcases hlt i hi with rfl | hi
    · rw [hlast]
      show StreamInv ((s.create t b w own own wasInvalid).object own) s.streams (.new own b)
      rw [hself]
      constructor <;> simp [held, StreamData.new, hcleanup]
    · rw [holdlt i hi, hother _ (hnone i hi)]
      exact h.stream i hi
  case fresh =>
    intro i hi
    rw [create_stream_old s t b w own wasInvalid (Nat.ne_of_gt hi)]
    exact h.fresh i (Nat.le_of_succ_le hi)
  case complete =>
    intro x hx
    have hold : (s.object x).cleanupComplete = true := by
      rw [create_object] at hx
      split at hx
      next hxo => exact hxo ▸ hx
      next => exact hx
    obtain ⟨i, hi, hctx⟩ := h.complete x hold
    exact ⟨i, Nat.lt_succ_of_lt hi, (congrArg StreamData.context (holdlt i hi)).trans hctx⟩
  case state =>
    intro w' x hx
    obtain ⟨hcreated, hwatcher⟩ := h.state w' x hx
    exact ⟨hcreated, (hpersists.owner x hcreated).2.trans hwatcher⟩
  case installed =>
    intro w' x hx
    by_cases hxo : x = own
    · exact Or.inl ⟨s.streams, hxo ▸ congrArg StreamState.stream hself⟩
    · rcases h.installed w' x hx with ⟨i, hi⟩ | hinit | ⟨t', ht'⟩
      · exact Or.inl ⟨i, (hother x hxo).symm ▸ hi⟩
      · exact Or.inr (Or.inl (hpersists.stopInitiated x hinit))
      · refine Or.inr (Or.inr ⟨t', ?_⟩)
        have htt : t' ≠ t := by
          rintro rfl
          rw [ht] at ht'
          exact hxo ht'.symm
        show (Function.update s.thread t _ t').creates x
        rw [Function.update_of_ne htt]
        exact ht'
  case thread =>
    intro t'
    by_cases htt : t' = t
    · subst htt
      show PointInv _ t' (Function.update s.thread t' _ t')
      rw [Function.update_self]
      refine ⟨hm, hpersists.owned howner, rfl, ?_, congrArg _ hself⟩
      rw [hself]
      exact hinit
    · have ht' := h.thread t'
      -- Nobody else starts on `own`: this thread has the lock of its backend.
      have hne : ∀ x, (s.thread t').startsOn x → x ≠ own := by
        rintro x hx rfl
        have hlocked := (pointInv_startsOn ht' hx).1
        rw [howner.2.1, hm] at hlocked
        exact htt (Option.some.inj hlocked).symm
      show PointInv _ t' (Function.update s.thread t _ t')
      rw [Function.update_of_ne htt]
      refine hpersists.pointInv ?_ ?_ ht'
      · intro x _ hx hinit'
        rw [hother x (hne x hx)]
        exact ⟨hinit', fun _ hi => hi⟩
      · intro x hx hnone' i hi
        rcases hlt i hi with rfl | hi
        · rw [hlast]
          exact (hne x (startsOn_of_creates hx)).symm
        · rw [holdlt i hi]
          exact hnone' i hi
  case queue =>
    intro b'
    refine hpersists.queueInv (fun x i startup hq hi hpos => ?_) (h.queue b')
    rw [holdlt i hi]
    exact hpos

/-- After the handlers nothing is installed for the watcher, and the thread is outside. -/
theorem streamsInv_abandon (h : StreamsInv s) {t : Nat} {b : B} {w : W} {wasInvalid : Bool}
    (hw : ∀ x, (s.thread t).creates x → (s.object x).watcher = w) :
    StreamsInv (s.abandon t b w wasInvalid) := by
  have hnone : StreamsInv (s.setState w none) := h.setState nofun
  have hcreates : ∀ x, (s.thread t).creates x → ∀ w', (s.setState w none).state w' ≠ some x := by
    intro x hx w' hw'
    have hwatcher : w = w' := (hw x hx).symm.trans (hnone.state w' x hw').2
    subst hwatcher
    have hnull : (s.setState w none).state w = none := Function.update_self ..
    rw [hnull] at hw'
    cases hw'
  refine (hnone.setThread (t := t) (p := .outside) trivial hcreates).congr ?_ ?_ ?_ ?_ ?_ ?_ ?_ ?_
  all_goals
    simp only [StreamsState.abandon]
    split <;> rfl

theorem abandon_frame (s : StreamsState B W) (t : Nat) (b : B) (w : W) (wasInvalid : Bool) :
    (s.abandon t b w wasInvalid).thread t = .outside ∧
      (s.abandon t b w wasInvalid).mMutex = s.mMutex ∧
      (s.abandon t b w wasInvalid).object = s.object ∧
      (s.abandon t b w wasInvalid).stream = s.stream ∧
      (s.abandon t b w wasInvalid).streams = s.streams ∧
      (s.abandon t b w wasInvalid).state w = none := by
  simp only [StreamsState.abandon, StreamsState.setThread]
  refine ⟨Function.update_self .., ?_, ?_, ?_, ?_, ?_⟩
  all_goals split
  all_goals first | rfl | exact Function.update_self ..

omit [DecidableEq W] in
theorem streamsInv_rethrow (h : StreamsInv s) {t : Nat} {b : B} {own : Nat}
    (hm : s.mMutex b = some t) (hb : (s.object own).backend = b) (ht : s.thread t = .outside) :
    StreamsInv (s.rethrow b own) := by
  have hstarts : ¬ (s.thread t).startsOn own := by
    rw [ht]
    exact id
  obtain ⟨hthread, hmutex, -, -⟩ := exchange_frame s own .stopStreamAfterCallback
  refine (h.exchangeStop (h.not_startsOn hm hb hstarts)).unlock (t := t) ?_ ?_
  · exact (congrFun hmutex b).trans hm
  · show ¬ ((s.exchange own _).thread t).holds b
    rw [hthread, ht]
    exact id

omit [DecidableEq B] [DecidableEq W] in
/-- The failed start releases the stream; the `State` is not installed any more. -/
theorem streamsInv_failStart (h : StreamsInv s) {x i : Nat} (hi : (s.object x).stream = some i)
    (hx : ∀ t, ¬ (s.thread t).startsOn x) (hstate : ∀ w, s.state w ≠ some x) :
    StreamsInv (s.failStart x i) := by
  obtain ⟨hlt, hctx⟩ := h.pointer x i hi
  have hstream := h.stream i hlt
  rw [hctx] at hstream
  refine h.modify ⟨hlt, hctx, ⟨hctx, rfl⟩, ⟨rfl, rfl⟩, Or.inl rfl, Or.inr ⟨rfl, hx⟩, ?_, id,
    fun _ => Or.inr hstate, id, h.queued⟩
  have hreleased := hstream.released
  have hstopped := hstream.stopped
  have hsignalled := hstream.signalled
  simp only [held, hi, if_true] at hreleased hstopped
  constructor
  all_goals
    simp only [held, StreamData.failStart, reduceCtorEq, if_false]
    omega

/-- The way out of an exception: no thread starts on the `State` once its maker has left,
so the `catch` may take over the stop. -/
theorem StreamsInv.throw (h : StreamsInv s) {t : Nat} {b : B} {w : W} {own : Nat}
    {wasInvalid : Bool} (hm : s.mMutex b = some t) (hb : (s.object own).backend = b)
    (hw : ∀ x, (s.thread t).creates x → (s.object x).watcher = w) :
    StreamsInv ((s.abandon t b w wasInvalid).rethrow b own) := by
  obtain ⟨hthread, hmutex, hobject, -⟩ := abandon_frame s t b w wasInvalid
  have hbackend : ((s.abandon t b w wasInvalid).object own).backend = b :=
    (congrArg _ (congrFun hobject own)).trans hb
  exact streamsInv_rethrow (streamsInv_abandon h hw) ((congrFun hmutex b).trans hm) hbackend
    hthread

theorem streamsInv_startFails (h : StreamsInv s) {t : Nat} {b : B} {w : W} {own x i : Nat}
    {wasInvalid : Bool} (hc : s.thread t = .starting b w own x i wasInvalid) :
    StreamsInv (((s.abandon t b w wasInvalid).failStart x i).rethrow b own) := by
  obtain ⟨hm, howner, rfl, -, hi⟩ : s.PointInv t (.starting b w own x i wasInvalid) :=
    hc ▸ h.thread t
  obtain ⟨hthread, hmutex, hobject, -, -, hstate⟩ := abandon_frame s t b w wasInvalid
  have habandon : StreamsInv (s.abandon t b w wasInvalid) :=
    streamsInv_abandon h fun x hx => by
      rw [hc] at hx
      exact hx.elim
  have hm' : (s.abandon t b w wasInvalid).mMutex b = some t := (congrFun hmutex b).trans hm
  have hbackend : ((s.abandon t b w wasInvalid).object own).backend = b :=
    (congrArg _ (congrFun hobject own)).trans howner.2.1
  -- `abandon` has dropped the watcher's `State`, and `own` could only be installed for it.
  have huninstalled : ∀ w', (s.abandon t b w wasInvalid).state w' ≠ some own := by
    intro w' hw'
    have hwatcher := (habandon.state w' own hw').2
    rw [hobject, howner.2.2] at hwatcher
    subst hwatcher
    rw [hstate] at hw'
    cases hw'
  have hfail : StreamsInv ((s.abandon t b w wasInvalid).failStart own i) :=
    streamsInv_failStart habandon ((congrArg _ (congrFun hobject own)).trans hi)
      (habandon.not_startsOn hm' hbackend (hthread ▸ id)) huninstalled
  refine streamsInv_rethrow hfail (t := t) hm' ?_ hthread
  simp only [StreamsState.failStart, StreamsState.setObject, StreamsState.setStream,
    Function.update_self]
  exact hbackend

omit [DecidableEq B] [DecidableEq W] in
/-- The startup block: callbacks are processed from now on. -/
theorem StreamsInv.initialized (h : StreamsInv s) {x i : Nat} (hi : (s.object x).stream = some i)
    (hx : ∀ t, ¬ (s.thread t).startsOn x) :
    StreamsInv (s.setObject x { s.object x with initializing := false }) := by
  obtain ⟨hlt, hctx⟩ := h.pointer x i hi
  have hstream := h.stream i hlt
  rw [hctx] at hstream
  have hmodify := h.modify (o := { s.object x with initializing := false }) (d := s.stream i)
    ⟨hlt, hctx, ⟨hctx, rfl⟩, ⟨rfl, rfl⟩, Or.inr ⟨rfl, hx⟩, Or.inl rfl,
      ⟨hstream.released, hstream.stopped, hstream.signalled⟩, id, fun _ => Or.inl (Or.inl hi), id,
      h.queued⟩
  have hsame : (s.setObject x { s.object x with initializing := false }).setStream i
      (s.stream i) = s.setObject x { s.object x with initializing := false } := by
    simp only [StreamsState.setStream, StreamsState.setObject, Function.update_eq_self]
  rwa [hsame] at hmodify

omit [DecidableEq B] [DecidableEq W] in
/-- A thread that is not to start on a `State` moves on. -/
theorem StreamsInv.move (h : StreamsInv s) {t : Nat} {p q : StreamThread B W}
    (hc : s.thread t = q) (hp : s.PointInv t p) (hq : ∀ x, ¬ q.creates x) :
    StreamsInv (s.setThread t p) :=
  h.setThread hp fun x hx => (hq x (hc ▸ hx)).elim

omit [DecidableEq W] in
/-- A thread unlocks the backend as it moves on. -/
theorem StreamsInv.moveUnlock (h : StreamsInv s) {t : Nat} {b : B} {p q : StreamThread B W}
    (hc : s.thread t = q) (hp : s.PointInv t p) (hq : ∀ x, ¬ q.creates x)
    (hm : s.mMutex b = some t) (hb : ¬ p.holds b) :
    StreamsInv ((s.setThread t p).setMutex b none) := by
  refine (h.move hc hp hq).unlock (t := t) hm ?_
  rw [setThread_thread_self]
  exact hb

omit [DecidableEq B] in
theorem streamsInv_cancelStart (h : StreamsInv s) {t : Nat} {b : B} {w : W} {own x i : Nat}
    {wasInvalid exiting : Bool} (ht : s.thread t = .scanning b w own x i wasInvalid) :
    StreamsInv (s.cancelStart t b w x exiting) := by
  obtain ⟨hm, howner, rfl, -, -⟩ : s.PointInv t (.scanning b w own x i wasInvalid) :=
    ht ▸ h.thread t
  have hneeds : StreamsInv (s.setNeeds w true) := h.congr rfl rfl rfl rfl rfl rfl rfl rfl
  have hmove := hneeds.move ht (p := .leaving b w) hm fun _ => id
  have hleaving : ¬ (((s.setNeeds w true).setThread t (.leaving b w)).thread t).startsOn own := by
    rw [setThread_thread_self]
    exact id
  have hstarts := hmove.not_startsOn hm howner.2.1 hleaving
  simp only [StreamsState.cancelStart]
  split
  · exact hmove.exchangeExit hstarts
  · exact hmove.exchangeStop hstarts

omit [DecidableEq W] in
theorem streamsInv_startup (h : StreamsInv s) {t : Nat} {b : B} {w : W} {own x i : Nat}
    {wasInvalid : Bool} (ht : s.thread t = .awaiting b w own x i wasInvalid) :
    StreamsInv (s.startup t b w x i) := by
  obtain ⟨hm, howner, rfl⟩ : s.PointInv t (.awaiting b w own x i wasInvalid) := ht ▸ h.thread t
  unfold StreamsState.startup
  split
  next hi =>
      have hmove := h.move ht (p := .processing b w) hm fun _ => id
      have hprocessing : ¬ ((s.setThread t (.processing b w)).thread t).startsOn own := by
        rw [setThread_thread_self]
        exact id
      refine (hmove.initialized hi (hmove.not_startsOn hm howner.2.1 hprocessing)).setQueue ?_
      refine ⟨howner.1, ?_, ?_⟩
      · simp only [StreamsState.setObject, Function.update_self]
        exact howner.2.1
      · simp only [StreamsState.setObject, Function.update_self]
  next => exact h.move ht hm fun _ => id

theorem streamsInv_watchStep {a : StreamsAction B W} {t : Nat} {s' : StreamsState B W}
    (h : StreamsInv s) (hs : s.watchStep t (s.thread t) a = some s')
    (hok : ∀ t' success, a = .create t' success → ∀ b w own wasInvalid,
      s.thread t = .creating b w own wasInvalid → s.state w = some own) : StreamsInv s' := by
  have ht := h.thread t
  cases hc : s.thread t <;> rw [hc] at hs ht
  case outside =>
    cases a <;> simp only [StreamsState.watchStep, reduceCtorEq] at hs
    case watch t' b w isCancelled =>
      split at hs
      next hfree =>
          obtain rfl := Option.some.inj hs
          exact streamsInv_watch h hfree.1 hc
      next => cases hs
  case creating b w own wasInvalid =>
    cases a <;> simp only [StreamsState.watchStep, reduceCtorEq] at hs
    case create t' success =>
      obtain ⟨hm, howner, -, -⟩ := ht
      split at hs
      next =>
          rw [hok t' success rfl b w own wasInvalid hc] at hs
          obtain rfl := Option.some.inj hs
          exact streamsInv_create h hc
      next =>
          obtain rfl := Option.some.inj hs
          refine h.throw hm howner.2.1 fun x hx => ?_
          rw [hc] at hx
          exact hx ▸ howner.2.2
  case starting b w own x i wasInvalid =>
    cases a <;> simp only [StreamsState.watchStep, reduceCtorEq] at hs
    case start t' success =>
      split at hs
      next =>
          obtain rfl := Option.some.inj hs
          exact h.move hc (p := .scanning b w own x i wasInvalid) ht fun _ => id
      next =>
          obtain rfl := Option.some.inj hs
          exact streamsInv_startFails h hc
  case scanning b w own x i wasInvalid =>
    cases a <;> simp only [StreamsState.watchStep, reduceCtorEq] at hs
    case scan t' outcome =>
      obtain rfl := Option.some.inj hs
      cases outcome with
      | complete => exact h.move hc (p := .flushing b w own x i wasInvalid) ht fun _ => id
      | cancelled exiting => exact streamsInv_cancelStart h hc
      | throws =>
          obtain ⟨hm, howner, -⟩ := ht
          refine h.throw hm howner.2.1 fun x hx => ?_
          rw [hc] at hx
          exact hx.elim
  case flushing b w own x i wasInvalid =>
    cases a <;> simp only [StreamsState.watchStep, reduceCtorEq] at hs
    case flush t' =>
      obtain rfl := Option.some.inj hs
      exact h.move hc (p := .awaiting b w own x i wasInvalid) ⟨ht.1, ht.2.1, ht.2.2.1⟩ fun _ => id
  case awaiting b w own x i wasInvalid =>
    cases a <;> simp only [StreamsState.watchStep, reduceCtorEq] at hs
    case startup t' =>
      split at hs
      · obtain rfl := Option.some.inj hs
        exact streamsInv_startup h hc
      · cases hs
  case leaving b w =>
    cases a <;> simp only [StreamsState.watchStep, reduceCtorEq] at hs
    case leave t' =>
      obtain rfl := Option.some.inj hs
      exact h.moveUnlock hc trivial (fun _ => id) ht id
  case subscribed b w =>
    cases a <;> simp only [StreamsState.watchStep, reduceCtorEq] at hs
    case insert t' =>
      split at hs
      · obtain rfl := Option.some.inj hs
        refine StreamsInv.move (h.congr ?_ ?_ ?_ ?_ ?_ ?_ ?_ ?_) hc trivial fun _ => id
        all_goals rfl
      · cases hs
  all_goals
    cases a <;> simp only [StreamsState.watchStep, reduceCtorEq] at hs

/-! ## `unwatch` and `cleanupAfterError` -/

omit [DecidableEq B] [DecidableEq W] in
theorem unsubscribe_frame (s : StreamsState B W) (w : W) :
    (s.unsubscribe w).thread = s.thread ∧ (s.unsubscribe w).mMutex = s.mMutex := by
  unfold StreamsState.unsubscribe
  split
  · exact ⟨(exchange_frame s _ _).1, (exchange_frame s _ _).2.1⟩
  · exact ⟨rfl, rfl⟩

omit [DecidableEq B] [DecidableEq W] in
theorem streamsInv_unsubscribe (h : StreamsInv s) {w : W}
    (hw : ∀ x, s.state w = some x → ∀ t, ¬ (s.thread t).startsOn x) :
    StreamsInv (s.unsubscribe w) := by
  unfold StreamsState.unsubscribe
  split
  next x hx => exact h.exchangeStop (hw x hx)
  next => exact h

omit [DecidableEq B] in
theorem stopStreamAfterCallback_active (d : StreamData B) :
    d.stopStreamAfterCallback.context = d.context ∧ 0 < d.stopStreamAfterCallback.active := by
  refine ⟨rfl, ?_⟩
  simp only [StreamData.active, StreamData.stopStreamAfterCallback]
  omega

omit [DecidableEq B] [DecidableEq W] in
/-- `unsubscribe` leaves no installed stream without a stop. -/
theorem unsubscribe_initiated (h : StreamsInv s) {w : W} {x : Nat}
    (hw : ∀ x, s.state w = some x → ∀ t, ¬ (s.thread t).startsOn x)
    (hx : s.state w = some x ∨ s.StopInitiated x) : (s.unsubscribe w).StopInitiated x := by
  unfold StreamsState.unsubscribe
  split
  next y hy =>
      rcases hx with hx | hinit
      · obtain rfl : x = y := Option.some.inj (hx.symm.trans hy)
        rcases h.installed w x hx with ⟨i, hi⟩ | hinit | ⟨t, ht⟩
        · exact h.exchange_initiated hi stopStreamAfterCallback_active
        · exact exchange_keeps stopStreamAfterCallback_active hinit
        · refine absurd ?_ (hw x hx t)
          cases hc : s.thread t <;> rw [hc] at ht
          case creating => exact ht
          all_goals exact ht.elim
      · exact exchange_keeps stopStreamAfterCallback_active hinit
  next hnone =>
      rcases hx with hx | hinit
      · rw [hnone] at hx
        cases hx
      · exact hinit

theorem streamsInv_unwatch (h : StreamsInv s) {t : Nat} {b : B} {w : W} {keep : Bool}
    (hb : s.mMutex b = none) (ht : s.thread t = .outside) :
    StreamsInv (s.unwatch t b w keep) := by
  simp only [StreamsState.unwatch]
  split
  · exact h
  · split
    · have hlock : StreamsInv (s.setMutex b (some t)) := h.lock hb
      have hmove := hlock.move ht (p := .unsubscribing b w (s.state w)) (Function.update_self ..)
        fun _ => id
      refine hmove.congr ?_ ?_ ?_ ?_ ?_ ?_ ?_ ?_
      all_goals rfl
    · exact h.congr rfl rfl rfl rfl rfl rfl rfl rfl

theorem streamsInv_unwatchStep {a : StreamsAction B W} {t : Nat} {s' : StreamsState B W}
    (h : StreamsInv s) (hs : s.unwatchStep t (s.thread t) a = some s')
    (hunsubscribe : ∀ t', a = .unsubscribe t' → ∀ b w o, s.thread t = .unsubscribing b w o →
      (∀ x, s.state w = some x → ∀ t', ¬ (s.thread t').startsOn x) ∧
      ∀ x, o = some x → s.state w = some x ∨ s.StopInitiated x)
    (hretire : ∀ t', a = .retire t' → ∀ b w l, s.thread t = .retiring b w l →
      ∀ x, s.state w = some x → ∀ t', ¬ (s.thread t').startsOn x) : StreamsInv s' := by
  have ht := h.thread t
  cases hc : s.thread t <;> rw [hc] at hs ht
  case outside =>
    cases a <;> simp only [StreamsState.unwatchStep, reduceCtorEq] at hs
    case unwatch t' b w keep =>
      split at hs
      next hfree =>
          obtain rfl := Option.some.inj hs
          exact streamsInv_unwatch h hfree.1 hc
      next => cases hs
    case cleanupAfterError t' b =>
      split at hs
      next hb =>
          obtain rfl := Option.some.inj hs
          have hlock : StreamsInv (s.setMutex b (some t)) := h.lock hb
          exact hlock.move hc (Function.update_self ..) fun _ => id
      next => cases hs
  case unsubscribing b w o =>
    cases a <;> simp only [StreamsState.unwatchStep, reduceCtorEq] at hs
    case unsubscribe t' =>
      obtain rfl := Option.some.inj hs
      obtain ⟨hw, ho⟩ := hunsubscribe t' rfl b w o hc
      obtain ⟨hthread, hmutex⟩ := unsubscribe_frame s w
      have hunsub := streamsInv_unsubscribe h hw
      unfold StreamsState.beginFinish
      cases o with
      | none =>
          exact hunsub.moveUnlock ((congrFun hthread t).trans hc) trivial (fun _ => id)
            ((congrFun hmutex b).trans ht) id
      | some x =>
          exact hunsub.moveUnlock ((congrFun hthread t).trans hc)
            (unsubscribe_initiated h hw (ho x rfl)) (fun _ => id)
            ((congrFun hmutex b).trans ht) id
  case finishing b w x =>
    cases a <;> simp only [StreamsState.unwatchStep, reduceCtorEq] at hs
    case wait t' =>
      split at hs
      · obtain rfl := Option.some.inj hs
        exact h.move hc (p := .finished b w x) ht fun _ => id
      · cases hs
  case finished b w x =>
    cases a <;> simp only [StreamsState.unwatchStep, reduceCtorEq] at hs
    case finish t' =>
      split at hs
      · obtain rfl := Option.some.inj hs
        unfold StreamsState.finish
        split
        · have hnone : StreamsInv (s.setState w none) := h.setState nofun
          exact hnone.move hc trivial fun _ => id
        · exact h.move hc trivial fun _ => id
      · cases hs
  case cleaning b l =>
    cases a <;> simp only [StreamsState.unwatchStep, reduceCtorEq] at hs
    case check t' w =>
      split at hs
      · obtain rfl := Option.some.inj hs
        unfold StreamsState.check
        split
        · split
          · exact h.move hc (p := .retiring b w (l.erase w)) ht fun _ => id
          · exact h.move hc (p := .cleaning b (l.erase w)) ht fun _ => id
        · exact h.move hc (p := .cleaning b (l.erase w)) ht fun _ => id
      · cases hs
    case cleanedUp t' =>
      split at hs
      · obtain rfl := Option.some.inj hs
        exact h.moveUnlock hc trivial (fun _ => id) ht id
      · cases hs
  case retiring b w l =>
    cases a <;> simp only [StreamsState.unwatchStep, reduceCtorEq] at hs
    case retire t' =>
      obtain rfl := Option.some.inj hs
      obtain ⟨hthread, hmutex⟩ := unsubscribe_frame s w
      have hunsub := streamsInv_unsubscribe h (hretire t' rfl b w l hc)
      exact hunsub.move ((congrFun hthread t).trans hc) (p := .cleaning b l)
        ((congrFun hmutex b).trans ht) fun _ => id
  all_goals
    cases a <;> simp only [StreamsState.unwatchStep, reduceCtorEq] at hs

/-! ## Queues and stops -/

omit [DecidableEq W] in
/-- The end of a block leaves the queue idle; a thread may move on. -/
theorem endBlock_eq (s : StreamsState B W) (b : B) (startup : Option Nat) :
    s.endBlock b startup = s.setQueue b .idle ∨
      ∃ t b' w, s.thread t = .processing b' w ∧
        s.endBlock b startup = (s.setQueue b .idle).setThread t (.leaving b' w) := by
  cases startup with
  | none => exact Or.inl rfl
  | some t =>
      cases hc : s.thread t with
      | processing b' w =>
          refine Or.inr ⟨t, b', w, hc, ?_⟩
          simp only [StreamsState.endBlock, StreamsState.setQueue, hc]
      | _ =>
          refine Or.inl ?_
          simp only [StreamsState.endBlock, StreamsState.setQueue, hc]

omit [DecidableEq W] in
theorem streamsInv_endBlock (h : StreamsInv s) (b : B) (startup : Option Nat) :
    StreamsInv (s.endBlock b startup) := by
  have hidle : StreamsInv (s.setQueue b .idle) := h.setQueue trivial
  rcases endBlock_eq s b startup with heq | ⟨t, b', w, hc, heq⟩
  · rw [heq]
    exact hidle
  · have ht : s.PointInv t (.processing b' w) := hc ▸ h.thread t
    rw [heq]
    exact hidle.move hc (p := .leaving b' w) ht fun _ => id

omit [DecidableEq W] in
theorem endBlock_frame (s : StreamsState B W) (b : B) (startup : Option Nat) :
    (s.endBlock b startup).stream = s.stream ∧ (s.endBlock b startup).object = s.object ∧
      (s.endBlock b startup).streams = s.streams ∧ (s.endBlock b startup).queue b = .idle ∧
      ∀ b', b' ≠ b → (s.endBlock b startup).queue b' = s.queue b' := by
  have hself : (s.setQueue b .idle).queue b = .idle := Function.update_self ..
  have hother : ∀ b', b' ≠ b → (s.setQueue b .idle).queue b' = s.queue b' := fun b' hb' =>
    Function.update_of_ne hb' ..
  rcases endBlock_eq s b startup with heq | ⟨t, b', w, -, heq⟩
  · rw [heq]
    exact ⟨rfl, rfl, rfl, hself, hother⟩
  · rw [heq]
    exact ⟨rfl, rfl, rfl, hself, hother⟩

omit [DecidableEq W] in
/-- A stop taken in a callback: the exchange, with the block in the queue of the stream. -/
theorem streamsInv_take (h : StreamsInv s) {b : B} {x i : Nat} {startup : Option Nat}
    (hq : s.queue b = .running x startup) (hi : (s.object x).stream = some i) :
    StreamsInv ((s.exchange x .take).setQueue b (.taken x i startup)) := by
  obtain ⟨-, hbackend, hinitialized⟩ : s.QueueInv b (.running x startup) := hq ▸ h.queue b
  obtain ⟨hlt, hctx⟩ := h.pointer x i hi
  -- Callbacks run on initialized objects, on which nobody starts.
  have hstarts : ∀ t, ¬ (s.thread t).startsOn x := by
    intro t ht
    have hinit := (pointInv_startsOn (h.thread t) ht).2
    rw [hinitialized] at hinit
    cases hinit
  have htake : StreamsInv (s.exchange x .take) := by
    refine h.exchange hstarts (fun d => ⟨rfl, rfl, Nat.le_succ _, ?_⟩) ?_
    · simp only [StreamData.active, StreamData.take]
      omega
    · intro j d hj hinv
      have hreleased := hinv.released
      have hstopped := hinv.stopped
      have hsignalled := hinv.signalled
      simp only [held, hj, if_true] at hreleased hstopped
      constructor
      all_goals
        simp only [held, StreamData.take, reduceCtorEq, if_false]
        omega
  refine htake.setQueue ?_
  unfold StreamsState.exchange
  rw [hi]
  refine ⟨hlt, ?_, ?_⟩
  · rw [modify_stream, if_pos rfl]
    exact (h.context i hlt).2.trans (hctx.symm ▸ hbackend)
  · rw [modify_stream, if_pos rfl]
    exact Nat.succ_pos _

omit [DecidableEq W] in
/-- The block ends and leaves the stop it has taken to a thread of its own. -/
theorem streamsInv_dispatchStop (h : StreamsInv s) {b : B} {x i : Nat} {startup : Option Nat}
    (hq : s.queue b = .marked x i startup) :
    StreamsInv ((s.endBlock b startup).setStream i (s.stream i).dispatchStop) := by
  obtain ⟨hlt, hqueue, htaken⟩ : s.QueueInv b (.marked x i startup) := hq ▸ h.queue b
  obtain ⟨hstream, hobject, hstreams, hidle, hother⟩ := endBlock_frame s b startup
  have hinv := h.stream i hlt
  have hreleased := hinv.released
  have hstopped := hinv.stopped
  have hsignalled := hinv.signalled
  refine (streamsInv_endBlock h b startup).setStream (hstreams ▸ hlt) ?_ ?_ ?_ ?_
  · rw [hstream]
    exact ⟨rfl, rfl⟩
  · rw [hstream, hobject]
    constructor
    all_goals
      simp only [StreamData.dispatchStop]
      omega
  · simp only [StreamData.active, StreamData.dispatchStop]
    omega
  · -- The stream was in this queue and in no other.
    intro b' hq'
    by_cases hbb : b' = b
    · rw [hbb, hidle] at hq'
      rcases hq' with ⟨_, _, hq' | hq'⟩
      all_goals cases hq'
    · rw [hother b' hbb] at hq'
      have hinvq := h.queue b'
      rcases hq' with ⟨_, _, hq' | hq'⟩
      all_goals
        rw [hq'] at hinvq
        exact absurd (hinvq.2.1.symm.trans hqueue) hbb

theorem streamsInv_queueStep {a : StreamsAction B W} {b : B} {s' : StreamsState B W}
    (h : StreamsInv s) (hs : s.queueStep b (s.queue b) a = some s')
    (ha : ∀ i, a = .callback i → b = (s.stream i).queue) : StreamsInv s' := by
  have hb := h.queue b
  cases hq : s.queue b <;> rw [hq] at hs hb
  case idle =>
    cases a <;> simp only [StreamsState.queueStep, reduceCtorEq] at hs
    case callback i =>
      split at hs
      next hi =>
          obtain rfl := Option.some.inj hs
          have hlt := (h.pointer _ i hi.1).1
          refine h.setQueue ⟨(h.context i hlt).1, ?_, hi.2⟩
          exact (ha i rfl).symm ▸ (h.context i hlt).2.symm
      next => cases hs
  case running x startup =>
    cases a <;> simp only [StreamsState.queueStep, reduceCtorEq] at hs
    case take b' =>
      split at hs
      next i hi =>
          obtain rfl := Option.some.inj hs
          exact streamsInv_take h hq hi
      next => cases hs
    case endCallback b' =>
      obtain rfl := Option.some.inj hs
      exact streamsInv_endBlock h b startup
  case taken x i startup =>
    cases a <;> simp only [StreamsState.queueStep, reduceCtorEq] at hs
    case mark b' =>
      obtain rfl := Option.some.inj hs
      have hneeds : StreamsInv (s.setNeeds (s.object x).watcher true) :=
        h.congr rfl rfl rfl rfl rfl rfl rfl rfl
      exact hneeds.setQueue (q := .marked x i startup) hb
  case marked x i startup =>
    cases a <;> simp only [StreamsState.queueStep, reduceCtorEq] at hs
    case dispatchStop b' =>
      obtain rfl := Option.some.inj hs
      exact streamsInv_dispatchStop h hq

omit [DecidableEq B] [DecidableEq W] in
/-- A stop that is under way is of a stream that was made. -/
theorem StreamsInv.active_lt (h : StreamsInv s) {i : Nat} (hi : 0 < (s.stream i).active) :
    i < s.streams := by
  by_contra hle
  have hzero := h.fresh i (Nat.le_of_not_lt hle)
  omega

omit [DecidableEq B] [DecidableEq W] in
/-- A step of the thread of `stopStreamAfterCallback` but for the last. -/
theorem StreamsInv.stopper (h : StreamsInv s) {i : Nat} {d : StreamData B}
    (hi : 0 < (s.stream i).active)
    (hd : d.context = (s.stream i).context ∧ d.queue = (s.stream i).queue)
    (hinv : ∀ o, StreamInv o i (s.stream i) → StreamInv (B := B) (W := W) o i d)
    (hactive : 0 < d.active) (htaken : (s.stream i).taken = d.taken) :
    StreamsInv (s.setStream i d) :=
  h.setStream (h.active_lt hi) hd (hinv _ (h.stream i (h.active_lt hi))) hactive
    fun b hq => htaken ▸ h.queued b hq

omit [DecidableEq B] [DecidableEq W] in
theorem StreamsInv.signal (h : StreamsInv s) {i : Nat} (hi : 0 < (s.stream i).signalling) :
    StreamsInv ((s.setStream i (s.stream i).signal).notifyComplete (s.stream i).context) := by
  have hactive : 0 < (s.stream i).active := by
    simp only [StreamData.active]
    omega
  have hlt := h.active_lt hactive
  have hinv := h.stream i hlt
  have hmodify := h.modify (d := (s.stream i).signal)
    (o := { s.object (s.stream i).context with cleanupComplete := true })
    ⟨hlt, rfl, ⟨rfl, rfl⟩, ⟨rfl, rfl⟩, Or.inl rfl, Or.inl rfl, ?_, fun _ => Or.inr rfl,
      fun _ => Or.inl (Or.inr (Or.inr rfl)), fun _ => rfl, h.queued⟩
  · exact hmodify
  · have hreleased := hinv.released
    have hstopped := hinv.stopped
    have hsignalled := hinv.signalled
    refine ⟨hreleased, hstopped, ?_⟩
    simp only [StreamData.signal, Bool.toNat_true]
    omega

theorem streamsInv_step {a : StreamsAction B W} {s' : StreamsState B W} (h : StreamsInv s)
    (hok : Undisturbed s a) (hs : s.step a = some s') : StreamsInv s' := by
  cases a with
  | watch t b w isCancelled => exact streamsInv_watchStep h hs nofun
  | create t success =>
      refine streamsInv_watchStep h hs ?_
      rintro _ _ ⟨⟩
      exact hok
  | start t success => exact streamsInv_watchStep h hs nofun
  | scan t outcome => exact streamsInv_watchStep h hs nofun
  | flush t => exact streamsInv_watchStep h hs nofun
  | startup t => exact streamsInv_watchStep h hs nofun
  | leave t => exact streamsInv_watchStep h hs nofun
  | insert t => exact streamsInv_watchStep h hs nofun
  | unwatch t b w keep => exact streamsInv_unwatchStep h hs nofun nofun
  | unsubscribe t =>
      refine streamsInv_unwatchStep h hs ?_ nofun
      rintro _ ⟨⟩
      exact hok
  | wait t => exact streamsInv_unwatchStep h hs nofun nofun
  | finish t => exact streamsInv_unwatchStep h hs nofun nofun
  | cleanupAfterError t b => exact streamsInv_unwatchStep h hs nofun nofun
  | check t w => exact streamsInv_unwatchStep h hs nofun nofun
  | retire t =>
      refine streamsInv_unwatchStep h hs nofun ?_
      rintro _ ⟨⟩
      exact hok
  | cleanedUp t => exact streamsInv_unwatchStep h hs nofun nofun
  | callback i =>
      refine streamsInv_queueStep h hs ?_
      rintro _ ⟨⟩
      rfl
  | take b => exact streamsInv_queueStep h hs nofun
  | mark b => exact streamsInv_queueStep h hs nofun
  | dispatchStop b => exact streamsInv_queueStep h hs nofun
  | endCallback b => exact streamsInv_queueStep h hs nofun
  | stop i =>
      simp only [StreamsState.step] at hs
      split at hs
      next hi =>
          obtain rfl := Option.some.inj hs
          refine h.stopper ?_ ⟨rfl, rfl⟩ (fun o hinv => ?_) ?_ rfl
          · simp only [StreamData.active]
            omega
          · have hreleased := hinv.released
            have hstopped := hinv.stopped
            have hsignalled := hinv.signalled
            constructor
            all_goals
              simp only [StreamData.stop]
              omega
          · simp only [StreamData.active, StreamData.stop]
            omega
      next => cases hs
  | drain i =>
      simp only [StreamsState.step] at hs
      split at hs
      · split at hs
        next hi =>
            obtain rfl := Option.some.inj hs
            refine h.stopper ?_ ⟨rfl, rfl⟩ (fun o hinv => ?_) ?_ rfl
            · simp only [StreamData.active]
              omega
            · have hreleased := hinv.released
              refine ⟨?_, hinv.stopped, hinv.signalled⟩
              simp only [StreamData.drain]
              omega
            · simp only [StreamData.active, StreamData.drain]
              omega
        next => cases hs
      · cases hs
  | release i =>
      simp only [StreamsState.step] at hs
      split at hs
      next hi =>
          obtain rfl := Option.some.inj hs
          refine h.stopper ?_ ⟨rfl, rfl⟩ (fun o hinv => ?_) ?_ rfl
          · simp only [StreamData.active]
            omega
          · have hreleased := hinv.released
            have hsignalled := hinv.signalled
            refine ⟨?_, hinv.stopped, ?_⟩
            all_goals
              simp only [StreamData.release]
              omega
          · simp only [StreamData.active, StreamData.release]
            omega
      next => cases hs
  | signal i =>
      simp only [StreamsState.step] at hs
      split at hs
      next hi =>
          obtain rfl := Option.some.inj hs
          exact h.signal hi
      next => cases hs

omit [DecidableEq B] [DecidableEq W] in
theorem streamsInv_start (b : B) (w : W) : StreamsInv (start b w) where
  pointer _ _ h := nomatch h
  context _ h := nomatch h
  unique _ h := nomatch h
  stream _ h := nomatch h
  fresh _ _ := rfl
  complete _ h := nomatch h
  state _ _ h := nomatch h
  installed _ _ h := nomatch h
  thread _ := trivial
  queue _ := trivial

/-! ## The result -/

omit [DecidableEq B] [DecidableEq W] in
/-- A stream in the pointer of its `State` is not released. -/
theorem StreamsInv.held_releases (h : StreamsInv s) {x i : Nat}
    (hi : (s.object x).stream = some i) : (s.stream i).releases = 0 := by
  obtain ⟨hlt, hctx⟩ := h.pointer x i hi
  have hreleased := (h.stream i hlt).released
  rw [hctx] at hreleased
  simp only [held, hi, if_true] at hreleased
  omega

theorem StreamsInv.used (h : StreamsInv s) {a : StreamsAction B W} {i : Nat} (hi : i < s.streams)
    (hu : s.Uses i a) (hs : (s.step a).isSome = true) : (s.stream i).releases = 0 := by
  have hreleased := (h.stream i hi).released
  cases a with
  | start t success =>
      obtain ⟨b, w, own, x, wasInvalid, hc⟩ := hu
      have ht := h.thread t
      rw [hc] at ht
      exact h.held_releases ht.2.2.2.2
  | scan t outcome =>
      cases outcome with
      | cancelled exiting =>
          cases exiting
          · exact hu.elim
          · obtain ⟨b, w, own, x, j, wasInvalid, -, hx⟩ := hu
            exact h.held_releases hx
      | complete => exact hu.elim
      | throws => exact hu.elim
  | flush t =>
      obtain ⟨b, w, own, x, wasInvalid, hc⟩ := hu
      have ht := h.thread t
      rw [hc] at ht
      exact h.held_releases ht.2.2.2.2
  | stop j =>
      obtain rfl : j = i := hu
      simp only [StreamsState.step] at hs
      split at hs
      · omega
      · cases hs
  | release j =>
      obtain rfl : j = i := hu
      simp only [StreamsState.step] at hs
      split at hs
      · omega
      · cases hs
  | _ => exact hu.elim

theorem StreamsInv.stoppedOnce (h : StreamsInv s) : StoppedOnce s where
  one := h.unique
  stops i hi := by
    have hstopped := (h.stream i hi).stopped
    omega
  releases i hi := by
    have hreleased := (h.stream i hi).released
    omega
  used a i hi hu hs := h.used hi hu hs
  complete x hx := by
    obtain ⟨i, hi, hctx⟩ := h.complete x hx
    have hreleased := (h.stream i hi).released
    have hsignalled := (h.stream i hi).signalled
    rw [hctx, hx, Bool.toNat_true] at hsignalled
    exact ⟨i, hi, hctx, by omega⟩
  finishing t b w x hc := by
    have ht := h.thread t
    rw [hc] at ht
    exact ht

/-- **Every stream is stopped and released at most once, is not used after that, and
`finishUnsubscribe` waits for a stop that is under way, while no step meets through
`watcher->state` the `startStream` of another thread.** -/
theorem stream_stopped_once {b : B} {w : W} (h : (streamsMachine b w).Reach Undisturbed s) :
    StoppedOnce s := by
  refine StreamsInv.stoppedOnce (h.invariant ?_ ?_)
  · rintro _ rfl
    exact streamsInv_start b w
  · rintro s a s' hi hok hs
    exact streamsInv_step hi hok hs

end StreamsInvariant

/-- The root goes away during the startup, and `unwatch` waits for the stop that the
callback has begun. -/
theorem stream_stopped_once_root :
    ∃ s : StreamsState Bool Unit, s.StoppedOnce ∧ s.thread 1 = .finished false () 0 ∧
      (s.stream 0).stops = 1 ∧ (s.stream 0).releases = 1 := by
  have h₀ : (streamsMachine false ()).Reach Undisturbed (.start false ()) := .init rfl
  have hcreate := h₀.extend (.watch 0 false () false) trivial rfl
  have hstart := hcreate.extend (.create 0 true) (by rintro _ _ _ _ ⟨⟩; rfl) rfl
  have hstarted := hstart.execute (l := [.start 0 true, .scan 0 .complete, .flush 0, .startup 0,
    .take false, .mark false, .dispatchStop false, .leave 0, .insert 0,
    .unwatch 1 false () false]) (by repeat' constructor) rfl
  have hunsubscribe := hstarted.extend (.unsubscribe 1) (by
    rintro _ _ _ ⟨⟩
    refine ⟨fun x hx t => ?_, fun x hx => Or.inl hx⟩
    match t with
    | 0 => exact id
    | 1 => exact id
    | _ + 2 => exact id) rfl
  have hstopped := hunsubscribe.execute (l := [.stop 0, .drain 0, .release 0, .signal 0, .wait 1])
    (by repeat' constructor) rfl
  exact ⟨_, stream_stopped_once hstopped, rfl, rfl, rfl⟩

/-- A watcher is subscribed on one backend and is being subscribed on another when `unwatch`
of the first one meets the new `State`: before its stream is there, and the start then
fails; before the flush, which comes after the release. -/
theorem stream_disturbed :
    (∃ s : StreamsState Bool Unit, (streamsMachine false ()).Reachable s ∧
      s.thread 0 = .finishing false () 1 ∧ s.thread 1 = .outside ∧ ¬ s.StopInitiated 1) ∧
    (∃ s : StreamsState Bool Unit, (streamsMachine false ()).Reachable s ∧
      s.Uses 1 (.flush 1) ∧ (s.step (.flush 1)).isSome = true ∧ (s.stream 1).releases = 1) ∧
    ¬ ∀ s : StreamsState Bool Unit, (streamsMachine false ()).Reachable s → s.StoppedOnce := by
  have h₀ : (streamsMachine false ()).Reachable (.start false ()) := .init rfl
  have hfirst := h₀.execute (l := [.watch 0 false () false, .create 0 true, .start 0 true,
    .scan 0 .complete, .flush 0, .startup 0, .endCallback false, .leave 0, .insert 0,
    .watch 1 true () false]) rfl
  have hwaits := hfirst.execute (l := [.unwatch 0 false () false, .unsubscribe 0,
    .create 1 false]) rfl
  have huses := hfirst.execute (l := [.create 1 true, .start 1 true, .scan 1 .complete,
    .unwatch 0 false () false, .unsubscribe 0, .stop 1, .drain 1, .release 1]) rfl
  refine ⟨⟨_, hwaits, rfl, rfl, ?_⟩, ⟨_, huses, ⟨_, _, _, _, _, rfl⟩, rfl, rfl⟩, fun hall => ?_⟩
  · rintro ⟨i, hi, hctx, -⟩
    obtain rfl : i = 0 := Nat.lt_one_iff.mp hi
    cases hctx
  · have hused := (hall _ huses).used (.flush 1) 1 (Nat.lt_succ_self 1) ⟨_, _, _, _, _, rfl⟩ rfl
    cases hused

end NativeWatcher
