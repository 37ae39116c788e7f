import NativeWatcher.Linux.EventQueue
import NativeWatcher.Linux.ViewAgreement
import Mathlib.Data.Finset.Basic

/-!
# The thread of the inotify backend

`start` polls the pipe and the queue. `handleEvents` reads the queue until it is empty and
collects the watchers it has touched, then it notifies them; `flushExpiredMoves` does the
same for the moves that found no pair. The other threads take `mMutex` between two events,
and the debouncer drains the event lists at any time.
-/

namespace NativeWatcher

variable {W : Type} [DecidableEq W]

def IN_Q_OVERFLOW : UInt32 := 0x4000

/-- `BUFFER_SIZE`. -/
def BUFFER_SIZE : Nat := 8192

/-- Where the thread is, with the watchers that are to be notified. -/
inductive EventLoopPoint (W : Type) where
  /-- In the `while` loop of `handleEvents`. -/
  | handling (watchers : Finset W)
  /-- In the last loop of `handleEvents`, or behind it. -/
  | notifying (watchers : Finset W)
  /-- In the last loop of `flushExpiredMoves`, or behind it and about to poll. -/
  | announcing (watchers : Finset W)
  | ended
deriving DecidableEq

def EventLoopPoint.isHandling : EventLoopPoint W → Bool
  | .handling _ => true
  | _ => false

/-- The backend with its thread. What was queued, what was handled and the event lists as
`notify` or a drain last left them are not part of the program. -/
structure EventLoop (W : Type) where
  backend : InotifyBackend W
  point : EventLoopPoint W
  /-- What is left of the buffer, from `ptr` on. -/
  buffer : Str
  queue : List QueuedEvent
  queued : List QueuedEvent
  handled : List InotifyEvent
  seen : W → EventList

inductive EventLoopAction (W : Type) where
  /-- The kernel queues an event. -/
  | queue (event : QueuedEvent)
  | poll (readable : Bool)
  /-- `read` finds room for so many events. -/
  | read (count : Nat)
  /-- `read` finds nothing. -/
  | again
  /-- The pipe is readable, or `poll` or `read` fails. -/
  | leave
  /-- The event at `ptr`. -/
  | next (faults : RmFaults)
  | handleSubscription (event : InotifyEvent) (pointer : Nat) (answers : EventAnswers)
  | notify (id : W)
  | flushExpiredMoves (now : Nat) (faults : RmFaults)
  /-- Another thread, or the kernel. -/
  | other (action : InotifyAction W)

/-- The actions of other threads on the backend, and of the kernel. -/
def InotifyAction.elsewhere : InotifyAction W → Bool
  | .subscribe .. | .unsubscribe .. | .dropInode _ => true
  | _ => false

namespace EventLoop

def start (ws : Watchers W) : EventLoop W where
  backend := ⟨.start ws, []⟩
  point := .announcing ∅
  buffer := []
  queue := []
  queued := []
  handled := []
  seen _ := .empty

/-- At the call of `read`. -/
def atRead (c : EventLoop W) : Bool := c.buffer.isEmpty && c.backend.remaining.isEmpty

/-- The watchers of the moves that have expired. -/
def expiredWatchers (s : InotifyState W) (now : Nat) : Finset W :=
  ((s.mPendingMoves.pairs.filter fun b => InotifyState.expired now b.2).map fun b => b.1.1).toFinset

/-- The backend goes on by an action of its own. -/
def act (c : EventLoop W) (ws : Watchers W) (a : InotifyAction W) : Option (EventLoop W) :=
  (c.backend.step ws a).map fun b => { c with backend := b }

def mEvents (c : EventLoop W) (id : W) : EventList := (c.backend.state.watchers id).mEvents

/-- `notify` looks at the event list. -/
def look (c : EventLoop W) (id : W) : EventLoop W :=
  { c with seen := Function.update c.seen id (c.mEvents id) }

/-- What the event at `ptr` asks for. -/
def nextAction (c : EventLoop W) (faults : RmFaults) : InotifyAction W :=
  let event := (readEvent c.buffer).1
  if event.mask &&& IN_Q_OVERFLOW == IN_Q_OVERFLOW then .handleOverflow faults
  else .handleEvent event

/-- One turn of the loop over the buffer. An overflow touches every watcher that has a
subscription. -/
def next (c : EventLoop W) (ws : Watchers W) (watchers : Finset W) (faults : RmFaults) :
    Option (EventLoop W) :=
  let overflowed :=
    match c.nextAction faults with
    | .handleOverflow _ => c.backend.state.table.watchers.toFinset
    | _ => ∅
  { c with
    point := .handling (watchers ∪ overflowed)
    buffer := nextEvent c.buffer
    handled := c.handled ++ [(readEvent c.buffer).1] }.act ws (c.nextAction faults)

/-- One subscription of the event, in the loop of `handleEvent`. -/
def handleSubscription (c : EventLoop W) (ws : Watchers W) (watchers : Finset W)
    (event : InotifyEvent) (pointer : Nat) (answers : EventAnswers) : Option (EventLoop W) :=
  let s := c.backend.state
  s.table.heap[pointer]?.bind fun sub =>
    let touched := (s.handleSubscription (ws.watcher sub.watcher) event pointer sub answers).1
    { c with point := .handling (if touched then insert sub.watcher watchers else watchers) }.act ws
      (.handleSubscription event pointer answers)

/-- A step of another thread. What a drain leaves in the list has been looked at. -/
def other (c : EventLoop W) (ws : Watchers W) : InotifyAction W → Option (EventLoop W)
  | .drain id => (c.act ws (.drain id)).map fun c' => c'.look id
  | action => if action.elsewhere then c.act ws action else none

/-- One step of the thread where it is, or of the world around it. -/
def step (ws : Watchers W) (c : EventLoop W) (a : EventLoopAction W) : Option (EventLoop W) :=
  match a, c.point with
  | .queue event, _ =>
      some { c with queue := c.queue ++ [event], queued := c.queued ++ [event] }
  | .poll readable, .announcing watchers =>
      if watchers = ∅ then
        some { c with point := if readable then .handling ∅ else .notifying ∅ }
      else none
  | .leave, .announcing watchers => if watchers = ∅ then some { c with point := .ended } else none
  | .leave, .handling _ => if c.atRead then some { c with point := .ended } else none
  | .read count, .handling _ =>
      let buf := (c.queue.take count).flatMap QueuedEvent.bytes
      if c.atRead ∧ buf ≠ [] ∧ buf.length ≤ BUFFER_SIZE then
        some { c with buffer := buf, queue := c.queue.drop count }
      else none
  | .again, .handling watchers =>
      if c.atRead ∧ c.queue = [] then some { c with point := .notifying watchers } else none
  | .next faults, .handling watchers =>
      if c.buffer ≠ [] then c.next ws watchers faults else none
  | .handleSubscription event pointer answers, .handling watchers =>
      c.handleSubscription ws watchers event pointer answers
  | .notify id, .notifying watchers =>
      if id ∈ watchers then some { c.look id with point := .notifying (watchers.erase id) }
      else none
  | .notify id, .announcing watchers =>
      if id ∈ watchers then some { c.look id with point := .announcing (watchers.erase id) }
      else none
  | .flushExpiredMoves now faults, .notifying watchers =>
      if watchers = ∅ then
        { c with point := .announcing (expiredWatchers c.backend.state now) }.act ws
          (.flushExpiredMoves now faults)
      else none
  | .other action, _ => c.other ws action
  | _, _ => none

end EventLoop

def eventLoopMachine (ws : Watchers W) : Machine (EventLoop W) (EventLoopAction W) :=
  .ofStep (.start ws) (EventLoop.step ws)

namespace EventLoop

variable {ws : Watchers W} {c c' : EventLoop W} {watchers : Finset W}

/-! ## What the routines do -/

theorem of_act {a : InotifyAction W} (h : c.act ws a = some c') :
    ∃ b, c.backend.step ws a = some b ∧ c' = { c with backend := b } := by
  obtain ⟨b, hb, rfl⟩ := Option.map_eq_some_iff.mp h
  exact ⟨b, hb, rfl⟩

omit [DecidableEq W] in
theorem nextAction_cases (c : EventLoop W) (faults : RmFaults) :
    c.nextAction faults = .handleOverflow faults ∨
      c.nextAction faults = .handleEvent (readEvent c.buffer).1 := by
  unfold nextAction
  dsimp only
  split
  · exact Or.inl rfl
  · exact Or.inr rfl

/-- A turn of the loop handles the event, or the overflow that it stands for. -/
theorem of_next {faults : RmFaults} (h : c.next ws watchers faults = some c') :
    ∃ b watchers', c.backend.step ws (c.nextAction faults) = some b ∧
      (∀ id, id ∈ watchers' ↔ id ∈ watchers ∨
        (∃ faults', c.nextAction faults = .handleOverflow faults') ∧
          id ∈ c.backend.state.table.watchers) ∧
      c' = { c with
        backend := b
        point := .handling watchers'
        buffer := nextEvent c.buffer
        handled := c.handled ++ [(readEvent c.buffer).1] } := by
  unfold next at h
  extract_lets overflowed at h
  obtain ⟨b, hb, rfl⟩ := of_act h
  refine ⟨b, watchers ∪ overflowed, hb, fun id => ?_, rfl⟩
  have hmem : id ∈ overflowed ↔ (∃ faults', c.nextAction faults = .handleOverflow faults') ∧
      id ∈ c.backend.state.table.watchers := by
    show id ∈ (match c.nextAction faults with | .handleOverflow _ => _ | _ => _) ↔ _
    cases c.nextAction faults with
    | handleOverflow faults' => simp
    | _ => simp
  rw [Finset.mem_union, hmem]

/-- The watcher of the subscription is touched if the routine says so. -/
theorem of_handleSubscription {event : InotifyEvent} {pointer : Nat} {answers : EventAnswers}
    (h : c.handleSubscription ws watchers event pointer answers = some c') :
    ∃ sub b, c.backend.state.table.heap[pointer]? = some sub ∧
      c.backend.step ws (.handleSubscription event pointer answers) = some b ∧
      c' = { c with
        backend := b
        point := .handling (if (c.backend.state.handleSubscription (ws.watcher sub.watcher) event
          pointer sub answers).1 then insert sub.watcher watchers else watchers) } := by
  obtain ⟨sub, hsub, hact⟩ := Option.bind_eq_some_iff.mp h
  obtain ⟨b, hb, rfl⟩ := of_act hact
  exact ⟨sub, b, hsub, hb, rfl⟩

theorem of_other {action : InotifyAction W} (h : c.other ws action = some c') :
    ∃ b, c.backend.step ws action = some b ∧
      ((∃ id, action = .drain id ∧ c' = { c with backend := b }.look id) ∨
        action.elsewhere = true ∧ c' = { c with backend := b }) := by
  unfold other at h
  split at h
  next id =>
      obtain ⟨c₁, hact, rfl⟩ := Option.map_eq_some_iff.mp h
      obtain ⟨b, hb, rfl⟩ := of_act hact
      exact ⟨b, hb, Or.inl ⟨id, rfl, rfl⟩⟩
  next =>
      split at h
      next helse =>
        obtain ⟨b, hb, rfl⟩ := of_act h
        exact ⟨b, hb, Or.inr ⟨helse, rfl⟩⟩
      next => cases h

/-- The steps, with the place of the thread that each needs. -/
inductive Steps (ws : Watchers W) (c : EventLoop W) : EventLoopAction W → EventLoop W → Prop
  | queue (event : QueuedEvent) :
      Steps ws c (.queue event) { c with queue := c.queue ++ [event], queued := c.queued ++ [event] }
  | poll (readable : Bool) (hpoint : c.point = .announcing ∅) :
      Steps ws c (.poll readable) { c with point := if readable then .handling ∅ else .notifying ∅ }
  | leavePoll (hpoint : c.point = .announcing ∅) : Steps ws c .leave { c with point := .ended }
  | leaveRead (watchers : Finset W) (hpoint : c.point = .handling watchers)
      (hread : c.atRead = true) : Steps ws c .leave { c with point := .ended }
  | read (count : Nat) (watchers : Finset W) (hpoint : c.point = .handling watchers)
      (hread : c.atRead = true) :
      Steps ws c (.read count) { c with
        buffer := (c.queue.take count).flatMap QueuedEvent.bytes
        queue := c.queue.drop count }
  | again (watchers : Finset W) (hpoint : c.point = .handling watchers) (hread : c.atRead = true) :
      Steps ws c .again { c with point := .notifying watchers }
  | next (faults : RmFaults) (watchers : Finset W) (c' : EventLoop W)
      (hpoint : c.point = .handling watchers) (hbuffer : c.buffer ≠ [])
      (hnext : c.next ws watchers faults = some c') : Steps ws c (.next faults) c'
  | handleSubscription (event : InotifyEvent) (pointer : Nat) (answers : EventAnswers)
      (watchers : Finset W) (c' : EventLoop W) (hpoint : c.point = .handling watchers)
      (hhandle : c.handleSubscription ws watchers event pointer answers = some c') :
      Steps ws c (.handleSubscription event pointer answers) c'
  | notify (id : W) (watchers : Finset W) (hpoint : c.point = .notifying watchers) :
      Steps ws c (.notify id) { c.look id with point := .notifying (watchers.erase id) }
  | announce (id : W) (watchers : Finset W) (hpoint : c.point = .announcing watchers) :
      Steps ws c (.notify id) { c.look id with point := .announcing (watchers.erase id) }
  | flushExpiredMoves (now : Nat) (faults : RmFaults) (c' : EventLoop W)
      (hpoint : c.point = .notifying ∅)
      (hflush : { c with point := .announcing (expiredWatchers c.backend.state now) }.act ws
        (.flushExpiredMoves now faults) = some c') : Steps ws c (.flushExpiredMoves now faults) c'
  | other (action : InotifyAction W) (c' : EventLoop W) (hother : c.other ws action = some c') :
      Steps ws c (.other action) c'

theorem steps_of_step {a : EventLoopAction W} (hs : c.step ws a = some c') : Steps ws c a c' := by
  unfold EventLoop.step at hs
  split at hs
  next event =>
      cases hs
      exact .queue event
  next readable watchers hpoint =>
      split at hs
      next hnone =>
          cases hs
          exact .poll readable (hnone ▸ hpoint)
      next => cases hs
  next watchers hpoint =>
      split at hs
      next hnone =>
          cases hs
          exact .leavePoll (hnone ▸ hpoint)
      next => cases hs
  next watchers hpoint =>
      split at hs
      next hread =>
          cases hs
          exact .leaveRead watchers hpoint hread
      next => cases hs
  next count watchers hpoint =>
      extract_lets buf at hs
      split at hs
      next hread =>
          cases hs
          exact .read count watchers hpoint hread.1
      next => cases hs
  next watchers hpoint =>
      split at hs
      next hread =>
          cases hs
          exact .again watchers hpoint hread.1
      next => cases hs
  next faults watchers hpoint =>
      split at hs
      next hbuffer => exact .next faults watchers c' hpoint hbuffer hs
      next => cases hs
  next event pointer answers watchers hpoint =>
      exact .handleSubscription event pointer answers watchers c' hpoint hs
  next id watchers hpoint =>
      split at hs
      · cases hs
        exact .notify id watchers hpoint
      · cases hs
  next id watchers hpoint =>
      split at hs
      · cases hs
        exact .announce id watchers hpoint
      · cases hs
  next now faults watchers hpoint =>
      split at hs
      next hnone => exact .flushExpiredMoves now faults c' (hnone ▸ hpoint) hs
      next => cases hs
  next action => exact .other action c' hs
  next => cases hs

/-! ## Every event in its turn -/

omit [DecidableEq W] in
theorem buffer_of_atRead (h : c.atRead = true) : c.buffer = [] :=
  List.isEmpty_iff.mp (Bool.and_eq_true_iff.mp h).1

/-- What was queued was handled, or is in the buffer, or waits. -/
structure InTurn (c : EventLoop W) : Prop where
  order : ∃ rest : List QueuedEvent, c.buffer = rest.flatMap QueuedEvent.bytes ∧
    c.handled ++ (rest ++ c.queue).map QueuedEvent.event = c.queued.map QueuedEvent.event
  consumed : c.point.isHandling = false → c.buffer = []

omit [DecidableEq W] in
/-- The same events, wherever the thread is. -/
theorem InTurn.of_eq (h : c.InTurn) (hbuffer : c'.buffer = c.buffer) (hqueue : c'.queue = c.queue)
    (hqueued : c'.queued = c.queued) (hhandled : c'.handled = c.handled)
    (hconsumed : c'.point.isHandling = false → c.buffer = []) : c'.InTurn := by
  refine ⟨?_, fun hpoint => hbuffer.trans (hconsumed hpoint)⟩
  rw [hbuffer, hqueue, hqueued, hhandled]
  exact h.order

theorem InTurn.next (h : c.InTurn) (hbuffer : c.buffer ≠ []) {faults : RmFaults}
    (hs : c.next ws watchers faults = some c') : c'.InTurn := by
  obtain ⟨rest, hrest, horder⟩ := h.order
  obtain ⟨b, watchers', -, -, rfl⟩ := of_next hs
  refine ⟨?_, fun hne => Bool.noConfusion hne⟩
  cases rest with
  | nil => exact absurd hrest hbuffer
  | cons e rest =>
      rw [List.flatMap_cons] at hrest
      refine ⟨rest, ?_, ?_⟩
      · show nextEvent c.buffer = _
        rw [hrest, e.nextEvent_bytes]
      · show c.handled ++ [(readEvent c.buffer).1] ++ (rest ++ c.queue).map QueuedEvent.event = _
        rw [hrest, e.readEvent_bytes, List.append_assoc, ← horder]
        rfl

theorem InTurn.step (h : c.InTurn) {a : EventLoopAction W} (hs : c.step ws a = some c') :
    c'.InTurn := by
  cases steps_of_step hs with
  | queue event =>
      obtain ⟨rest, hrest, horder⟩ := h.order
      refine ⟨⟨rest, hrest, ?_⟩, h.consumed⟩
      show c.handled ++ (rest ++ (c.queue ++ [event])).map QueuedEvent.event =
        (c.queued ++ [event]).map QueuedEvent.event
      rw [← List.append_assoc, List.map_append, ← List.append_assoc, horder, List.map_append]
  | poll readable hpoint => exact h.of_eq rfl rfl rfl rfl fun _ => h.consumed (hpoint ▸ rfl)
  | leavePoll hpoint => exact h.of_eq rfl rfl rfl rfl fun _ => h.consumed (hpoint ▸ rfl)
  | leaveRead watchers hpoint hread =>
      exact h.of_eq rfl rfl rfl rfl fun _ => buffer_of_atRead hread
  | read count watchers hpoint hread =>
      obtain ⟨rest, hrest, horder⟩ := h.order
      obtain rfl : rest = [] := by
        rw [buffer_of_atRead hread] at hrest
        exact QueuedEvent.eq_nil_of_flatMap_bytes hrest.symm
      have hhandling : c.point.isHandling = true := hpoint ▸ rfl
      refine ⟨⟨c.queue.take count, rfl, ?_⟩,
        fun hne => Bool.noConfusion (hhandling.symm.trans hne)⟩
      rw [List.take_append_drop]
      exact horder
  | again watchers hpoint hread =>
      exact h.of_eq rfl rfl rfl rfl fun _ => buffer_of_atRead hread
  | next faults watchers _ hpoint hbuffer hnext => exact h.next hbuffer hnext
  | handleSubscription event pointer answers watchers _ hpoint hhandle =>
      obtain ⟨sub, b, -, -, rfl⟩ := of_handleSubscription hhandle
      exact h.of_eq rfl rfl rfl rfl fun hne => Bool.noConfusion hne
  | notify id watchers hpoint =>
      exact h.of_eq rfl rfl rfl rfl fun _ => h.consumed (hpoint ▸ rfl)
  | announce id watchers hpoint =>
      exact h.of_eq rfl rfl rfl rfl fun _ => h.consumed (hpoint ▸ rfl)
  | flushExpiredMoves now faults _ hpoint hflush =>
      obtain ⟨b, -, rfl⟩ := of_act hflush
      exact h.of_eq rfl rfl rfl rfl fun _ => h.consumed (hpoint ▸ rfl)
  | other action _ hother =>
      obtain ⟨b, -, ⟨id, -, rfl⟩ | ⟨-, rfl⟩⟩ := of_other hother
      · exact h.of_eq rfl rfl rfl rfl h.consumed
      · exact h.of_eq rfl rfl rfl rfl h.consumed

theorem inTurn_of_reachable (h : (eventLoopMachine ws).Reachable c) : c.InTurn := by
  refine h.invariant ?_ fun _ _ _ hi hs => hi.step hs
  rintro _ rfl
  exact ⟨⟨[], rfl, rfl⟩, fun _ => rfl⟩

/-! ## The runs of the backend -/

/-- What the backend does in a step, if anything. -/
def backendAction (c : EventLoop W) : EventLoopAction W → Option (InotifyAction W)
  | .next faults => some (c.nextAction faults)
  | .handleSubscription event pointer answers => some (.handleSubscription event pointer answers)
  | .flushExpiredMoves now faults => some (.flushExpiredMoves now faults)
  | .other action => some action
  | _ => none

theorem backend_step {a : EventLoopAction W} (hs : c.step ws a = some c') :
    (c.backendAction a = none ∧ c'.backend = c.backend) ∨
      ∃ action, c.backendAction a = some action ∧
        c.backend.step ws action = some c'.backend := by
  cases steps_of_step hs with
  | next faults watchers _ hpoint hbuffer hnext =>
      obtain ⟨b, _, hb, -, rfl⟩ := of_next hnext
      exact Or.inr ⟨_, rfl, hb⟩
  | handleSubscription event pointer answers watchers _ hpoint hhandle =>
      obtain ⟨_, b, -, hb, rfl⟩ := of_handleSubscription hhandle
      exact Or.inr ⟨_, rfl, hb⟩
  | flushExpiredMoves now faults _ hpoint hflush =>
      obtain ⟨b, hb, rfl⟩ := of_act hflush
      exact Or.inr ⟨_, rfl, hb⟩
  | other action _ hother =>
      obtain ⟨b, hb, ⟨_, rfl, rfl⟩ | ⟨-, rfl⟩⟩ := of_other hother
      · exact Or.inr ⟨_, rfl, hb⟩
      · exact Or.inr ⟨_, rfl, hb⟩
  -- The thread reads, notifies or changes its place.
  | queue | poll | leavePoll | leaveRead | read | again | notify | announce =>
      exact Or.inl ⟨rfl, rfl⟩

/-- Whatever holds of the runs of the backend holds of it under its thread. -/
theorem reachable_backend (h : (eventLoopMachine ws).Reachable c) :
    (inotifyMachine ws).Reachable c.backend := by
  induction h with
  | init h =>
      rw [h]
      exact .init rfl
  | step _ _ hs ih =>
      rcases backend_step hs with ⟨-, hsame⟩ | ⟨action, -, haction⟩
      · rw [hsame]
        exact ih
      · exact .step ih trivial haction

/-! ## The order of the events -/

/-- The thread drives the backend along a run of it, and handles every event that the kernel
has queued once and in order, wherever the reads have cut the queue. -/
theorem events_in_turn (ws : Watchers W) (c : EventLoop W)
    (h : (eventLoopMachine ws).Reachable c) :
    (inotifyMachine ws).Reachable c.backend ∧
      c.handled <+: c.queued.map QueuedEvent.event ∧
        (c.buffer = [] →
          c.handled ++ c.queue.map QueuedEvent.event = c.queued.map QueuedEvent.event) ∧
          (c.point.isHandling = false → c.buffer = []) := by
  have hturn := inTurn_of_reachable h
  obtain ⟨rest, hrest, horder⟩ := hturn.order
  refine ⟨reachable_backend h, ⟨_, horder⟩, fun hbuffer => ?_, hturn.consumed⟩
  obtain rfl : rest = [] := QueuedEvent.eq_nil_of_flatMap_bytes (hrest.symm.trans hbuffer)
  exact horder

section Examples

open WatchedBackend

/-- An event of the file `b` in the root. -/
def queuedB (mask : UInt32) : QueuedEvent :=
  ⟨1, mask, 0, some ⟨[98], 15, by simp, by decide, by decide⟩⟩

/-- One event of `b`, read and handled for the subscription of the root. -/
def readB (mask : UInt32) : List (EventLoopAction Unit) :=
  [.read 1, .next fun _ => none, .handleSubscription (queuedB mask).event 0 (fileAnswers true)]

/-- The file `b` is created and written to, and the thread polls again. -/
def loopRun : List (EventLoopAction Unit) :=
  [.other (.subscribe () subscribeFile), .queue (queuedB IN_CREATE), .queue (queuedB IN_MODIFY),
    .poll true] ++ readB IN_CREATE ++ readB IN_MODIFY ++
      [.again, .notify (), .flushExpiredMoves 0 fun _ => none]

theorem events_in_turn_written :
    ∃ c, Machine.execute (step plainWatchers) (start plainWatchers) loopRun = some c ∧
      c.queued = [queuedB IN_CREATE, queuedB IN_MODIFY] ∧
      c.handled ++ c.queue.map QueuedEvent.event = c.queued.map QueuedEvent.event := by
  have h₀ : (eventLoopMachine plainWatchers).Reachable (start plainWatchers) := .init rfl
  have h := h₀.execute (l := loopRun) rfl
  exact ⟨_, rfl, rfl, (events_in_turn plainWatchers _ h).2.2.1 rfl⟩

end Examples

end EventLoop

end NativeWatcher
