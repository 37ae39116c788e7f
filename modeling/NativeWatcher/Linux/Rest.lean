import NativeWatcher.Linux.Wakeups
import NativeWatcher.Watcher.Settled

/-!
# The inotify thread and the debouncer at rest

The thread of `start` is a backend in the sense of `Notifier`: between two calls of `notify`
it owes the watchers it has collected. The drains are those of the debouncer.
-/

namespace NativeWatcher

variable {W : Type} [DecidableEq W]

namespace EventLoop

/-- `triggerCallbacks` drains the list of a watcher. -/
def drain (c : EventLoop W) (id : W) : EventLoop W :=
  { c with backend := { c.backend with state := c.backend.state.drain id } }.look id

/-- The steps that are no calls of `notify` and no drains. -/
def ownStep (ws : Watchers W) (c : EventLoop W) : EventLoopAction W → Option (EventLoop W)
  | .notify _ | .other (.drain _) => none
  | a => c.step ws a

theorem of_ownStep {ws : Watchers W} {c c' : EventLoop W} {a : EventLoopAction W}
    (hs : c.ownStep ws a = some c') : c.step ws a = some c' ∧ ∀ id, ¬ LooksAt id a := by
  unfold ownStep at hs
  split at hs
  · cases hs
  · cases hs
  next hnotify hdrain =>
      refine ⟨hs, fun id hlook => ?_⟩
      cases a with
      | notify id' => exact hnotify id' rfl
      | other action =>
          cases action with
          | drain id' => exact hdrain id' rfl
          | _ => exact hlook
      | _ => exact hlook

def notifier (ws : Watchers W) : Notifier W (EventLoop W) (EventLoopAction W) where
  mEvents := EventLoop.mEvents
  owed c := c.point.owed
  ok := MovesArrive ws
  step := ownStep ws
  notify c id := c.step ws (.notify id)
  drain := EventLoop.drain
  of_step hok hs hid := by
    obtain ⟨hstep, hlook⟩ := of_ownStep hs
    have hsame := unmoved_of_step hok (hlook _) hstep hid
    exact ⟨hsame.owed, hsame.mEvents⟩
  of_notify hs := by
    obtain ⟨point, rfl, howed⟩ := of_notify hs
    exact ⟨rfl, howed⟩
  drain_self c id := by
    show ((c.backend.state.drain id).watchers id).mEvents = _
    rw [InotifyState.watchers_drain]
    rfl
  drain_of_ne hne := congrArg WatcherState.mEvents (InotifyState.sameFor_drain hne).watcher
  owed_drain _ _ := rfl

/-- When the thread is about to poll and the debouncer waits with its signal down, every change
that the event list of a watcher with callbacks was told of has been handed on. -/
theorem nothing_left (ws : Watchers W) (id : W) (d : Debounced W (EventLoop W))
    (h : (Machine.ofStep (Debounced.start (start ws)) (Debounced.step (notifier ws))).Reach
      (Debounced.Sound (notifier ws) id) d)
    (hpoint : d.source.point = .announcing ∅) (htriggers : d.triggers = false)
    (hwaiting : d.debounce.point = .waiting) (hflag : d.debounce.mFlag = false)
    (hrunning : d.debounce.mRunning = true) (hwatched : d.watched id = true)
    (hin : id ∈ d.mCallbacks) :
    (d.source.mEvents id).size = 0 ∧ (d.source.mEvents id).hasError = false := by
  have howed : (notifier ws).owed d.source = ∅ := by
    show d.source.point.owed = ∅
    rw [hpoint]
    exact Finset.coe_empty
  have hwaits := (Debounced.restInv_of_reach h).at_rest howed htriggers hwaiting hflag hrunning
    hwatched hin
  exact EventList.waits_eq_false_iff.mp hwaits

section Examples

open WatchedBackend

/-- The watcher has a callback and is subscribed, and the debouncer waits. -/
def subscribedRun : List (DebouncedAction Unit (EventLoopAction Unit)) :=
  [.add (), .watch (), .source (.other (.subscribe () subscribeFile)), .debounce (.loop true)]

/-- The file `b` is created, and a round of the debouncer begins. -/
def createdRun : List (DebouncedAction Unit (EventLoopAction Unit)) :=
  .source (.queue (queuedB IN_CREATE)) :: .source (.poll true) ::
    (readB IN_CREATE).map .source ++
      [.source .again, .notify (), .debounce (.lock 0), .debounce (.notify 0),
        .debounce (.unlock 0)] ++ List.replicate 5 (.debounce (.loop true))

/-- The round ends, and the thread polls again. -/
def endedRun : List (DebouncedAction Unit (EventLoopAction Unit)) :=
  List.replicate 4 (.debounce (.loop true)) ++ [.source (.flushExpiredMoves 0 fun _ => none)]

theorem arrives_created (c : EventLoop Unit) (event : InotifyEvent) :
    c.MovesArrive plainWatchers (.handleSubscription event 0 (fileAnswers true)) :=
  fun _ _ _ _ _ hnone => by cases hnone

theorem nothing_left_created :
    ∃ d, Machine.execute (Debounced.step (notifier plainWatchers))
        (Debounced.start (start plainWatchers))
        (subscribedRun ++ createdRun ++ .triggerCallbacks () :: endedRun) = some d ∧
      ([47, 114, 47, 98], EntryKind.File) ∈ (d.source.backend.state.watchers ()).tree.keys ∧
      (d.source.mEvents ()).size = 0 := by
  have h₀ : (Machine.ofStep (Debounced.start (start plainWatchers))
      (Debounced.step (notifier plainWatchers))).Reach (Debounced.Sound (notifier plainWatchers) ())
      (Debounced.start (start plainWatchers)) := .init rfl
  have hadmits : Machine.Admits (Debounced.Sound (notifier plainWatchers) ())
      (Debounced.step (notifier plainWatchers)) (Debounced.start (start plainWatchers))
      (subscribedRun ++ createdRun ++ .triggerCallbacks () :: endedRun) :=
    ⟨fun _ => .inr rfl, fun _ => .inr rfl, trivial, trivial, trivial, trivial, trivial, trivial,
      arrives_created _ _, trivial, trivial, trivial, trivial, trivial, trivial, trivial, trivial,
      trivial, trivial, trivial, trivial, trivial, trivial, trivial, trivial, trivial⟩
  refine ⟨_, rfl, by decide, ?_⟩
  exact (nothing_left plainWatchers () _ (h₀.execute hadmits rfl) rfl rfl rfl rfl rfl rfl
    (by decide)).1

end Examples

end EventLoop

end NativeWatcher
