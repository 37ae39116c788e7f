import NativeWatcher.Windows.ViewAgreement
import NativeWatcher.Watcher.EventSource

/-!
# The tree and the callbacks on Windows

The thread of a subscription fills the event list, `triggerCallbacks` drains it for the
callbacks, and each of them is called on its JavaScript thread.
-/

namespace NativeWatcher

open EventList

namespace WinSession

/-- The event list is drained by `triggerCallbacks` only, and no drain comes in the middle of a
buffer. -/
def source (w : WinWatcher) : EventSource WinSession WinAction where
  mEvents c := c.subscription.mEvents
  view := view
  step c
    | .buffer answers bytes numBytes => step w c (.buffer answers bytes numBytes)
    | .drain => none
  drain c :=
    { subscription := { c.subscription with mEvents := c.subscription.mEvents.drain.2 }
      view := deliver c.view c.subscription.mEvents.drain.1.events }
  view_step := by
    intro c a c' hs
    cases a with
    | buffer answers bytes numBytes =>
        obtain ⟨s, _, rfl⟩ := Option.map_eq_some_iff.mp hs
        rfl
    | drain => cases hs
  view_drain _ := rfl

/-- The subscription runs as it does for a consumer of every batch. -/
theorem reach_source {Fn Env : Type} [DecidableEq Fn] [DecidableEq Env] {w : WinWatcher}
    {tree : DirTree} {d : Delivery WinSession Fn Env}
    (h : (Machine.ofStep (Delivery.start (started tree)) (Delivery.step (source w))).Reach
      (Delivery.SourceMeets (Sound w)) d) :
    (Machine.ofStep (started tree) (step w)).Reach (Sound w) d.source := by
  apply Delivery.source_invariant (.init rfl) _ _ h
  · intro c a c' hc hok hs
    cases a with
    | buffer answers bytes numBytes => exact .step hc hok hs
    | drain => cases hs
  · exact fun c hc => .step (a := .drain) hc trivial rfl

/-- **From the buffers to the callbacks.** Until a read overflows: the calls made, the calls
queued and the list not yet drained make of a consumer that joined with what had been told
before one that holds the keys of the tree. -/
theorem callback_holds_keys {Fn Env : Type} [DecidableEq Fn] [DecidableEq Env] (w : WinWatcher)
    (tree : DirTree) (d : Delivery WinSession Fn Env)
    (h : (Machine.ofStep (Delivery.start (started tree)) (Delivery.step (source w))).Reach
      (Delivery.SourceMeets (Sound w)) d)
    (hover : d.source.subscription.mOverflowed = false)
    (cb : Nat) (hopen : d.callbacks.Open cb) (hmissed : d.callbacks.missed cb = false)
    (hkept : (d.callbacks.tsfn cb).channel.discarded = false) :
    deliver (told tree.keys (d.callbacks.batches.take (d.callbacks.joined cb)))
        ((d.callbacks.tsfn cb).channel.handled.flatMap CallbackData.events ++
          (d.callbacks.tsfn cb).channel.queue.flatMap CallbackData.events ++
          d.source.subscription.mEvents.drain.1.events) =
      d.source.subscription.mTree.keys := by
  refine ((Delivery.tells_of_reach h).consumer_joins hopen hmissed hkept _).trans ?_
  ext k
  exact (mem_deliver_drain ..).trans ((agrees_of_reach (reach_source h) hover).told k)

/-- A callback is added, two records are read, and the callback is called. -/
def deliveredBuffer : List (DeliveryAction WinAction Nat Nat) :=
  [.callbacks (.watch 0 0 7 true), .source (.buffer fileAnswers twoRecords 30),
    .triggerCallbacks fun _ => false, .callbacks (.callJSFunction 1)]

theorem callback_holds_keys_two :
    ∃ d, Machine.execute (Delivery.step (source plainWatcher)) (Delivery.start (started fileTree))
        deliveredBuffer = some d ∧
      deliver (started fileTree).view
          ((d.callbacks.tsfn 1).channel.handled.flatMap CallbackData.events) =
        d.source.subscription.mTree.keys := by
  have h₀ : (Machine.ofStep (Delivery.start (started fileTree) : Delivery _ Nat Nat)
      (Delivery.step (source plainWatcher))).Reach (Delivery.SourceMeets (Sound plainWatcher))
      (Delivery.start (started fileTree)) := .init rfl
  refine ⟨_, rfl, ?_⟩
  have hreach := h₀.execute (l := deliveredBuffer)
    ⟨trivial, twoRecords_told, trivial, trivial, trivial⟩ rfl
  exact callback_holds_keys plainWatcher fileTree _ hreach (by decide) 1
    ⟨_, List.mem_singleton_self _, rfl, rfl⟩ rfl rfl

end WinSession

end NativeWatcher
