import NativeWatcher.Linux.ViewAgreement
import NativeWatcher.Watcher.EventSource

/-!
# The tree and the callbacks on Linux

The backend fills the event list of a watcher, `triggerCallbacks` drains it for the callbacks,
and each of them is called on its JavaScript thread. In every interleaving whose backend steps
meet the conditions of the batches, a callback that is open is told the keys of the tree.
-/

namespace NativeWatcher

open EventList

variable {W : Type} [DecidableEq W]

/-- Without pending moves the view and the list make up the tree. -/
theorem InotifyState.Kept.deliver_drain {s : InotifyState W} {id : W} {V : Finset EventKey}
    (h : s.Kept id V) (hvalid : (s.watchers id).invalidated = false)
    (hmoves : ∀ cookie, s.mPendingMoves.lookup (id, cookie) = none) :
    deliver V (s.watchers id).mEvents.drain.1.events = (s.watchers id).tree.keys := by
  have hnone : s.parked id = ∅ := by
    ext k
    refine iff_of_false ?_ (Set.notMem_empty k)
    rintro ⟨cookie, m, hm, _⟩
    rw [hmoves cookie] at hm
    cases hm
  have hfollows := h hvalid
  unfold InotifyState.Agrees at hfollows
  rw [hnone] at hfollows
  ext k
  exact mem_deliver_drain .. |>.trans (hfollows.told_iff k)

namespace WatchedBackend

variable {ws : Watchers W} {id : W}

/-- The event list of the watcher is drained by `triggerCallbacks` only. -/
def drains (id : W) : InotifyAction W → Bool
  | .drain id' => id' == id
  | _ => false

def source (ws : Watchers W) (id : W) : EventSource (WatchedBackend W) (InotifyAction W) where
  mEvents c := (c.backend.state.watchers id).mEvents
  view c := c.view
  step c a := if drains id a then none else c.step ws id a
  drain c :=
    { backend := { c.backend with state := c.backend.state.drain id }
      view := deliver c.view (c.backend.state.watchers id).mEvents.drain.1.events }
  view_step := by
    intro c a c' hs
    split at hs
    · cases hs
    next hdrains =>
        unfold step at hs
        split at hs
        · cases hs
        · obtain ⟨b, _, rfl⟩ := Option.map_eq_some_iff.mp hs
          cases a with
          | drain id' =>
              have hne : id' ≠ id := by simpa [drains] using hdrains
              exact if_neg hne
          | _ => rfl
  view_drain _ := rfl

/-- The backend runs as it does for a consumer of every batch. -/
theorem reach_source {Fn Env : Type} [DecidableEq Fn] [DecidableEq Env]
    {c₀ : WatchedBackend W} {d : Delivery (WatchedBackend W) Fn Env}
    (h : (Machine.ofStep (Delivery.start c₀) (Delivery.step (source ws id))).Reach
      (Delivery.SourceMeets (Sound ws id)) d) :
    (Machine.ofStep c₀ (step ws id)).Reach (Sound ws id) d.source := by
  apply Delivery.source_invariant (.init rfl) _ _ h
  · intro c a c' hc hok hs
    change (if drains id a then none else c.step ws id a) = some c' at hs
    split at hs
    · cases hs
    · exact .step hc hok hs
  · intro c hc
    refine .step (a := .drain id) hc trivial ?_
    show some _ = some _
    rw [InotifyAction.delivers, if_pos rfl]
    rfl

/-- **From inotify to the callbacks.** Whenever the watcher is valid and no move is pending:
the calls made, the calls queued and the list not yet drained make of a consumer that joined
with what had been told before one that holds the keys of the tree. -/
theorem callback_holds_tree {Fn Env : Type} [DecidableEq Fn] [DecidableEq Env] (ws : Watchers W)
    (id : W) (c₀ : WatchedBackend W) (d : Delivery (WatchedBackend W) Fn Env)
    (hstart : Started ws id c₀)
    (h : (Machine.ofStep (Delivery.start c₀) (Delivery.step (source ws id))).Reach
      (Delivery.SourceMeets (Sound ws id)) d)
    (hvalid : (d.source.backend.state.watchers id).invalidated = false)
    (hmoves : ∀ cookie, d.source.backend.state.mPendingMoves.lookup (id, cookie) = none)
    (cb : Nat) (hopen : d.callbacks.Open cb) (hmissed : d.callbacks.missed cb = false)
    (hkept : (d.callbacks.tsfn cb).channel.discarded = false) :
    deliver (told c₀.view (d.callbacks.batches.take (d.callbacks.joined cb)))
        ((d.callbacks.tsfn cb).channel.handled.flatMap CallbackData.events ++
          (d.callbacks.tsfn cb).channel.queue.flatMap CallbackData.events ++
          (d.source.backend.state.watchers id).mEvents.drain.1.events) =
      (d.source.backend.state.watchers id).tree.keys := by
  refine ((Delivery.tells_of_reach h).consumer_joins hopen hmissed hkept _).trans ?_
  exact (kept_of_reach hstart (reach_source h)).deliver_drain hvalid hmoves

/-- A callback is added, `/r/b` is created, and the callback is called. -/
def deliveredRun : List (DeliveryAction (InotifyAction Unit) Nat Nat) :=
  .callbacks (.watch 0 0 7 true) :: createRun.map .source ++
    [.triggerCallbacks fun _ => false, .callbacks (.callJSFunction 1)]

theorem callback_holds_tree_create :
    ∃ d, Machine.execute (Delivery.step (source plainWatchers ())) (Delivery.start subscribedFile)
        deliveredRun = some d ∧
      ([47, 114, 47, 98], EntryKind.File) ∈ (d.source.backend.state.watchers ()).tree.keys ∧
      deliver subscribedFile.view ((d.callbacks.tsfn 1).channel.handled.flatMap CallbackData.events) =
        (d.source.backend.state.watchers ()).tree.keys := by
  have h₀ : (Machine.ofStep (Delivery.start subscribedFile : Delivery _ Nat Nat)
      (Delivery.step (source plainWatchers ()))).Reach
      (Delivery.SourceMeets (Sound plainWatchers ())) (Delivery.start subscribedFile) := .init rfl
  have hadmits : Machine.Admits (Delivery.SourceMeets (Sound plainWatchers ()))
      (Delivery.step (source plainWatchers ())) (Delivery.start subscribedFile) deliveredRun := by
    obtain ⟨h₁, h₂, _⟩ := createRun_admitted
    exact ⟨trivial, h₁, h₂, trivial, trivial, trivial⟩
  refine ⟨_, rfl, by decide, ?_⟩
  exact callback_holds_tree plainWatchers () subscribedFile _ subscribedFile_started
    (h₀.execute hadmits rfl) rfl (fun _ => rfl) 1 ⟨_, List.mem_singleton_self _, rfl, rfl⟩ rfl rfl

end WatchedBackend

end NativeWatcher
