import NativeWatcher.Linux.Rest
import NativeWatcher.Linux.Delivery

/-!
# The tree and the callbacks on Linux, at rest

The thread of `start`, the debouncer, and the callbacks of one watcher from its subscription on.
Once they are at rest and the queued calls have been made, a consumer holds the tree.
-/

namespace NativeWatcher

open EventList

variable {W Fn Env : Type} [DecidableEq W]

namespace EventLoop

variable {ws : Watchers W} {id : W}

/-- What the backend does meets the condition of the batches. -/
def Meets (ws : Watchers W) (id : W) (c : EventLoop W) (V : Finset EventKey)
    (a : EventLoopAction W) : Prop :=
  c.MovesArrive ws a ∧ ∀ action, c.backendAction a = some action →
    action.concerns id = false ∧ WatchedBackend.Sound ws id ⟨c.backend, V⟩ action

theorem keeps (ws : Watchers W) (id : W) :
    (notifier ws).Keeps id (Meets ws id) fun c V => c.backend.state.Kept id V where
  meets hok := hok.1
  step := by
    intro c V a c' hkept hok hs
    obtain ⟨hstep, hlook⟩ := of_ownStep hs
    rcases backend_step hstep with ⟨-, hsame⟩ | ⟨action, haction, hbackend⟩
    · rw [hsame]
      exact hkept
    · obtain ⟨hconcerns, hsound⟩ := hok.2 action haction
      have hview : action.delivers id c.backend.state V = V := by
        cases action with
        | drain id' =>
            obtain rfl : a = .other (.drain id') := by
              cases a with
              | other => exact congrArg _ (Option.some.inj haction)
              | next faults =>
                  rcases c.nextAction_cases faults with h | h
                  · cases h.symm.trans (Option.some.inj haction)
                  · cases h.symm.trans (Option.some.inj haction)
              | _ => cases haction
            exact absurd rfl (hlook id')
        | _ => rfl
      have hrun : WatchedBackend.step ws id ⟨c.backend, V⟩ action = some ⟨c'.backend, V⟩ := by
        rw [WatchedBackend.step, hconcerns, if_neg Bool.false_ne_true, hbackend, Option.map_some,
          hview]
      have hwhole : WatchedBackend.Kept id ⟨c.backend, V⟩ := hkept
      exact WatchedBackend.kept_step hwhole hsound hrun
  notify := by
    intro c V id' c' hkept hs
    obtain ⟨point, rfl, -⟩ := of_notify hs
    exact hkept
  drain_self hkept := WatchedBackend.kept_drain hkept
  drain_of_ne hne hkept := hkept.sameFor (InotifyState.sameFor_drain hne.symm)

/-- The watcher has just been subscribed. -/
structure Subscribed (ws : Watchers W) (id : W) (x : Attached W (EventLoop W) Fn Env) : Prop where
  run : (Machine.ofStep (Debounced.start (start ws)) (Debounced.step (notifier ws))).Reach
    (Debounced.Sound (notifier ws) id) x.debounced
  subscribed : WatchedBackend.Started ws id ⟨x.debounced.source.backend, x.view⟩
  callbacks : x.callbacks.DeliveryInv
  untold : x.callbacks.batches = []
  watched : x.debounced.watched id = !x.callbacks.mCallbacks.isEmpty

theorem Subscribed.inv {x : Attached W (EventLoop W) Fn Env} (h : Subscribed ws id x) :
    x.Inv (notifier ws) id (fun c V => c.backend.state.Kept id V) x.view where
  rest := Debounced.restInv_of_reach h.run
  watched := h.watched
  tells := by
    refine ⟨h.callbacks, ?_⟩
    show told x.view x.callbacks.batches = x.view
    rw [h.untold]
    rfl
  kept := WatchedBackend.kept_started h.subscribed

/-- **From inotify to the callbacks.** When nothing is under way and the queued calls have been
made: an open callback has been told what makes of a consumer that joined with what had been
told before one that holds the keys of the tree. -/
theorem settled_holds_tree [DecidableEq Fn] [DecidableEq Env] (ws : Watchers W) (id : W)
    (x₀ x : Attached W (EventLoop W) Fn Env) (hstart : Subscribed ws id x₀)
    (h : (Machine.ofStep x₀ (Attached.step (notifier ws) id)).Reach
      (Attached.Sound (notifier ws) id (Meets ws id)) x)
    (hrest : Attached.AtRest (notifier ws) id x.debounced)
    (hvalid : (x.debounced.source.backend.state.watchers id).invalidated = false)
    (hmoves : ∀ cookie, x.debounced.source.backend.state.mPendingMoves.lookup (id, cookie) = none)
    (cb : Nat) (hopen : x.callbacks.Open cb) (hmissed : x.callbacks.missed cb = false)
    (hkept : (x.callbacks.tsfn cb).channel.discarded = false)
    (hcalled : (x.callbacks.tsfn cb).channel.queue = []) :
    deliver (told x₀.view (x.callbacks.batches.take (x.callbacks.joined cb)))
        ((x.callbacks.tsfn cb).channel.handled.flatMap CallbackData.events) =
      (x.debounced.source.backend.state.watchers id).tree.keys := by
  have hinv := Attached.inv_of_reach (keeps ws id) hstart.inv h
  obtain ⟨hwaits, hheld⟩ := hinv.at_rest hrest hopen hmissed hkept hcalled
  have hagrees := hinv.kept.deliver_drain hvalid hmoves
  rw [hheld, ← hagrees, show (x.debounced.source.backend.state.watchers id).mEvents.drain.1.events
    = [] from drain_events_of_waits hwaits]
  rfl

/-! ### A file that is created -/

section Examples

open WatchedBackend

variable {c : EventLoop W} {V : Finset EventKey} {a : EventLoopAction W} {event : InotifyEvent}
  {pointer : Nat} {answers : EventAnswers}

theorem meets_of_none (hnone : c.backendAction a = none) (harrives : c.MovesArrive ws a) :
    Meets ws id c V a :=
  ⟨harrives, fun _ haction => by cases hnone.symm.trans haction⟩

theorem meets_next (faults : RmFaults) : Meets ws id c V (.next faults) := by
  refine ⟨trivial, fun action haction => ?_⟩
  obtain rfl := Option.some.inj haction
  rcases c.nextAction_cases faults with hnext | hnext
  · rw [hnext]
    exact ⟨rfl, trivial⟩
  · rw [hnext]
    exact ⟨rfl, trivial⟩

theorem meets_flushExpiredMoves {now : Nat} {faults : RmFaults}
    (hnone : c.backend.state.mPendingMoves = ∅) :
    Meets ws id c V (.flushExpiredMoves now faults) := by
  refine ⟨trivial, fun action haction => ?_⟩
  obtain rfl := Option.some.inj haction
  refine ⟨rfl, fun _ => ?_⟩
  rw [hnone]
  exact trivial

/-- A file that appears and belongs to no move. -/
theorem meets_created (harrives : c.MovesArrive ws (.handleSubscription event pointer answers))
    (hcreate : event.has (IN_CREATE ||| IN_MOVED_TO) = true)
    (hmoved : event.has IN_MOVED_TO = false)
    (hfile : ∀ st, answers.lstat = some st → st.isSpecial = false ∧ st.isDirectory = false) :
    Meets ws id c V (.handleSubscription event pointer answers) := by
  refine ⟨harrives, fun action haction => ?_⟩
  obtain rfl := Option.some.inj haction
  refine ⟨rfl, fun sub _ _ _ => ?_⟩
  show InotifyState.HandleTold ..
  unfold InotifyState.HandleTold
  split
  next path _ =>
      have hnone : c.backend.state.pairedMove (ws.watcher id) event = none := by
        unfold InotifyState.pairedMove
        rw [hmoved, Bool.false_and, if_neg Bool.false_ne_true]
      unfold InotifyState.PathTold
      rw [if_pos hcreate]
      dsimp only
      rw [hnone]
      refine ⟨fun st hlstat hst => ?_, fun st hlstat hst => ?_⟩
      · rw [(hfile st hlstat).1] at hst
        cases hst
      · rw [(hfile st hlstat).2] at hst
        cases hst
  next => trivial

/-- One callback, from before the subscription. -/
def oneCallback : WatcherCallbacks Nat Nat := WatcherCallbacks.start.watch 0 0 7 true

/-- The file `b` is created, a round of the debouncer calls the watcher, and the callback is
called. -/
def handedRun : List (AttachedAction Unit (EventLoopAction Unit) Nat Nat) :=
  createdRun.map .debounced ++ .triggerCallbacks (fun _ => false) ::
    (endedRun.map .debounced ++ [.callbacks (.callJSFunction 1)])

theorem subscribed_oneCallback {d₀ : Debounced Unit (EventLoop Unit)}
    (hrun : Machine.execute (Debounced.step (notifier plainWatchers))
      (Debounced.start (start plainWatchers)) subscribedRun = some d₀) :
    Subscribed plainWatchers () ⟨d₀, subscribedFile.view, oneCallback⟩ := by
  have h₀ : (Machine.ofStep (Debounced.start (start plainWatchers))
      (Debounced.step (notifier plainWatchers))).Reach (Debounced.Sound (notifier plainWatchers) ())
      (Debounced.start (start plainWatchers)) := .init rfl
  refine ⟨h₀.execute (l := subscribedRun)
    ⟨fun _ => .inr rfl, fun _ => .inr rfl, trivial, trivial, trivial⟩ hrun, ?_,
    WatcherCallbacks.DeliveryInv.start.of_stepSpec
      (WatcherCallbacks.stepSpec_step (a := .watch 0 0 7 true) .start rfl), rfl, ?_⟩
  · cases hrun
    exact subscribedFile_started
  · cases hrun
    rfl

theorem handedRun_admitted {d₀ : Debounced Unit (EventLoop Unit)}
    (hrun : Machine.execute (Debounced.step (notifier plainWatchers))
      (Debounced.start (start plainWatchers)) subscribedRun = some d₀) :
    Machine.Admits (Attached.Sound (notifier plainWatchers) () (Meets plainWatchers ()))
      (Attached.step (notifier plainWatchers) ()) ⟨d₀, subscribedFile.view, oneCallback⟩
      handedRun := by
  cases hrun
  have hfile : ∀ st, (fileAnswers true).lstat = some st →
      st.isSpecial = false ∧ st.isDirectory = false := by
    rintro st ⟨⟩
    exact ⟨rfl, rfl⟩
  exact ⟨meets_of_none rfl trivial, meets_of_none rfl trivial, meets_of_none rfl trivial,
    meets_next _, meets_created (arrives_created _ _) rfl rfl hfile, meets_of_none rfl trivial,
    trivial, trivial, trivial, trivial, trivial, trivial, trivial, trivial, trivial, trivial,
    trivial, trivial, trivial, trivial, meets_flushExpiredMoves rfl, trivial, trivial⟩

theorem settled_holds_tree_created :
    ∃ d₀ x, Machine.execute (Debounced.step (notifier plainWatchers))
        (Debounced.start (start plainWatchers)) subscribedRun = some d₀ ∧
      Machine.execute (Attached.step (notifier plainWatchers) ())
        ⟨d₀, subscribedFile.view, oneCallback⟩ handedRun = some x ∧
      ([47, 114, 47, 98], EntryKind.File) ∈
        (x.debounced.source.backend.state.watchers ()).tree.keys ∧
      deliver subscribedFile.view
          ((x.callbacks.tsfn 1).channel.handled.flatMap CallbackData.events) =
        (x.debounced.source.backend.state.watchers ()).tree.keys := by
  refine ⟨_, _, rfl, rfl, by decide, ?_⟩
  have hreach := (Machine.Reach.init rfl).execute (handedRun_admitted rfl) rfl
  exact settled_holds_tree plainWatchers () _ _ (subscribed_oneCallback rfl) hreach
    ⟨Finset.coe_eq_empty.mpr rfl, rfl, rfl, rfl, rfl, by decide⟩ rfl (fun _ => rfl) 1
    ⟨_, List.mem_singleton_self _, rfl, rfl⟩ rfl rfl rfl

end Examples

end EventLoop

end NativeWatcher
