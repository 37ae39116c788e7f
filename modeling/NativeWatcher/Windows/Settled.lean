import NativeWatcher.Windows.Delivery
import NativeWatcher.Watcher.SerialSource

/-!
# The tree and the callbacks on Windows, at rest

`processEvents` ends with `notify`, and after an overflow `finishStop` calls it.
-/

namespace NativeWatcher

open EventList

namespace WinSession

def serial (w : WinWatcher) : SerialSource WinSession WinAction where
  toEventSource := source w
  notifies _ a :=
    match a with
    | .buffer .. => true
    | .drain => false
  quiet := by
    intro c a c' hs hquiet
    cases a with
    | buffer answers bytes numBytes => cases hquiet
    | drain => cases hs
  mEvents_drain _ := rfl

variable {Fn Env : Type} [DecidableEq Fn] [DecidableEq Env]

/-- **From the buffers to the callbacks.** When nothing is under way and the queued calls have
been made: until a read overflows, an open callback has been told what makes of a consumer that
joined with what had been told before one that holds the keys of the tree. -/
theorem settled_holds_keys (w : WinWatcher) (tree : DirTree)
    (x : Attached Unit (WinSession × Bool) Fn Env)
    (h : (Machine.ofStep ((serial w).attached (started tree))
      (Attached.step ((serial w).notifier (Sound w)) ())).Reach
      (Attached.Sound ((serial w).notifier (Sound w)) () fun c _ a => Sound w c.1 a) x)
    (hrest : Attached.AtRest ((serial w).notifier (Sound w)) () x.debounced)
    (hover : x.debounced.source.1.subscription.mOverflowed = false)
    (cb : Nat) (hopen : x.callbacks.Open cb) (hmissed : x.callbacks.missed cb = false)
    (hkept : (x.callbacks.tsfn cb).channel.discarded = false)
    (hcalled : (x.callbacks.tsfn cb).channel.queue = []) :
    deliver (told tree.keys (x.callbacks.batches.take (x.callbacks.joined cb)))
        ((x.callbacks.tsfn cb).channel.handled.flatMap CallbackData.events) =
      x.debounced.source.1.subscription.mTree.keys := by
  have hstep : ∀ {c a c'}, (Machine.ofStep (started tree) (step w)).Reach (Sound w) c →
      Sound w c a → (serial w).step c a = some c' →
      (Machine.ofStep (started tree) (step w)).Reach (Sound w) c' := by
    intro c a c' hc hok hs
    cases a with
    | buffer answers bytes numBytes => exact .step hc hok hs
    | drain => cases hs
  obtain ⟨hreach, hnone, hheld⟩ := SerialSource.settled hstep
    (fun hc => .step (a := .drain) hc trivial rfl) (.init rfl) h hrest hopen hmissed hkept hcalled
  have hlist : x.debounced.source.1.subscription.mEvents.drain.1.events = [] := hnone
  have hdrained : deliver x.debounced.source.1.view
      x.debounced.source.1.subscription.mEvents.drain.1.events =
        x.debounced.source.1.subscription.mTree.keys := by
    ext k
    exact (mem_deliver_drain ..).trans ((agrees_of_reach hreach hover).told k)
  rw [hlist] at hdrained
  exact hheld.trans hdrained

theorem settled_holds_keys_two :
    ∃ x, Machine.execute (Attached.step ((serial plainWatcher).notifier (Sound plainWatcher)) ())
        ((serial plainWatcher).attached (started fileTree))
        (SerialSource.handedRun (.buffer fileAnswers twoRecords 30)) = some x ∧
      deliver fileTree.keys ((x.callbacks.tsfn 1).channel.handled.flatMap CallbackData.events) =
        x.debounced.source.1.subscription.mTree.keys := by
  have hadmits : Machine.Admits (Attached.Sound ((serial plainWatcher).notifier (Sound plainWatcher))
      () fun c _ a => Sound plainWatcher c.1 a)
      (Attached.step ((serial plainWatcher).notifier (Sound plainWatcher)) ())
      ((serial plainWatcher).attached (started fileTree))
      (SerialSource.handedRun (.buffer fileAnswers twoRecords 30)) :=
    ⟨fun _ => .inr rfl, .inr rfl, trivial, twoRecords_told, trivial, trivial, trivial, trivial,
      trivial, trivial, trivial, trivial, trivial, trivial, trivial, trivial, trivial, trivial,
      trivial, trivial⟩
  refine ⟨_, rfl, ?_⟩
  have hreach := (Machine.Reach.init rfl).execute hadmits rfl
  exact settled_holds_keys plainWatcher fileTree _ hreach
    ⟨Set.eq_empty_of_forall_notMem fun _ => Bool.noConfusion, rfl, rfl, rfl, rfl, by decide⟩
    (by decide) 1 ⟨_, List.mem_singleton_self _, rfl, rfl⟩ rfl rfl rfl

end WinSession

end NativeWatcher
