import NativeWatcher.Macos.Delivery
import NativeWatcher.Watcher.SerialSource

/-!
# The index and the callbacks on macOS, at rest

Every call of `processEvents` ends with `notify`, whatever was found.
-/

namespace NativeWatcher

open EventList

namespace MacSession

/-- Whether the action gets to `processEvents`. -/
def notifies (w : MacWatcher) (c : MacSession) : MacSessionAction → Bool
  | .callback events _ => c.state.stream && !(visible w events).isEmpty && !c.initializing
  | .startup _ => c.state.stream && !c.pendingEvents.isEmpty
  | _ => false

theorem mEvents_of_quiet {w : MacWatcher} {c c' : MacSession} {a : MacSessionAction}
    (hs : (source w).step c a = some c') (hquiet : c.notifies w a = false) :
    c'.state.mEvents = c.state.mEvents := by
  cases a with
  | callback events full =>
      cases hs
      show (c.fsEventsCallback w events full).state.mEvents = _
      unfold fsEventsCallback
      split
      next => rfl
      next hstream =>
          dsimp only
          split
          next => rfl
          next hsome =>
              split
              next => rfl
              next hinit =>
                  have hlive : c.state.stream = true := by simpa using hstream
                  rw [notifies, hlive, Bool.eq_false_iff.mpr hsome,
                    Bool.eq_false_iff.mpr hinit] at hquiet
                  cases hquiet
  | startup full =>
      obtain ⟨_, rfl⟩ := of_startup hs
      unfold startupBlock
      split
      next => rfl
      next hstream =>
          dsimp only
          split
          next => rfl
          next hsome =>
              have hlive : c.state.stream = true := by simpa using hstream
              rw [notifies, hlive, Bool.eq_false_iff.mpr hsome] at hquiet
              cases hquiet
  | unsubscribe =>
      cases hs
      rfl
  | drain => cases hs

def serial (w : MacWatcher) : SerialSource MacSession MacSessionAction where
  toEventSource := source w
  notifies := notifies w
  quiet := mEvents_of_quiet
  mEvents_drain _ := rfl

variable {Fn Env : Type} [DecidableEq Fn] [DecidableEq Env]

/-- **From the stream to the callbacks.** When nothing is under way and the queued calls have
been made: an open callback has been told what makes of a consumer that joined with what had
been told before one that holds the keys of the tree, and these are the keys of the identities.
Once the startup block has run, every event that the stream callbacks let through has been
processed, in order. -/
theorem settled_holds_index (w : MacWatcher) (walk : FtsWalk)
    (x : Attached Unit (MacSession × Bool) Fn Env)
    (h : (Machine.ofStep ((serial w).attached (started w walk))
      (Attached.step ((serial w).notifier (Sound w)) ())).Reach
      (Attached.Sound ((serial w).notifier (Sound w)) () fun c _ a => Sound w c.1 a) x)
    (hrest : Attached.AtRest ((serial w).notifier (Sound w)) () x.debounced)
    (cb : Nat) (hopen : x.callbacks.Open cb) (hmissed : x.callbacks.missed cb = false)
    (hkept : (x.callbacks.tsfn cb).channel.discarded = false)
    (hcalled : (x.callbacks.tsfn cb).channel.queue = []) :
    deliver (told (started w walk).view (x.callbacks.batches.take (x.callbacks.joined cb)))
        ((x.callbacks.tsfn cb).channel.handled.flatMap CallbackData.events) =
      x.debounced.source.1.state.tree.keys ∧
    x.debounced.source.1.state.tree.keys = x.debounced.source.1.state.identities.keys ∧
    (x.debounced.source.1.initializing = false →
      x.debounced.source.1.processed = x.debounced.source.1.delivered) := by
  have hstep : ∀ {c a c'}, (c.Agrees ∧ c.InOrder) → Sound w c a →
      (serial w).step c a = some c' → c'.Agrees ∧ c'.InOrder := by
    rintro c a c' ⟨hc, horder⟩ hok hs
    cases a with
    | drain => cases hs
    | callback events full =>
        exact ⟨agrees_step hc hok hs, inOrder_step (w := w) (a := .callback events full) horder hs⟩
    | startup full =>
        exact ⟨agrees_step hc hok hs, inOrder_step (w := w) (a := .startup full) horder hs⟩
    | unsubscribe =>
        exact ⟨agrees_step hc hok hs, inOrder_step (w := w) (a := .unsubscribe) horder hs⟩
  obtain ⟨⟨hagrees, horder⟩, hnone, hheld⟩ := SerialSource.settled
    (P := fun c => c.Agrees ∧ c.InOrder) hstep
    (fun hc => ⟨agrees_step (a := .drain) (w := w) hc.1 trivial rfl,
      inOrder_step (a := .drain) (w := w) hc.2 rfl⟩)
    ⟨agrees_started w walk, inOrder_started w walk⟩ h hrest hopen hmissed hkept hcalled
  have hlist : x.debounced.source.1.state.mEvents.drain.1.events = [] := hnone
  have hkeys := hagrees.inStep.keys_eq
  have htold := hagrees.told.deliver
  rw [hlist] at htold
  exact ⟨hheld.trans (htold.trans hkeys.symm), hkeys, horder.processed_eq⟩

/-- During the scan `/r/a` is renamed, and the stream asks for a rescan. -/
def rescannedRun : List (AttachedAction Unit MacSessionAction Nat Nat) :=
  .debounced (.source (.callback [mustScan] noScan)) ::
    SerialSource.handedRun (.startup renamedScan)

theorem settled_holds_index_renamed :
    ∃ x, Machine.execute (Attached.step ((serial exampleWatcher).notifier (Sound exampleWatcher)) ())
        ((serial exampleWatcher).attached (started exampleWatcher firstScan)) rescannedRun = some x ∧
      deliver (started exampleWatcher firstScan).view
          ((x.callbacks.tsfn 1).channel.handled.flatMap CallbackData.events) =
        x.debounced.source.1.state.tree.keys := by
  have hcall : Sound exampleWatcher ((started exampleWatcher firstScan).fsEventsCallback
      exampleWatcher [mustScan] noScan) (.startup renamedScan) :=
    fun _ _ => renamedAtStartup_told
  have hadmits : Machine.Admits
      (Attached.Sound ((serial exampleWatcher).notifier (Sound exampleWatcher)) ()
        fun c _ a => Sound exampleWatcher c.1 a)
      (Attached.step ((serial exampleWatcher).notifier (Sound exampleWatcher)) ())
      ((serial exampleWatcher).attached (started exampleWatcher firstScan)) rescannedRun :=
    ⟨fun _ hinit => absurd hinit (by decide), fun _ => .inr rfl, .inr rfl, trivial, hcall, trivial,
      trivial, trivial, trivial, trivial, trivial, trivial, trivial, trivial, trivial, trivial,
      trivial, trivial, trivial, trivial, trivial⟩
  refine ⟨_, rfl, ?_⟩
  have hreach := (Machine.Reach.init rfl).execute hadmits rfl
  exact (settled_holds_index exampleWatcher firstScan _ hreach
    ⟨Set.eq_empty_of_forall_notMem fun _ => Bool.noConfusion, rfl, rfl, rfl, rfl, by decide⟩
    1 ⟨_, List.mem_singleton_self _, rfl, rfl⟩ rfl rfl rfl).1

end MacSession

end NativeWatcher
