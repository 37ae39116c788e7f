import NativeWatcher.Macos.ViewAgreement
import NativeWatcher.Watcher.EventSource

/-!
# The index and the callbacks on macOS

The queue of the backend fills the event list, from the events of the startup on, and
`triggerCallbacks` drains it for the callbacks.
-/

namespace NativeWatcher

open EventList

namespace MacSession

/-- The event list is drained by `triggerCallbacks` only, and no drain comes in the middle of a
call of `processEvents`. -/
def source (w : MacWatcher) : EventSource MacSession MacSessionAction where
  mEvents c := c.state.mEvents
  view := view
  step c
    | .drain => none
    | a => step w c a
  drain c :=
    { c with
      state := { c.state with mEvents := c.state.mEvents.drain.2 }
      view := deliver c.view c.state.mEvents.drain.1.events }
  view_step := by
    intro c a c' hs
    cases a with
    | callback events full =>
        cases hs
        unfold fsEventsCallback
        split
        · rfl
        · dsimp only
          split
          · rfl
          · split
            · rfl
            · rfl
    | startup full =>
        obtain ⟨_, rfl⟩ := of_startup hs
        unfold startupBlock
        split
        · rfl
        · dsimp only
          split
          · rfl
          · rfl
    | unsubscribe =>
        cases hs
        rfl
    | drain => cases hs
  view_drain _ := rfl

variable {Fn Env : Type} [DecidableEq Fn] [DecidableEq Env]

/-- The subscription runs as it does for a consumer of every batch. -/
theorem reach_source {w : MacWatcher} {walk : FtsWalk} {d : Delivery MacSession Fn Env}
    (h : (Machine.ofStep (Delivery.start (started w walk)) (Delivery.step (source w))).Reach
      (Delivery.SourceMeets (Sound w)) d) :
    (Machine.ofStep (started w walk) (step w)).Reach (Sound w) d.source := by
  apply Delivery.source_invariant (.init rfl) _ _ h
  · intro c a c' hc hok hs
    cases a with
    | callback events full => exact .step hc hok hs
    | startup full => exact .step hc hok hs
    | unsubscribe => exact .step hc hok hs
    | drain => cases hs
  · exact fun c hc => .step (a := .drain) hc trivial rfl

/-- **From the stream to the callbacks.** Events of the startup included: the calls made, the
calls queued and the list not yet drained make of a consumer that joined with what had been
told before one that holds the keys of the tree, and these are the keys of the identities. -/
theorem callback_holds_index (w : MacWatcher) (walk : FtsWalk) (d : Delivery MacSession Fn Env)
    (h : (Machine.ofStep (Delivery.start (started w walk)) (Delivery.step (source w))).Reach
      (Delivery.SourceMeets (Sound w)) d)
    (cb : Nat) (hopen : d.callbacks.Open cb) (hmissed : d.callbacks.missed cb = false)
    (hkept : (d.callbacks.tsfn cb).channel.discarded = false) :
    deliver (told (started w walk).view (d.callbacks.batches.take (d.callbacks.joined cb)))
        ((d.callbacks.tsfn cb).channel.handled.flatMap CallbackData.events ++
          (d.callbacks.tsfn cb).channel.queue.flatMap CallbackData.events ++
          d.source.state.mEvents.drain.1.events) = d.source.state.tree.keys ∧
      d.source.state.tree.keys = d.source.state.identities.keys := by
  have hagrees := agrees_of_reach (reach_source h)
  have hkeys := hagrees.inStep.keys_eq
  refine ⟨((Delivery.tells_of_reach h).consumer_joins hopen hmissed hkept _).trans ?_, hkeys⟩
  exact hagrees.told.deliver.trans hkeys.symm

/-! ## A rescan after the startup -/

/-- Without a file in the place of another one no source is reoccupied. -/
theorem not_reoccupied {before current : IdentityIndex}
    (h : ∀ b ∈ changedEntries before current,
      b.2.isDirectory = true ∨ (current.find b.1).all (fun d => d.isDirectory) = true) (p : Str) :
    ¬ ReoccupiedSource before current p := by
  rintro ⟨⟨oldPath, newPath, hsure, hcase⟩, ⟨o, ho, hod⟩, n, hn, hnd⟩
  have hdiffers : current.differsAt p o = true := by
    rcases hcase with rfl | ⟨_, _, o', _, ho', hdiffers, _⟩
    · exact hsure.differsAt ho
    · obtain rfl := Option.some.inj (ho.symm.trans ho')
      exact hdiffers
  rcases h (p, o) (mem_changedEntries.mpr ⟨ho, hdiffers⟩) with hdir | hall
  · rw [show o.isDirectory = true from hdir] at hod
    cases hod
  · simp [hn, hnd] at hall

def firstScan : FtsWalk :=
  (exampleScan [exampleNode [47, 114] 1 .directory,
    exampleNode [47, 114, 47, 97] 2 .regular] (by decide)).walk

/-- Events were dropped below `/r`. -/
def mustScan : PendingEvent where
  path := [47, 114]
  flags := FSEventStreamEventFlag.MustScanSubDirs
  rescanAnswer := ⟨none, sameName⟩
  correlateAnswer := ⟨none, sameName⟩
  entryAnswer := ⟨none, sameName⟩
  createdAnswer := ⟨none, sameName⟩
  walk := noScan.walk

/-- During the scan `/r/a` is renamed, and the stream asks for a rescan. -/
def renamedAtStartup : List (DeliveryAction MacSessionAction Nat Nat) :=
  [.callbacks (.watch 0 0 7 true), .source (.callback [mustScan] noScan),
    .source (.startup renamedScan), .triggerCallbacks fun _ => false,
    .callbacks (.callJSFunction 1)]

theorem renamedAtStartup_told :
    MacState.CallTold exampleWatcher (started exampleWatcher firstScan).state [mustScan]
      renamedScan := by
  intro _ _
  refine ⟨by decide, by decide, by decide, by decide, not_reoccupied (by decide)⟩

theorem callback_holds_index_renamed :
    ∃ d, Machine.execute (Delivery.step (source exampleWatcher))
        (Delivery.start (started exampleWatcher firstScan)) renamedAtStartup = some d ∧
      deliver (started exampleWatcher firstScan).view
          ((d.callbacks.tsfn 1).channel.handled.flatMap CallbackData.events) =
        d.source.state.tree.keys := by
  have h₀ : (Machine.ofStep (Delivery.start (started exampleWatcher firstScan) : Delivery _ Nat Nat)
      (Delivery.step (source exampleWatcher))).Reach
      (Delivery.SourceMeets (Sound exampleWatcher))
      (Delivery.start (started exampleWatcher firstScan)) := .init rfl
  refine ⟨_, rfl, ?_⟩
  have hcall : Sound exampleWatcher ((started exampleWatcher firstScan).fsEventsCallback
      exampleWatcher [mustScan] noScan) (.startup renamedScan) :=
    fun _ _ => renamedAtStartup_told
  have hreach := h₀.execute (l := renamedAtStartup)
    ⟨trivial, fun _ hinit => absurd hinit (by decide), hcall, trivial, trivial, trivial⟩ rfl
  exact (callback_holds_index exampleWatcher firstScan _ hreach 1
    ⟨_, List.mem_singleton_self _, rfl, rfl⟩ rfl rfl).1

end MacSession

end NativeWatcher
