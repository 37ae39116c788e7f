import NativeWatcher.Macos.ReconcileTold
import NativeWatcher.Tree.Keys

/-!
# The index and the batches on macOS

The events that the stream hands over during the first scan wait in `pendingEvents`, and the
block at the end of `startStream` processes them. From then on the consumer will hold, once
the list is drained, the keys of the tree: every call of `processEvents` keeps this, whether
it removes the root, rescans or goes from event to event, but for scans that meet one of the
slips of the code.
-/

namespace NativeWatcher

namespace MacState

variable {s : MacState} {V : Finset EventKey} {w : MacWatcher} {events : List PendingEvent}
  {full : FullScan}

/-- In step, tree and identities have the same keys. -/
theorem InStep.keys_eq (h : s.InStep) : s.tree.keys = s.identities.keys := by
  ext ⟨p, kind⟩
  have hview := h p
  rw [DirTree.view, IdentityIndex.view] at hview
  rw [DirTree.mem_keys, IdentityIndex.mem_keys]
  dsimp only
  cases hf : s.tree.find p with
  | none =>
      rw [hf, Option.map_none, eq_comm, Option.map_eq_none_iff] at hview
      simp [hview]
  | some e =>
      rw [hf, Option.map_some] at hview
      obtain ⟨d, hd, heq⟩ := Option.map_eq_some_iff.mp hview.symm
      have hkind : d.isDirectory = e.isDir := congrArg Prod.fst heq
      have hpath := DirTree.path_of_find hf
      simp [hd, DirEntry.key, hpath, hkind]

/-! ## A full rescan -/

/-- A scan that ends, and is not cancelled, can be reconciled. -/
def RescanTold (w : MacWatcher) (s : MacState) (full : FullScan) : Prop :=
  (∀ error, (scanIdentityIndex w.mDir w.isIgnored full.walk).outcome ≠ .throws error) →
    full.cancelled = false →
      Reconcilable w.mDir s.identities (scanIdentityIndex w.mDir w.isIgnored full.walk).result

theorem Told.reportMetadata (h : s.Told V) (events : List PendingEvent) :
    (s.reportMetadata events).Told V := by
  refine List.foldlRecOn (motive := fun l => EventList.Tells l V s.identities.keys) _ _ h ?_
  intro l hl event _
  split
  next => exact hl
  next entry hfind => exact hl.update (IdentityIndex.mem_keys_of_find hfind)

/-- A scan that throws adds its error, one that is cancelled changes nothing. -/
theorem Told.rescan (h : s.Told V) (hok : s.RescanTold w full) :
    (s.rescan w events full).Told V := by
  unfold MacState.rescan reconcileFullTree
  dsimp only
  cases hout : (scanIdentityIndex w.mDir w.isIgnored full.walk).outcome with
  | throws error => exact EventList.Tells.error h _
  | complete =>
      cases hcancelled : full.cancelled with
      | true => exact h.reportMetadata events
      | false =>
          have hrec := hok (by simp [hout]) hcancelled
          apply Told.reportMetadata
          exact tells_reconcile hrec h s.renameSequence
  | cancelled =>
      cases hcancelled : full.cancelled with
      | true => exact h.reportMetadata events
      | false =>
          have hrec := hok (by simp [hout]) hcancelled
          apply Told.reportMetadata
          exact tells_reconcile hrec h s.renameSequence

/-! ## A call -/

/-- What a call of `processEvents` has to meet. -/
def CallTold (w : MacWatcher) (s : MacState) (events : List PendingEvent) (full : FullScan) :
    Prop :=
  if events.any fun event => hasFlag event.flags FSEventStreamEventFlag.RootChanged then True
  else if (events.any fun event => hasFlag event.flags FSEventStreamEventFlag.MustScanSubDirs) ||
      events.any s.renamesDirectory then s.RescanTold w full
  else EventsTold w (s.correlateRenames w events).2 (s.correlateRenames w events).1 events

theorem Told.processEvents (h : s.Told V) (hstep : s.InStep) (hok : s.CallTold w events full) :
    (s.processEvents w events full).Told V ∧ (s.processEvents w events full).InStep := by
  unfold CallTold at hok
  unfold MacState.processEvents
  split
  next => exact ⟨h.removeIndexedPath w.mDir, (hstep.removeIndexedPath w.mDir).stopStream⟩
  next hroot =>
      rw [if_neg hroot] at hok
      split
      next hscan =>
          rw [if_pos hscan] at hok
          exact ⟨h.rescan hok, hstep.rescan w events full⟩
      next hscan =>
          rw [if_neg hscan] at hok
          have hloop := (h.correlateRenames hstep w events).handleEvents
            (hstep.correlateRenames w events) false hok
          dsimp only
          split
          · exact hloop
          · exact hloop

end MacState

/-! ## A subscription -/

/-- A subscription from the end of its first scan on. What its consumer holds and the two logs
are not part of the program. -/
structure MacSession where
  state : MacState
  initializing : Bool
  pendingEvents : List PendingEvent
  view : Finset EventKey
  /-- The events that `FSEventsCallback` let through. -/
  delivered : List PendingEvent
  /-- The events that `processEvents` was called with. -/
  processed : List PendingEvent

inductive MacSessionAction where
  /-- `FSEventsCallback`, on the queue. -/
  | callback (events : List PendingEvent) (full : FullScan)
  /-- The block at the end of `startStream`, on the queue. -/
  | startup (full : FullScan)
  | unsubscribe
  | drain

namespace MacSession

variable {w : MacWatcher} {walk : FtsWalk} {c c' : MacSession}

/-- The consumer holds what the scan of `startStream` has found. -/
def started (w : MacWatcher) (walk : FtsWalk) : MacSession :=
  let scan := scanIdentityIndex w.mDir w.isIgnored walk
  { state :=
      { tree := scan.recorded.foldl (fun t b => t.add b.1 b.2.mtime b.2.isDirectory)
          (DirTree.new w.mDir)
        identities := scan.result
        renameSequence := 0
        stream := true
        mEvents := .empty
        mNeedsResubscribe := false }
    initializing := true
    pendingEvents := []
    view := scan.result.keys
    delivered := []
    processed := [] }

def processEvents (w : MacWatcher) (c : MacSession) (events : List PendingEvent)
    (full : FullScan) : MacSession :=
  { c with
    state := c.state.processEvents w events full
    processed := c.processed ++ events }

/-- The events that are not ignored. -/
def visible (w : MacWatcher) (events : List PendingEvent) : List PendingEvent :=
  events.filter fun event => !w.isIgnored event.path

def fsEventsCallback (w : MacWatcher) (c : MacSession) (events : List PendingEvent)
    (full : FullScan) : MacSession :=
  if !c.state.stream then c
  else
    let events := visible w events
    if events.isEmpty then c
    else
      let c := { c with delivered := c.delivered ++ events }
      if c.initializing then { c with pendingEvents := c.pendingEvents ++ events }
      else c.processEvents w events full

def startupBlock (w : MacWatcher) (c : MacSession) (full : FullScan) : MacSession :=
  if !c.state.stream then c
  else
    let pending := c.pendingEvents
    let c := { c with initializing := false, pendingEvents := [] }
    if pending.isEmpty then c else c.processEvents w pending full

/-- The startup block is submitted once. -/
def step (w : MacWatcher) (c : MacSession) : MacSessionAction → Option MacSession
  | .callback events full => some (c.fsEventsCallback w events full)
  | .startup full => if c.initializing then some (c.startupBlock w full) else none
  | .unsubscribe => some { c with state := { c.state with stream := false } }
  | .drain =>
      let (batch, rest) := c.state.mEvents.drain
      some { c with state := { c.state with mEvents := rest }, view := deliver c.view batch.events }

theorem of_startup {full : FullScan} (hs : step w c (.startup full) = some c') :
    c.initializing = true ∧ c.startupBlock w full = c' := by
  have hif : (if c.initializing = true then some (c.startupBlock w full) else none) = some c' := hs
  split at hif
  next hinit => exact ⟨hinit, Option.some.inj hif⟩
  next => cases hif

/-! ### The events of the startup -/

/-- What was let through is processed in order, or waits for the startup block. -/
structure InOrder (c : MacSession) : Prop where
  order : c.processed ++ c.pendingEvents = c.delivered
  waits : c.initializing = true → c.processed = []
  taken : c.initializing = false → c.pendingEvents = []

theorem InOrder.fsEventsCallback (h : c.InOrder) (events : List PendingEvent) (full : FullScan) :
    (c.fsEventsCallback w events full).InOrder := by
  unfold MacSession.fsEventsCallback
  split
  next => exact h
  next =>
      dsimp only
      split
      next => exact h
      next =>
          split
          next hinit =>
              refine ⟨?_, h.waits, fun hnot => absurd (hinit.symm.trans hnot) (by decide)⟩
              show c.processed ++ (c.pendingEvents ++ visible w events) = c.delivered ++ _
              rw [← List.append_assoc, h.order]
          next hinit =>
              have hnone := h.taken (Bool.eq_false_iff.mpr hinit)
              refine ⟨?_, fun hyes => absurd hyes hinit, fun _ => hnone⟩
              show (c.processed ++ visible w events) ++ c.pendingEvents = c.delivered ++ _
              rw [← h.order, hnone, List.append_nil, List.append_nil]

theorem InOrder.startupBlock (h : c.InOrder) (hinit : c.initializing = true) (full : FullScan) :
    (c.startupBlock w full).InOrder := by
  have horder := h.order
  rw [h.waits hinit, List.nil_append] at horder
  unfold MacSession.startupBlock
  split
  next => exact h
  next =>
      dsimp only
      split
      next hnone =>
          rw [List.isEmpty_iff] at hnone
          refine ⟨?_, by rintro ⟨⟩, fun _ => rfl⟩
          show c.processed ++ [] = c.delivered
          rw [List.append_nil, h.waits hinit, ← horder, hnone]
      next =>
          refine ⟨?_, by rintro ⟨⟩, fun _ => rfl⟩
          show (c.processed ++ c.pendingEvents) ++ [] = c.delivered
          rw [List.append_nil, h.order]

theorem inOrder_step {a : MacSessionAction} (h : c.InOrder) (hs : step w c a = some c') :
    c'.InOrder := by
  cases a with
  | callback events full =>
      cases hs
      exact h.fsEventsCallback events full
  | startup full =>
      obtain ⟨hinit, rfl⟩ := of_startup hs
      exact h.startupBlock hinit full
  | unsubscribe =>
      cases hs
      exact ⟨h.order, h.waits, h.taken⟩
  | drain =>
      cases hs
      exact ⟨h.order, h.waits, h.taken⟩

theorem inOrder_started (w : MacWatcher) (walk : FtsWalk) : (started w walk).InOrder :=
  ⟨rfl, fun _ => rfl, by rintro ⟨⟩⟩

/-- Once the startup block has run, every event that was let through has been processed. -/
theorem InOrder.processed_eq (h : c.InOrder) (hinit : c.initializing = false) :
    c.processed = c.delivered := by
  rw [← h.order, h.taken hinit, List.append_nil]

/-! ### What the consumer holds -/

/-- The condition on the steps of a run. -/
def Sound (w : MacWatcher) (c : MacSession) : MacSessionAction → Prop
  | .callback events full => c.state.stream = true → c.initializing = false →
      visible w events ≠ [] → c.state.CallTold w (visible w events) full
  | .startup full => c.state.stream = true → c.pendingEvents ≠ [] →
      c.state.CallTold w c.pendingEvents full
  | .unsubscribe => True
  | .drain => True

structure Agrees (c : MacSession) : Prop where
  told : c.state.Told c.view
  inStep : c.state.InStep

theorem agrees_started (w : MacWatcher) (walk : FtsWalk) : (started w walk).Agrees where
  told := EventList.Tells.of_empty _
  inStep := by
    have hnodup := MacState.nodup_recorded w.mDir w.isIgnored walk
    exact fun p => MacState.view_foldl_add hnodup (by simp) (by simp) p

theorem Agrees.processEvents {events : List PendingEvent} {full : FullScan} (h : c.Agrees)
    (hok : c.state.CallTold w events full) : (c.processEvents w events full).Agrees := by
  obtain ⟨htold, hstep⟩ := h.told.processEvents h.inStep hok
  exact ⟨htold, hstep⟩

theorem agrees_step {a : MacSessionAction} (h : c.Agrees) (hok : c.Sound w a)
    (hs : step w c a = some c') : c'.Agrees := by
  cases a with
  | callback events full =>
      cases hs
      unfold fsEventsCallback
      split
      next => exact h
      next hstream =>
          dsimp only
          split
          next => exact h
          next hsome =>
              split
              next => exact ⟨h.told, h.inStep⟩
              next hinit =>
                  have hcall := hok (by simpa using hstream) (by simpa using hinit)
                    (by simpa using hsome)
                  have hlogged : Agrees { c with delivered := c.delivered ++ visible w events } :=
                    ⟨h.told, h.inStep⟩
                  exact hlogged.processEvents hcall
  | startup full =>
      obtain ⟨_, rfl⟩ := of_startup hs
      unfold startupBlock
      split
      next => exact h
      next hstream =>
          dsimp only
          split
          next => exact ⟨h.told, h.inStep⟩
          next hsome =>
              have hcall := hok (by simpa using hstream) (by simpa using hsome)
              have htaken : Agrees { c with initializing := false, pendingEvents := [] } :=
                ⟨h.told, h.inStep⟩
              exact htaken.processEvents hcall
  | unsubscribe =>
      cases hs
      exact ⟨h.told, h.inStep⟩
  | drain =>
      cases hs
      exact ⟨h.told.drain, h.inStep⟩

theorem agrees_of_reach (h : (Machine.ofStep (started w walk) (step w)).Reach (Sound w) c) :
    c.Agrees := by
  apply Machine.Reach.invariant _ _ h
  · rintro c rfl
    exact agrees_started w walk
  · exact fun c a c' hc hok hs => agrees_step hc hok hs

end MacSession

end NativeWatcher
