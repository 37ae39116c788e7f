import NativeWatcher.Linux.EventLoop
import NativeWatcher.Linux.WatcherFrame

/-!
# No change without a notification

The debouncer looks at an event list after `notify` only. The thread notifies the watchers
for which `handleSubscription` has returned true, those of an overflow and those of the
moves that have expired. So no other list may have changed.
-/

namespace NativeWatcher

open Hierarchy

variable {W : Type} [DecidableEq W]

namespace InotifyState

variable {s : InotifyState W} {w : InotifyWatcher W} {event : InotifyEvent} {pointer : Nat}
  {sub : InotifySubscription W} {answers : EventAnswers} {path : Str} {r : ScanState W}

/-! ## A subscription that was not touched -/

/-- A routine that returns false has told the event list nothing. -/
def QuietIfFalse (s : InotifyState W) (id : W) (result : Bool × InotifyState W) : Prop :=
  result.1 = false → (result.2.watchers id).mEvents = (s.watchers id).mEvents

/-- What a move carries is still there when `lstat` looks at it. -/
def Arrives (s : InotifyState W) (w : InotifyWatcher W) (event : InotifyEvent)
    (answers : EventAnswers) : Prop :=
  ∀ m, s.pairedMove w event = some m → m.entries ≠ [] → answers.lstat ≠ none

/-- If nothing was dropped, nothing was said. -/
theorem calls_dropSpecial (h : (dropSpecial w answers.faults path r).1 = false) :
    (r.tree.extract path).1 = [] ∧ (dropSpecial w answers.faults path r).2.calls = r.calls := by
  have hnil : (r.tree.extract path).1 = [] := by
    simpa [dropSpecial] using h
  refine ⟨hnil, ?_⟩
  unfold dropSpecial
  dsimp only
  rw [hnil]
  rfl

/-- Where something has been said, something is at the path and is seen there. -/
theorem quietIfFalse_handleFound {found : FileStat → ScanState W → Option Nat × ScanState W}
    (hsaid : r.calls ≠ [] → answers.lstat ≠ none ∧ (r.tree.extract path).1 ≠ []) :
    s.QuietIfFalse w.id (s.handleFound w path answers r found) := by
  have hquiet : ∀ {r' : ScanState W}, r'.calls = [] →
      ((s.commit w.id r').watchers w.id).mEvents = (s.watchers w.id).mEvents := by
    intro r' hcalls
    rw [watchers_commit, hcalls]
    rfl
  unfold handleFound
  split
  next hlstat => exact fun _ => hquiet (by_contra fun hcalls => (hsaid hcalls).1 hlstat)
  next st hlstat =>
      split
      · intro hfalse
        obtain ⟨hnil, hcalls⟩ := calls_dropSpecial hfalse
        exact hquiet (hcalls.trans (by_contra fun hsome => (hsaid hsome).2 hnil))
      · split
        · exact fun hfalse => Bool.noConfusion hfalse
        · exact fun hfalse => Bool.noConfusion hfalse

omit [DecidableEq W] in
/-- A move with entries brings them to its path. -/
theorem extract_carryMove {m : PendingInotifyMove} {cookie : UInt32} (hm : m.entries ≠ []) :
    ((carryMove w cookie path m r).tree.extract path).1 ≠ [] := by
  obtain ⟨e, he⟩ := List.exists_mem_of_ne_nil _ hm
  have hfind : (carryMove w cookie path m r).tree.find (relocate m.path path e.path) =
      some (e.moved m.path path) := DirTree.find_restore_of_mem m.distinct m.below he _
  have hunder : Under slash path (e.moved m.path path).path := (m.below e he).relocate
  exact List.ne_nil_of_mem (DirTree.mem_extract.mpr ⟨hfind, hunder⟩)

theorem quietIfFalse_handleCreated (harrives : s.Arrives w event answers) :
    s.QuietIfFalse w.id (s.handleCreated w event path answers) := by
  unfold handleCreated
  dsimp only
  split
  · exact quietIfFalse_handleFound fun hcalls => absurd rfl hcalls
  next m hm =>
      have hsaid : (carryMove w event.cookie path m (s.scanState w.id)).calls ≠ [] →
          m.entries ≠ [] := by
        intro hcalls hnil
        refine hcalls ?_
        show [] ++ m.entries.flatMap _ = []
        rw [hnil]
        rfl
      exact quietIfFalse_handleFound fun hcalls =>
        ⟨harrives m hm (hsaid hcalls), extract_carryMove (hsaid hcalls)⟩

/-- A subscription that is not touched leaves the event list alone, unless what a move has
carried is gone again. -/
theorem quietIfFalse_handleSubscription (harrives : s.Arrives w event answers) :
    s.QuietIfFalse w.id (s.handleSubscription w event pointer sub answers) := by
  unfold handleSubscription
  split
  · exact fun _ => rfl
  · exact fun hfalse => Bool.noConfusion hfalse
  · exact fun _ => rfl
  next path _ =>
      unfold handlePath
      split
      · exact quietIfFalse_handleCreated harrives
      · split
        · unfold handleModified
          dsimp only
          split
          · exact fun _ => rfl
          · split
            · exact fun _ => rfl
            · exact fun hfalse => Bool.noConfusion hfalse
        · split
          · unfold handleRemoved
            split
            · exact fun _ => rfl
            · dsimp only
              split
              · exact fun hfalse => Bool.noConfusion hfalse
              · exact fun hfalse => Bool.noConfusion hfalse
          · exact fun hfalse => Bool.noConfusion hfalse

/-! ## The watchers that an action touches -/

theorem SameFor.foldl {α : Type} {f : InotifyState W → α → InotifyState W} {id : W}
    {l : List α} (h : ∀ s, ∀ a ∈ l, SameFor id s (f s a)) (s : InotifyState W) :
    SameFor id s (l.foldl f s) := by
  induction l generalizing s with
  | nil => exact .refl s
  | cons a l ih =>
      exact (h s a List.mem_cons_self).trans
        (ih (fun s a ha => h s a (List.mem_cons_of_mem _ ha)) _)

theorem mEvents_subscribe (w : InotifyWatcher W) (answers : SubscribeAnswers) (id : W) :
    ((s.subscribe w answers).2.watchers id).mEvents = (s.watchers id).mEvents := by
  by_cases hid : id = w.id
  · rw [hid]
    unfold subscribe
    split
    · rfl
    · dsimp only
      split
      all_goals
        show ((s.adopt w.id _ _).watchers w.id).mEvents = _
        rw [watchers_adopt]
  · rw [(sameFor_subscribe hid answers).watcher]

end InotifyState

namespace InotifyBackend

variable {ws : Watchers W} {b b' : InotifyBackend W} {id : W}

/-- The watchers that the routines report, and those that are drained. -/
def Touches (ws : Watchers W) (b : InotifyBackend W) (id : W) : InotifyAction W → Prop
  | .handleSubscription event pointer answers =>
      ∃ sub, b.state.table.heap[pointer]? = some sub ∧ sub.watcher = id ∧
        (b.state.handleSubscription (ws.watcher sub.watcher) event pointer sub answers).1 = true
  | .flushExpiredMoves now _ => id ∈ EventLoop.expiredWatchers b.state now
  | .handleOverflow _ => id ∈ b.state.table.watchers
  | .drain id' => id = id'
  | _ => False

/-- What a move carries is still there when `lstat` looks at it. -/
def Arrives (ws : Watchers W) (b : InotifyBackend W) : InotifyAction W → Prop
  | .handleSubscription event pointer answers =>
      ∀ sub, b.state.table.heap[pointer]? = some sub →
        b.state.Arrives (ws.watcher sub.watcher) event answers
  | _ => True

omit [DecidableEq W] in
theorem mEvents_of_locked {s : InotifyState W} (h : b.locked s = some b')
    (hs : (s.watchers id).mEvents = (b.state.watchers id).mEvents) :
    (b'.state.watchers id).mEvents = (b.state.watchers id).mEvents :=
  holds_of_locked (P := fun s => (s.watchers id).mEvents = _) hs h

theorem mEvents_of_not_touches {a : InotifyAction W} (h : b.step ws a = some b')
    (harrives : b.Arrives ws a) (hid : ¬ b.Touches ws id a) :
    (b'.state.watchers id).mEvents = (b.state.watchers id).mEvents := by
  cases a with
  | subscribe id' answers => exact mEvents_of_locked h (InotifyState.mEvents_subscribe ..)
  | handleEvent event => rw [state_of_handleEvent h]
  | handleSubscription event pointer answers =>
      obtain ⟨sub, hsub, hstate⟩ := of_step_handleSubscription h
      rw [hstate]
      by_cases hwatcher : sub.watcher = id
      · obtain rfl := hwatcher
        have hfalse := Bool.eq_false_iff.mpr fun htrue => hid ⟨sub, hsub, rfl, htrue⟩
        have hquiet := InotifyState.quietIfFalse_handleSubscription (harrives sub hsub) hfalse
        rwa [ws.id_watcher] at hquiet
      · have hne : id ≠ (ws.watcher sub.watcher).id := by
          rw [ws.id_watcher]
          exact Ne.symm hwatcher
        rw [(InotifyState.sameFor_handleSubscription hne).watcher]
  | flushExpiredMoves now faults =>
      have hsame : InotifyState.SameFor id b.state (b.state.flushExpiredMoves now faults) := by
        refine .foldl (fun s m hm => InotifyState.sameFor_expire fun heq => hid ?_) _
        exact List.mem_toFinset.mpr (List.mem_map.mpr ⟨m, hm, heq.symm⟩)
      exact mEvents_of_locked h (congrArg _ hsame.watcher)
  | handleOverflow faults =>
      have hsame : InotifyState.SameFor id b.state (b.state.handleOverflow ws faults) := by
        refine .foldl (fun s id' hid' => InotifyState.sameFor_overflow fun heq => hid ?_) _
        rw [ws.id_watcher] at heq
        exact heq ▸ hid'
      exact mEvents_of_locked h (congrArg _ hsame.watcher)
  | unsubscribe id' faults => exact mEvents_of_locked h rfl
  | drain id' =>
      cases h
      exact congrArg _ (InotifyState.sameFor_drain hid).watcher
  | dropInode inode =>
      cases h
      rfl

end InotifyBackend

/-- The watchers that are still to be notified. Once the thread has ended, none will be. -/
def EventLoopPoint.owed : EventLoopPoint W → Set W
  | .handling watchers | .notifying watchers | .announcing watchers => watchers
  | .ended => Set.univ

namespace EventLoop

variable {ws : Watchers W} {c c' : EventLoop W} {watchers : Finset W}

/-- The event lists are as `notify` or a drain has left them, those of the watchers that are
still to be notified apart. -/
def Woken (c : EventLoop W) : Prop := ∀ id, id ∉ c.point.owed → c.mEvents id = c.seen id

/-- No move arrives at a path that is gone again. -/
def MovesArrive (ws : Watchers W) (c : EventLoop W) : EventLoopAction W → Prop
  | .handleSubscription event pointer answers =>
      c.backend.Arrives ws (.handleSubscription event pointer answers)
  | _ => True

/-- A list that is not owed afterwards was not owed before, and it is as it was. -/
structure Unmoved (c c' : EventLoop W) (id : W) : Prop where
  owed : id ∉ c.point.owed
  mEvents : c'.mEvents id = c.mEvents id
  seen : c'.seen id = c.seen id

/-- The backend goes on, and what it touches is noted. -/
theorem Unmoved.act {id : W} {a : InotifyAction W} {b : InotifyBackend W}
    (hb : c.backend.step ws a = some b) (harrives : c.backend.Arrives ws a)
    (hbackend : c'.backend = b) (hseen : c'.seen = c.seen) (hid : id ∉ c'.point.owed)
    (howed : ∀ id, id ∈ c.point.owed ∨ c.backend.Touches ws id a → id ∈ c'.point.owed) :
    Unmoved c c' id where
  owed hmem := hid (howed id (Or.inl hmem))
  mEvents := by
    rw [EventLoop.mEvents, hbackend]
    exact InotifyBackend.mEvents_of_not_touches hb harrives fun htouch =>
      hid (howed id (Or.inr htouch))
  seen := by rw [hseen]

/-- Another list is looked at. -/
theorem Unmoved.look {id id' : W} {point : EventLoopPoint W} (hid : id ∉ point.owed)
    (hne : id ≠ id') (howed : id ∈ c.point.owed → id ∈ point.owed) :
    Unmoved c { c.look id' with point := point } id :=
  ⟨fun hmem => hid (howed hmem), rfl, Function.update_of_ne hne ..⟩

/-- The steps that look at the list of a watcher. -/
def LooksAt (id : W) : EventLoopAction W → Prop
  | .notify id' | .other (.drain id') => id' = id
  | _ => False

theorem unmoved_of_step {id : W} {a : EventLoopAction W} (hok : c.MovesArrive ws a)
    (hlook : ¬ LooksAt id a) (hs : c.step ws a = some c') (hid : id ∉ c'.point.owed) :
    Unmoved c c' id := by
  cases steps_of_step hs with
  | queue event => exact ⟨hid, rfl, rfl⟩
  | poll readable hpoint =>
      refine ⟨?_, rfl, rfl⟩
      rw [hpoint]
      exact Finset.notMem_empty id
  | leavePoll hpoint => exact absurd (Set.mem_univ id) hid
  | leaveRead watchers hpoint hread => exact absurd (Set.mem_univ id) hid
  | read count watchers hpoint hread => exact ⟨hid, rfl, rfl⟩
  | again watchers hpoint hread => exact ⟨fun hmem => hid (by rwa [hpoint] at hmem), rfl, rfl⟩
  | next faults watchers _ hpoint hbuffer hnext =>
      obtain ⟨b, watchers', hb, hwatchers, rfl⟩ := of_next hnext
      rcases c.nextAction_cases faults with haction | haction
      · rw [haction] at hb hwatchers
        refine .act hb trivial rfl rfl hid ?_
        rw [hpoint]
        rintro id (hmem | hmem)
        · exact (hwatchers id).mpr (Or.inl hmem)
        · exact (hwatchers id).mpr (Or.inr ⟨⟨faults, rfl⟩, hmem⟩)
      · rw [haction] at hb
        refine .act hb trivial rfl rfl hid ?_
        rw [hpoint]
        rintro id (hmem | hmem)
        · exact (hwatchers id).mpr (Or.inl hmem)
        · exact hmem.elim
  | handleSubscription event pointer answers watchers _ hpoint hhandle =>
      obtain ⟨sub, b, hsub, hb, rfl⟩ := of_handleSubscription hhandle
      refine .act hb hok rfl rfl hid ?_
      rw [hpoint]
      rintro id (hid | ⟨sub', hsub', rfl, htrue⟩)
      · show id ∈ (_ : Finset W)
        split
        · exact Finset.mem_insert_of_mem hid
        · exact hid
      · obtain rfl : sub = sub' := Option.some.inj (hsub.symm.trans hsub')
        show sub.watcher ∈ (_ : Finset W)
        rw [if_pos htrue]
        exact Finset.mem_insert_self ..
  | notify id' watchers hpoint =>
      refine .look hid (Ne.symm hlook) ?_
      rw [hpoint]
      exact fun hmem => Finset.mem_coe.mpr (Finset.mem_erase.mpr ⟨Ne.symm hlook, hmem⟩)
  | announce id' watchers hpoint =>
      refine .look hid (Ne.symm hlook) ?_
      rw [hpoint]
      exact fun hmem => Finset.mem_coe.mpr (Finset.mem_erase.mpr ⟨Ne.symm hlook, hmem⟩)
  | flushExpiredMoves now faults _ hpoint hflush =>
      obtain ⟨b, hb, rfl⟩ := of_act hflush
      refine .act hb trivial rfl rfl hid ?_
      rw [hpoint]
      rintro id (hid | hid)
      · exact absurd hid (Finset.notMem_empty id)
      · exact hid
  | other action _ hother =>
      obtain ⟨b, hb, ⟨id', rfl, rfl⟩ | ⟨helse, rfl⟩⟩ := of_other hother
      · have hne : id ≠ id' := Ne.symm hlook
        exact ⟨hid, InotifyBackend.mEvents_of_not_touches hb trivial hne,
          Function.update_of_ne hne ..⟩
      · refine .act hb ?_ rfl rfl hid ?_
        · cases action with
          | handleSubscription => cases helse
          | _ => trivial
        · rintro id (hid | hid)
          · exact hid
          · cases action with
            | subscribe | unsubscribe | dropInode => exact hid.elim
            | _ => cases helse

/-- The steps of `notify` at its two places. -/
theorem of_notify {id : W} (hs : c.step ws (.notify id) = some c') :
    ∃ point, c' = { c.look id with point := point } ∧
      ∀ id', id' ≠ id → id' ∈ c.point.owed → id' ∈ point.owed := by
  have hkept : ∀ {watchers : Finset W} {id'}, id' ≠ id → id' ∈ watchers →
      id' ∈ watchers.erase id := fun hne hmem => Finset.mem_erase.mpr ⟨hne, hmem⟩
  cases steps_of_step hs with
  | notify _ watchers hpoint =>
      rw [hpoint]
      exact ⟨.notifying (watchers.erase id), rfl, fun _ => hkept⟩
  | announce _ watchers hpoint =>
      rw [hpoint]
      exact ⟨.announcing (watchers.erase id), rfl, fun _ => hkept⟩

/-- `notify` and a drain leave the list as it is then. -/
theorem seen_of_looksAt {id : W} {a : EventLoopAction W} (hlook : LooksAt id a)
    (hs : c.step ws a = some c') : c'.mEvents id = c'.seen id := by
  cases a with
  | notify id' =>
      obtain rfl := hlook
      obtain ⟨point, rfl, -⟩ := of_notify hs
      exact (Function.update_self id' (c.mEvents id') c.seen).symm
  | other action =>
      obtain ⟨b, -, ⟨id', rfl, rfl⟩ | ⟨helse, -⟩⟩ := of_other hs
      · obtain rfl := hlook
        exact (Function.update_self id' _ c.seen).symm
      · cases action with
        | drain => cases helse
        | _ => exact hlook.elim
  | _ => exact hlook.elim

theorem Woken.step (h : c.Woken) {a : EventLoopAction W} (hok : c.MovesArrive ws a)
    (hs : c.step ws a = some c') : c'.Woken := by
  intro id hid
  by_cases hlook : LooksAt id a
  · exact seen_of_looksAt hlook hs
  · have hsame := unmoved_of_step hok hlook hs hid
    rw [hsame.mEvents, hsame.seen]
    exact h id hsame.owed

theorem woken_of_reach (h : (eventLoopMachine ws).Reach (MovesArrive ws) c) : c.Woken := by
  refine h.invariant ?_ fun _ _ _ hi hok hs => hi.step hok hs
  rintro _ rfl
  exact fun _ _ => rfl

/-- When the thread polls, `notify` or a drain has seen every event list as it is. -/
theorem polls_woken (ws : Watchers W) (c : EventLoop W)
    (h : (eventLoopMachine ws).Reach (MovesArrive ws) c) (hpoint : c.point = .announcing ∅)
    (id : W) : c.mEvents id = c.seen id := by
  refine woken_of_reach h id ?_
  rw [hpoint]
  exact Finset.notMem_empty id

theorem polls_woken_created :
    ∃ c, Machine.execute (step plainWatchers) (start plainWatchers) loopRun = some c ∧
      ((c.mEvents ()).find ([47, 114, 47, 98], .File)).isSome = true ∧
      c.mEvents () = c.seen () := by
  have h₀ : (eventLoopMachine plainWatchers).Reach (MovesArrive plainWatchers)
      (start plainWatchers) := .init rfl
  have hadmits : Machine.Admits (MovesArrive plainWatchers) (step plainWatchers)
      (start plainWatchers) loopRun := by
    have harrives : ∀ (c : EventLoop Unit) (event : InotifyEvent),
        c.MovesArrive plainWatchers
          (.handleSubscription event 0 (WatchedBackend.fileAnswers true)) :=
      fun c event sub hsub m hm hentries hnone => by cases hnone
    exact ⟨trivial, trivial, trivial, trivial, trivial, trivial, harrives _ _, trivial, trivial,
      harrives _ _, trivial, trivial, trivial, trivial⟩
  exact ⟨_, rfl, by decide, polls_woken plainWatchers _ (h₀.execute hadmits rfl) rfl ()⟩

end EventLoop

end NativeWatcher
