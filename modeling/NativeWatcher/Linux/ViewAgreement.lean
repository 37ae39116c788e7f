import NativeWatcher.Lib.Machine
import NativeWatcher.Linux.Detached
import NativeWatcher.Linux.EventAgreement

/-!
# The index and the batches on Linux

From a subscription on, the consumer of a watcher holds the keys of its tree whenever the list
has been drained and no move is pending, in every run whose steps meet the conditions of the
events and of the moves that expire.
-/

namespace NativeWatcher

open Hierarchy EventList

variable {W : Type} [DecidableEq W]

namespace InotifyState

variable {s s' : InotifyState W} {id : W} {V : Finset EventKey} {faults : RmFaults}
  {b : (W × UInt32) × PendingInotifyMove}

/-! ## Moves that expire -/

/-- What a move that expires has to meet. -/
structure MoveTold (s : InotifyState W) (id : W) (V : Finset EventKey)
    (b : (W × UInt32) × PendingInotifyMove) : Prop where
  /-- The consumer was told of what is withdrawn. -/
  known : ∀ e ∈ b.2.entries, e.key ∉ (s.watchers id).tree.keys →
    (s.watchers id).mEvents.Known V e.key
  /-- None was created in this batch though the consumer held it. -/
  fresh : ∀ e ∈ b.2.entries, e.key ∉ (s.watchers id).tree.keys →
    (s.watchers id).mEvents.StaleCreate V e.key → e.key ∈ (s.eraseMove b.1.1 b.1.2).parked id

/-- The moves expire, each where the ones before it lead. -/
def ExpiredTold (faults : RmFaults) (id : W) (V : Finset EventKey) :
    List ((W × UInt32) × PendingInotifyMove) → InotifyState W → Prop
  | [], _ => True
  | b :: rest, s =>
      (b.1.1 = id → s.MoveTold id V b) ∧ ExpiredTold faults id V rest (s.expire faults b)

theorem not_mem_keys_iff {t : DirTree} {e : DirEntry} :
    e.key ∉ t.keys ↔
      ((t.find e.path).all fun replacement => replacement.isDir != e.isDir) = true := by
  have hmem : e.key ∈ t.keys ↔ t.kindAt e.path = some e.isDir := DirTree.mem_keys_iff_kindAt
  rw [hmem, DirTree.kindAt]
  cases t.find e.path with
  | none => simp
  | some replacement => simp

/-- The keys that are withdrawn. -/
theorem mem_expired {t : DirTree} {m : PendingInotifyMove} {k : EventKey} :
    k ∈ (m.entries.filter fun e =>
        (t.find e.path).all fun replacement => replacement.isDir != e.isDir).map DirEntry.key ↔
      (∃ e ∈ m.entries, e.key = k) ∧ k ∉ t.keys := by
  rw [List.mem_map]
  constructor
  · rintro ⟨e, he, rfl⟩
    obtain ⟨hmem, htest⟩ := List.mem_filter.mp he
    exact ⟨⟨e, hmem, rfl⟩, not_mem_keys_iff.mpr htest⟩
  · rintro ⟨⟨e, he, rfl⟩, hk⟩
    exact ⟨e, List.mem_filter.mpr ⟨he, not_mem_keys_iff.mp hk⟩, rfl⟩

theorem agrees_expire (h : s.Agrees b.1.1 V) (hm : s.mPendingMoves.lookup b.1 = some b.2)
    (hok : s.MoveTold b.1.1 V b) : (s.expire faults b).Agrees b.1.1 V := by
  have hnodup : ((b.2.entries.filter fun e => ((s.watchers b.1.1).tree.find e.path).all
      fun replacement => replacement.isDir != e.isDir).map DirEntry.key).Nodup := by
    apply List.Nodup.sublist (List.filter_sublist.map _)
    apply List.Nodup.of_map Prod.fst
    rw [List.map_map]
    exact b.2.distinct
  have hremovals : expiredRemovals (s.watchers b.1.1).tree b.2 =
      ((b.2.entries.filter fun e => ((s.watchers b.1.1).tree.find e.path).all
        fun replacement => replacement.isDir != e.isDir).map DirEntry.key).map .remove := by
    rw [List.map_map]
    rfl
  unfold Agrees
  have hwatcher : (s.expire faults b).watchers b.1.1 =
      { s.watchers b.1.1 with
        mEvents := (s.watchers b.1.1).mEvents.run
          (expiredRemovals (s.watchers b.1.1).tree b.2) } := watchers_commit ..
  rw [hwatcher, hremovals]
  apply Follows.giveUp h hnodup (fun k => mem_expired)
  · exact fun k hk => parked_eraseMove hm hk
  · intro k hk
    obtain ⟨⟨e, he, rfl⟩, hgone⟩ := mem_expired.mp hk
    exact hok.known e he hgone
  · intro k hk hs
    obtain ⟨⟨e, he, rfl⟩, hgone⟩ := mem_expired.mp hk
    exact hok.fresh e he hgone hs

/-- The moves that are still to expire stay where they are. -/
theorem lookup_expire {key : W × UInt32} (hne : key ≠ b.1) :
    (s.expire faults b).mPendingMoves.lookup key = s.mPendingMoves.lookup key :=
  (FiniteMap.lookup_erase_eq ..).trans (if_neg hne)

theorem agrees_foldl_expire {moves : List ((W × UInt32) × PendingInotifyMove)}
    (hnodup : (moves.map Prod.fst).Nodup)
    (hm : ∀ b ∈ moves, s.mPendingMoves.lookup b.1 = some b.2) (h : s.Agrees id V)
    (hok : ExpiredTold faults id V moves s) : (moves.foldl (expire faults) s).Agrees id V := by
  induction moves generalizing s with
  | nil => exact h
  | cons b rest ih =>
      rw [List.map_cons, List.nodup_cons] at hnodup
      rw [List.forall_mem_cons] at hm
      apply ih hnodup.2
      · intro b' hb'
        rw [lookup_expire]
        · exact hm.2 b' hb'
        · exact fun heq => hnodup.1 (heq ▸ List.mem_map_of_mem hb')
      · by_cases hid : b.1.1 = id
        · subst hid
          exact agrees_expire h hm.1 (hok.1 rfl)
        · exact h.sameFor (sameFor_expire (Ne.symm hid))
      · exact hok.2

theorem agrees_flushExpiredMoves {now : Nat} (h : s.Agrees id V)
    (hok : ExpiredTold faults id V (s.mPendingMoves.pairs.filter fun b => expired now b.2) s) :
    (s.flushExpiredMoves now faults).Agrees id V := by
  apply agrees_foldl_expire _ _ h hok
  · exact (FiniteMap.pairs_keys_nodup _).sublist (List.filter_sublist.map _)
  · exact fun b hb => FiniteMap.mem_pairs.mp (List.mem_of_mem_filter hb)

/-! ## The other routines -/

theorem invalidated_expire (h : (s.watchers id).invalidated = true) :
    ((s.expire faults b).watchers id).invalidated = true := by
  by_cases hid : b.1.1 = id
  · subst hid
    show ((s.commit b.1.1 _).watchers b.1.1).invalidated = true
    rw [watchers_commit]
    exact h
  · rw [(sameFor_expire (Ne.symm hid)).watcher]
    exact h

theorem invalidated_flushExpiredMoves {now : Nat} (h : (s.watchers id).invalidated = true) :
    ((s.flushExpiredMoves now faults).watchers id).invalidated = true :=
  List.foldlRecOn (motive := fun s : InotifyState W => (s.watchers id).invalidated = true) _ _ h
    fun _ hs _ _ => invalidated_expire hs

theorem kept_flushExpiredMoves {now : Nat} (h : s.Kept id V)
    (hok : (s.watchers id).invalidated = false →
      ExpiredTold faults id V (s.mPendingMoves.pairs.filter fun b => expired now b.2) s) :
    (s.flushExpiredMoves now faults).Kept id V := by
  intro hvalid
  have hbefore : (s.watchers id).invalidated = false := by
    by_contra hne
    rw [invalidated_flushExpiredMoves (Bool.not_eq_false _ ▸ hne)] at hvalid
    cases hvalid
  exact agrees_flushExpiredMoves (h hbefore) (hok hbefore)

theorem Kept.sameFor (h : s.Kept id V) (hsame : SameFor id s s') : s'.Kept id V := by
  intro hvalid
  rw [hsame.watcher] at hvalid
  exact (h hvalid).sameFor hsame

theorem invalidated_overflow {w : InotifyWatcher W} :
    ((s.overflow faults w).watchers w.id).invalidated = true := by
  unfold overflow
  dsimp only
  show ((((s.invalidate w.id).error w.id _).watchers w.id).invalidated) = true
  rw [watchers_error, watchers_invalidate]

theorem kept_overflow {w : InotifyWatcher W} (h : s.Kept id V) : (s.overflow faults w).Kept id V := by
  by_cases hid : id = w.id
  · subst hid
    intro hvalid
    rw [invalidated_overflow] at hvalid
    cases hvalid
  · exact h.sameFor (sameFor_overflow hid)

theorem kept_handleOverflow {ws : Watchers W} (h : s.Kept id V) :
    (s.handleOverflow ws faults).Kept id V :=
  List.foldlRecOn (motive := fun s : InotifyState W => s.Kept id V) _ _ h
    fun _ hs _ _ => kept_overflow hs

end InotifyState

/-! ## Runs -/

/-- The backend with the set that the consumer of one watcher holds. -/
structure WatchedBackend (W : Type) where
  backend : InotifyBackend W
  view : Finset EventKey

/-- The action begins or ends the subscription of the watcher. -/
def InotifyAction.concerns (id : W) : InotifyAction W → Bool
  | .subscribe id' _ | .unsubscribe id' _ => id' == id
  | _ => false

/-- What the consumer holds after an action. -/
def InotifyAction.delivers (id : W) (s : InotifyState W) (view : Finset EventKey) :
    InotifyAction W → Finset EventKey
  | .drain id' =>
      if id' = id then deliver view (s.watchers id).mEvents.drain.1.events else view
  | _ => view

namespace WatchedBackend

variable {ws : Watchers W} {id : W} {c c' : WatchedBackend W} {a : InotifyAction W}

def step (ws : Watchers W) (id : W) (c : WatchedBackend W) (a : InotifyAction W) :
    Option (WatchedBackend W) :=
  if a.concerns id then none
  else (c.backend.step ws a).map fun b => ⟨b, a.delivers id c.backend.state c.view⟩

/-- `subscribe` of a watcher of which nothing is left, under `mMutex`. -/
structure Subscribes (ws : Watchers W) (id : W) (s : InotifyState W) (answers : SubscribeAnswers)
    (b : InotifyBackend W) : Prop where
  detached : s.Detached id
  running : answers.cancelled = false
  subscribed : s.subscribe (ws.watcher id) answers = (none, b.state)
  locked : b.remaining = []

/-- The watcher has just been subscribed: its list is empty and the consumer holds its tree. -/
structure Started (ws : Watchers W) (id : W) (c : WatchedBackend W) : Prop where
  subscribed : ∃ (s : InotifyState W) (answers : SubscribeAnswers),
    (s.watchers id).mEvents = .empty ∧ Subscribes ws id s answers c.backend
  held : c.view = (c.backend.state.watchers id).tree.keys

/-- The condition on the steps of a run. -/
def Sound (ws : Watchers W) (id : W) (c : WatchedBackend W) : InotifyAction W → Prop
  | .handleSubscription event pointer answers =>
      ∀ sub, c.backend.state.table.heap[pointer]? = some sub → sub.watcher = id →
        (c.backend.state.watchers id).invalidated = false →
          c.backend.state.HandleTold (ws.watcher id) c.view event pointer sub answers
  | .flushExpiredMoves now faults =>
      (c.backend.state.watchers id).invalidated = false →
        InotifyState.ExpiredTold faults id c.view
          (c.backend.state.mPendingMoves.pairs.filter fun b => InotifyState.expired now b.2)
          c.backend.state
  | _ => True

/-- The consumer and the tree agree as long as the watcher is valid. -/
def Kept (id : W) (c : WatchedBackend W) : Prop := c.backend.state.Kept id c.view

theorem kept_started (h : Started ws id c) : c.Kept id := by
  obtain ⟨⟨s, answers, hevents, -, hrunning, hsubscribed, -⟩, hheld⟩ := h
  obtain ⟨r, hstate⟩ : ∃ r, c.backend.state = s.adopt id r false := by
    unfold InotifyState.subscribe at hsubscribed
    split at hsubscribed
    · cases hsubscribed
    next r _ =>
        rw [hrunning] at hsubscribed
        have hid := ws.id_watcher id
        refine ⟨r, ?_⟩
        rw [← hid]
        exact (congrArg Prod.snd hsubscribed).symm
  have hlist : (c.backend.state.watchers id).mEvents = .empty := by
    rw [hstate, InotifyState.watchers_adopt]
    exact hevents
  intro _
  unfold InotifyState.Agrees
  rw [hlist]
  apply Follows.of_announces (Announces.empty c.view)
  · intro k hk _
    rw [hheld]
    exact Finset.mem_coe.mpr hk
  · intro k hk
    rw [hheld] at hk
    exact Or.inl (Finset.mem_coe.mp hk)

theorem kept_locked {s : InotifyState W} {b b' : InotifyBackend W} {V : Finset EventKey}
    (hb : b.locked s = some b') (h : s.Kept id V) : b'.state.Kept id V :=
  InotifyBackend.holds_of_locked (P := fun s => s.Kept id V) h hb

theorem kept_drain {s : InotifyState W} {V : Finset EventKey} (h : s.Kept id V) :
    (s.drain id).Kept id (deliver V (s.watchers id).mEvents.drain.1.events) := by
  intro hvalid
  rw [InotifyState.watchers_drain] at hvalid
  have hagrees := h hvalid
  unfold InotifyState.Agrees
  rw [InotifyState.watchers_drain]
  exact Follows.of_announces (hagrees.announces.drain) hagrees.told hagrees.sound

/-- One step of a run. -/
theorem kept_step (h : c.Kept id) (hok : Sound ws id c a) (hs : step ws id c a = some c') :
    c'.Kept id := by
  unfold Kept at h ⊢
  unfold step at hs
  split at hs
  · cases hs
  next hother =>
      obtain ⟨b, hb, rfl⟩ := Option.map_eq_some_iff.mp hs
      cases a with
      | subscribe id' answers =>
          have hne : id ≠ (ws.watcher id').id := by
            rw [ws.id_watcher]
            rintro rfl
            exact hother (beq_self_eq_true id)
          exact kept_locked hb (h.sameFor (InotifyState.sameFor_subscribe hne answers))
      | handleEvent event =>
          show b.state.Kept id c.view
          rw [InotifyBackend.state_of_handleEvent hb]
          exact h
      | handleSubscription event pointer answers =>
          obtain ⟨sub, hsub, hstate⟩ := InotifyBackend.of_step_handleSubscription hb
          show b.state.Kept id c.view
          rw [hstate]
          by_cases hid : sub.watcher = id
          · have hwid : (ws.watcher id).id = id := ws.id_watcher id
            have htold := hok sub hsub hid
            have hkept : (c.backend.state.handleSubscription (ws.watcher id) event pointer sub
                answers).2.Kept (ws.watcher id).id c.view :=
              InotifyState.kept_handleSubscription (hwid.symm ▸ h) (hwid.symm ▸ htold)
            rw [hwid, ← hid] at hkept
            rw [← hid]
            exact hkept
          · have hne : id ≠ (ws.watcher sub.watcher).id := by
              rw [ws.id_watcher]
              exact Ne.symm hid
            exact h.sameFor (InotifyState.sameFor_handleSubscription hne)
      | flushExpiredMoves now faults =>
          exact kept_locked hb (InotifyState.kept_flushExpiredMoves h hok)
      | handleOverflow faults => exact kept_locked hb (InotifyState.kept_handleOverflow h)
      | unsubscribe id' faults =>
          have hne : id ≠ id' := by
            rintro rfl
            exact hother (beq_self_eq_true id)
          exact kept_locked hb (h.sameFor (InotifyState.sameFor_unsubscribe hne))
      | drain id' =>
          cases hb
          unfold InotifyAction.delivers
          dsimp only
          split
          next hid =>
              subst hid
              exact kept_drain h
          next hid => exact h.sameFor (InotifyState.sameFor_drain (Ne.symm hid))
      | dropInode inode =>
          cases hb
          exact h.sameFor ⟨rfl, fun _ => rfl⟩

theorem kept_of_reach {c₀ : WatchedBackend W} (hstart : Started ws id c₀)
    (h : (Machine.ofStep c₀ (step ws id)).Reach (Sound ws id) c) : c.Kept id := by
  apply Machine.Reach.invariant _ _ h
  · rintro c rfl
    exact kept_started hstart
  · exact fun c a c' hc hok hs => kept_step hc hok hs

/-- Along a run whose steps meet the condition the consumer holds the keys of the tree
whenever the list has been drained, no move is pending and the watcher is valid. -/
theorem consumer_holds_tree (ws : Watchers W) (id : W) (c₀ c : WatchedBackend W)
    (hstart : Started ws id c₀) (h : (Machine.ofStep c₀ (step ws id)).Reach (Sound ws id) c)
    (hvalid : (c.backend.state.watchers id).invalidated = false)
    (hmoves : ∀ cookie, c.backend.state.mPendingMoves.lookup (id, cookie) = none) :
    deliver c.view (c.backend.state.watchers id).mEvents.drain.1.events =
      (c.backend.state.watchers id).tree.keys := by
  have hagrees := kept_of_reach hstart h hvalid
  have hnone : c.backend.state.parked id = ∅ := by
    ext k
    refine iff_of_false ?_ (Set.notMem_empty k)
    rintro ⟨cookie, m, hm, _⟩
    rw [hmoves cookie] at hm
    cases hm
  unfold InotifyState.Agrees at hagrees
  rw [hnone] at hagrees
  ext k
  rw [mem_deliver_drain]
  exact hagrees.told_iff k

/-! ### A path that is used again -/

section Examples

def fileStat : FileStat := ⟨.regular, ⟨0, 0⟩⟩

/-- `/r` with the file `a`. -/
def rootWithFile : DirScan :=
  .opened (.ok directoryStat)
    (.cons ⟨[97], false, some fileStat, false, .fails 0, fun _ => none⟩ (.opendirFails 0) .nil)

def subscribeFile : SubscribeAnswers where
  ancestor _ := .fails 0
  root := .resolves 1 1
  scan := rootWithFile
  cancelled := false
  faults _ := none

/-- The root is subscribed, and the consumer holds it with the file. -/
def subscribedFile : WatchedBackend Unit :=
  let s := ((InotifyState.start plainWatchers).subscribe (plainWatchers.watcher ()) subscribeFile).2
  ⟨⟨s, []⟩, (s.watchers ()).tree.keys⟩

theorem subscribedFile_started : Started plainWatchers () subscribedFile where
  subscribed := ⟨.start plainWatchers, subscribeFile, rfl,
    ⟨fun _ he => absurd he List.not_mem_nil, fun _ => rfl⟩, rfl, rfl, rfl⟩
  held := rfl

def fileEvent (mask : UInt32) (cookie : UInt32) (name : Str) : InotifyEvent :=
  ⟨1, mask, cookie, some name⟩

/-- The file is there for `lstat`, or nothing is. -/
def fileAnswers (there : Bool) : EventAnswers :=
  ⟨if there then some fileStat else none, .fails 0, .opendirFails 0, fun _ => none, 0⟩

/-- One event, handled for the subscription of the root. -/
def fileStep (event : InotifyEvent) (there : Bool) : List (InotifyAction Unit) :=
  [.handleEvent event, .handleSubscription event 0 (fileAnswers there)]

/-- The file `b` is created. -/
def createRun : List (InotifyAction Unit) := fileStep (fileEvent IN_CREATE 0 [98]) true

theorem createRun_admitted :
    Machine.Admits (Sound plainWatchers ()) (step plainWatchers ()) subscribedFile createRun := by
  refine ⟨trivial, ?_, trivial⟩
  intro sub hsub _ _
  cases hsub
  refine ⟨fun st hlstat hst => ?_, fun st hlstat hst => ?_⟩
  · cases hlstat
    cases hst
  · cases hlstat
    cases hst

theorem consumer_holds_tree_create :
    ∃ c : WatchedBackend Unit, ([47, 114, 47, 98], EntryKind.File) ∈
        (c.backend.state.watchers ()).tree.keys ∧
      deliver c.view (c.backend.state.watchers ()).mEvents.drain.1.events =
        (c.backend.state.watchers ()).tree.keys := by
  have h₀ : (Machine.ofStep subscribedFile (step plainWatchers ())).Reach (Sound plainWatchers ())
      subscribedFile := .init rfl
  have h := h₀.execute createRun_admitted rfl
  exact ⟨_, by decide, consumer_holds_tree plainWatchers () subscribedFile _
    subscribedFile_started h rfl fun _ => rfl⟩

/-- The file `a` is moved away, made anew and deleted, and the move expires. -/
def reuseRun : List (InotifyAction Unit) :=
  fileStep (fileEvent IN_MOVED_FROM 7 [97]) false ++ fileStep (fileEvent IN_CREATE 0 [97]) true ++
    fileStep (fileEvent IN_DELETE 0 [97]) false ++ [.flushExpiredMoves 1000000000 fun _ => none]

theorem reused_path_stays :
    ¬ ∀ (ws : Watchers Unit) (c₀ c : WatchedBackend Unit), Started ws () c₀ →
      (Machine.ofStep c₀ (step ws ())).Reachable c →
        (c.backend.state.watchers ()).invalidated = false →
          (∀ cookie, c.backend.state.mPendingMoves.lookup ((), cookie) = none) →
            deliver c.view (c.backend.state.watchers ()).mEvents.drain.1.events =
              (c.backend.state.watchers ()).tree.keys := by
  intro h
  have h₀ : (Machine.ofStep subscribedFile (step plainWatchers ())).Reachable subscribedFile :=
    .init rfl
  have hreach := h₀.execute (l := reuseRun) rfl
  have hkeys := h plainWatchers subscribedFile _ subscribedFile_started hreach rfl fun _ => rfl
  have hheld := congrArg (fun V => decide (([47, 114, 47, 97], EntryKind.File) ∈ V)) hkeys
  revert hheld
  decide

end Examples

end WatchedBackend

end NativeWatcher
