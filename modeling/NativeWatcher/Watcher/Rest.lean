import NativeWatcher.Event.EventList
import NativeWatcher.Watcher.Debounce
import Mathlib.Data.Finset.Basic
import Mathlib.Data.Set.Basic

/-!
# From `notify` to `triggerCallbacks`

A backend tells the event lists of its watchers of changes and calls `notify`, which triggers
the debouncer; a round of the debouncer calls `triggerCallbacks` for every watcher it knows,
and this drains the list of a watcher that has callbacks. When the backend owes no
notification and the debouncer sleeps, nothing is left in a list.
-/

namespace NativeWatcher

/-- `mEvents.size() > 0 || mEvents.hasError()`. -/
def EventList.waits (l : EventList) : Bool := decide (0 < l.size) || l.hasError

theorem EventList.waits_drain (l : EventList) : l.drain.2.waits = false := rfl

theorem EventList.waits_eq_false_iff {l : EventList} :
    l.waits = false ↔ l.size = 0 ∧ l.hasError = false := by
  rw [waits, Bool.or_eq_false_iff, decide_eq_false_iff_not, Nat.not_lt, Nat.le_zero]

/-- A list that does not wait has nothing to hand on. -/
theorem EventList.drain_events_of_waits {l : EventList} (h : l.waits = false) :
    l.drain.1.events = [] := by
  have hnone : l.mEvents.entries = [] := List.eq_nil_of_length_eq_zero (waits_eq_false_iff.mp h).1
  have hentries : l.entries = [] := by
    rw [entries, FiniteMap.pairs, hnone]
    rfl
  show l.kept.map _ = []
  rw [kept, hentries]
  rfl

/-- A backend, for any number of watchers. The guard is on its steps. -/
structure Notifier (W σ α : Type) where
  mEvents : σ → W → EventList
  /-- The watchers that are still to be notified. -/
  owed : σ → Set W
  ok : σ → α → Prop
  /-- Neither a call of `notify` nor a drain. -/
  step : σ → α → Option σ
  notify : σ → W → Option σ
  drain : σ → W → σ
  of_step : ∀ {s a s' id}, ok s a → step s a = some s' → id ∉ owed s' →
    id ∉ owed s ∧ mEvents s' id = mEvents s id
  of_notify : ∀ {s id s'}, notify s id = some s' →
    mEvents s' = mEvents s ∧ ∀ id', id' ≠ id → id' ∈ owed s → id' ∈ owed s'
  drain_self : ∀ s id, mEvents (drain s id) id = (mEvents s id).drain.2
  drain_of_ne : ∀ {s id id'}, id' ≠ id → mEvents (drain s id) id' = mEvents s id'
  owed_drain : ∀ s id, owed (drain s id) = owed s

/-- A backend, the debouncer and the watchers between them. -/
structure Debounced (W σ : Type) where
  source : σ
  debounce : DebounceState
  /-- `mCallbacks` of the debouncer. -/
  mCallbacks : Finset W
  /-- The watchers that the round has still to call. -/
  calls : Finset W
  /-- Whether the watcher has callbacks. -/
  watched : W → Bool
  /-- The thread of the backend is in `trigger`, as caller 0. -/
  triggers : Bool

inductive DebouncedAction (W α : Type) where
  | source (a : α)
  | notify (id : W)
  | debounce (a : DebounceAction)
  | triggerCallbacks (id : W)
  /-- A callback is added. -/
  | watch (id : W)
  /-- The last callback leaves. -/
  | unwatch (id : W)
  /-- `Debounce::add` for a new watcher, and `Debounce::remove`. -/
  | add (id : W)
  | remove (id : W)

namespace Debounced

variable {W σ α : Type} [DecidableEq W]

def start (s : σ) : Debounced W σ := ⟨s, .start, ∅, ∅, fun _ => false, false⟩

/-- The round calls every callback before it goes on; the thread of the backend takes the
lock in `trigger` only. -/
def allows (d : Debounced W σ) : DebounceAction → Bool
  | .loop _ => decide (d.debounce.point ≠ .calling) || decide (d.calls = ∅)
  | .lock t | .notify t | .unlock t => decide (t ≠ 0) || d.triggers
  | .edit t => decide (t ≠ 0)
  | _ => true

/-- Whether `trigger` ends in the thread of the backend. -/
def endsTrigger (d : Debounced W σ) : DebounceAction → Bool
  | .unlock t => decide (t = 0) && decide (d.debounce.caller t = .notified)
  | _ => false

/-- The debounce thread, or a thread that calls the debouncer, goes on. -/
def act (d : Debounced W σ) (a : DebounceAction) : Option (Debounced W σ) :=
  if d.allows a then
    (d.debounce.step a).map fun s =>
      { d with
        debounce := s
        calls := if d.debounce.point = .locking ∧ s.point = .calling then d.mCallbacks else d.calls
        triggers := d.triggers && !d.endsTrigger a }
  else none

variable (S : Notifier W σ α)

/-- `Watcher::notify`: whether it has to trigger the debouncer. -/
def notify (d : Debounced W σ) (id : W) : Option (Debounced W σ) :=
  if d.triggers then none
  else (S.notify d.source id).map fun s =>
    { d with source := s, triggers := d.watched id && (S.mEvents d.source id).waits }

/-- `Watcher::triggerCallbacks`, called by a round. -/
def triggerCallbacks (d : Debounced W σ) (id : W) : Option (Debounced W σ) :=
  if d.debounce.point = .calling ∧ id ∈ d.calls then
    some { d with
      calls := d.calls.erase id
      source := if d.watched id then S.drain d.source id else d.source }
  else none

/-- `Debounce::add` and `Debounce::remove` take the lock of the debouncer. -/
def edit (d : Debounced W σ) (mCallbacks : Finset W) : Option (Debounced W σ) :=
  if d.debounce.mMutex = none then some { d with mCallbacks := mCallbacks } else none

def step (d : Debounced W σ) : DebouncedAction W α → Option (Debounced W σ)
  | .source a => (S.step d.source a).map fun s => { d with source := s }
  | .notify id => d.notify S id
  | .debounce a => d.act a
  | .triggerCallbacks id => d.triggerCallbacks S id
  | .watch id => some { d with watched := Function.update d.watched id true }
  | .unwatch id => some { d with watched := Function.update d.watched id false }
  | .add id => d.edit (insert id d.mCallbacks)
  | .remove id => d.edit (d.mCallbacks.erase id)

/-- The list of `id` is empty when the debouncer learns of the watcher, and when it has
callbacks again. -/
def Sound (id : W) (d : Debounced W σ) : DebouncedAction W α → Prop
  | .source a => S.ok d.source a
  | .watch id' => id' = id → d.watched id = true ∨ (S.mEvents d.source id).waits = false
  | .add id' => id' = id → id ∈ d.mCallbacks ∨ (S.mEvents d.source id).waits = false
  | _ => True

/-- Somebody is on the way to the list. -/
def Awaited (d : Debounced W σ) (id : W) : Prop :=
  id ∈ S.owed d.source ∨ d.triggers = true ∨ d.debounce.pending = true ∨
    d.debounce.point = .calling ∧ id ∈ d.calls

structure RestInv (id : W) (d : Debounced W σ) : Prop where
  debounce : DebounceInv d.debounce
  awaited : d.watched id = true → id ∈ d.mCallbacks → (S.mEvents d.source id).waits = true →
    d.Awaited S id

variable {S} {id : W} {d d' : Debounced W σ}

/-! ## What the routines do -/

theorem of_act {a : DebounceAction} (hs : d.act a = some d') :
    d.allows a = true ∧ ∃ s, d.debounce.step a = some s ∧
      d' = { d with
        debounce := s
        calls := if d.debounce.point = .locking ∧ s.point = .calling then d.mCallbacks else d.calls
        triggers := d.triggers && !d.endsTrigger a } := by
  unfold act at hs
  split at hs
  next hallows =>
      obtain ⟨s, hstep, rfl⟩ := Option.map_eq_some_iff.mp hs
      exact ⟨hallows, s, hstep, rfl⟩
  next => cases hs

omit [DecidableEq W] in
theorem of_notify {id : W} (hs : d.notify S id = some d') :
    d.triggers = false ∧ ∃ s, S.notify d.source id = some s ∧
      d' = { d with source := s, triggers := d.watched id && (S.mEvents d.source id).waits } := by
  unfold notify at hs
  split at hs
  next => cases hs
  next hnot =>
      obtain ⟨s, hstep, rfl⟩ := Option.map_eq_some_iff.mp hs
      exact ⟨Bool.eq_false_iff.mpr hnot, s, hstep, rfl⟩

theorem of_triggerCallbacks {id : W} (hs : d.triggerCallbacks S id = some d') :
    d' = { d with
      calls := d.calls.erase id
      source := if d.watched id then S.drain d.source id else d.source } := by
  unfold triggerCallbacks at hs
  split at hs
  next => exact (Option.some.inj hs).symm
  next => cases hs

omit [DecidableEq W] in
theorem of_edit {mCallbacks : Finset W} (hs : d.edit mCallbacks = some d') :
    d' = { d with mCallbacks := mCallbacks } := by
  unfold edit at hs
  split at hs
  next => exact (Option.some.inj hs).symm
  next => cases hs

/-! ## The list is awaited -/

omit [DecidableEq W] in
theorem RestInv.source (h : d.RestInv S id) {a : α} (hok : S.ok d.source a) {s : σ}
    (hs : S.step d.source a = some s) : ({ d with source := s } : Debounced W σ).RestInv S id := by
  refine ⟨h.debounce, fun hwatched hin hwaits => ?_⟩
  by_cases howed : id ∈ S.owed s
  · exact Or.inl howed
  · obtain ⟨hbefore, hsame⟩ := S.of_step hok hs howed
    have hwaits' : (S.mEvents d.source id).waits = true := hsame ▸ hwaits
    rcases h.awaited hwatched hin hwaits' with hmem | hrest
    · exact absurd hmem hbefore
    · exact Or.inr hrest

theorem RestInv.notify (h : d.RestInv S id) {id' : W} (hs : d.notify S id' = some d') :
    d'.RestInv S id := by
  obtain ⟨hnot, s, hnotify, rfl⟩ := of_notify hs
  obtain ⟨hlists, howed⟩ := S.of_notify hnotify
  refine ⟨h.debounce, fun hwatched hin hwaits => ?_⟩
  change (S.mEvents s id).waits = true at hwaits
  rw [hlists] at hwaits
  by_cases heq : id = id'
  · subst heq
    refine Or.inr (Or.inl ?_)
    show (d.watched id && (S.mEvents d.source id).waits) = true
    rw [hwatched, hwaits, Bool.and_self]
  · rcases h.awaited hwatched hin hwaits with hmem | htriggers | hrest
    · exact Or.inl (howed id heq hmem)
    · rw [hnot] at htriggers
      cases htriggers
    · exact Or.inr (Or.inr hrest)

theorem RestInv.triggerCallbacks (h : d.RestInv S id) {id' : W}
    (hs : d.triggerCallbacks S id' = some d') : d'.RestInv S id := by
  rw [of_triggerCallbacks hs]
  refine ⟨h.debounce, fun hwatched hin hwaits => ?_⟩
  change d.watched id = true at hwatched
  by_cases heq : id = id'
  · subst heq
    rw [if_pos hwatched, S.drain_self, EventList.waits_drain] at hwaits
    cases hwaits
  · have hsame : S.mEvents (if d.watched id' then S.drain d.source id' else d.source) id =
        S.mEvents d.source id ∧
        S.owed (if d.watched id' then S.drain d.source id' else d.source) = S.owed d.source := by
      split
      · exact ⟨S.drain_of_ne heq, S.owed_drain ..⟩
      · exact ⟨rfl, rfl⟩
    rw [hsame.1] at hwaits
    rcases h.awaited hwatched hin hwaits with hmem | htriggers | hpending | ⟨hpoint, hcall⟩
    · exact Or.inl (hsame.2 ▸ hmem)
    · exact Or.inr (Or.inl htriggers)
    · exact Or.inr (Or.inr (Or.inl hpending))
    · exact Or.inr (Or.inr (Or.inr ⟨hpoint, Finset.mem_erase.mpr ⟨heq, hcall⟩⟩))

/-- Only the debounce thread leaves the callbacks. -/
theorem calling_of_step {s s' : DebounceState} {a : DebounceAction} (hs : s.step a = some s')
    (ha : ∀ late, a ≠ .loop late) (hpoint : s.point = .calling) : s'.point = .calling := by
  cases a with
  | loop late => exact absurd rfl (ha late)
  | unlock t =>
      simp only [DebounceState.step] at hs
      split at hs
      · cases hs
        exact hpoint
      · cases hs
        exact hpoint
      · cases hs
  | stop =>
      cases hs
      exact hpoint
  | notifyStop =>
      simp only [DebounceState.step] at hs
      split at hs
      · cases hs
      · cases hs
        exact hpoint
  | timeout =>
      simp only [DebounceState.step, hpoint] at hs
      cases hs
  | lock t | notify t | edit t =>
      simp only [DebounceState.step, DebounceState.enter] at hs
      split at hs
      · cases hs
        exact hpoint
      · cases hs

omit [DecidableEq W] in
/-- A `trigger` that ends is pending. -/
theorem pending_of_endsTrigger {a : DebounceAction} {s : DebounceState}
    (hends : d.endsTrigger a = true) (hs : d.debounce.step a = some s) : s.pending = true := by
  cases a with
  | unlock t =>
      have hnotified : d.debounce.caller t = .notified := by
        simp only [endsTrigger, Bool.and_eq_true, decide_eq_true_eq] at hends
        exact hends.2
      simp only [DebounceState.step, hnotified] at hs
      cases hs
      rfl
  | _ => cases hends

theorem RestInv.act (h : d.RestInv S id) {a : DebounceAction} (hs : d.act a = some d') :
    d'.RestInv S id := by
  obtain ⟨hallows, s, hstep, rfl⟩ := of_act hs
  refine ⟨debounceInv_step h.debounce hstep, fun hwatched hin hwaits => ?_⟩
  rcases h.awaited hwatched hin hwaits with hmem | htriggers | hpending | ⟨hpoint, hcall⟩
  · exact Or.inl hmem
  · cases hends : d.endsTrigger a with
    | true => exact Or.inr (Or.inr (Or.inl (pending_of_endsTrigger hends hstep)))
    | false =>
        refine Or.inr (Or.inl ?_)
        show (d.triggers && !false) = true
        rw [htriggers]
        rfl
  · by_cases hround : d.debounce.point = .locking ∧ s.point = .calling
    · -- The round begins, with every watcher the debouncer knows.
      refine Or.inr (Or.inr (Or.inr ⟨hround.2, ?_⟩))
      show id ∈ if _ then _ else _
      rw [if_pos hround]
      exact hin
    · exact Or.inr (Or.inr (Or.inl (QuietStep.pending ⟨a, hstep, hround⟩ hpending)))
  · have ha : ∀ late, a ≠ .loop late := by
      rintro late rfl
      simp only [allows, hpoint, ne_eq, not_true_eq_false, decide_false, Bool.false_or,
        decide_eq_true_eq] at hallows
      rw [hallows] at hcall
      exact absurd hcall (Finset.notMem_empty id)
    refine Or.inr (Or.inr (Or.inr ⟨calling_of_step hstep ha hpoint, ?_⟩))
    show id ∈ if _ then _ else _
    rw [if_neg (by rw [hpoint]; rintro ⟨hne, -⟩; cases hne)]
    exact hcall

omit [DecidableEq W] in
/-- The same lists and debouncer, for a watcher that was awaited before. -/
theorem RestInv.of_watched (h : d.RestInv S id) {watched : W → Bool} {mCallbacks : Finset W}
    (hwas : watched id = true → id ∈ mCallbacks → (S.mEvents d.source id).waits = true →
      d.watched id = true ∧ id ∈ d.mCallbacks) :
    ({ d with watched := watched, mCallbacks := mCallbacks } : Debounced W σ).RestInv S id := by
  refine ⟨h.debounce, fun hwatched hin hwaits => ?_⟩
  obtain ⟨hwatched', hin'⟩ := hwas hwatched hin hwaits
  exact h.awaited hwatched' hin' hwaits

theorem RestInv.step (h : d.RestInv S id) {a : DebouncedAction W α} (hok : d.Sound S id a)
    (hs : d.step S a = some d') : d'.RestInv S id := by
  cases a with
  | source a =>
      obtain ⟨s, hstep, rfl⟩ := Option.map_eq_some_iff.mp hs
      exact h.source hok hstep
  | notify id' => exact h.notify hs
  | debounce a => exact h.act hs
  | triggerCallbacks id' => exact h.triggerCallbacks hs
  | watch id' =>
      cases hs
      refine h.of_watched fun hwatched hin hwaits => ⟨?_, hin⟩
      by_cases heq : id' = id
      · exact (hok heq).resolve_right (by rw [hwaits]; exact Bool.noConfusion)
      · rwa [Function.update_of_ne (Ne.symm heq)] at hwatched
  | unwatch id' =>
      cases hs
      refine h.of_watched fun hwatched hin _ => ⟨?_, hin⟩
      by_cases heq : id' = id
      · rw [heq, Function.update_self] at hwatched
        cases hwatched
      · rwa [Function.update_of_ne (Ne.symm heq)] at hwatched
  | add id' =>
      rw [of_edit hs]
      refine h.of_watched fun hwatched hin hwaits => ⟨hwatched, ?_⟩
      rcases Finset.mem_insert.mp hin with heq | hmem
      · exact (hok heq.symm).resolve_right (by rw [hwaits]; exact Bool.noConfusion)
      · exact hmem
  | remove id' =>
      rw [of_edit hs]
      exact h.of_watched fun hwatched hin _ => ⟨hwatched, (Finset.mem_erase.mp hin).2⟩

theorem restInv_of_reach {s₀ : σ}
    (h : (Machine.ofStep (start s₀) (step S)).Reach (Sound S id) d) : d.RestInv S id := by
  refine h.invariant ?_ fun _ _ _ hi hok hs => hi.step hok hs
  rintro _ rfl
  exact ⟨debounceInv_start, fun hwatched => Bool.noConfusion hwatched⟩

omit [DecidableEq W] in
/-- **Nothing is left behind.** When the backend owes no notification and triggers nothing, and
the debouncer waits with its signal down, the list of a watcher with callbacks is empty. -/
theorem RestInv.at_rest (h : d.RestInv S id) (howed : S.owed d.source = ∅)
    (htriggers : d.triggers = false) (hwaiting : d.debounce.point = .waiting)
    (hflag : d.debounce.mFlag = false) (hrunning : d.debounce.mRunning = true)
    (hwatched : d.watched id = true) (hin : id ∈ d.mCallbacks) :
    (S.mEvents d.source id).waits = false := by
  by_contra hwaits
  rw [Bool.not_eq_false] at hwaits
  rcases h.awaited hwatched hin hwaits with hmem | htrue | hpending | ⟨hpoint, -⟩
  · rw [howed] at hmem
    exact hmem
  · rw [htriggers] at htrue
    cases htrue
  · rcases h.debounce.owed hrunning (Or.inl hpending) with hup | hmust
    · rw [hflag] at hup
      cases hup
    · rw [hwaiting] at hmust
      exact hmust
  · rw [hwaiting] at hpoint
    cases hpoint

end Debounced

end NativeWatcher
