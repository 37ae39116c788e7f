import NativeWatcher.Event.NetEffect
import Mathlib.Data.Set.Insert

/-!
# The consumer's view

A consumer holds the set of the keys that it was told are there, and folds every batch
over it. What it will hold once the list is drained depends, key by key, on the two flags
of the entry and on what it holds now: equal flags leave the key alone, a lone `isCreated`
adds it, a lone `isDeleted` takes it away.

The list says nothing about a key that was created and deleted in one batch. That is right
for a key the consumer never heard of, and it loses a deletion when a key it holds was
created once more; such a creation is stale.
-/

namespace NativeWatcher

/-- What an event does to the set of the consumer. -/
def viewStep (V : Finset EventKey) (e : Event) : Finset EventKey :=
  match e.type with
  | .create => insert e.key V
  | .delete => V.erase e.key
  | .update => V

def deliver (V : Finset EventKey) (events : List Event) : Finset EventKey :=
  events.foldl viewStep V

/-- What an event of one key does to its being held. -/
def EventType.holds (held : Prop) : EventType → Prop
  | .create => True
  | .delete => False
  | .update => held

theorem mem_viewStep {V : Finset EventKey} {e : Event} {k : EventKey} :
    k ∈ viewStep V e ↔ if e.key = k then e.type.holds (k ∈ V) else k ∈ V := by
  unfold viewStep
  by_cases hk : e.key = k
  · subst hk
    cases e.type <;> simp [EventType.holds]
  · have hne : k ≠ e.key := fun h => hk h.symm
    cases e.type <;> simp [hk, hne]

/-- A key is decided by the events that carry it. -/
theorem mem_deliver {V : Finset EventKey} {events : List Event} {k : EventKey} :
    k ∈ deliver V events ↔
      ((events.filter fun e => e.key = k).map Event.type).foldl EventType.holds (k ∈ V) := by
  induction events generalizing V with
  | nil => rfl
  | cons e events ih =>
      rw [deliver, List.foldl_cons]
      apply Iff.trans ih
      rw [mem_viewStep]
      by_cases hk : e.key = k
      · simp [hk]
      · simp [hk]

/-! ## The flags of a key -/

/-- `isCreated` and `isDeleted`, both unset for a key without an entry. -/
abbrev Flags := Bool × Bool

namespace Flags

/-- `create`. -/
def created : Flags → Flags
  | (c, true) => (c, false)
  | (_, false) => (true, false)

/-- `remove`. -/
def removed (f : Flags) : Flags := (f.1, true)

/-- What `rename` leaves at the old path: no entry if it was created in this batch, and a
deletion otherwise. -/
def vacated (f : Flags) : Flags := (false, !f.1)

/-- The consumer holds the key once the list is drained, if it does now or not. -/
def tells (f : Flags) (held : Prop) : Prop :=
  if f.1 = f.2 then held else f.1 = true

theorem created_tells {f : Flags} {held : Prop} (h : f = (false, true) → held) :
    f.created.tells held := by
  rcases f with ⟨c, d⟩
  cases d with
  | false => simp [created, tells]
  | true => cases c <;> simp_all [created, tells]

theorem created_ne (f : Flags) : f.created ≠ (false, true) := by
  rcases f with ⟨c, d⟩
  cases d <;> simp [created]

end Flags

namespace EventList

def flags (l : EventList) (k : EventKey) : Flags :=
  ((l.internalUpdate k).isCreated, (l.internalUpdate k).isDeleted)

@[simp] theorem flags_empty (k : EventKey) : empty.flags k = (false, false) := by
  unfold flags internalUpdate
  rw [find_empty]
  rfl

theorem flags_modify (l : EventList) (k k' : EventKey) (f hf) :
    (l.modify k f hf).flags k' =
      if k' = k then ((f (l.internalUpdate k)).isCreated, (f (l.internalUpdate k)).isDeleted)
      else l.flags k' := by
  unfold flags
  rw [internalUpdate_modify]
  split
  · rfl
  · rfl

theorem flags_erase (l : EventList) (k k' : EventKey) :
    (l.erase k).flags k' = if k' = k then (false, false) else l.flags k' := by
  unfold flags internalUpdate
  rw [find_erase]
  split
  · rfl
  · rfl

theorem flags_markCreated (e : Event) :
    (e.markCreated.isCreated, e.markCreated.isDeleted) =
      Flags.created (e.isCreated, e.isDeleted) := by
  unfold Event.markCreated
  cases e.isDeleted <;> simp [Flags.created]

theorem flags_create (l : EventList) (k k' : EventKey) :
    (l.apply (.create k)).flags k' = if k' = k then (l.flags k).created else l.flags k' := by
  apply (flags_modify l k k' Event.markCreated Event.key_markCreated).trans
  rw [flags_markCreated]
  rfl

theorem flags_remove (l : EventList) (k k' : EventKey) :
    (l.apply (.remove k)).flags k' = if k' = k then (l.flags k).removed else l.flags k' :=
  flags_modify l k k' Event.markRemoved Event.key_markRemoved

@[simp] theorem flags_update (l : EventList) (k k' : EventKey) :
    (l.apply (.update k)).flags k' = l.flags k' := by
  apply (flags_modify l k k' id Event.key_id).trans
  split
  next h =>
      rw [h]
      rfl
  next => rfl

theorem createdInBatch_eq_flags (l : EventList) (k : EventKey) :
    l.createdInBatch k = (l.flags k).1 := by
  unfold createdInBatch flags internalUpdate
  cases l.find k with
  | none => rfl
  | some e => rfl

theorem flags_markMoved (id : Option Str) (e : Event) :
    ((e.markMoved id).isCreated, (e.markMoved id).isDeleted) =
      Flags.created (e.isCreated, e.isDeleted) := by
  rw [← flags_markCreated, Event.isCreated_markMoved, Event.isDeleted_markMoved]
  unfold Event.markCreated
  cases e.isDeleted <;> simp

theorem flags_setRenameId (l : EventList) (k k' : EventKey) (id : Option Str) (hf) :
    (l.modify k (Event.setRenameId id) hf).flags k' = l.flags k' := by
  rw [flags_modify]
  split
  next h =>
      rw [h]
      rfl
  next => rfl

/-- What `rename` leaves at the old path. -/
def vacatedFlags (l : EventList) (old k : EventKey) : Flags :=
  if k = old then (l.flags old).vacated else l.flags k

/-- `rename` is what it leaves at the old path, followed by a creation. -/
theorem flags_rename (l : EventList) (old new id : Str) (kind : EntryKind) (k : EventKey) :
    (l.apply (.rename old new id kind)).flags k =
      if k = (new, kind) then (l.vacatedFlags (old, kind) (new, kind)).created
      else l.vacatedFlags (old, kind) k := by
  have hcr := createdInBatch_eq_flags l (old, kind)
  show (l.rename old new id kind).flags k = _
  unfold rename
  dsimp only
  split
  next h =>
      rw [h] at hcr
      have herase : ∀ k', (l.erase (old, kind)).flags k' = l.vacatedFlags (old, kind) k' := by
        intro k'
        rw [flags_erase, vacatedFlags, Flags.vacated, ← hcr]
        rfl
      rw [flags_modify, flags_markMoved, ← herase, ← herase]
      rfl
  next h =>
      rw [Bool.eq_false_iff.mpr h] at hcr
      have hdeleted : ∀ k', (l.modify (old, kind) Event.markDeleted Event.key_markDeleted).flags k' =
          l.vacatedFlags (old, kind) k' := by
        intro k'
        rw [flags_modify, vacatedFlags, Flags.vacated, ← hcr]
        show (if k' = (old, kind) then ((l.flags (old, kind)).1, true) else _) = _
        rw [← hcr]
        rfl
      rw [← hdeleted, ← hdeleted]
      split
      · rw [flags_setRenameId, flags_setRenameId, flags_modify, flags_markCreated]
        rfl
      · rw [flags_setRenameId, flags_setRenameId, flags_modify, flags_markCreated]
        rfl

/-! ## What the consumer will hold -/

/-- The consumer will hold the key once the list is drained. -/
def Told (l : EventList) (V : Finset EventKey) (k : EventKey) : Prop := (l.flags k).tells (k ∈ V)

/-- The key counts as created though the consumer holds it. -/
def StaleCreate (l : EventList) (V : Finset EventKey) (k : EventKey) : Prop :=
  (l.flags k).1 = true ∧ k ∈ V

/-- The key counts as created in this batch, or the consumer holds it. -/
def Known (l : EventList) (V : Finset EventKey) (k : EventKey) : Prop :=
  (l.flags k).1 = true ∨ k ∈ V

/-- The key counts as deleted though the consumer never heard of it. -/
def StaleDelete (l : EventList) (V : Finset EventKey) (k : EventKey) : Prop :=
  l.flags k = (false, true) ∧ k ∉ V

instance (l : EventList) (V : Finset EventKey) (k : EventKey) : Decidable (l.StaleCreate V k) :=
  inferInstanceAs (Decidable (_ ∧ _))

/-- What the consumer holds after a batch. -/
theorem mem_deliver_drain (l : EventList) (V : Finset EventKey) (k : EventKey) :
    k ∈ deliver V l.drain.1.events ↔ l.Told V k := by
  rw [mem_deliver, drain_filter_key, Told, flags, internalUpdate]
  cases l.find k with
  | none => simp [Event.new, Flags.tells]
  | some e =>
      cases hc : e.isCreated <;> cases hd : e.isDeleted <;>
        simp [hc, hd, Event.type, EventType.holds, Flags.tells]

/-- The list makes of a consumer that holds `V` one that holds `K`. -/
structure Announces (l : EventList) (V : Finset EventKey) (K : Set EventKey) : Prop where
  told : ∀ k, l.Told V k ↔ k ∈ K
  grounded : ∀ k, ¬ l.StaleDelete V k

namespace Announces

variable {l : EventList} {V : Finset EventKey} {K K' : Set EventKey} {k : EventKey}

theorem congr (h : l.Announces V K) (hk : ∀ k, k ∈ K ↔ k ∈ K') : l.Announces V K' :=
  ⟨fun k => (h.told k).trans (hk k), h.grounded⟩

theorem empty (V : Finset EventKey) : EventList.empty.Announces V (V : Set EventKey) where
  told k := by simp [Told, Flags.tells]
  grounded k := by simp [StaleDelete]

/-- After a drain the consumer holds what was announced, and nothing is left to tell. -/
theorem drain (h : l.Announces V K) :
    l.drain.2.Announces (deliver V l.drain.1.events) K := by
  apply (Announces.empty _).congr
  intro k
  rw [Finset.mem_coe, mem_deliver_drain]
  exact h.told k

theorem create (h : l.Announces V K) (k : EventKey) :
    (l.apply (.create k)).Announces V (insert k K) where
  told k' := by
    rw [Told, flags_create]
    by_cases hk : k' = k
    · subst hk
      rw [if_pos rfl]
      apply iff_of_true _ (Set.mem_insert ..)
      exact Flags.created_tells fun hf => by_contra fun hv => h.grounded k' ⟨hf, hv⟩
    · rw [if_neg hk, Set.mem_insert_iff, or_iff_right hk]
      exact h.told k'
  grounded k' := by
    rw [StaleDelete, flags_create]
    by_cases hk : k' = k
    · rw [if_pos hk]
      exact fun hs => Flags.created_ne _ hs.1
    · rw [if_neg hk]
      exact h.grounded k'

theorem update (h : l.Announces V K) (k : EventKey) :
    (l.apply (.update k)).Announces V K where
  told k' := by
    rw [Told, flags_update]
    exact h.told k'
  grounded k' := by
    rw [StaleDelete, flags_update]
    exact h.grounded k'

theorem known_of_mem (h : l.Announces V K) (hk : k ∈ K) : l.Known V k := by
  have htold := (h.told k).mpr hk
  rcases hf : l.flags k with ⟨c, d⟩
  rw [Told, hf] at htold
  rw [Known, hf]
  cases c <;> cases d <;> simp_all [Flags.tells]

theorem mem_of_staleCreate (h : l.Announces V K) (hs : l.StaleCreate V k) :
    k ∈ K := by
  apply (h.told k).mp
  rcases hf : l.flags k with ⟨c, d⟩
  rw [StaleCreate, hf] at hs
  rw [Told, hf]
  cases d <;> simp_all [Flags.tells]

/-- A key is withdrawn, unless its creation is stale. -/
theorem remove (h : l.Announces V K) (hk : l.Known V k) :
    (l.apply (.remove k)).Announces V {x | x ∈ K ∧ (x ≠ k ∨ l.StaleCreate V x)} := by
  constructor
  · intro x
    rw [Told, flags_remove]
    by_cases hx : x = k
    · subst hx
      have hstale : (x ∈ K ∧ (x ≠ x ∨ l.StaleCreate V x)) ↔ l.StaleCreate V x := by
        rw [or_iff_right (not_not.mpr rfl)]
        exact and_iff_right_of_imp h.mem_of_staleCreate
      rw [if_pos rfl]
      apply Iff.trans _ hstale.symm
      rw [StaleCreate]
      cases hc : (l.flags x).1 <;> simp [Flags.removed, Flags.tells, hc]
    · rw [if_neg hx]
      apply (h.told x).trans
      exact (and_iff_left (Or.inl hx)).symm
  · rintro x ⟨hf, hv⟩
    rw [flags_remove] at hf
    split at hf
    next hx =>
        subst hx
        rcases hk with hk | hk
        · simp [Flags.removed, hk] at hf
        · exact hv hk
    next => exact h.grounded x ⟨hf, hv⟩

/-- The old path is withdrawn, unless its creation is stale, and the new one announced. -/
theorem rename {old new : Str} {kind : EntryKind} (id : Str) (h : l.Announces V K)
    (hk : l.Known V (old, kind)) :
    (l.apply (.rename old new id kind)).Announces V
      {x | (x ∈ K ∧ (x ≠ (old, kind) ∨ l.StaleCreate V x)) ∨ x = (new, kind)} := by
  have hvacated : ∀ x, l.vacatedFlags (old, kind) x = (false, true) → x ∈ V := by
    intro x hf
    unfold vacatedFlags at hf
    split at hf
    next heq =>
        subst heq
        rcases hk with hk | hk
        · simp [hk, Flags.vacated] at hf
        · exact hk
    next => exact by_contra fun hv => h.grounded x ⟨hf, hv⟩
  constructor
  · intro x
    rw [Told, flags_rename]
    by_cases hnew : x = (new, kind)
    · subst hnew
      rw [if_pos rfl]
      exact iff_of_true (Flags.created_tells (hvacated _)) (Or.inr rfl)
    · rw [if_neg hnew]
      apply Iff.trans _ (or_iff_left hnew).symm
      unfold vacatedFlags
      by_cases hx : x = (old, kind)
      · subst hx
        rw [if_pos rfl, or_iff_right (not_not.mpr rfl)]
        apply Iff.trans _ (and_iff_right_of_imp h.mem_of_staleCreate).symm
        rw [StaleCreate]
        cases hc : (l.flags (old, kind)).1 <;> simp [Flags.vacated, Flags.tells, hc]
      · rw [if_neg hx, and_iff_left (Or.inl hx)]
        exact h.told x
  · rintro x ⟨hf, hv⟩
    rw [flags_rename] at hf
    split at hf
    · exact Flags.created_ne _ hf
    · exact hv (hvacated x hf)

end Announces

/-- A removal makes no creation stale. -/
@[simp] theorem staleCreate_remove {l : EventList} {V : Finset EventKey} {k k' : EventKey} :
    (l.apply (.remove k')).StaleCreate V k ↔ l.StaleCreate V k := by
  unfold StaleCreate
  rw [flags_remove]
  split
  next h =>
      rw [h]
      rfl
  next => rfl

end EventList

end NativeWatcher
