import NativeWatcher.Event.View

/-!
# What a batch reports

Whether a batch reports a key under a type is read off the entry of the key. From calls
that name every key once it reports each call as it was made.
-/

namespace NativeWatcher

/-- The batch holds an event of the type for the key. -/
def EventBatch.Reports (b : EventBatch) (type : EventType) (k : EventKey) : Prop :=
  ∃ e ∈ b.events, e.key = k ∧ e.type = type

/-- The call that asks for an event of the type. -/
def EventType.call (k : EventKey) : EventType → EventOp
  | .create => .create k
  | .delete => .remove k
  | .update => .update k

namespace EventList

variable {l : EventList} {type : EventType} {k : EventKey}

theorem reports_drain : l.drain.1.Reports type k ↔
    ∃ e, l.find k = some e ∧ (e.isCreated && e.isDeleted) = false ∧ e.type = type := by
  have hiff : l.drain.1.Reports type k ↔
      type ∈ (l.drain.1.events.filter fun e => e.key = k).map Event.type := by
    simp [EventBatch.Reports, and_assoc]
  rw [hiff, drain_filter_key]
  cases l.find k with
  | none => simp
  | some e => cases hc : e.isCreated <;> cases hd : e.isDeleted <;> simp [hc, hd, @eq_comm _ type]

theorem reports_create : l.drain.1.Reports .create k ↔ l.flags k = (true, false) := by
  rw [reports_drain, flags, internalUpdate]
  cases l.find k with
  | none => simp [Event.new]
  | some e => cases hc : e.isCreated <;> cases hd : e.isDeleted <;> simp [Event.type, hc, hd]

/-- From creations only, the keys created are those named. -/
theorem reports_run_creates (ks : List EventKey) :
    (empty.run (ks.map .create)).drain.1.Reports .create k ↔ k ∈ ks := by
  rw [reports_create]
  have hflags : (empty.run (ks.map .create)).flags k = (decide (k ∈ ks), false) := by
    induction ks using List.reverseRecOn with
    | nil => simp [run]
    | append_singleton ks k' ih =>
        rw [List.map_append, List.map_singleton, run_snoc, flags_create]
        split
        next h =>
            subst h
            rw [ih]
            simp [Flags.created]
        next h =>
            rw [ih]
            simp [h]
  rw [hflags]
  simp

/-! ## Calls that name every key once -/

/-- What a call does to the entry of its key. -/
def mark : EventType → Event → Event
  | .create => Event.markCreated
  | .delete => Event.markRemoved
  | .update => id

theorem find_call (l : EventList) (type : EventType) (k k' : EventKey) :
    (l.apply (type.call k)).find k' =
      if k' = k then some (mark type (l.internalUpdate k)) else l.find k' := by
  cases type with
  | create => exact find_create l k.1 k.2 k'
  | delete => exact find_remove l k.1 k.2 k'
  | update => exact find_update l k.1 k.2 k'

theorem mark_new (type : EventType) (k : EventKey) :
    ((mark type (Event.new k)).isCreated && (mark type (Event.new k)).isDeleted) = false ∧
      (mark type (Event.new k)).type = type := by
  cases type <;> exact ⟨rfl, rfl⟩

/-- The calls on an empty list, one after the other. -/
def runCalls (calls : List (EventType × EventKey)) : EventList :=
  empty.run (calls.map fun c => c.1.call c.2)

theorem runCalls_snoc (calls : List (EventType × EventKey)) (c : EventType × EventKey) :
    runCalls (calls ++ [c]) = (runCalls calls).apply (c.1.call c.2) := by
  unfold runCalls
  rw [List.map_append, List.map_singleton, run_snoc]

variable {calls : List (EventType × EventKey)}

theorem find_runCalls_of_not_mem (h : k ∉ calls.map Prod.snd) :
    (runCalls calls).find k = none := by
  induction calls using List.reverseRecOn with
  | nil => exact find_empty k
  | append_singleton calls c ih =>
      rw [List.map_append, List.mem_append, not_or] at h
      have hne : k ≠ c.2 := by simpa using h.2
      rw [runCalls_snoc, find_call, if_neg hne]
      exact ih h.1

theorem find_runCalls_of_mem (hnodup : (calls.map Prod.snd).Nodup) (h : (type, k) ∈ calls) :
    (runCalls calls).find k = some (mark type (Event.new k)) := by
  induction calls using List.reverseRecOn with
  | nil => cases h
  | append_singleton calls c ih =>
      rw [List.map_append, List.map_singleton, List.nodup_append_comm, List.singleton_append,
        List.nodup_cons] at hnodup
      obtain ⟨hnew, hnodup⟩ := hnodup
      rw [runCalls_snoc, find_call]
      rcases List.mem_append.mp h with h | h
      · have hne : k ≠ c.2 := by
          rintro rfl
          exact hnew (List.mem_map.mpr ⟨_, h, rfl⟩)
        rw [if_neg hne]
        exact ih hnodup h
      · obtain rfl := List.mem_singleton.mp h
        rw [if_pos rfl, internalUpdate, find_runCalls_of_not_mem hnew]
        rfl

/-- **Every call is reported as it was made.** -/
theorem reports_runCalls (hnodup : (calls.map Prod.snd).Nodup) :
    (runCalls calls).drain.1.Reports type k ↔ (type, k) ∈ calls := by
  rw [reports_drain]
  constructor
  · rintro ⟨e, hfind, _, rfl⟩
    by_cases hk : k ∈ calls.map Prod.snd
    · obtain ⟨⟨type, k'⟩, hmem, rfl⟩ := List.mem_map.mp hk
      rw [find_runCalls_of_mem hnodup hmem] at hfind
      rw [← Option.some.inj hfind, (mark_new type k').2]
      exact hmem
    · rw [find_runCalls_of_not_mem hk] at hfind
      cases hfind
  · intro hmem
    exact ⟨_, find_runCalls_of_mem hnodup hmem, mark_new type k⟩

/-! ## Such calls on any list -/

theorem flags_call_of_ne {k' : EventKey} (h : k' ≠ k) :
    (l.apply (type.call k)).flags k' = l.flags k' := by
  unfold flags internalUpdate
  rw [find_call, if_neg h]

theorem flags_run_calls_of_not_mem (h : k ∉ calls.map Prod.snd) :
    (l.run (calls.map fun c => c.1.call c.2)).flags k = l.flags k := by
  induction calls generalizing l with
  | nil => rfl
  | cons c calls ih =>
      rw [List.map_cons, List.mem_cons, not_or] at h
      exact (ih h.2).trans (flags_call_of_ne h.1)

/-- The call for a key acts as if it were the only one. -/
theorem flags_run_calls_of_mem (hnodup : (calls.map Prod.snd).Nodup) (h : (type, k) ∈ calls) :
    (l.run (calls.map fun c => c.1.call c.2)).flags k = (l.apply (type.call k)).flags k := by
  induction calls generalizing l with
  | nil => cases h
  | cons c calls ih =>
      rw [List.map_cons, List.nodup_cons] at hnodup
      rcases List.mem_cons.mp h with rfl | h
      · exact flags_run_calls_of_not_mem hnodup.1
      · have hne : k ≠ c.2 := by
          rintro rfl
          exact hnodup.1 (List.mem_map.mpr ⟨_, h, rfl⟩)
        apply (ih hnodup.2 h).trans
        have hsame : (l.apply (c.1.call c.2)).flags k = l.flags k := flags_call_of_ne hne
        cases type with
        | create => exact (flags_create ..).trans (by rw [hsame]; exact (flags_create l k k).symm)
        | delete => exact (flags_remove ..).trans (by rw [hsame]; exact (flags_remove l k k).symm)
        | update => exact (flags_update ..).trans (hsame.trans (flags_update l k k).symm)

/-- Keys are withdrawn, unless their creation is stale, and announced. -/
theorem Announces.run_calls {V : Finset EventKey} {K : Set EventKey} (h : l.Announces V K)
    (hnodup : (calls.map Prod.snd).Nodup) (hknown : ∀ k, (.delete, k) ∈ calls → l.Known V k) :
    (l.run (calls.map fun c => c.1.call c.2)).Announces V
      {k | (k ∈ K ∧ ((.delete, k) ∉ calls ∨ l.StaleCreate V k)) ∨ (.create, k) ∈ calls} := by
  have honly : ∀ k type type', (type, k) ∈ calls → (type', k) ∈ calls → type = type' := by
    intro k type type' hmem hmem'
    exact congrArg Prod.fst (List.inj_on_of_nodup_map hnodup hmem hmem' rfl)
  have hsingle : ∀ k type, (type, k) ∈ calls →
      ((l.apply (type.call k)).Told V k ↔
        (k ∈ K ∧ ((.delete, k) ∉ calls ∨ l.StaleCreate V k)) ∨ (.create, k) ∈ calls) ∧
          ¬ (l.apply (type.call k)).StaleDelete V k := by
    intro k type hmem
    cases type with
    | create =>
        refine ⟨?_, (h.create k).grounded k⟩
        exact iff_of_true (((h.create k).told k).mpr (Set.mem_insert ..)) (Or.inr hmem)
    | delete =>
        have hremove := h.remove (hknown k hmem)
        refine ⟨(hremove.told k).trans ?_, hremove.grounded k⟩
        have hno : (.create, k) ∉ calls := fun hc => by cases honly k _ _ hmem hc
        rw [or_iff_left hno, or_iff_right (not_not.mpr hmem)]
        exact and_congr_right fun _ => or_iff_right (not_not.mpr rfl)
    | update =>
        refine ⟨((h.update k).told k).trans ?_, (h.update k).grounded k⟩
        have hno : (.create, k) ∉ calls := fun hc => by cases honly k _ _ hmem hc
        have hno' : (.delete, k) ∉ calls := fun hc => by cases honly k _ _ hmem hc
        rw [or_iff_left hno, and_iff_left (Or.inl hno')]
  constructor
  · intro k
    by_cases hk : k ∈ calls.map Prod.snd
    · obtain ⟨⟨type, k⟩, hmem, rfl⟩ := List.mem_map.mp hk
      rw [Told, flags_run_calls_of_mem hnodup hmem]
      exact (hsingle k type hmem).1
    · have hno : ∀ type, (type, k) ∉ calls := fun type hmem => hk (List.mem_map.mpr ⟨_, hmem, rfl⟩)
      rw [Told, flags_run_calls_of_not_mem hk]
      apply (h.told k).trans
      exact ((or_iff_left (hno .create)).trans (and_iff_left (Or.inl (hno .delete)))).symm
  · intro k
    by_cases hk : k ∈ calls.map Prod.snd
    · obtain ⟨⟨type, k⟩, hmem, rfl⟩ := List.mem_map.mp hk
      rw [StaleDelete, flags_run_calls_of_mem hnodup hmem]
      exact (hsingle k type hmem).2
    · rw [StaleDelete, flags_run_calls_of_not_mem hk]
      exact h.grounded k

end EventList

end NativeWatcher
