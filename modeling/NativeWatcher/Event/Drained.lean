import NativeWatcher.Event.NetEffect

/-!
# The form of a batch

Whatever the calls were, and whatever ids they carried: a batch names a key once, and an
id that it shows joins one deletion and one creation. The ids are counted over what the
batch keeps, and an id with any other count is dropped.
-/

namespace NativeWatcher

structure EventBatch.WellFormed (b : EventBatch) : Prop where
  keys : (b.events.map Event.key).Nodup
  decided : ∀ e ∈ b.events, ¬ (e.isCreated = true ∧ e.isDeleted = true)
  paired : ∀ e ∈ b.events, ∀ id, e.renameId = some id →
    ((b.events.filter fun e => e.renameId = some id).map Event.type).Perm [.delete, .create]

namespace EventList

variable {l : EventList} {e : Event} {id : Str}

@[simp] theorem isCreated_exposeId (parts : Str → RenameParts) (e : Event) :
    (exposeId parts e).isCreated = e.isCreated := by
  unfold exposeId
  split
  · rfl
  · split <;> rfl

@[simp] theorem isDeleted_exposeId (parts : Str → RenameParts) (e : Event) :
    (exposeId parts e).isDeleted = e.isDeleted := by
  unfold exposeId
  split
  · rfl
  · split <;> rfl

/-- An id that survives has one create, one delete and nothing else. -/
theorem parts_of_exposeId {parts : Str → RenameParts}
    (h : (exposeId parts e).renameId = some id) : parts id = ⟨1, 1, 0⟩ := by
  have hid := renameId_of_exposeId h
  unfold exposeId at h
  rw [hid] at h
  dsimp only at h
  split at h
  next => cases h
  next hparts =>
      rcases hp : parts id with ⟨c, d, o⟩
      rw [hp] at hparts
      simp only [not_or, not_not] at hparts
      obtain ⟨rfl, rfl, rfl⟩ := hparts
      rfl

/-- The types of the events of one id, counted as `drain` counts them. -/
theorem count_types (events : List Event) (id : Str) (type : EventType) :
    ((events.filter fun e => e.renameId = some id).map Event.type).count type =
      events.countP fun e => e.renameId = some id ∧ e.type = type := by
  rw [List.count, List.countP_map, List.countP_filter]
  apply List.countP_congr
  intro e _
  simp [and_comm]

theorem types_perm_of_parts {events : List Event} (h : renameParts events id = ⟨1, 1, 0⟩) :
    ((events.filter fun e => e.renameId = some id).map Event.type).Perm [.delete, .create] := by
  rw [renameParts_eq] at h
  injection h with hc hd ho
  rw [List.perm_iff_count]
  intro type
  rw [count_types]
  cases type with
  | create =>
      apply Eq.trans _ hc
      apply List.countP_congr
      intro e _
      cases hcr : e.isCreated <;> cases hdel : e.isDeleted <;> simp [Event.type, hcr, hdel]
  | delete =>
      apply Eq.trans _ hd
      apply List.countP_congr
      intro e _
      cases hcr : e.isCreated <;> cases hdel : e.isDeleted <;> simp [Event.type, hcr, hdel]
  | update =>
      apply Eq.trans _ ho
      apply List.countP_congr
      intro e _
      cases hcr : e.isCreated <;> cases hdel : e.isDeleted <;> simp [Event.type, hcr, hdel]

/-- The events of an id that passes the count are the entries that held it. -/
theorem filter_exposed {parts : Str → RenameParts} (hparts : parts id = ⟨1, 1, 0⟩)
    (events : List Event) :
    (events.map (exposeId parts)).filter (fun e => e.renameId = some id) =
      (events.filter fun e => e.renameId = some id).map (exposeId parts) := by
  rw [List.filter_map]
  congr 1
  apply List.filter_congr
  intro e _
  rw [Function.comp_apply, decide_eq_decide]
  constructor
  · exact renameId_of_exposeId
  · intro he
    rw [exposeId_of_paired he hparts]
    exact he

theorem wellFormed_drain (l : EventList) : l.drain.1.WellFormed where
  keys := by
    show ((l.kept.map (exposeId (renameParts l.kept))).map Event.key).Nodup
    rw [List.map_map]
    have hkey : Event.key ∘ exposeId (renameParts l.kept) = Event.key :=
      funext fun e => key_exposeId _ e
    rw [hkey]
    exact l.nodup_keys_entries.sublist (List.filter_sublist.map _)
  decided := by
    intro e he
    obtain ⟨e', he', rfl⟩ := List.mem_map.mp he
    rw [isCreated_exposeId, isDeleted_exposeId]
    exact (mem_kept.mp he').2
  paired := by
    intro e he id hid
    obtain ⟨e', _, rfl⟩ := List.mem_map.mp he
    have hparts := parts_of_exposeId hid
    show (((l.kept.map (exposeId (renameParts l.kept))).filter
      fun e => e.renameId = some id).map Event.type).Perm _
    have htype : Event.type ∘ exposeId (renameParts l.kept) = Event.type :=
      funext fun e => type_exposeId _ e
    rw [filter_exposed hparts, List.map_map, htype]
    exact types_perm_of_parts hparts

end EventList

/-- **Every batch is well formed, and nothing is left behind.** -/
theorem drained_wellFormed (ops : List EventOp) :
    (EventList.empty.run ops).drain.1.WellFormed ∧
      (EventList.empty.run ops).drain.2 = EventList.empty :=
  ⟨EventList.wellFormed_drain _, rfl⟩

/-- Two renames that share an id: the batch shows it on no event. -/
example :
    ((EventList.empty.run [.rename [97] [98] [49] .File, .rename [99] [100] [49] .File]
      ).drain.1.events.map Event.renameId) = [none, none, none, none] := by
  decide

end NativeWatcher
