import NativeWatcher.Lib.FiniteMap
import NativeWatcher.Path
import Mathlib.Data.List.Sort

/-!
# `EventList`: the coalescing event list

One entry per (path, kind), holding the two flags `isCreated` and `isDeleted`
and an optional rename id. The list of a watcher is filled by a backend thread
and emptied by `drain`. Every entry is stored under its own key; the structure
carries that fact.
-/

namespace NativeWatcher

inductive EntryKind where
  | File
  | Directory
deriving DecidableEq, Repr

def entryKind (isDirectory : Bool) : EntryKind :=
  if isDirectory then .Directory else .File

@[simp] theorem entryKind_true : entryKind true = .Directory := rfl

@[simp] theorem entryKind_false : entryKind false = .File := rfl

theorem entryKind_inj {a b : Bool} : entryKind a = entryKind b ↔ a = b := by
  cases a <;> cases b <;> simp [entryKind]

/-- `EventList::EventKey`. -/
abbrev EventKey := Str × EntryKind

structure Event where
  path : Str
  kind : EntryKind
  isCreated : Bool
  isDeleted : Bool
  renameId : Option Str
deriving DecidableEq, Repr

/-- The value of the `type` property that `toJS` sets. -/
inductive EventType where
  | create
  | delete
  | update
deriving DecidableEq, Repr

namespace Event

/-- `Event(path, kind)`. -/
def new (k : EventKey) : Event :=
  ⟨k.1, k.2, false, false, none⟩

def key (e : Event) : EventKey := (e.path, e.kind)

/-- `isCreated ? "create" : isDeleted ? "delete" : "update"`. -/
def type (e : Event) : EventType :=
  if e.isCreated then .create else if e.isDeleted then .delete else .update

/-- What `create` does to its entry. An entry deleted in this batch turns into
an update. -/
def markCreated (e : Event) : Event :=
  if e.isDeleted then { e with isDeleted := false, renameId := none }
  else { e with isCreated := true }

/-- What `remove` does to its entry. -/
def markRemoved (e : Event) : Event :=
  { e with isDeleted := true, renameId := none }

/-- What `rename` does to the entry of the new path when the old path was
itself created in this batch under the id `originalRenameId`. -/
def markMoved (originalRenameId : Option Str) (e : Event) : Event :=
  if e.isDeleted then { e with isDeleted := false, renameId := none }
  else { e with isCreated := true, isDeleted := false, renameId := originalRenameId }

/-- The first write of `rename` to the entry of an old path not created in this
batch. -/
def markDeleted (e : Event) : Event := { e with isDeleted := true }

def setRenameId (id : Option Str) (e : Event) : Event := { e with renameId := id }

theorem key_id (e : Event) : (id e).key = e.key := rfl

@[simp] theorem key_markCreated (e : Event) : e.markCreated.key = e.key := by
  unfold markCreated
  split <;> rfl

@[simp] theorem key_markRemoved (e : Event) : e.markRemoved.key = e.key := rfl

@[simp] theorem key_markMoved (id : Option Str) (e : Event) :
    (e.markMoved id).key = e.key := by
  unfold markMoved
  split <;> rfl

@[simp] theorem key_markDeleted (e : Event) : e.markDeleted.key = e.key := rfl

@[simp] theorem key_setRenameId (id : Option Str) (e : Event) :
    (e.setRenameId id).key = e.key := rfl

@[simp] theorem isDeleted_markMoved (id : Option Str) (e : Event) :
    (e.markMoved id).isDeleted = false := by
  unfold markMoved
  split <;> rfl

theorem isCreated_markMoved (id : Option Str) (e : Event) :
    (e.markMoved id).isCreated = e.markCreated.isCreated := by
  unfold markMoved markCreated
  split <;> rfl

end Event

structure EventBatch where
  error : String
  events : List Event

structure EventList where
  mEvents : FiniteMap EventKey Event
  mError : Option String
  keyed : ∀ k e, mEvents.lookup k = some e → e.key = k

namespace EventList

def empty : EventList where
  mEvents := ∅
  mError := none
  keyed := by
    intro k e h
    rw [AList.lookup_empty] at h
    cases h

/-- `mEvents.find(key)`. -/
def find (l : EventList) (k : EventKey) : Option Event := l.mEvents.lookup k

/-- The entry `internalUpdate` points to: the one present, or a fresh one. -/
def internalUpdate (l : EventList) (k : EventKey) : Event :=
  (l.find k).getD (Event.new k)

theorem internalUpdate_key (l : EventList) (k : EventKey) :
    (l.internalUpdate k).key = k := by
  unfold internalUpdate
  cases h : l.find k with
  | none => rfl
  | some e => exact l.keyed k e h

/-- Write through the pointer that `internalUpdate` returned. -/
def modify (l : EventList) (k : EventKey) (f : Event → Event)
    (hf : ∀ e, (f e).key = e.key) : EventList where
  mEvents := AList.insert k (f (l.internalUpdate k)) l.mEvents
  mError := l.mError
  keyed := by
    intro k' e h
    rw [FiniteMap.lookup_insert_eq] at h
    split at h
    next heq =>
        cases h
        rw [hf, internalUpdate_key, heq]
    next => exact l.keyed k' e h

/-- `mEvents.erase`. -/
def erase (l : EventList) (k : EventKey) : EventList where
  mEvents := l.mEvents.erase k
  mError := l.mError
  keyed := by
    intro k' e h
    rw [FiniteMap.lookup_erase_eq] at h
    split at h
    next => cases h
    next => exact l.keyed k' e h

@[simp] theorem find_empty (k : EventKey) : empty.find k = none :=
  AList.lookup_empty k

theorem find_modify (l : EventList) (k k' : EventKey) (f hf) :
    (l.modify k f hf).find k' =
      if k' = k then some (f (l.internalUpdate k)) else l.find k' :=
  FiniteMap.lookup_insert_eq ..

theorem find_erase (l : EventList) (k k' : EventKey) :
    (l.erase k).find k' = if k' = k then none else l.find k' :=
  FiniteMap.lookup_erase_eq ..

/-! ## The public operations -/

def create (l : EventList) (path : Str) (kind : EntryKind) : EventList :=
  l.modify (path, kind) Event.markCreated Event.key_markCreated

def update (l : EventList) (path : Str) (kind : EntryKind) : EventList :=
  l.modify (path, kind) id Event.key_id

def remove (l : EventList) (path : Str) (kind : EntryKind) : EventList :=
  l.modify (path, kind) Event.markRemoved Event.key_markRemoved

/-- `old != mEvents.end() && old->second.isCreated`. -/
def createdInBatch (l : EventList) (k : EventKey) : Bool :=
  match l.find k with
  | some e => e.isCreated
  | none => false

def rename (l : EventList) (oldPath newPath renameId : Str) (kind : EntryKind) :
    EventList :=
  if l.createdInBatch (oldPath, kind) then
    let originalRenameId := (l.internalUpdate (oldPath, kind)).renameId
    (l.erase (oldPath, kind)).modify (newPath, kind)
      (Event.markMoved originalRenameId) (Event.key_markMoved _)
  else
    let l := l.modify (oldPath, kind) Event.markDeleted Event.key_markDeleted
    if (l.internalUpdate (newPath, kind)).isDeleted then
      -- `removed->renameId.reset()` on the way: both ends lose their id.
      let l := l.modify (newPath, kind) Event.markCreated Event.key_markCreated
      let l := l.modify (oldPath, kind) (Event.setRenameId none) (Event.key_setRenameId _)
      l.modify (newPath, kind) (Event.setRenameId none) (Event.key_setRenameId _)
    else
      let l := l.modify (newPath, kind) Event.markCreated Event.key_markCreated
      let l := l.modify (oldPath, kind) (Event.setRenameId (some renameId)) (Event.key_setRenameId _)
      l.modify (newPath, kind) (Event.setRenameId (some renameId)) (Event.key_setRenameId _)

theorem find_create (l : EventList) (path : Str) (kind : EntryKind) (k : EventKey) :
    (l.create path kind).find k =
      if k = (path, kind) then some (l.internalUpdate (path, kind)).markCreated
      else l.find k :=
  find_modify ..

theorem find_update (l : EventList) (path : Str) (kind : EntryKind) (k : EventKey) :
    (l.update path kind).find k =
      if k = (path, kind) then some (l.internalUpdate (path, kind)) else l.find k :=
  find_modify ..

theorem find_remove (l : EventList) (path : Str) (kind : EntryKind) (k : EventKey) :
    (l.remove path kind).find k =
      if k = (path, kind) then some (l.internalUpdate (path, kind)).markRemoved
      else l.find k :=
  find_modify ..

theorem internalUpdate_modify (l : EventList) (k k' : EventKey) (f hf) :
    (l.modify k f hf).internalUpdate k' =
      if k' = k then f (l.internalUpdate k) else l.internalUpdate k' := by
  rw [internalUpdate, find_modify]
  split <;> rfl

theorem internalUpdate_erase_ne (l : EventList) {k k' : EventKey} (h : k' ≠ k) :
    (l.erase k).internalUpdate k' = l.internalUpdate k' := by
  rw [internalUpdate, find_erase, if_neg h]
  rfl

/-- `rename` of a path created in this batch: the entry moves. -/
theorem find_rename_of_created {l : EventList} {oldPath newPath : Str}
    (renameId : Str) {kind : EntryKind}
    (h : l.createdInBatch (oldPath, kind) = true) (hne : oldPath ≠ newPath)
    (k : EventKey) :
    (l.rename oldPath newPath renameId kind).find k =
      if k = (newPath, kind) then
        some ((l.internalUpdate (newPath, kind)).markMoved
          (l.internalUpdate (oldPath, kind)).renameId)
      else if k = (oldPath, kind) then none
      else l.find k := by
  have hkey : (newPath, kind) ≠ (oldPath, kind) :=
    fun heq => hne (Prod.mk.inj heq).1.symm
  rw [rename, if_pos h]
  simp only [find_modify, find_erase, internalUpdate_erase_ne l hkey]

/-- `rename` of a path not created in this batch: the old entry is deleted, and
both ends carry the id unless the new path had been deleted. -/
theorem find_rename_of_not_created {l : EventList} {oldPath newPath : Str}
    (renameId : Str) {kind : EntryKind}
    (h : l.createdInBatch (oldPath, kind) = false) (hne : oldPath ≠ newPath)
    (k : EventKey) :
    (l.rename oldPath newPath renameId kind).find k =
      let id := if (l.internalUpdate (newPath, kind)).isDeleted then none
        else some renameId
      if k = (newPath, kind) then
        some ((l.internalUpdate (newPath, kind)).markCreated.setRenameId id)
      else if k = (oldPath, kind) then
        some ((l.internalUpdate (oldPath, kind)).markDeleted.setRenameId id)
      else l.find k := by
  have hkey : (newPath, kind) ≠ (oldPath, kind) :=
    fun heq => hne (Prod.mk.inj heq).1.symm
  rw [rename, if_neg (by rw [h]; exact Bool.false_ne_true)]
  simp only [internalUpdate_modify, if_neg hkey]
  by_cases hd : (l.internalUpdate (newPath, kind)).isDeleted = true
  · simp only [if_pos hd]
    rw [find_modify, find_modify, find_modify, find_modify]
    simp only [internalUpdate_modify, if_neg hkey, if_neg hkey.symm, if_true]
    split
    · rfl
    · split <;> rfl
  · simp only [if_neg hd]
    rw [find_modify, find_modify, find_modify, find_modify]
    simp only [internalUpdate_modify, if_neg hkey, if_neg hkey.symm, if_true]
    split
    · rfl
    · split <;> rfl

/-- `error`: the first error is kept. -/
def error (l : EventList) (err : String) : EventList :=
  { l with mError := some (l.mError.getD err) }

def hasError (l : EventList) : Bool := l.mError.isSome

def size (l : EventList) : Nat := l.mEvents.entries.length

/-! ## `drain` -/

/-- The order of `std::map<EventKey, Event>`. -/
def keyLE (a b : Event) : Prop :=
  a.path < b.path ∨ (a.path = b.path ∧ (a.kind = .File ∨ b.kind = .Directory))

instance : DecidableRel keyLE := fun a b => by
  unfold keyLE
  infer_instance

/-- The entries in the order of the map. -/
def entries (l : EventList) : List Event :=
  (l.mEvents.pairs.map Prod.snd).insertionSort keyLE

structure RenameParts where
  created : Nat := 0
  deleted : Nat := 0
  other : Nat := 0
deriving DecidableEq

def RenameParts.add (parts : RenameParts) (e : Event) : RenameParts :=
  if e.isCreated then { parts with created := parts.created + 1 }
  else if e.isDeleted then { parts with deleted := parts.deleted + 1 }
  else { parts with other := parts.other + 1 }

/-- `renameParts[id]` after the first loop of `drain`. -/
def renameParts (events : List Event) (id : Str) : RenameParts :=
  events.foldl (fun parts e => if e.renameId = some id then parts.add e else parts) {}

/-- The first loop of `drain`: what was created and deleted in one batch is
dropped. -/
def kept (l : EventList) : List Event :=
  l.entries.filter fun e => !(e.isCreated && e.isDeleted)

/-- The second loop of `drain`: an id survives on exactly one delete and one
create. -/
def exposeId (parts : Str → RenameParts) (e : Event) : Event :=
  match e.renameId with
  | none => e
  | some id =>
      if (parts id).created ≠ 1 ∨ (parts id).deleted ≠ 1 ∨ (parts id).other ≠ 0 then
        e.setRenameId none
      else e

@[simp] theorem key_exposeId (parts : Str → RenameParts) (e : Event) :
    (exposeId parts e).key = e.key := by
  unfold exposeId
  split
  · rfl
  · split <;> rfl

@[simp] theorem path_exposeId (parts : Str → RenameParts) (e : Event) :
    (exposeId parts e).path = e.path :=
  congrArg Prod.fst (key_exposeId parts e)

@[simp] theorem type_exposeId (parts : Str → RenameParts) (e : Event) :
    (exposeId parts e).type = e.type := by
  unfold exposeId
  split
  · rfl
  · split <;> rfl

/-- One entry a key, whatever the order of the map. -/
theorem entries_filter_key (l : EventList) (k : EventKey) :
    (l.entries.filter fun e => e.key = k) = (l.find k).toList := by
  have hperm : (l.entries.filter fun e => e.key = k).Perm
      ((l.mEvents.pairs.map Prod.snd).filter fun e => e.key = k) :=
    (List.perm_insertionSort keyLE _).filter _
  have hval : ((l.mEvents.pairs.map Prod.snd).filter fun e => e.key = k) =
      (l.find k).toList := by
    rw [List.filter_map]
    have hcongr : l.mEvents.pairs.filter ((fun e : Event => decide (e.key = k)) ∘ Prod.snd) =
        l.mEvents.pairs.filter fun b => b.1 = k := by
      apply List.filter_congr
      rintro ⟨k', e⟩ hmem
      have := l.keyed k' e (FiniteMap.mem_pairs.mp hmem)
      simp [this]
    rw [hcongr, FiniteMap.pairs_filter_key]
    unfold find
    cases l.mEvents.lookup k <;> rfl
  rw [hval] at hperm
  cases h : l.find k with
  | none =>
      rw [h] at hperm
      exact List.perm_nil.mp hperm
  | some e =>
      rw [h] at hperm
      exact List.perm_singleton.mp hperm

theorem mem_entries {l : EventList} {e : Event} :
    e ∈ l.entries ↔ l.find e.key = some e := by
  have h := entries_filter_key l e.key
  constructor
  · intro he
    have hmem : e ∈ l.entries.filter fun e' => e'.key = e.key :=
      List.mem_filter.mpr ⟨he, by simp⟩
    rw [h] at hmem
    exact Option.mem_toList.mp hmem
  · intro he
    have hmem : e ∈ (l.find e.key).toList := Option.mem_toList.mpr he
    rw [← h] at hmem
    exact (List.mem_filter.mp hmem).1

theorem mem_kept {l : EventList} {e : Event} :
    e ∈ l.kept ↔
      l.find e.key = some e ∧ ¬ (e.isCreated = true ∧ e.isDeleted = true) := by
  rw [kept, List.mem_filter, mem_entries]
  apply and_congr_right
  intro _
  cases e.isCreated <;> cases e.isDeleted <;> simp

/-- The counts of the first loop of `drain`. -/
theorem renameParts_eq (events : List Event) (id : Str) :
    renameParts events id =
      ⟨events.countP fun e => e.renameId = some id ∧ e.isCreated = true,
        events.countP fun e => e.renameId = some id ∧ e.isCreated = false ∧
          e.isDeleted = true,
        events.countP fun e => e.renameId = some id ∧ e.isCreated = false ∧
          e.isDeleted = false⟩ := by
  induction events using List.reverseRecOn with
  | nil => rfl
  | append_singleton events e ih =>
      unfold renameParts at ih ⊢
      rw [List.foldl_append, ih]
      by_cases hid : e.renameId = some id
      · cases hc : e.isCreated <;> cases hd : e.isDeleted <;>
          simp [RenameParts.add, hid, hc, hd]
      · simp [hid]

/-- An id survives `drain` only on an entry that held it. -/
theorem renameId_of_exposeId {parts : Str → RenameParts} {e : Event} {id : Str}
    (h : (exposeId parts e).renameId = some id) : e.renameId = some id := by
  unfold exposeId at h
  split at h
  next hnone => exact h
  next =>
      split at h
      · cases h
      · exact h

/-- With one create, one delete and nothing else, the id survives. -/
theorem exposeId_of_paired {parts : Str → RenameParts} {e : Event} {id : Str}
    (he : e.renameId = some id) (hparts : parts id = ⟨1, 1, 0⟩) :
    exposeId parts e = e := by
  simp [exposeId, he, hparts]

theorem nodup_keys_entries (l : EventList) : (l.entries.map Event.key).Nodup := by
  have hperm : (l.entries.map Event.key).Perm
      ((l.mEvents.pairs.map Prod.snd).map Event.key) :=
    (List.perm_insertionSort keyLE _).map _
  rw [hperm.nodup_iff, List.map_map]
  have hkeys : l.mEvents.pairs.map (Event.key ∘ Prod.snd) =
      l.mEvents.pairs.map Prod.fst := by
    apply List.map_congr_left
    rintro ⟨k, e⟩ hmem
    exact l.keyed k e (FiniteMap.mem_pairs.mp hmem)
  rw [hkeys]
  exact FiniteMap.pairs_keys_nodup _

theorem nodup_kept (l : EventList) : l.kept.Nodup :=
  (List.Nodup.of_map _ l.nodup_keys_entries).filter _

/-- A test passed by exactly one reported entry counts one. -/
theorem countP_kept_eq_one {l : EventList} {test : Event → Bool} {e : Event}
    (he : e ∈ l.kept) (htest : test e = true)
    (honly : ∀ e' ∈ l.kept, test e' = true → e' = e) : l.kept.countP test = 1 := by
  have hperm : (l.kept.filter test).Perm [e] := by
    refine (List.perm_ext_iff_of_nodup (l.nodup_kept.filter _)
      (List.nodup_singleton e)).mpr fun e' => ?_
    rw [List.mem_filter, List.mem_singleton]
    constructor
    · rintro ⟨hmem, ht⟩
      exact honly e' hmem ht
    · rintro rfl
      exact ⟨he, htest⟩
  rw [List.countP_eq_length_filter, hperm.length_eq]
  rfl

def drain (l : EventList) : EventBatch × EventList :=
  ({ error := l.mError.getD ""
     events := l.kept.map (exposeId (renameParts l.kept)) }, empty)

end EventList

end NativeWatcher
