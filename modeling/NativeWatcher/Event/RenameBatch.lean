import NativeWatcher.Event.NetEffect

/-!
# Batches of renames followed by local reports

A backend that compares two snapshots first issues renames whose sources and targets
are disjoint, then reports about single paths. After the renames the entry of every
source is a deletion and that of every target a creation; each later report touches
the entries of one path only.
-/

namespace NativeWatcher

/-- One call of `EventList::rename`. -/
structure RenameCall where
  oldPath : Str
  newPath : Str
  renameId : Str
  kind : EntryKind

namespace RenameCall

def oldKey (c : RenameCall) : EventKey := (c.oldPath, c.kind)

def newKey (c : RenameCall) : EventKey := (c.newPath, c.kind)

end RenameCall

namespace EventList

def applyRename (l : EventList) (c : RenameCall) : EventList :=
  l.rename c.oldPath c.newPath c.renameId c.kind

def renameAll (l : EventList) (calls : List RenameCall) : EventList :=
  calls.foldl applyRename l

theorem renameAll_snoc (l : EventList) (calls : List RenameCall) (c : RenameCall) :
    l.renameAll (calls ++ [c]) = (l.renameAll calls).applyRename c := by
  unfold renameAll
  rw [List.foldl_append]
  rfl

/-! ## The flags after the renames -/

/-- The entry of `k` after the renames: the deletion of a source or the creation of
a target, under the id of a call that names it. -/
def FromRename (calls : List RenameCall) (k : EventKey) : Option Event → Prop
  | none => ∀ c ∈ calls, c.oldKey ≠ k ∧ c.newKey ≠ k
  | some e => ∃ c ∈ calls, e.renameId = some c.renameId ∧
      ((c.oldKey = k ∧ e.isCreated = false ∧ e.isDeleted = true) ∨
        (c.newKey = k ∧ e.isCreated = true ∧ e.isDeleted = false))

/-- No source of a call is the target of one. -/
def DisjointEnds (calls : List RenameCall) : Prop :=
  ∀ c ∈ calls, ∀ d ∈ calls, c.oldKey ≠ d.newKey

theorem FromRename.snoc {calls : List RenameCall} {c : RenameCall} {k : EventKey}
    {o : Option Event} (h : FromRename calls k o) (hold : c.oldKey ≠ k)
    (hnew : c.newKey ≠ k) : FromRename (calls ++ [c]) k o := by
  cases o with
  | none =>
      intro d hd
      rcases List.mem_append.mp hd with hd | hd
      · exact h d hd
      · rw [List.mem_singleton.mp hd]
        exact ⟨hold, hnew⟩
  | some e =>
      obtain ⟨d, hd, hflags⟩ := h
      exact ⟨d, List.mem_append_left _ hd, hflags⟩

theorem createdInBatch_eq (l : EventList) (k : EventKey) :
    l.createdInBatch k = (l.internalUpdate k).isCreated := by
  unfold createdInBatch internalUpdate
  cases l.find k <;> rfl

theorem fromRename_renameAll {calls : List RenameCall} (h : DisjointEnds calls)
    (k : EventKey) : FromRename calls k ((empty.renameAll calls).find k) := by
  induction calls using List.reverseRecOn generalizing k with
  | nil =>
      show FromRename [] k (empty.find k)
      rw [find_empty]
      exact fun c hc => absurd hc List.not_mem_nil
  | append_singleton calls c ih =>
      have hcalls : DisjointEnds calls := fun a ha b hb =>
        h a (List.mem_append_left _ ha) b (List.mem_append_left _ hb)
      have hc : c ∈ calls ++ [c] := List.mem_append_right _ List.mem_cons_self
      -- the source was no target so far, the target no source
      have hsource : ((empty.renameAll calls).internalUpdate c.oldKey).isCreated = false := by
        have hk := ih hcalls c.oldKey
        unfold internalUpdate
        cases hf : (empty.renameAll calls).find c.oldKey with
        | none => rfl
        | some e =>
            rw [hf] at hk
            obtain ⟨d, hd, -, ⟨-, hcreated, -⟩ | ⟨hnew, -⟩⟩ := hk
            · exact hcreated
            · exact absurd hnew.symm (h c hc d (List.mem_append_left _ hd))
      have htarget : ((empty.renameAll calls).internalUpdate c.newKey).isDeleted = false := by
        have hk := ih hcalls c.newKey
        unfold internalUpdate
        cases hf : (empty.renameAll calls).find c.newKey with
        | none => rfl
        | some e =>
            rw [hf] at hk
            obtain ⟨d, hd, -, ⟨hold, -⟩ | ⟨-, -, hdeleted⟩⟩ := hk
            · exact absurd hold (h d (List.mem_append_left _ hd) c hc)
            · exact hdeleted
      have hne : c.oldPath ≠ c.newPath := fun heq =>
        h c hc c hc (congrArg (fun p => (p, c.kind)) heq)
      have hnot : (empty.renameAll calls).createdInBatch c.oldKey = false := by
        rw [createdInBatch_eq, hsource]
      rw [renameAll_snoc, applyRename, find_rename_of_not_created c.renameId hnot hne]
      dsimp only
      show FromRename (calls ++ [c]) k (if k = c.newKey then _ else if k = c.oldKey then _ else _)
      have hid : (if ((empty.renameAll calls).internalUpdate (c.newPath, c.kind)).isDeleted = true
          then none else some c.renameId) = some c.renameId := by
        rw [show ((empty.renameAll calls).internalUpdate (c.newPath, c.kind)).isDeleted = false
          from htarget]
        rfl
      rw [hid]
      by_cases hnew : k = c.newKey
      · rw [if_pos hnew]
        refine ⟨c, hc, rfl, Or.inr ⟨hnew.symm, ?_⟩⟩
        have hd : ((empty.renameAll calls).internalUpdate (c.newPath, c.kind)).isDeleted = false :=
          htarget
        simp [Event.markCreated, Event.setRenameId, hd]
      · rw [if_neg hnew]
        by_cases hold : k = c.oldKey
        · rw [if_pos hold]
          exact ⟨c, hc, rfl, Or.inl ⟨hold.symm, hsource, rfl⟩⟩
        · rw [if_neg hold]
          exact (ih hcalls k).snoc (Ne.symm hold) (Ne.symm hnew)

/-- The entry of a source. -/
theorem find_renameAll_source {calls : List RenameCall} (h : DisjointEnds calls)
    {c : RenameCall} (hc : c ∈ calls) :
    ∃ e, (empty.renameAll calls).find c.oldKey = some e ∧ e.isCreated = false ∧
      e.isDeleted = true := by
  have hk := fromRename_renameAll h c.oldKey
  cases hf : (empty.renameAll calls).find c.oldKey with
  | none =>
      rw [hf] at hk
      exact absurd rfl (hk c hc).1
  | some e =>
      rw [hf] at hk
      obtain ⟨d, hd, -, ⟨-, hflags⟩ | ⟨hnew, -⟩⟩ := hk
      · exact ⟨e, rfl, hflags⟩
      · exact absurd hnew.symm (h c hc d hd)

/-- The entry of a target. -/
theorem find_renameAll_target {calls : List RenameCall} (h : DisjointEnds calls)
    {c : RenameCall} (hc : c ∈ calls) :
    ∃ e, (empty.renameAll calls).find c.newKey = some e ∧ e.isCreated = true ∧
      e.isDeleted = false := by
  have hk := fromRename_renameAll h c.newKey
  cases hf : (empty.renameAll calls).find c.newKey with
  | none =>
      rw [hf] at hk
      exact absurd rfl (hk c hc).2
  | some e =>
      rw [hf] at hk
      obtain ⟨d, hd, -, ⟨hold, -⟩ | ⟨-, hflags⟩⟩ := hk
      · exact absurd hold (h d hd c hc)
      · exact ⟨e, rfl, hflags⟩

/-- A key that no call names has no entry. -/
theorem find_renameAll_none {calls : List RenameCall} (h : DisjointEnds calls)
    {k : EventKey} (hk : ∀ c ∈ calls, c.oldKey ≠ k ∧ c.newKey ≠ k) :
    (empty.renameAll calls).find k = none := by
  have hfrom := fromRename_renameAll h k
  cases hf : (empty.renameAll calls).find k with
  | none => rfl
  | some e =>
      rw [hf] at hfrom
      obtain ⟨c, hc, -, ⟨hold, -⟩ | ⟨hnew, -⟩⟩ := hfrom
      · exact absurd hold (hk c hc).1
      · exact absurd hnew (hk c hc).2

/-! ## Rename ids after local reports -/

/-- A rename id stands on the deletion of the source or on a creation of the target
of the call that carried it. -/
def IdsFrom (calls : List RenameCall) (l : EventList) : Prop :=
  ∀ k e id, l.find k = some e → e.renameId = some id →
    ∃ c ∈ calls, c.renameId = id ∧
      ((c.oldKey = k ∧ e.isCreated = false ∧ e.isDeleted = true) ∨
        (c.newKey = k ∧ e.isCreated = true))

theorem idsFrom_renameAll {calls : List RenameCall} (h : DisjointEnds calls) :
    IdsFrom calls (empty.renameAll calls) := by
  intro k e id hf hid
  have hk := fromRename_renameAll h k
  rw [hf] at hk
  obtain ⟨c, hc, hcid, hflags⟩ := hk
  refine ⟨c, hc, Option.some.inj (hcid.symm.trans hid), ?_⟩
  exact hflags.imp_right fun ⟨hnew, hcreated, _⟩ => ⟨hnew, hcreated⟩

/-- What the entry `internalUpdate` returns says about ids. -/
theorem IdsFrom.internalUpdate {calls : List RenameCall} {l : EventList}
    (h : IdsFrom calls l) {k : EventKey} {id : Str}
    (hid : (l.internalUpdate k).renameId = some id) :
    ∃ c ∈ calls, c.renameId = id ∧
      ((c.oldKey = k ∧ (l.internalUpdate k).isCreated = false ∧
          (l.internalUpdate k).isDeleted = true) ∨
        (c.newKey = k ∧ (l.internalUpdate k).isCreated = true)) := by
  unfold EventList.internalUpdate at hid ⊢
  cases hf : l.find k with
  | none =>
      rw [hf] at hid
      cases hid
  | some e =>
      rw [hf] at hid
      exact h k e id hf hid

theorem IdsFrom.update {calls : List RenameCall} {l : EventList} (h : IdsFrom calls l)
    (path : Str) (kind : EntryKind) : IdsFrom calls (l.update path kind) := by
  intro k e id hf hid
  rw [find_update] at hf
  split at hf
  next heq =>
    subst heq
    cases hf
    exact h.internalUpdate hid
  next => exact h k e id hf hid

theorem IdsFrom.remove {calls : List RenameCall} {l : EventList} (h : IdsFrom calls l)
    (path : Str) (kind : EntryKind) : IdsFrom calls (l.remove path kind) := by
  intro k e id hf hid
  rw [find_remove] at hf
  split at hf
  next heq =>
    cases hf
    cases hid
  next => exact h k e id hf hid

theorem IdsFrom.create {calls : List RenameCall} {l : EventList} (h : IdsFrom calls l)
    (path : Str) (kind : EntryKind) : IdsFrom calls (l.create path kind) := by
  intro k e id hf hid
  rw [find_create] at hf
  split at hf
  next heq =>
    subst heq
    cases hf
    unfold Event.markCreated at hid ⊢
    split at hid
    next => cases hid
    next hdeleted =>
      obtain ⟨c, hc, hcid, ⟨-, -, hd⟩ | ⟨hnew, -⟩⟩ := h.internalUpdate hid
      · exact absurd hd hdeleted
      · rw [if_neg hdeleted]
        exact ⟨c, hc, hcid, Or.inr ⟨hnew, rfl⟩⟩
  next => exact h k e id hf hid

/-! ## Reports about one path -/

/-- An operation that reads and writes the entries of one path. -/
structure LocalReport {β : Type} (op : EventList → Str × β → EventList) : Prop where
  frame : ∀ l b p kind, p ≠ b.1 → (op l b).find (p, kind) = l.find (p, kind)
  congr : ∀ l l' b, (∀ kind, l.find (b.1, kind) = l'.find (b.1, kind)) →
    ∀ kind, (op l b).find (b.1, kind) = (op l' b).find (b.1, kind)

/-- Reports about other paths change nothing. -/
theorem LocalReport.find_foldl_of_forall_ne {β : Type}
    {op : EventList → Str × β → EventList} (h : LocalReport op) {bs : List (Str × β)}
    {p : Str} (hp : p ∉ bs.map Prod.fst) (l : EventList) (kind : EntryKind) :
    (bs.foldl op l).find (p, kind) = l.find (p, kind) := by
  induction bs generalizing l with
  | nil => rfl
  | cons b bs ih =>
      rw [List.map_cons, List.mem_cons, not_or] at hp
      rw [List.foldl_cons, ih hp.2, h.frame _ _ _ _ hp.1]

/-- A loop over distinct paths acts on each of them once. -/
theorem LocalReport.find_foldl_of_mem {β : Type}
    {op : EventList → Str × β → EventList} (h : LocalReport op) {bs : List (Str × β)}
    (hnodup : (bs.map Prod.fst).Nodup) {p : Str} {v : β} (hmem : (p, v) ∈ bs)
    (l : EventList) (kind : EntryKind) :
    (bs.foldl op l).find (p, kind) = (op l (p, v)).find (p, kind) := by
  induction bs generalizing l with
  | nil => exact absurd hmem List.not_mem_nil
  | cons b bs ih =>
      rw [List.map_cons, List.nodup_cons] at hnodup
      rw [List.foldl_cons]
      rcases List.mem_cons.mp hmem with rfl | hmem
      · exact h.find_foldl_of_forall_ne hnodup.1 _ _
      · have hne : p ≠ b.1 := by
          rintro rfl
          exact hnodup.1 (List.mem_map.mpr ⟨_, hmem, rfl⟩)
        rw [ih hnodup.2 hmem]
        exact h.congr _ _ (p, v) (fun kind => h.frame _ _ _ _ hne) kind

theorem LocalReport.skip {β : Type} :
    LocalReport (fun (l : EventList) (_ : Str × β) => l) :=
  ⟨fun _ _ _ _ _ => rfl, fun _ _ _ h kind => h kind⟩

theorem LocalReport.modify {β : Type} (kindOf : Str × β → EntryKind) (f : Event → Event)
    (hf : ∀ e, (f e).key = e.key) :
    LocalReport (fun (l : EventList) (b : Str × β) => l.modify (b.1, kindOf b) f hf) where
  frame l b p kind hp := by
    rw [find_modify, if_neg]
    exact fun heq => hp (Prod.mk.inj heq).1
  congr l l' b h kind := by
    rw [find_modify, find_modify, h, internalUpdate, internalUpdate, h]

theorem LocalReport.ite {β : Type} {op op' : EventList → Str × β → EventList}
    (test : Str × β → Bool) (h : LocalReport op) (h' : LocalReport op') :
    LocalReport (fun l b => if test b then op l b else op' l b) where
  frame l b p kind hp := by
    split
    · exact h.frame l b p kind hp
    · exact h'.frame l b p kind hp
  congr l l' b heq kind := by
    split
    · exact h.congr l l' b heq kind
    · exact h'.congr l l' b heq kind

/-! ## What the entry of a key reports -/

/-- The types of the events `drain` delivers for an entry. -/
def reported (o : Option Event) : List EventType :=
  (o.toList.filter fun e => !(e.isCreated && e.isDeleted)).map Event.type

@[simp] theorem reported_none : reported none = [] := rfl

theorem reported_of_created {e : Event} (hc : e.isCreated = true)
    (hd : e.isDeleted = false) : reported (some e) = [.create] := by
  simp [reported, Event.type, hc, hd]

theorem reported_of_deleted {e : Event} (hc : e.isCreated = false)
    (hd : e.isDeleted = true) : reported (some e) = [.delete] := by
  simp [reported, Event.type, hc, hd]

theorem reported_of_touched {e : Event} (hc : e.isCreated = false)
    (hd : e.isDeleted = false) : reported (some e) = [.update] := by
  simp [reported, Event.type, hc, hd]

end EventList

end NativeWatcher
