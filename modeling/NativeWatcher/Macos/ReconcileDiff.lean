import NativeWatcher.Macos.ReconcileTrace

/-!
# What a reconciliation reports

The batch of `reconcileFullTree` against the difference of the two indexes. The two
agree except for one kind of path: a file whose old entry is the source of a rename
and whose path is occupied by another file in the current scan. The update pushed
for it meets an entry marked as deleted and leaves it so.
-/

namespace NativeWatcher

open Hierarchy

/-! ## The difference of two indexes -/

/-- The (path, kind) pair is indexed. -/
def IdentityIndex.holds (x : IdentityIndex) (k : EventKey) : Bool :=
  (x.find k.1).any fun e => entryKind e.isDirectory == k.2

/-- Another identity, or a file with another modification time. -/
def changedAt (before current : IdentityIndex) (p : Str) : Bool :=
  (before.find p).any fun o => (current.find p).any fun n =>
    o.identity != n.identity || (!n.isDirectory && o.mtime != n.mtime)

/-- The events a key deserves. -/
def indexDifference (before current : IdentityIndex) (k : EventKey) : List EventType :=
  if current.holds k && !before.holds k then [.create]
  else if before.holds k && !current.holds k then [.delete]
  else if before.holds k && current.holds k && changedAt before current k.1 then [.update]
  else []

/-- A batch reports the difference, and a shared rename id joins the two paths of
one file. -/
def ReportsDifference (before current : IdentityIndex) (events : List Event) : Prop :=
  (∀ k : EventKey, (events.filter fun e => e.key = k).map Event.type =
    indexDifference before current k) ∧
  ∀ d ∈ events, ∀ c ∈ events, ∀ id, d.type = .delete → c.type = .create →
    d.renameId = some id → c.renameId = some id →
      ∃ o n, before.find d.path = some o ∧ current.find c.path = some n ∧
        o.identity = n.identity

/-- The defect: a file moved away, another file is at its path. -/
def ReoccupiedSource (before current : IdentityIndex) (p : Str) : Prop :=
  MovedSource before current p ∧
    (∃ o, before.find p = some o ∧ o.isDirectory = false) ∧
    ∃ n, current.find p = some n ∧ n.isDirectory = false

/-! ## The reports are about single paths -/

namespace Reconciliation

open EventList

theorem localReport_reportRemoved (current : IdentityIndex) (handledRemoved : List Str) :
    LocalReport (reportRemoved current handledRemoved) :=
  LocalReport.ite
    (fun b : Str × IndexedPath => !handledRemoved.contains b.1 &&
      (b.2.isDirectory || (current.find b.1).all fun d : IndexedPath => d.isDirectory))
    (LocalReport.modify (fun b : Str × IndexedPath => entryKind b.2.isDirectory) _
      Event.key_markRemoved)
    LocalReport.skip

theorem localReport_reportCreated (before : IdentityIndex) (handledCreated : List Str) :
    LocalReport (reportCreated before handledCreated) :=
  LocalReport.ite (fun b : Str × IndexedPath => handledCreated.contains b.1)
    LocalReport.skip
    (LocalReport.ite
      (fun b : Str × IndexedPath => ((before.find b.1).any fun previous : IndexedPath =>
        !previous.isDirectory) &&
        !b.2.isDirectory)
      (LocalReport.modify (fun _ => .File) _ Event.key_id)
      (LocalReport.modify (fun b : Str × IndexedPath => entryKind b.2.isDirectory) _
        Event.key_markCreated))

theorem localReport_reportModified (before : IdentityIndex) :
    LocalReport (reportModified before) :=
  LocalReport.ite
    (fun b : Str × IndexedPath => (before.find b.1).any fun o : IndexedPath =>
      o.identity == b.2.identity &&
      !b.2.isDirectory && o.mtime != b.2.mtime)
    (LocalReport.modify (fun _ => .File) _ Event.key_id)
    LocalReport.skip

end Reconciliation

open Reconciliation EventList

theorem idsFrom_foldl {β : Type} {calls : List RenameCall}
    {op : EventList → β → EventList}
    (h : ∀ l b, IdsFrom calls l → IdsFrom calls (op l b)) (bs : List β) {l : EventList}
    (hl : IdsFrom calls l) : IdsFrom calls (bs.foldl op l) := by
  induction bs generalizing l with
  | nil => exact hl
  | cons b bs ih => exact ih (h l b hl)

section Diff

variable {before current : IdentityIndex} {root : Str}

/-- The three loops of reports, path by path. -/
theorem find_reconcile (renameSequence : Nat) (p : Str) (kind : EntryKind) :
    let r := reconcileRenames before current .empty renameSequence
    let l₁ := r.mEvents
    let l₂ := ((before.find p).filter fun o => current.differsAt p o).elim l₁
      fun o => reportRemoved current r.handledRemoved l₁ (p, o)
    let l₃ := ((current.find p).filter fun n => before.differsAt p n).elim l₂
      fun n => reportCreated before r.handledCreated l₂ (p, n)
    let l₄ := (current.find p).elim l₃ fun n => reportModified before l₃ (p, n)
    (reconcile before current .empty renameSequence).1.find (p, kind) = l₄.find (p, kind) := by
  intro r l₁ l₂ l₃ l₄
  -- one loop over the changed entries of an index
  have hloop : ∀ (x other : IdentityIndex) (op : EventList → Str × IndexedPath → EventList),
      LocalReport op → ∀ l l' : EventList, (∀ kind, l.find (p, kind) = l'.find (p, kind)) →
        ∀ kind, ((candidatesOf x other).toList.foldl op l).find (p, kind) =
          (((x.find p).filter fun e => other.differsAt p e).elim l'
            fun e => op l' (p, e)).find (p, kind) := by
    intro x other op hop l l' hl kind
    cases hf : (x.find p).filter fun e => other.differsAt p e with
    | none =>
        rw [hop.find_foldl_of_forall_ne]
        · exact hl kind
        · rintro hmem
          obtain ⟨⟨p', e⟩, he, rfl⟩ := List.mem_map.mp hmem
          obtain ⟨hfind, hdiffers⟩ := mem_toList_candidatesOf.mp he
          rw [hfind, Option.filter_some, if_pos hdiffers] at hf
          cases hf
    | some e =>
        obtain ⟨hfind, hdiffers⟩ := Option.filter_eq_some_iff.mp hf
        rw [hop.find_foldl_of_mem (nodup_toList_candidatesOf x other)
          (mem_toList_candidatesOf.mpr ⟨hfind, hdiffers⟩)]
        exact hop.congr l l' (p, e) hl kind
  have h₂ := hloop before current _
    (localReport_reportRemoved current r.handledRemoved) l₁ l₁ fun _ => rfl
  have h₃ := hloop current before _
    (localReport_reportCreated before r.handledCreated) _ l₂ h₂
  show ((current.entries.foldl (reportModified before) _).find (p, kind)) = _
  have hmod := localReport_reportModified before
  have hnodup : (current.entries.map Prod.fst).Nodup := current.mByPath.pairs_keys_nodup
  cases hf : current.find p with
  | none =>
      rw [hmod.find_foldl_of_forall_ne]
      · rw [show l₄ = l₃ from by simp only [l₄, hf, Option.elim_none]]
        exact h₃ kind
      · rintro hmem
        obtain ⟨⟨p', e⟩, he, rfl⟩ := List.mem_map.mp hmem
        rw [IdentityIndex.mem_entries.mp he] at hf
        cases hf
  | some n =>
      rw [hmod.find_foldl_of_mem hnodup
        (IdentityIndex.mem_entries.mpr hf)]
      rw [show l₄ = reportModified before l₃ (p, n) from by simp only [l₄, hf, Option.elim_some]]
      exact hmod.congr _ _ (p, n) h₃ kind

/-! ## The entries after the renames -/

theorem internalUpdate_of_none {l : EventList} {k : EventKey} (h : l.find k = none) :
    l.internalUpdate k = Event.new k := by
  rw [EventList.internalUpdate, h]
  rfl

theorem internalUpdate_of_some {l : EventList} {k : EventKey} {e : Event}
    (h : l.find k = some e) : l.internalUpdate k = e := by
  rw [EventList.internalUpdate, h]
  rfl

section AfterRenames

variable {r : Reconciliation} {calls : List RenameCall} {p : Str} {o n : IndexedPath}

/-- A path indexed before is no target. -/
theorem Traced.notMem_handledCreated (h : Traced before current r calls)
    (ho : before.find p = some o) : p ∉ r.handledCreated := by
  intro hp
  obtain ⟨c, hc, rfl⟩ := (h.created p).mp hp
  obtain ⟨-, -, -, -, -, -, -, hvacant, -⟩ := h.moves c hc
  rw [hvacant] at ho
  cases ho

theorem Traced.differsAt_of_mem (h : Traced before current r calls)
    (hp : p ∈ r.handledRemoved) (ho : before.find p = some o) :
    current.differsAt p o = true := by
  obtain ⟨c, hc, rfl⟩ := (h.removed p).mp hp
  obtain ⟨o', -, ho', -, -, -, -, -, hdiffers⟩ := h.moves c hc
  rwa [Option.some.inj (ho.symm.trans ho')]

theorem Traced.find_source (h : Traced before current r calls)
    (hp : p ∈ r.handledRemoved) (ho : before.find p = some o) :
    ∃ e, r.mEvents.find (p, entryKind o.isDirectory) = some e ∧ e.isCreated = false ∧
      e.isDeleted = true := by
  obtain ⟨c, hc, rfl⟩ := (h.removed p).mp hp
  obtain ⟨o', -, ho', -, -, -, hkind, -, -⟩ := h.moves c hc
  obtain rfl := Option.some.inj (ho.symm.trans ho')
  rw [h.events, hkind]
  exact EventList.find_renameAll_source h.disjointEnds hc

theorem Traced.find_target (h : Traced before current r calls)
    (hp : p ∈ r.handledCreated) (hn : current.find p = some n) :
    ∃ e, r.mEvents.find (p, entryKind n.isDirectory) = some e ∧ e.isCreated = true ∧
      e.isDeleted = false := by
  obtain ⟨c, hc, rfl⟩ := (h.created p).mp hp
  obtain ⟨o', n', -, hn', -, hsame, hkind, -, -⟩ := h.moves c hc
  obtain rfl := Option.some.inj (hn.symm.trans hn')
  rw [h.events, ← hsame, hkind]
  exact EventList.find_renameAll_target h.disjointEnds hc

/-- Of an indexed path, only the entry of its kind can exist, and only for a source. -/
theorem Traced.find_indexed (h : Traced before current r calls)
    (ho : before.find p = some o) {kind : EntryKind}
    (hnot : entryKind o.isDirectory = kind → p ∉ r.handledRemoved) :
    r.mEvents.find (p, kind) = none := by
  rw [h.events]
  apply EventList.find_renameAll_none h.disjointEnds
  intro c hc
  constructor
  · intro heq
    obtain ⟨hpath, hkind⟩ := Prod.mk.inj heq
    obtain ⟨o', -, ho', -, -, -, hk, -, -⟩ := h.moves c hc
    rw [hpath] at ho'
    obtain rfl := Option.some.inj (ho.symm.trans ho')
    exact hnot (hk.trans hkind) ((h.removed p).mpr ⟨c, hc, hpath⟩)
  · intro heq
    exact h.notMem_handledCreated ho ((h.created p).mpr ⟨c, hc, (Prod.mk.inj heq).1⟩)

/-- Of a path not indexed before, only the entry of its present kind can exist, and
only for a target. -/
theorem Traced.find_vacant (h : Traced before current r calls)
    (ho : before.find p = none) {kind : EntryKind}
    (hnot : ∀ n, current.find p = some n → entryKind n.isDirectory = kind →
      p ∉ r.handledCreated) :
    r.mEvents.find (p, kind) = none := by
  rw [h.events]
  apply EventList.find_renameAll_none h.disjointEnds
  intro c hc
  obtain ⟨o', n', ho', hn', -, hsame, hk, -, -⟩ := h.moves c hc
  constructor
  · intro heq
    rw [(Prod.mk.inj heq).1, ho] at ho'
    cases ho'
  · intro heq
    obtain ⟨hpath, hkind⟩ := Prod.mk.inj heq
    rw [hpath] at hn'
    rw [hsame] at hk
    exact hnot n' hn' (hk.trans hkind) ((h.created p).mpr ⟨c, hc, hpath⟩)

end AfterRenames

/-! ## Path by path -/

theorem holds_of_some {x : IdentityIndex} {p : Str} {e : IndexedPath}
    (h : x.find p = some e) (kind : EntryKind) :
    x.holds (p, kind) = (entryKind e.isDirectory == kind) := by
  rw [IdentityIndex.holds, h]
  rfl

theorem holds_of_none {x : IdentityIndex} {p : Str} (h : x.find p = none)
    (kind : EntryKind) : x.holds (p, kind) = false := by
  rw [IdentityIndex.holds, h]
  rfl

theorem differsAt_of_none {x : IdentityIndex} {p : Str} (h : x.find p = none)
    (e : IndexedPath) : x.differsAt p e = true := by
  rw [IdentityIndex.differsAt, h]
  rfl

section PathCases

variable {renameSequence : Nat} {calls : List RenameCall} {p : Str} {o n : IndexedPath}
  (h : Traced before current (reconcileRenames before current .empty renameSequence) calls)
include h

/-- A path in neither index. -/
theorem reported_absent (ho : before.find p = none) (hn : current.find p = none)
    (kind : EntryKind) :
    reported ((reconcile before current .empty renameSequence).1.find (p, kind)) =
      indexDifference before current (p, kind) := by
  rw [find_reconcile]
  simp only [ho, hn, Option.filter_none, Option.elim_none]
  rw [h.find_vacant ho (fun n hn' => by rw [hn] at hn'; cases hn')]
  simp [indexDifference, holds_of_none ho, holds_of_none hn]

/-- A path that appeared. -/
theorem reported_appeared (ho : before.find p = none) (hn : current.find p = some n)
    (kind : EntryKind) :
    reported ((reconcile before current .empty renameSequence).1.find (p, kind)) =
      indexDifference before current (p, kind) := by
  rw [find_reconcile]
  simp only [ho, hn, Option.filter_none, Option.elim_none, Option.filter_some,
    differsAt_of_none ho, if_true, Option.elim_some, reportModified, Option.any_none,
    Bool.false_eq_true, if_false]
  unfold reportCreated
  by_cases hk : entryKind n.isDirectory = kind
  · have hexpected : indexDifference before current (p, kind) = [.create] := by
      simp [indexDifference, holds_of_none ho, holds_of_some hn, hk]
    rw [hexpected]
    by_cases hp : p ∈ (reconcileRenames before current .empty renameSequence).handledCreated
    · obtain ⟨e, he, hc, hd⟩ := h.find_target hp hn
      rw [if_pos (by simpa using hp), ← hk, he]
      exact reported_of_created hc hd
    · rw [if_neg (by simpa using hp)]
      simp only [ho, Option.any_none, Bool.false_and, Bool.false_eq_true, if_false]
      rw [EventList.find_create, if_pos (by rw [hk]),
        internalUpdate_of_none (h.find_vacant ho fun _ _ _ => hp)]
      exact reported_of_created rfl rfl
  · have hexpected : indexDifference before current (p, kind) = [] := by
      simp [indexDifference, holds_of_none ho, holds_of_some hn, hk]
    have hnone : (reconcileRenames before current .empty renameSequence).mEvents.find
        (p, kind) = none :=
      h.find_vacant ho fun n' hn' hk' => absurd
        (by rwa [Option.some.inj (hn'.symm.trans hn)] at hk') hk
    rw [hexpected]
    split
    · rw [hnone]
      rfl
    · simp only [ho, Option.any_none, Bool.false_and, Bool.false_eq_true, if_false]
      rw [EventList.find_create, if_neg (fun heq => hk (Prod.mk.inj heq).2.symm), hnone]
      rfl

/-- A path that vanished. -/
theorem reported_vanished (ho : before.find p = some o) (hn : current.find p = none)
    (kind : EntryKind) :
    reported ((reconcile before current .empty renameSequence).1.find (p, kind)) =
      indexDifference before current (p, kind) := by
  rw [find_reconcile]
  simp only [ho, hn, Option.filter_none, Option.elim_none, Option.filter_some,
    differsAt_of_none hn, if_true, Option.elim_some]
  unfold reportRemoved
  simp only [hn, Option.all_none, Bool.or_true, Bool.and_true]
  by_cases hk : entryKind o.isDirectory = kind
  · have hexpected : indexDifference before current (p, kind) = [.delete] := by
      simp [indexDifference, holds_of_none hn, holds_of_some ho, hk]
    rw [hexpected]
    by_cases hp : p ∈ (reconcileRenames before current .empty renameSequence).handledRemoved
    · obtain ⟨e, he, hc, hd⟩ := h.find_source hp ho
      rw [if_neg (by simpa using hp), ← hk, he]
      exact reported_of_deleted hc hd
    · rw [if_pos (by simpa using hp), EventList.find_remove, if_pos (by rw [hk]),
        internalUpdate_of_none (h.find_indexed ho fun _ => hp)]
      exact reported_of_deleted rfl rfl
  · have hexpected : indexDifference before current (p, kind) = [] := by
      simp [indexDifference, holds_of_none hn, holds_of_some ho, hk]
    have hnone : (reconcileRenames before current .empty renameSequence).mEvents.find
        (p, kind) = none := h.find_indexed ho fun hk' => absurd hk' hk
    rw [hexpected]
    split
    · rw [EventList.find_remove, if_neg (fun heq => hk (Prod.mk.inj heq).2.symm), hnone]
      rfl
    · rw [hnone]
      rfl

/-- A path that kept its file. -/
theorem reported_kept (ho : before.find p = some o) (hn : current.find p = some n)
    (hid : o.identity = n.identity) (hsame : o.isDirectory = n.isDirectory)
    (kind : EntryKind) :
    reported ((reconcile before current .empty renameSequence).1.find (p, kind)) =
      indexDifference before current (p, kind) := by
  have hdo : current.differsAt p o = false := by
    simp [IdentityIndex.differsAt, hn, hid]
  have hdn : before.differsAt p n = false := by
    simp [IdentityIndex.differsAt, ho, hid]
  have hnone : ∀ kind, (reconcileRenames before current .empty renameSequence).mEvents.find
      (p, kind) = none := fun kind =>
    h.find_indexed ho fun _ hp => by
      rw [h.differsAt_of_mem hp ho] at hdo
      cases hdo
  rw [find_reconcile]
  simp only [ho, hn, Option.filter_some, hdo, hdn, Bool.false_eq_true, if_false,
    Option.elim_none, Option.elim_some]
  unfold reportModified
  simp only [ho, Option.any_some]
  cases hd : n.isDirectory with
  | true => simp [indexDifference, holds_of_some ho, holds_of_some hn, changedAt, ho, hn, hid,
      hsame, hd, hnone]
  | false =>
      by_cases hm : o.mtime = n.mtime
      · simp [indexDifference, holds_of_some ho, holds_of_some hn, changedAt, ho, hn, hid,
          hsame, hd, hm, hnone]
      · cases kind with
        | File =>
            have hexpected : indexDifference before current (p, .File) = [.update] := by
              simp [indexDifference, holds_of_some ho, holds_of_some hn, changedAt, ho, hn,
                hsame, hd, hm, entryKind]
            rw [hexpected, if_pos (by simp [hid, hm]), EventList.find_update, if_pos rfl,
              internalUpdate_of_none (hnone _)]
            exact reported_of_touched rfl rfl
        | Directory =>
            have hexpected : indexDifference before current (p, .Directory) = [] := by
              simp [indexDifference, holds_of_some ho, holds_of_some hn, hsame, hd, entryKind]
            rw [hexpected, if_pos (by simp [hid, hm]), EventList.find_update,
              if_neg (fun heq => EntryKind.noConfusion (Prod.mk.inj heq).2), hnone]
            rfl

/-- The entries of a replaced path once removals and creations are reported. -/
theorem find_replaced (ho : before.find p = some o) (hn : current.find p = some n)
    (hid : o.identity ≠ n.identity) (kind : EntryKind) :
    let r := reconcileRenames before current .empty renameSequence
    let l := reportRemoved current r.handledRemoved r.mEvents (p, o)
    (reconcile before current .empty renameSequence).1.find (p, kind) =
      (if (!o.isDirectory && !n.isDirectory) = true then l.update p .File
        else l.create p (entryKind n.isDirectory)).find (p, kind) := by
  have hdo : current.differsAt p o = true := by
    simp [IdentityIndex.differsAt, hn, Ne.symm hid]
  have hdn : before.differsAt p n = true := by
    simp [IdentityIndex.differsAt, ho, hid]
  have hcreated : p ∉ (reconcileRenames before current .empty
      renameSequence).handledCreated := h.notMem_handledCreated ho
  have hmod : (o.identity == n.identity) = false := by simp [hid]
  intro r l
  rw [find_reconcile]
  simp only [ho, hn, Option.filter_some, hdo, hdn, if_true, Option.elim_some, reportModified,
    reportCreated, Option.any_some, hmod, Bool.false_and, Bool.false_eq_true, if_false]
  rw [if_neg (by simpa using hcreated)]

/-- A directory replaced by another one. -/
theorem reported_replaced_directory (ho : before.find p = some o)
    (hn : current.find p = some n) (hid : o.identity ≠ n.identity)
    (hod : o.isDirectory = true) (hnd : n.isDirectory = true) (kind : EntryKind) :
    reported ((reconcile before current .empty renameSequence).1.find (p, kind)) =
      indexDifference before current (p, kind) := by
  rw [find_replaced h ho hn hid, if_neg (by simp [hod])]
  unfold reportRemoved
  simp only [hod, hnd, Bool.true_or, Bool.and_true, entryKind_true]
  cases kind with
  | File =>
      have hexpected : indexDifference before current (p, .File) = [] := by
        simp [indexDifference, holds_of_some ho, holds_of_some hn, hod, hnd, entryKind]
      have hnone : (reconcileRenames before current .empty renameSequence).mEvents.find
          (p, .File) = none := h.find_indexed ho fun hk => by
        rw [hod] at hk
        cases hk
      have hne : ((p, EntryKind.File) : EventKey) ≠ (p, .Directory) := fun heq =>
        EntryKind.noConfusion (Prod.mk.inj heq).2
      rw [hexpected, EventList.find_create, if_neg hne]
      split
      · rw [EventList.find_remove, if_neg hne, hnone]
        rfl
      · rw [hnone]
        rfl
  | Directory =>
      have hexpected : indexDifference before current (p, .Directory) = [.update] := by
        simp [indexDifference, holds_of_some ho, holds_of_some hn, changedAt, ho, hn, hid,
          hod, hnd, entryKind]
      rw [hexpected, EventList.find_create, if_pos rfl]
      by_cases hp : p ∈ (reconcileRenames before current .empty renameSequence).handledRemoved
      · -- the creation turns the deletion of the rename into an update
        obtain ⟨e, he, hc, hd⟩ := h.find_source hp ho
        rw [hod, entryKind_true] at he
        rw [if_neg (by simpa using hp), internalUpdate_of_some he]
        exact reported_of_touched (by simp [Event.markCreated, hc, hd])
          (by simp [Event.markCreated, hd])
      · have hnone : (reconcileRenames before current .empty renameSequence).mEvents.find
            (p, .Directory) = none := h.find_indexed ho fun _ => hp
        have hremoved : ((reconcileRenames before current .empty
            renameSequence).mEvents.remove p .Directory).find (p, .Directory) =
            some (Event.new (p, .Directory)).markRemoved := by
          rw [EventList.find_remove, if_pos rfl, internalUpdate_of_none hnone]
        rw [if_pos (by simpa using hp), internalUpdate_of_some hremoved]
        exact reported_of_touched rfl rfl

/-- A file replaced by a directory or the other way round. -/
theorem reported_replaced_kind (ho : before.find p = some o)
    (hn : current.find p = some n) (hid : o.identity ≠ n.identity)
    (hkind : o.isDirectory ≠ n.isDirectory) (kind : EntryKind) :
    reported ((reconcile before current .empty renameSequence).1.find (p, kind)) =
      indexDifference before current (p, kind) := by
  have hboth : (!o.isDirectory && !n.isDirectory) = false ∧
      (o.isDirectory || n.isDirectory) = true := by
    cases hod : o.isDirectory <;> cases hnd : n.isDirectory <;> simp_all
  have hkinds : entryKind o.isDirectory ≠ entryKind n.isDirectory := fun heq =>
    hkind (entryKind_inj.mp heq)
  rw [find_replaced h ho hn hid, if_neg (by simp [hboth.1])]
  unfold reportRemoved
  simp only [hn, Option.all_some, hboth.2, Bool.and_true]
  by_cases hk : entryKind n.isDirectory = kind
  · -- the new kind: nothing was said about it before
    have hne : ¬ entryKind o.isDirectory = kind := fun heq => hkinds (heq.trans hk.symm)
    have hexpected : indexDifference before current (p, kind) = [.create] := by
      simp [indexDifference, holds_of_some ho, holds_of_some hn, hk, hne]
    have hnone : (reconcileRenames before current .empty renameSequence).mEvents.find
        (p, kind) = none := h.find_indexed ho fun heq => absurd heq hne
    rw [hexpected, EventList.find_create, if_pos (by rw [hk]), internalUpdate_of_none]
    · exact reported_of_created rfl rfl
    · rw [hk]
      split
      · rw [EventList.find_remove, if_neg (fun heq => hne (Prod.mk.inj heq).2.symm), hnone]
      · exact hnone
  · have hne : ((p, kind) : EventKey) ≠ (p, entryKind n.isDirectory) := fun heq =>
      hk (Prod.mk.inj heq).2.symm
    have hold : entryKind o.isDirectory = kind := by
      cases hod : o.isDirectory <;> cases hnd : n.isDirectory <;> cases kind <;>
        simp_all [entryKind]
    have hexpected : indexDifference before current (p, kind) = [.delete] := by
      simp [indexDifference, holds_of_some ho, holds_of_some hn, hk, hold]
    rw [hexpected, EventList.find_create, if_neg hne]
    by_cases hp : p ∈ (reconcileRenames before current .empty renameSequence).handledRemoved
    · obtain ⟨e, he, hc, hd⟩ := h.find_source hp ho
      rw [if_neg (by simpa using hp), ← hold, he]
      exact reported_of_deleted hc hd
    · rw [if_pos (by simpa using hp), EventList.find_remove, if_pos (by rw [hold]),
        internalUpdate_of_none (h.find_indexed ho fun _ => hp)]
      exact reported_of_deleted rfl rfl

/-- A file replaced by another one: an update, unless the old file moved away. -/
theorem reported_replaced_file (ho : before.find p = some o)
    (hn : current.find p = some n) (hid : o.identity ≠ n.identity)
    (hod : o.isDirectory = false) (hnd : n.isDirectory = false) (kind : EntryKind) :
    reported ((reconcile before current .empty renameSequence).1.find (p, kind)) =
      if kind = .File ∧
          p ∈ (reconcileRenames before current .empty renameSequence).handledRemoved
      then [.delete]
      else indexDifference before current (p, kind) := by
  rw [find_replaced h ho hn hid, if_pos (by simp [hod, hnd])]
  unfold reportRemoved
  simp only [hn, hod, hnd, Option.all_some, Bool.or_self, Bool.and_false, Bool.false_eq_true,
    if_false]
  cases kind with
  | Directory =>
      have hexpected : indexDifference before current (p, .Directory) = [] := by
        simp [indexDifference, holds_of_some ho, holds_of_some hn, hod, hnd, entryKind]
      have hnone : (reconcileRenames before current .empty renameSequence).mEvents.find
          (p, .Directory) = none := h.find_indexed ho fun hk => by
        rw [hod] at hk
        cases hk
      rw [if_neg (fun hc => EntryKind.noConfusion hc.1), hexpected, EventList.find_update,
        if_neg (fun heq => EntryKind.noConfusion (Prod.mk.inj heq).2), hnone]
      rfl
  | File =>
      rw [EventList.find_update, if_pos rfl]
      by_cases hp : p ∈ (reconcileRenames before current .empty renameSequence).handledRemoved
      · obtain ⟨e, he, hc, hd⟩ := h.find_source hp ho
        rw [hod, entryKind_false] at he
        rw [if_pos ⟨rfl, hp⟩, internalUpdate_of_some he]
        exact reported_of_deleted hc hd
      · have hexpected : indexDifference before current (p, .File) = [.update] := by
          simp [indexDifference, holds_of_some ho, holds_of_some hn, changedAt, ho, hn, hid,
            hod, hnd, entryKind]
        rw [if_neg (fun hc => hp hc.2), hexpected,
          internalUpdate_of_none (h.find_indexed ho fun _ => hp)]
        exact reported_of_touched rfl rfl

end PathCases

/-! ## The batch -/

/-- An identity in both indexes has one kind. -/
def SameKinds (before current : IdentityIndex) : Prop :=
  ∀ b ∈ before.entries, ∀ c ∈ current.entries,
    b.2.identity = c.2.identity → b.2.isDirectory = c.2.isDirectory

instance (before current : IdentityIndex) : Decidable (SameKinds before current) :=
  inferInstanceAs (Decidable (∀ b ∈ before.entries, ∀ c ∈ current.entries,
    b.2.identity = c.2.identity → b.2.isDirectory = c.2.isDirectory))

/-- Every key is reported as it should, but for the files at reoccupied sources. -/
theorem reported_reconcile (hbefore : before.ClosedUnder root)
    (hcurrent : current.ClosedUnder root) (hkinds : SameKinds before current)
    (renameSequence : Nat) (p : Str) (kind : EntryKind)
    (hp : ¬ ReoccupiedSource before current p) :
    reported ((reconcile before current .empty renameSequence).1.find (p, kind)) =
      indexDifference before current (p, kind) := by
  obtain ⟨⟨calls, h⟩, hsources⟩ := reconcileRenames_traced hbefore hcurrent renameSequence
  cases ho : before.find p with
  | none =>
      cases hn : current.find p with
      | none => exact reported_absent h ho hn kind
      | some n => exact reported_appeared h ho hn kind
  | some o =>
      cases hn : current.find p with
      | none => exact reported_vanished h ho hn kind
      | some n =>
          by_cases hid : o.identity = n.identity
          · exact reported_kept h ho hn hid (hkinds _ (IdentityIndex.mem_entries.mpr ho) _
              (IdentityIndex.mem_entries.mpr hn) hid) kind
          · cases hod : o.isDirectory <;> cases hnd : n.isDirectory
            · rw [reported_replaced_file h ho hn hid hod hnd, if_neg]
              rintro ⟨-, hmem⟩
              exact hp ⟨(hsources p).mp hmem, ⟨o, ho, hod⟩, n, hn, hnd⟩
            · exact reported_replaced_kind h ho hn hid (by simp [hod, hnd]) kind
            · exact reported_replaced_kind h ho hn hid (by simp [hod, hnd]) kind
            · exact reported_replaced_directory h ho hn hid hod hnd kind

/-- At a reoccupied source the batch reports a deletion for a file that is there. -/
theorem reported_reoccupied (hbefore : before.ClosedUnder root)
    (hcurrent : current.ClosedUnder root) (renameSequence : Nat) {p : Str}
    (hp : ReoccupiedSource before current p) :
    reported ((reconcile before current .empty renameSequence).1.find (p, .File)) ≠
      indexDifference before current (p, .File) := by
  obtain ⟨⟨calls, h⟩, hsources⟩ := reconcileRenames_traced hbefore hcurrent renameSequence
  obtain ⟨hmoved, ⟨o, ho, hod⟩, n, hn, hnd⟩ := hp
  have hmem := (hsources p).mpr hmoved
  have hid : o.identity ≠ n.identity := fun heq =>
    differsAt_iff.mp (h.differsAt_of_mem hmem ho) n hn heq.symm
  rw [reported_replaced_file h ho hn hid hod hnd, if_pos ⟨rfl, hmem⟩]
  simp [indexDifference, holds_of_some ho, holds_of_some hn, changedAt, ho, hn, hid, hod, hnd]

/-- Rename ids join the two paths of one file. -/
theorem renameIds_reconcile (hbefore : before.ClosedUnder root)
    (hcurrent : current.ClosedUnder root) (renameSequence : Nat) {d c : Event} {id : Str}
    (hd : d ∈ (reconcile before current .empty renameSequence).1.drain.1.events)
    (hc : c ∈ (reconcile before current .empty renameSequence).1.drain.1.events)
    (hdt : d.type = .delete) (hct : c.type = .create)
    (hdi : d.renameId = some id) (hci : c.renameId = some id) :
    ∃ o n, before.find d.path = some o ∧ current.find c.path = some n ∧
      o.identity = n.identity := by
  obtain ⟨⟨calls, h⟩, -⟩ := reconcileRenames_traced hbefore hcurrent renameSequence
  have hids : IdsFrom calls (reconcile before current .empty renameSequence).1 := by
    have hrenames : IdsFrom calls
        (reconcileRenames before current .empty renameSequence).mEvents := by
      rw [h.events]
      exact idsFrom_renameAll h.disjointEnds
    apply idsFrom_foldl
    · intro l b hl
      unfold reportModified
      split
      · exact hl.update _ _
      · exact hl
    · apply idsFrom_foldl
      · intro l b hl
        unfold reportCreated
        split
        · exact hl
        · split
          · exact hl.update _ _
          · exact hl.create _ _
      · apply idsFrom_foldl
        · intro l b hl
          unfold reportRemoved
          split
          · exact hl.remove _ _
          · exact hl
        · exact hrenames
  -- the entries behind the two events
  obtain ⟨d', hd', rfl⟩ := List.mem_map.mp hd
  obtain ⟨c', hc', rfl⟩ := List.mem_map.mp hc
  rw [type_exposeId] at hdt hct
  obtain ⟨x, hx, hxid, hxkey⟩ := hids _ _ _ (mem_kept.mp hd').1 (renameId_of_exposeId hdi)
  obtain ⟨y, hy, hyid, hykey⟩ := hids _ _ _ (mem_kept.mp hc').1 (renameId_of_exposeId hci)
  obtain rfl := h.idsInj x hx y hy (hxid.trans hyid.symm)
  obtain ⟨o, n, ho, hn, hon, -⟩ := h.moves x hx
  have hdcreated : ¬ d'.isCreated = true := fun hcr => by simp [Event.type, hcr] at hdt
  have hccreated : c'.isCreated = true := by
    by_contra hcr
    unfold Event.type at hct
    rw [if_neg hcr] at hct
    split at hct <;> cases hct
  have hdpath : x.oldPath = d'.path := by
    rcases hxkey with ⟨hk, -⟩ | ⟨-, hcr⟩
    · exact congrArg Prod.fst hk
    · exact absurd hcr hdcreated
  have hcpath : x.newPath = c'.path := by
    rcases hykey with ⟨-, hcr, -⟩ | ⟨hk, -⟩
    · rw [hcr] at hccreated
      cases hccreated
    · exact congrArg Prod.fst hk
  rw [path_exposeId, path_exposeId, ← hdpath, ← hcpath]
  exact ⟨o, n, ho, hn, hon⟩

theorem reportsDifference_reconcile_iff (hbefore : before.ClosedUnder root)
    (hcurrent : current.ClosedUnder root) (hkinds : SameKinds before current)
    (renameSequence : Nat) :
    ReportsDifference before current
        (reconcile before current .empty renameSequence).1.drain.1.events ↔
      ¬ ∃ p, ReoccupiedSource before current p := by
  have htypes : ∀ k : EventKey,
      (((reconcile before current .empty renameSequence).1.drain.1.events.filter
        fun e => e.key = k).map Event.type) =
      reported ((reconcile before current .empty renameSequence).1.find k) := fun k =>
    EventList.drain_filter_key _ k
  constructor
  · rintro ⟨hdiff, -⟩ ⟨p, hp⟩
    apply reported_reoccupied hbefore hcurrent renameSequence hp
    rw [← htypes, hdiff]
  · intro hnone
    refine ⟨?_, ?_⟩
    · rintro ⟨p, kind⟩
      rw [htypes]
      exact reported_reconcile hbefore hcurrent hkinds renameSequence p kind
        fun hp => hnone ⟨p, hp⟩
    · intro d hd c hc id hdt hct hdi hci
      exact renameIds_reconcile hbefore hcurrent renameSequence hd hc hdt hct hdi hci

end Diff

/-- **What a full rescan reports.** After a complete scan, from an empty event list,
with both indexes closed under parent directories and one kind for each identity in
both, the drained batch is the difference of the two indexes with sound rename ids
exactly when no file was renamed away, itself or along with a directory, from a path
where the scan finds another file. -/
theorem reconcileFullTree_reports_difference_iff (w : MacWatcher) (s : MacState)
    (full : FullScan) (hempty : s.mEvents = .empty)
    (hcomplete : (scanIdentityIndex w.mDir w.isIgnored full.walk).outcome = .complete)
    (hcancelled : full.cancelled = false)
    (hbefore : s.identities.ClosedUnder w.mDir)
    (hcurrent : (scanIdentityIndex w.mDir w.isIgnored full.walk).result.ClosedUnder w.mDir)
    (hkinds : SameKinds s.identities
      (scanIdentityIndex w.mDir w.isIgnored full.walk).result) :
    ∃ s', reconcileFullTree w s full = .ok s' ∧
      (ReportsDifference s.identities
          (scanIdentityIndex w.mDir w.isIgnored full.walk).result s'.mEvents.drain.1.events ↔
        ¬ ∃ p, ReoccupiedSource s.identities
          (scanIdentityIndex w.mDir w.isIgnored full.walk).result p) := by
  unfold reconcileFullTree
  simp only [hcomplete, hcancelled, Bool.false_eq_true, if_false]
  refine ⟨_, rfl, ?_⟩
  show ReportsDifference _ _ (reconcile s.identities _ s.mEvents
    s.renameSequence).1.drain.1.events ↔ _
  rw [hempty]
  exact reportsDifference_reconcile_iff hbefore hcurrent hkinds s.renameSequence

/-! ## A file that moves away -/

def exampleScan (nodes : List FtsNode)
    (h : (nodes.filter FtsNode.visited).Pairwise fun earlier later =>
      ¬ Under slash later.fts_path earlier.fts_path) : FullScan :=
  ⟨⟨false, none, nodes, h⟩, false⟩

/-- A watcher of `/r` that holds a file `/r/a`. -/
def singleFileState : MacState where
  tree := ((DirTree.new [47, 114]).add [47, 114] 1000000001 true).add
    [47, 114, 47, 97] 1000000001 false
  identities := (IdentityIndex.empty.add [47, 114] (fromStat (exampleStat 1 .directory))).add
    [47, 114, 47, 97] (fromStat (exampleStat 2 .regular))
  renameSequence := 0
  stream := true
  mEvents := .empty
  mNeedsResubscribe := false

/-- `/r/a` is now `/r/b`. -/
def renamedScan : FullScan :=
  exampleScan [exampleNode [47, 114] 1 .directory,
    exampleNode [47, 114, 47, 98] 2 .regular] (by decide)

/-- `/r/a` is now `/r/b`, and another file is at `/r/a`. -/
def reoccupiedScan : FullScan :=
  exampleScan [exampleNode [47, 114] 1 .directory,
    exampleNode [47, 114, 47, 97] 3 .regular,
    exampleNode [47, 114, 47, 98] 2 .regular] (by decide)

theorem reconcileFullTree_reports_difference_renamed :
    ∃ s', reconcileFullTree exampleWatcher singleFileState renamedScan = .ok s' ∧
      (ReportsDifference singleFileState.identities
          (scanIdentityIndex [47, 114] exampleWatcher.isIgnored renamedScan.walk).result
          s'.mEvents.drain.1.events ↔
        ¬ ∃ p, ReoccupiedSource singleFileState.identities
          (scanIdentityIndex [47, 114] exampleWatcher.isIgnored renamedScan.walk).result p) :=
  reconcileFullTree_reports_difference_iff exampleWatcher singleFileState renamedScan rfl
    (by decide) rfl (by decide) (by decide) (by decide)

/-- The update of `/r/a` is lost: the batch says that it is deleted. -/
theorem reconcileFullTree_loses_update :
    (scanIdentityIndex [47, 114] exampleWatcher.isIgnored reoccupiedScan.walk).outcome =
        .complete ∧
      singleFileState.identities.ClosedUnder [47, 114] ∧
      (scanIdentityIndex [47, 114] exampleWatcher.isIgnored
        reoccupiedScan.walk).result.ClosedUnder [47, 114] ∧
      SameKinds singleFileState.identities
        (scanIdentityIndex [47, 114] exampleWatcher.isIgnored reoccupiedScan.walk).result ∧
      ∃ s', reconcileFullTree exampleWatcher singleFileState reoccupiedScan = .ok s' ∧
        ¬ ReportsDifference singleFileState.identities
          (scanIdentityIndex [47, 114] exampleWatcher.isIgnored reoccupiedScan.walk).result
          s'.mEvents.drain.1.events := by
  refine ⟨by decide, by decide, by decide, by decide, _, rfl, ?_⟩
  intro h
  have hfile := h.1 ([47, 114, 47, 97], .File)
  revert hfile
  decide

end NativeWatcher
