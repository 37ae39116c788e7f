import NativeWatcher.Macos.InStep

/-!
# A file system that stands still

What the steps of `processEvents` leave of a path when the file system does not change while a
batch is handled: the answers come from one file system, and a record indexes what is there.
-/

namespace NativeWatcher

open Hierarchy FSEventStreamEventFlag

/-! ## A fixed file system -/

/-- What the system calls answer about every path. Nothing exists below a regular file. -/
structure FileSystem where
  lstat : Str → Option Stat
  actualName : Str → Option Str
  below_file : ∀ p q file, Below slash p q → lstat p = some file → file.st_mode = .regular →
    lstat q = none

namespace FileSystem

def answer (fs : FileSystem) (path : Str) : PathAnswer := ⟨fs.lstat path, fs.actualName⟩

def read (fs : FileSystem) (path : Str) : Option IndexedPath :=
  readIndexedPath (fs.answer path) path

/-- The walk comes from the file system: it starts with the directory and stays in it, and
spells the names as they are there. -/
structure Lists (fs : FileSystem) (directory : Str) (walk : FtsWalk) : Prop where
  first : ∃ node rest, walk.nodes = node :: rest ∧ node.fts_path = directory ∧
    node.visited = true ∧ node.fts_statp = fs.lstat directory
  stat : ∀ node ∈ walk.nodes, ∀ file, node.fts_statp = some file →
    fs.lstat node.fts_path = some file
  under : ∀ node ∈ walk.nodes, Under slash directory node.fts_path
  named : ∀ node ∈ walk.nodes, pathHasExactCase fs.actualName node.fts_path = true

/-- All that the handling of the event reads is answered by the file system. -/
structure Answers (fs : FileSystem) (event : PendingEvent) : Prop where
  rescan : event.rescanAnswer = fs.answer event.path
  correlate : event.correlateAnswer = fs.answer event.path
  entry : event.entryAnswer = fs.answer event.path
  created : event.createdAnswer = fs.answer event.path
  walk : (fs.read event.path).any (fun e => e.isDirectory) = true →
    fs.Lists event.path event.walk

end FileSystem

namespace PendingEvent

def isModified (event : PendingEvent) : Bool :=
  hasFlag event.flags ItemModified || event.flags &&& METADATA_FLAGS != 0

/-- Flagged as removed and as nothing else. -/
def onlyRemoved (event : PendingEvent) : Bool :=
  hasFlag event.flags ItemRemoved &&
    !(hasFlag event.flags ItemCreated || event.isModified || hasFlag event.flags ItemRenamed)

/-- Flagged as created and as nothing else. -/
def onlyCreated (event : PendingEvent) : Bool :=
  hasFlag event.flags ItemCreated &&
    !(hasFlag event.flags ItemRemoved || event.isModified || hasFlag event.flags ItemRenamed)

end PendingEvent

namespace MacState

end MacState

def NamesRenamed (w : MacWatcher) (events : List PendingEvent) (path : Str) : Prop :=
  ∃ event ∈ events, event.path = path ∧ w.isIgnored path = false ∧
    hasFlag event.flags ItemRenamed = true

/-- The path is indexed as the file or directory that is there. -/
def MacState.Indexes (s : MacState) (p : Str) (e : IndexedPath) : Prop :=
  ∃ d, s.identities.find p = some d ∧ d.identity = e.identity ∧ d.isDirectory = e.isDirectory

/-! ## Events without a deletion -/

namespace EventList

/-- Nothing of the batch stands as deleted under the key. -/
def NotDeleted (l : EventList) (k : EventKey) : Prop :=
  ∀ e, l.find k = some e → e.isDeleted = false

theorem NotDeleted.internalUpdate {l : EventList} {k : EventKey} (h : l.NotDeleted k) :
    (l.internalUpdate k).isDeleted = false := by
  unfold EventList.internalUpdate
  cases hf : l.find k with
  | none => rfl
  | some e => exact h e hf

/-- A creation clears the deletion under its key. -/
theorem notDeleted_create (l : EventList) (path : Str) (kind : EntryKind) :
    (l.create path kind).NotDeleted (path, kind) := by
  intro e he
  rw [find_create, if_pos rfl] at he
  obtain rfl := Option.some.inj he
  unfold Event.markCreated
  split
  · rfl
  next hnot => exact Bool.eq_false_iff.mpr hnot

theorem NotDeleted.create {l : EventList} {k : EventKey} (h : l.NotDeleted k) (path : Str)
    (kind : EntryKind) : (l.create path kind).NotDeleted k := by
  intro e he
  rw [find_create] at he
  split at he
  next hk =>
      obtain rfl := Option.some.inj he
      unfold Event.markCreated
      rw [hk] at h
      split
      · rfl
      · exact h.internalUpdate
  next => exact h e he

theorem NotDeleted.update {l : EventList} {k : EventKey} (h : l.NotDeleted k) (path : Str)
    (kind : EntryKind) : (l.update path kind).NotDeleted k := by
  intro e he
  rw [find_update] at he
  split at he
  next hk =>
      obtain rfl := Option.some.inj he
      exact (hk ▸ h).internalUpdate
  next => exact h e he

/-- A rename deletes its old path only. -/
theorem NotDeleted.rename {l : EventList} {k : EventKey} (h : l.NotDeleted k)
    {oldPath newPath : Str} (renameId : Str) {kind : EntryKind} (hk : k ≠ (oldPath, kind))
    (hne : oldPath ≠ newPath) : (l.rename oldPath newPath renameId kind).NotDeleted k := by
  intro e he
  cases hc : l.createdInBatch (oldPath, kind) with
  | true =>
      rw [find_rename_of_created renameId hc hne, if_neg hk] at he
      split at he
      next =>
          obtain rfl := Option.some.inj he
          exact Event.isDeleted_markMoved _ _
      next => exact h e he
  | false =>
      rw [find_rename_of_not_created renameId hc hne] at he
      dsimp only at he
      rw [if_neg hk] at he
      split at he
      next hnew =>
          obtain rfl := Option.some.inj he
          have hold : (l.internalUpdate (newPath, kind)).isDeleted = false :=
            (hnew ▸ h).internalUpdate
          unfold Event.markCreated Event.setRenameId
          split
          · rfl
          · exact hold
      next => exact h e he

/-- `drain` reports no deletion of such a key. -/
theorem NotDeleted.drain {l : EventList} {k : EventKey} (h : l.NotDeleted k) {e : Event}
    (he : e ∈ l.drain.1.events) : ¬ (e.type = .delete ∧ e.key = k) := by
  rintro ⟨htype, rfl⟩
  obtain ⟨e', he', rfl⟩ := List.mem_map.mp he
  rw [key_exposeId] at h
  rw [type_exposeId] at htype
  have hd := h e' (mem_kept.mp he').1
  unfold Event.type at htype
  split at htype
  · cases htype
  · rw [hd] at htype
    cases htype

end EventList

/-! ## One path during one step -/

theorem IdentityIndex.find_record (x : IdentityIndex) (path : Str) (entry : IndexedPath)
    (q : Str) :
    (x.record path entry).find q =
      if q = path then some entry
      else if x.dropsDirectory path entry = true ∧ Below slash path q then none
      else x.find q := by
  unfold record dropsDirectory
  cases hf : x.find path with
  | none => simp [find_add]
  | some d =>
      simp only [Option.any_some]
      by_cases htype : (d.isDirectory != entry.isDirectory) = true
      · rw [if_pos htype, find_add, find_remove, isFileAt, hf]
        by_cases hq : q = path
        · rw [if_pos hq, if_pos hq]
        · rw [if_neg hq, if_neg hq]
          -- the kinds differ, so exactly one of the two is a directory
          have hentry : entry.isDirectory = !d.isDirectory := by
            cases hd : d.isDirectory <;> cases he : entry.isDirectory <;> simp_all
          simp [hq, hentry, under_iff_below]
      · rw [if_neg htype, find_add]
        have hentry : entry.isDirectory = d.isDirectory := by
          cases hd : d.isDirectory <;> cases he : entry.isDirectory <;> simp_all
        simp [hentry]

namespace MacState

/-- The step leaves what the identities and the batch hold of the path. -/
def SameAt (s s' : MacState) (p : Str) : Prop :=
  s'.identities.find p = s.identities.find p ∧
    ∀ kind, s'.mEvents.find (p, kind) = s.mEvents.find (p, kind)

theorem SameAt.trans {s₁ s₂ s₃ : MacState} {p : Str} (h₁ : SameAt s₁ s₂ p)
    (h₂ : SameAt s₂ s₃ p) : SameAt s₁ s₃ p :=
  ⟨h₂.1.trans h₁.1, fun kind => (h₂.2 kind).trans (h₁.2 kind)⟩

/-- The entry of a path as a key of the batch. -/
def entryKey (entry : Str × IndexedPath) : EventKey := (entry.1, entryKind entry.2.isDirectory)

theorem find_foldl_remove {entries : List (Str × IndexedPath)} {k : EventKey}
    (h : k ∉ entries.map entryKey) (l : EventList) :
    (entries.foldl (fun l entry => l.remove entry.1 (entryKind entry.2.isDirectory)) l).find k =
      l.find k := by
  induction entries generalizing l with
  | nil => rfl
  | cons entry entries ih =>
      rw [List.map_cons, List.mem_cons, not_or] at h
      rw [List.foldl_cons, ih h.2]
      exact (EventList.find_remove ..).trans (if_neg h.1)

/-- `removeIndexedPath` touches what it covers. -/
theorem sameAt_removeIndexedPath (s : MacState) {q p : Str} (h : ¬ Under slash q p) :
    SameAt s (s.removeIndexedPath q) p := by
  have hne : p ≠ q := fun heq => h (Or.inl heq)
  unfold MacState.removeIndexedPath
  split
  · exact ⟨rfl, fun _ => rfl⟩
  · split
    · refine ⟨?_, fun kind => ?_⟩
      · rw [IdentityIndex.find_remove, if_neg (by simp [hne, h])]
      · rw [EventList.find_remove, if_neg fun heq => hne (Prod.mk.inj heq).1]
    · refine ⟨?_, fun kind => ?_⟩
      · show (s.identities.remove q).find p = _
        rw [IdentityIndex.find_remove, if_neg (by simp [hne, h])]
      · refine find_foldl_remove (fun hmem => ?_) _
        obtain ⟨entry, hentry, heq⟩ := List.mem_map.mp hmem
        obtain rfl : entry.1 = p := congrArg Prod.fst heq
        have hcovers := (List.mem_filter.mp hentry).2
        rw [Bool.or_eq_true, beq_iff_eq, isDescendantPath_iff] at hcovers
        exact h hcovers

/-- `removeIndexedPath` of a file touches that path only. -/
theorem sameAt_removeIndexedPath_file (s : MacState) {q p : Str} {d : IndexedPath}
    (hd : s.identities.find q = some d) (hfile : d.isDirectory = false) (hne : p ≠ q) :
    SameAt s (s.removeIndexedPath q) p := by
  unfold MacState.removeIndexedPath
  rw [hd]
  simp only [hfile, Bool.not_false, if_true]
  refine ⟨?_, fun kind => ?_⟩
  · rw [IdentityIndex.find_remove, if_neg (by simp [IdentityIndex.isFileAt, hd, hfile, hne])]
  · rw [EventList.find_remove, if_neg fun heq => hne (Prod.mk.inj heq).1]

/-- `removeIndexedPath` leaves a path alone that no indexed directory is taken out above. -/
theorem sameAt_removeIndexedPath_of_above (s : MacState) {q p : Str} (hne : p ≠ q)
    (h : Below slash q p → s.identities.isDirectoryAt q = false) :
    SameAt s (s.removeIndexedPath q) p := by
  by_cases hbelow : Below slash q p
  · have hfile := h hbelow
    cases hd : s.identities.find q with
    | none =>
        unfold MacState.removeIndexedPath
        rw [hd]
        exact ⟨rfl, fun _ => rfl⟩
    | some d =>
        rw [IdentityIndex.isDirectoryAt, hd, Option.any_some] at hfile
        exact sameAt_removeIndexedPath_file s hd hfile hne
  · exact sameAt_removeIndexedPath s fun hunder => hunder.elim hne hbelow

/-- `removeIndexedPath` reports a path under the kind that it is indexed with. -/
theorem find_removeIndexedPath_kind (s : MacState) {p : Str} {d : IndexedPath}
    (hd : s.identities.find p = some d) {kind : EntryKind} (hkind : kind ≠ entryKind d.isDirectory) :
    (s.removeIndexedPath p).mEvents.find (p, kind) = s.mEvents.find (p, kind) := by
  unfold MacState.removeIndexedPath
  rw [hd]
  dsimp only
  split
  next hfile =>
      rw [Bool.not_eq_true'] at hfile
      rw [hfile] at hkind
      exact (EventList.find_remove ..).trans (if_neg fun heq => hkind (Prod.mk.inj heq).2)
  next =>
      refine find_foldl_remove (fun hmem => ?_) _
      obtain ⟨⟨q, d'⟩, hentry, heq⟩ := List.mem_map.mp hmem
      obtain ⟨rfl, hkey⟩ := Prod.mk.inj heq
      have hd' := IdentityIndex.mem_entries.mp (List.mem_filter.mp hentry).1
      rw [hd] at hd'
      obtain rfl := Option.some.inj hd'
      exact hkind hkey.symm

theorem mEvents_dropPrevious (s : MacState) (q : Str) (typeChanged sameIdentity : Bool) :
    (s.dropPrevious q typeChanged sameIdentity).mEvents =
      if typeChanged then (s.removeIndexedPath q).mEvents else s.mEvents := by
  unfold dropPrevious
  cases typeChanged with
  | true => rfl
  | false => cases sameIdentity <;> rfl

/-- The batch once `recordCreatedPath` has dropped what was there. -/
def droppedEvents (s : MacState) (q : Str) (entry : IndexedPath) : EventList :=
  if (s.identities.find q).any fun p => p.isDirectory != entry.isDirectory then
    (s.removeIndexedPath q).mEvents
  else s.mEvents

/-- What `recordCreatedPath` reports on top of what it drops. -/
theorem mEvents_recordCreatedPath (s : MacState) (q : Str) (entry : IndexedPath) :
    (s.recordCreatedPath q entry).mEvents = s.droppedEvents q entry ∨
      (s.recordCreatedPath q entry).mEvents = (s.droppedEvents q entry).update q .File ∨
      (s.recordCreatedPath q entry).mEvents =
        (s.droppedEvents q entry).create q (entryKind entry.isDirectory) := by
  unfold recordCreatedPath droppedEvents
  dsimp only
  rw [← mEvents_dropPrevious]
  split
  · exact Or.inr (Or.inl rfl)
  · split
    · exact Or.inr (Or.inr rfl)
    · exact Or.inl rfl

/-- A record leaves other paths alone, unless it puts a file in the place of a directory. -/
theorem sameAt_recordCreatedPath (s : MacState) {q p : Str} {e : IndexedPath} (hne : p ≠ q)
    (h : s.identities.dropsDirectory q e = true → ¬ Below slash q p) :
    SameAt s (s.recordCreatedPath q e) p := by
  refine ⟨?_, fun kind => ?_⟩
  · rw [identities_recordCreatedPath, IdentityIndex.find_record, if_neg hne,
      if_neg fun hdrop => h hdrop.1 hdrop.2]
  · have hkey : (p, kind) ≠ (q, EntryKind.File) := fun heq => hne (Prod.mk.inj heq).1
    have hkey' : (p, kind) ≠ (q, entryKind e.isDirectory) := fun heq =>
      hne (Prod.mk.inj heq).1
    have hdrop : (s.droppedEvents q e).find (p, kind) = s.mEvents.find (p, kind) := by
      unfold droppedEvents
      split
      next hchanged =>
          obtain ⟨d, hd, hkinds⟩ := (Option.any_eq_true _ _).mp hchanged
          cases hdir : d.isDirectory with
          | false => exact (sameAt_removeIndexedPath_file s hd hdir hne).2 kind
          | true =>
              have hdrops : s.identities.dropsDirectory q e = true := by
                rw [IdentityIndex.dropsDirectory, hd]
                simpa [hdir] using hkinds
              refine (sameAt_removeIndexedPath s fun hunder => ?_).2 kind
              exact hunder.elim hne fun hbelow => h hdrops hbelow
      next => rfl
    rcases mEvents_recordCreatedPath s q e with heq | heq | heq
    · rw [heq, hdrop]
    · rw [heq, EventList.find_update, if_neg hkey, hdrop]
    · rw [heq, EventList.find_create, if_neg hkey', hdrop]

/-- A record indexes its path, and reports no deletion of what it has found. -/
theorem recordCreatedPath_self (s : MacState) (p : Str) (e : IndexedPath) :
    (s.recordCreatedPath p e).identities.find p = some e ∧
      (s.mEvents.NotDeleted (p, entryKind e.isDirectory) →
        (s.recordCreatedPath p e).mEvents.NotDeleted (p, entryKind e.isDirectory)) := by
  refine ⟨?_, fun hnot => ?_⟩
  · rw [identities_recordCreatedPath, IdentityIndex.find_record, if_pos rfl]
  · have hdrop : (s.droppedEvents p e).NotDeleted (p, entryKind e.isDirectory) := by
      unfold droppedEvents
      split
      next hchanged =>
          obtain ⟨d, hd, hkinds⟩ := (Option.any_eq_true _ _).mp hchanged
          have hkind : entryKind e.isDirectory ≠ entryKind d.isDirectory := by
            cases hde : d.isDirectory <;> cases hee : e.isDirectory <;>
              simp [hde, hee, entryKind] at hkinds ⊢
          intro ev hev
          rw [find_removeIndexedPath_kind s hd hkind] at hev
          exact hnot ev hev
      next => exact hnot
    rcases mEvents_recordCreatedPath s p e with heq | heq | heq
    · rw [heq]
      exact hdrop
    · rw [heq]
      exact hdrop.update _ _
    · rw [heq]
      exact hdrop.create _ _

end MacState

/-! ## What the scans record -/

theorem exists_node_of_mem_scanNodes {root : Str} {isIgnored : Str → Bool} {nodes : List FtsNode}
    {b : Str × IndexedPath} (hb : b ∈ (scanNodes root isIgnored nodes).recorded) :
    ∃ node ∈ nodes, node.fts_path = b.1 ∧ ∃ file, node.fts_statp = some file ∧
      (file.st_mode != .regular && file.st_mode != .directory) = false ∧ b.2 = fromStat file := by
  induction nodes with
  | nil => cases hb
  | cons node nodes ih =>
      have hrest : b ∈ (scanNodes root isIgnored nodes).recorded →
          ∃ node' ∈ node :: nodes, node'.fts_path = b.1 ∧ ∃ file, node'.fts_statp = some file ∧
            (file.st_mode != .regular && file.st_mode != .directory) = false ∧
              b.2 = fromStat file := by
        intro hmem
        obtain ⟨node', hnode', hspec⟩ := ih hmem
        exact ⟨node', List.mem_cons_of_mem _ hnode', hspec⟩
      unfold scanNodes at hb
      split at hb
      · cases hb
      · split at hb
        · exact hrest hb
        · split at hb
          · split at hb
            · exact hrest hb
            · cases hb
          · split at hb
            · exact hrest hb
            · split at hb
              · exact hrest hb
              next file hfile =>
                  split at hb
                  · exact hrest hb
                  next hmode =>
                      rcases List.mem_cons.mp hb with rfl | hmem
                      · exact ⟨node, List.mem_cons_self, rfl, file, hfile,
                          Bool.eq_false_iff.mpr hmode, rfl⟩
                      · exact hrest hmem

/-- What a scan records was a file or a directory that the walk came by. -/
theorem exists_node_of_mem_recorded {root : Str} {isIgnored : Str → Bool} {walk : FtsWalk}
    {b : Str × IndexedPath} (hb : b ∈ (scanIdentityIndex root isIgnored walk).recorded) :
    ∃ node ∈ walk.nodes, node.fts_path = b.1 ∧ ∃ file, node.fts_statp = some file ∧
      (file.st_mode != .regular && file.st_mode != .directory) = false ∧ b.2 = fromStat file := by
  unfold scanIdentityIndex at hb
  split at hb
  · cases hb
  · split at hb
    · cases hb
    · exact exists_node_of_mem_scanNodes hb

namespace FileSystem

variable {fs : FileSystem} {p q : Str} {e d : IndexedPath}

theorem exists_stat_of_read (h : fs.read p = some e) :
    ∃ file, fs.lstat p = some file ∧ (file.st_mode = .regular ∨ file.st_mode = .directory) ∧
      e = fromStat file := by
  unfold FileSystem.read readIndexedPath at h
  split at h
  · cases h
  next file hfile =>
      split at h
      · cases h
      next hmode =>
          simp only [Bool.or_eq_true, Bool.and_eq_true, bne_iff_ne, not_or, not_and,
            not_not] at hmode
          refine ⟨file, hfile, ?_, (Option.some.inj h).symm⟩
          by_cases hreg : file.st_mode = .regular
          · exact Or.inl hreg
          · exact Or.inr (hmode.1 hreg)

/-- What is above an existing path is no file. -/
theorem isDirectory_above (h : fs.read q = some d) (hp : fs.read p = some e)
    (hbelow : Below slash q p) : d.isDirectory = true := by
  obtain ⟨file, hfile, hmode, rfl⟩ := exists_stat_of_read h
  obtain ⟨file', hfile', -⟩ := exists_stat_of_read hp
  rcases hmode with hreg | hdir
  · rw [fs.below_file q p file hbelow hfile hreg] at hfile'
    cases hfile'
  · exact decide_eq_true hdir

/-- What a scan records is there, in the directory scanned. -/
theorem Lists.recorded {walk : FtsWalk} (h : fs.Lists q walk) (isIgnored : Str → Bool)
    {b : Str × IndexedPath} (hb : b ∈ (scanIdentityIndex q isIgnored walk).recorded) :
    fs.read b.1 = some b.2 ∧ Under slash q b.1 := by
  obtain ⟨node, hnode, heq, file, hfile, hmode, hentry⟩ := exists_node_of_mem_recorded hb
  have hread : fs.read b.1 = some b.2 := by
    unfold FileSystem.read readIndexedPath FileSystem.answer
    rw [← heq, h.stat node hnode file hfile]
    dsimp only
    rw [h.named node hnode, hmode, hentry]
    rfl
  exact ⟨hread, heq ▸ h.under node hnode⟩

end FileSystem

namespace MacState

variable {fs : FileSystem} {p : Str} {e : IndexedPath}

/-- The step does not lose the path, and reports no deletion of it. -/
structure Kept (s s' : MacState) (p : Str) (e : IndexedPath) : Prop where
  indexes : s.Indexes p e → s'.Indexes p e
  events : s.mEvents.NotDeleted (p, entryKind e.isDirectory) →
    s'.mEvents.NotDeleted (p, entryKind e.isDirectory)

theorem Kept.refl (s : MacState) : Kept s s p e := ⟨id, id⟩

theorem Kept.trans {s₁ s₂ s₃ : MacState} (h₁ : Kept s₁ s₂ p e) (h₂ : Kept s₂ s₃ p e) :
    Kept s₁ s₃ p e :=
  ⟨h₂.indexes ∘ h₁.indexes, h₂.events ∘ h₁.events⟩

theorem SameAt.kept {s s' : MacState} (h : SameAt s s' p) : Kept s s' p e := by
  refine ⟨?_, fun hnot ev hev => ?_⟩
  · rintro ⟨d, hd, hsame⟩
    exact ⟨d, h.1.trans hd, hsame⟩
  · rw [h.2] at hev
    exact hnot ev hev

/-- What is there where the loop ends up in the branch. -/
def BranchReads (fs : FileSystem) (s : MacState) (path : Str) : EventBranch → Prop
  | .addCreatedPath => True
  | .removeIndexedPath => fs.read path = none
  | .unchanged => ∃ indexed, fs.read path = some indexed ∧ s.Indexes path indexed
  | .overwrite indexed | .addNew indexed => fs.read path = some indexed

/-- An event is passed over when the identities hold what is there. -/
theorem indexes_of_unchanged {s : MacState} {event : PendingEvent} {indexed : IndexedPath}
    (hunchanged : (s.observe event indexed).unchanged = true)
    (htype : (s.observe event indexed).typeChanged = false) : s.Indexes event.path indexed := by
  unfold Observed.unchanged at hunchanged
  simp only [Bool.and_eq_true] at hunchanged
  obtain ⟨d, hd, hsame⟩ := (Option.any_eq_true _ _).mp hunchanged.1.1.2
  have hkind : ((s.identities.find event.path).any fun p =>
      p.isDirectory != indexed.isDirectory) = false := htype
  rw [hd, Option.any_some] at hkind
  exact ⟨d, hd, eq_of_beq hsame, by simpa using hkind⟩

theorem branchReads_modifiedBranch (s : MacState) {event : PendingEvent}
    (h : fs.Answers event) : BranchReads fs s event.path (s.modifiedBranch event) := by
  unfold modifiedBranch
  rw [h.entry]
  split
  next hnone => exact hnone
  next indexed hread =>
      dsimp only
      split
      · trivial
      next hcond =>
          simp only [Bool.or_eq_true, not_or, Bool.not_eq_true] at hcond
          split
          next hunchanged => exact ⟨indexed, hread, indexes_of_unchanged hunchanged hcond.2⟩
          next => exact hread

theorem branchReads_mixedBranch (s : MacState) {event : PendingEvent} (h : fs.Answers event)
    (isModified : Bool) : BranchReads fs s event.path (s.mixedBranch event isModified) := by
  unfold mixedBranch
  rw [h.entry]
  split
  next hnone => exact hnone
  next indexed hread =>
      dsimp only
      split
      · trivial
      next htype =>
          split
          next hunchanged =>
              exact ⟨indexed, hread, indexes_of_unchanged hunchanged (by simpa using htype)⟩
          next =>
              split
              · exact hread
              · split
                · trivial
                · exact hread

theorem branchReads_branchOf (s : MacState) {event : PendingEvent} (h : fs.Answers event)
    (hremoved : event.onlyRemoved = false) :
    BranchReads fs s event.path (s.branchOf event) := by
  unfold branchOf
  dsimp only
  split
  · trivial
  · split
    next hcond =>
        have honly : event.onlyRemoved = true := hcond
        rw [hremoved] at honly
        cases honly
    next =>
        split
        · exact branchReads_modifiedBranch s h
        · exact branchReads_mixedBranch s h _

/-- Only what the tree has is overwritten. -/
theorem tree_find_of_overwrite (s : MacState) (event : PendingEvent) (indexed : IndexedPath)
    (hb : s.branchOf event = .overwrite indexed) : (s.tree.find event.path).isSome = true := by
  have hmodified : s.modifiedBranch event = .overwrite indexed →
      (s.tree.find event.path).isSome = true := by
    intro h
    unfold modifiedBranch at h
    split at h
    · cases h
    · dsimp only at h
      split at h
      · cases h
      next hcond =>
          simp only [Bool.or_eq_true, not_or, Bool.not_eq_true] at hcond
          exact Option.isSome_iff_ne_none.mpr fun hnone => by
            rw [observe, hnone] at hcond
            cases hcond.1.2
  have hmixed : ∀ isModified, s.mixedBranch event isModified = .overwrite indexed →
      (s.tree.find event.path).isSome = true := by
    intro isModified h
    unfold mixedBranch at h
    split at h
    · cases h
    · dsimp only at h
      split at h
      · cases h
      · split at h
        · cases h
        · split at h
          next hcond => exact ((Bool.and_eq_true _ _).mp hcond).2
          next => split at h <;> cases h
  unfold branchOf at hb
  dsimp only at hb
  split at hb
  · cases hb
  · split at hb
    · cases hb
    · split at hb
      · exact hmodified hb
      · exact hmixed _ hb

end MacState

end NativeWatcher
