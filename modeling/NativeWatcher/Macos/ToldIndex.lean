import NativeWatcher.Event.Tells
import NativeWatcher.Macos.InStep

/-!
# What the incremental path tells

Handling its events one by one, `processEvents` makes the calls of the changes of the index:
the list goes on to tell the keys of the identities. The exception is a scan that finds
another directory where one is indexed, and reports a creation for a key that is there.
-/

namespace NativeWatcher

open Hierarchy

/-! ## The keys of an index -/

namespace IdentityIndex

variable {x : IdentityIndex} {path : Str} {e d : IndexedPath} {k : EventKey}

def keys (x : IdentityIndex) : Finset EventKey :=
  (x.entries.map fun b => (b.1, entryKind b.2.isDirectory)).toFinset

theorem mem_keys : k ∈ x.keys ↔ ∃ e, x.find k.1 = some e ∧ entryKind e.isDirectory = k.2 := by
  obtain ⟨p, kind⟩ := k
  rw [keys, List.mem_toFinset, List.mem_map]
  constructor
  · rintro ⟨⟨q, e⟩, hmem, heq⟩
    cases heq
    exact ⟨e, mem_entries.mp hmem, rfl⟩
  · rintro ⟨e, hfind, rfl⟩
    exact ⟨(p, e), mem_entries.mpr hfind, rfl⟩

theorem mem_keys_of_find (h : x.find path = some e) : (path, entryKind e.isDirectory) ∈ x.keys :=
  mem_keys.mpr ⟨e, h, rfl⟩

theorem not_mem_keys (h : x.find k.1 = none) : k ∉ x.keys := by
  rw [mem_keys, h]
  rintro ⟨_, ⟨⟩, _⟩

theorem mem_keys_add_of_none (h : x.find path = none) :
    k ∈ (x.add path e).keys ↔ k = (path, entryKind e.isDirectory) ∨ k ∈ x.keys := by
  obtain ⟨p, kind⟩ := k
  rw [mem_keys, mem_keys, Prod.mk.injEq]
  dsimp only
  rw [find_add]
  by_cases hp : p = path
  · subst hp
    simp [h, eq_comm]
  · simp [hp]

/-- The entry of a path is replaced by one of its kind. -/
theorem mem_keys_add_of_find (h : x.find path = some d) (hkind : d.isDirectory = e.isDirectory) :
    k ∈ (x.add path e).keys ↔ k ∈ x.keys := by
  obtain ⟨p, kind⟩ := k
  rw [mem_keys, mem_keys]
  dsimp only
  rw [find_add]
  by_cases hp : p = path
  · subst hp
    simp [h, hkind]
  · simp [hp]

theorem mem_keys_remove : k ∈ (x.remove path).keys ↔
    k ∈ x.keys ∧ k.1 ≠ path ∧ (x.isFileAt path = true ∨ ¬ Under slash path k.1) := by
  rw [mem_keys, mem_keys, find_remove]
  by_cases hp : k.1 = path
  · simp [hp]
  · by_cases hunder : Under slash path k.1
    · cases hfile : x.isFileAt path <;> simp [hp, hunder]
    · simp [hp, hunder]

theorem find_record_of_ne {p q : Str} (hq : q ≠ p) :
    (x.record p e).find q = none ∨ (x.record p e).find q = x.find q := by
  unfold record
  split
  · rw [find_add, if_neg hq, find_remove]
    split
    · exact .inl rfl
    · exact .inr rfl
  · rw [find_add, if_neg hq]
    exact .inr rfl

/-- A record makes no directory one to be replaced. -/
theorem replacesDirectory_record {p q : Str} (hq : q ≠ p)
    (h : x.replacesDirectory q d = false) : (x.record p e).replacesDirectory q d = false := by
  unfold replacesDirectory at *
  rcases find_record_of_ne (x := x) (e := e) hq with hnone | hsame
  · rw [hnone]
    rfl
  · rw [hsame]
    exact h

end IdentityIndex

namespace MacState

variable {s : MacState} {V : Finset EventKey} {path : Str} {entry : IndexedPath} {w : MacWatcher}

/-- Once the list is drained the consumer holds the keys of the identities. -/
def Told (s : MacState) (V : Finset EventKey) : Prop := s.mEvents.Tells V s.identities.keys

/-! ## Removal -/

theorem Told.removeIndexedPath (h : s.Told V) (path : Str) : (s.removeIndexedPath path).Told V := by
  cases hf : s.identities.find path with
  | none =>
      have hsame : s.removeIndexedPath path = s := by
        unfold MacState.removeIndexedPath
        rw [hf]
      rw [hsame]
      exact h
  | some e =>
      have hkey := IdentityIndex.mem_keys_of_find hf
      have hfile : s.identities.isFileAt path = !e.isDirectory := by
        rw [IdentityIndex.isFileAt, hf]
        rfl
      unfold Told MacState.removeIndexedPath
      rw [hf]
      dsimp only
      cases hdir : e.isDirectory with
      | false =>
          rw [hdir] at hkey hfile
          apply (EventList.Tells.remove h hkey).congr
          intro k
          show k ∈ s.identities.keys.erase _ ↔ k ∈ (s.identities.remove path).keys
          rw [Finset.mem_erase, IdentityIndex.mem_keys_remove, hfile]
          constructor
          · rintro ⟨hne, hk⟩
            refine ⟨hk, ?_, .inl rfl⟩
            -- the path has one key only
            rintro rfl
            obtain ⟨d, hd, hkind⟩ := IdentityIndex.mem_keys.mp hk
            obtain rfl := Option.some.inj (hf.symm.trans hd)
            rw [hdir] at hkind
            exact hne (Prod.ext rfl hkind.symm)
          · rintro ⟨hk, hne, _⟩
            exact ⟨fun heq => hne (congrArg Prod.fst heq), hk⟩
      | true =>
          rw [hdir] at hfile
          have hnodup : ((s.identities.entries.filter fun entry =>
              entry.1 == path || isDescendantPath entry.1 path).map fun entry =>
                ((entry.1, entryKind entry.2.isDirectory) : EventKey)).Nodup := by
            apply List.Nodup.of_map Prod.fst
            rw [List.map_map]
            exact s.identities.mByPath.pairs_keys_nodup.sublist (List.filter_sublist.map _)
          have hcovered : ∀ k : EventKey, k ∈ ((s.identities.entries.filter fun entry =>
              entry.1 == path || isDescendantPath entry.1 path).map fun entry =>
                ((entry.1, entryKind entry.2.isDirectory) : EventKey)) ↔
              k ∈ s.identities.keys ∧ Under slash path k.1 := by
            intro k
            rw [List.mem_map, IdentityIndex.mem_keys]
            constructor
            · rintro ⟨⟨p, d⟩, hmem, rfl⟩
              obtain ⟨hmem, hin⟩ := List.mem_filter.mp hmem
              exact ⟨⟨d, IdentityIndex.mem_entries.mp hmem, rfl⟩, IdentityIndex.covers_iff.mp hin⟩
            · rintro ⟨⟨d, hd, hkind⟩, hunder⟩
              refine ⟨(k.1, d), List.mem_filter.mpr ⟨IdentityIndex.mem_entries.mpr hd, ?_⟩, ?_⟩
              · exact IdentityIndex.covers_iff.mpr hunder
              · exact Prod.ext rfl hkind
          have hin : ∀ b ∈ s.identities.entries.filter fun entry =>
              entry.1 == path || isDescendantPath entry.1 path,
              ((b.1, entryKind b.2.isDirectory) : EventKey) ∈ s.identities.keys := fun b hb =>
            ((hcovered _).mp (List.mem_map_of_mem hb)).1
          apply (EventList.Tells.removeAll h hnodup hin).congr
          intro k
          show k ∈ s.identities.keys.filter _ ↔ k ∈ (s.identities.remove path).keys
          rw [Finset.mem_filter, hcovered, IdentityIndex.mem_keys_remove, hfile]
          constructor
          · rintro ⟨hk, hout⟩
            have hunder : ¬ Under slash path k.1 := fun hunder => hout ⟨hk, hunder⟩
            exact ⟨hk, fun heq => hunder (.inl heq), .inr hunder⟩
          · rintro ⟨hk, _, hout⟩
            refine ⟨hk, fun hcov => ?_⟩
            exact (hout.resolve_left (by decide)) hcov.2

/-! ## Creation -/

/-- An entry comes to a path that is not indexed. -/
theorem Told.create (h : s.Told V) (hnone : s.identities.find path = none) (entry : IndexedPath) :
    (s.mEvents.create path (entryKind entry.isDirectory)).Tells V
      (s.identities.add path entry).keys := by
  have hnew : (path, entryKind entry.isDirectory) ∉ s.identities.keys :=
    IdentityIndex.not_mem_keys hnone
  apply (EventList.Tells.create h hnew).congr
  intro k
  rw [Finset.mem_insert, IdentityIndex.mem_keys_add_of_none hnone]

/-- An entry replaces one of its kind. -/
theorem Told.replace {d : IndexedPath} (h : s.Told V) (hf : s.identities.find path = some d)
    (hkind : d.isDirectory = entry.isDirectory) :
    s.mEvents.Tells V (s.identities.add path entry).keys :=
  EventList.Tells.congr h fun _ => (IdentityIndex.mem_keys_add_of_find hf hkind).symm

theorem Told.touch {d : IndexedPath} (h : s.Told V) (hf : s.identities.find path = some d)
    (hkind : d.isDirectory = entry.isDirectory) :
    (s.mEvents.update path (entryKind entry.isDirectory)).Tells V
      (s.identities.add path entry).keys := by
  refine (h.replace hf hkind).update (IdentityIndex.mem_keys_of_find ?_)
  rw [IdentityIndex.find_add, if_pos rfl]

/-- What `recordCreatedPath` reports. -/
theorem mEvents_recordCreatedPath_eq (s : MacState) (path : Str) (entry : IndexedPath) :
    (s.recordCreatedPath path entry).mEvents =
      let previous := s.identities.find path
      let sameIdentity := previous.any fun p =>
        p.identity == entry.identity && p.isDirectory == entry.isDirectory
      let typeChanged := previous.any fun p => p.isDirectory != entry.isDirectory
      let l := (s.dropPrevious path typeChanged sameIdentity).mEvents
      if (sameIdentity && !entry.isDirectory && previous.any fun p => p.mtime != entry.mtime) ||
          ((previous.any fun p => !p.isDirectory) && !entry.isDirectory && !sameIdentity) then
        l.update path .File
      else if !sameIdentity then l.create path (entryKind entry.isDirectory)
      else l := by
  unfold MacState.recordCreatedPath
  dsimp only
  split
  · rfl
  · split <;> rfl

theorem mEvents_dropPrevious_same (s : MacState) (path : Str) (sameIdentity : Bool) :
    (s.dropPrevious path false sameIdentity).mEvents = s.mEvents := by
  cases sameIdentity <;> rfl

/-- One record of a scan that replaces no directory. -/
theorem Told.recordCreatedPath (h : s.Told V)
    (hno : s.identities.replacesDirectory path entry = false) :
    (s.recordCreatedPath path entry).Told V := by
  unfold Told
  rw [identities_recordCreatedPath, mEvents_recordCreatedPath_eq]
  unfold IdentityIndex.record
  unfold IdentityIndex.replacesDirectory at hno
  dsimp only
  cases hf : s.identities.find path with
  | none => exact h.create hf entry
  | some d =>
      rw [hf] at hno
      simp only [Option.any_some] at hno ⊢
      by_cases hkind : d.isDirectory = entry.isDirectory
      · have htouch := h.touch hf hkind
        have hreplace := h.replace hf hkind
        simp only [hkind, bne_self_eq_false, beq_self_eq_true, Bool.and_true, mEvents_dropPrevious_same,
          Bool.false_eq_true, if_false]
        cases hid : d.identity == entry.identity with
        | true =>
            cases he : entry.isDirectory with
            | true => simpa using hreplace
            | false =>
                rw [he] at htouch
                simp only [Bool.not_false, Bool.and_true, Bool.true_and, Bool.not_true,
                  Bool.and_false, Bool.or_false, Bool.false_eq_true, if_false]
                split
                · exact htouch
                · exact hreplace
        | false =>
            -- two directories would be a replacement
            have hfile : entry.isDirectory = false := by
              cases he : entry.isDirectory with
              | false => rfl
              | true => simp [hkind, he, bne, hid] at hno
            rw [hfile] at htouch ⊢
            exact htouch
      · -- what was there is withdrawn first
        have htype : (d.isDirectory != entry.isDirectory) = true := by simpa using hkind
        have hother : (d.isDirectory == entry.isDirectory) = false := by simpa using hkind
        have hfiles : (!d.isDirectory && !entry.isDirectory) = false := by
          cases hd : d.isDirectory <;> cases he : entry.isDirectory <;> simp_all
        have hnone : (s.removeIndexedPath path).identities.find path = none := by
          rw [identities_removeIndexedPath s hf, IdentityIndex.find_remove, if_pos (.inl rfl)]
        have hcreate := (h.removeIndexedPath path).create hnone entry
        rw [identities_removeIndexedPath s hf] at hcreate
        simp only [htype, hother, hfiles, Bool.and_false, Bool.false_and, Bool.or_false,
          Bool.not_false, Bool.false_eq_true, if_false, if_true]
        exact hcreate

/-! ## Scans -/

/-- A listing that shows no directory where another one is indexed. -/
def ReplacesNone (x : IdentityIndex) (recorded : List (Str × IndexedPath)) : Prop :=
  ∀ b ∈ recorded, x.replacesDirectory b.1 b.2 = false

instance (x : IdentityIndex) (recorded : List (Str × IndexedPath)) :
    Decidable (ReplacesNone x recorded) :=
  inferInstanceAs (Decidable (∀ b ∈ recorded, x.replacesDirectory b.1 b.2 = false))

theorem ReplacesNone.record {x : IdentityIndex} {b : Str × IndexedPath}
    {recorded : List (Str × IndexedPath)} (h : ReplacesNone x (b :: recorded))
    (hfresh : b.1 ∉ recorded.map Prod.fst) : ReplacesNone (x.record b.1 b.2) recorded := by
  intro c hc
  refine IdentityIndex.replacesDirectory_record ?_ (h c (List.mem_cons_of_mem _ hc))
  intro heq
  exact hfresh (heq ▸ List.mem_map_of_mem hc)

theorem ReplacesNone.restored {x : IdentityIndex} {recorded : List (Str × IndexedPath)}
    (h : ReplacesNone x recorded) (hnodup : (recorded.map Prod.fst).Nodup) :
    ReplacementsRestored x recorded := by
  induction recorded generalizing x with
  | nil => trivial
  | cons b recorded ih =>
      rw [List.map_cons, List.nodup_cons] at hnodup
      refine ⟨fun hreplaces => ?_, ih (h.record hnodup.1) hnodup.2⟩
      rw [h b List.mem_cons_self] at hreplaces
      cases hreplaces

theorem Told.recordAll {recorded : List (Str × IndexedPath)} (h : s.Told V)
    (hno : ReplacesNone s.identities recorded) (hnodup : (recorded.map Prod.fst).Nodup) :
    (s.recordAll recorded).Told V := by
  induction recorded generalizing s with
  | nil => exact h
  | cons b recorded ih =>
      rw [List.map_cons, List.nodup_cons] at hnodup
      refine ih (h.recordCreatedPath (hno b List.mem_cons_self)) ?_ hnodup.2
      rw [identities_recordCreatedPath]
      exact hno.record hnodup.1

theorem Told.recordError (h : s.Told V) (w : MacWatcher) (o : ScanOutcome) :
    (s.recordError w o).Told V := by
  cases o <;> exact h

/-- The scan that an event starts, if it starts one, finds no directory replaced. -/
def EventTold (w : MacWatcher) (s : MacState) (event : PendingEvent) : Prop :=
  s.branchOf event = .addCreatedPath →
    ReplacesNone s.identities (scanIdentityIndex event.path w.isIgnored event.walk).recorded

instance (w : MacWatcher) (s : MacState) (event : PendingEvent) : Decidable (s.EventTold w event) :=
  inferInstanceAs (Decidable (_ → _))

theorem nodup_recorded (root : Str) (isIgnored : Str → Bool) (walk : FtsWalk) :
    ((scanIdentityIndex root isIgnored walk).recorded.map Prod.fst).Nodup :=
  nodup_of_preorder (recorded_preorder root isIgnored walk)

theorem EventTold.keepsStep {event : PendingEvent} (h : s.EventTold w event) :
    s.EventKeepsStep w event :=
  fun hbranch _ => (h hbranch).restored (nodup_recorded ..)

theorem Told.addCreatedPath (h : s.Told V) (answer : PathAnswer) {walk : FtsWalk}
    (hno : ReplacesNone s.identities (scanIdentityIndex path w.isIgnored walk).recorded) :
    (s.addCreatedPath w answer walk path).Told V := by
  unfold MacState.addCreatedPath
  split
  next => exact h
  next entry _ =>
      split
      next hfile =>
          apply h.recordCreatedPath
          unfold IdentityIndex.replacesDirectory
          rw [Bool.not_eq_true'] at hfile
          rw [hfile]
          cases s.identities.find path <;> simp
      next => exact (h.recordAll hno (nodup_recorded ..)).recordError w _

/-! ## The branches of the loop -/

theorem isSome_of_modifiedBranch {event : PendingEvent} {indexed : IndexedPath}
    (hb : s.modifiedBranch event = .overwrite indexed) :
    (s.tree.find event.path).isSome = true := by
  unfold modifiedBranch at hb
  split at hb
  next => cases hb
  next e _ =>
      dsimp only at hb
      by_cases hscan : ((s.observe event e).previousIdentity.isNone ||
          (s.observe event e).entry.isNone || (s.observe event e).typeChanged) = true
      · rw [if_pos hscan] at hb
        cases hb
      · rw [Bool.or_eq_true, Bool.or_eq_true, not_or, not_or] at hscan
        exact Option.isNone_eq_false_iff.mp (Bool.eq_false_iff.mpr hscan.1.2)

theorem isSome_of_mixedBranch {event : PendingEvent} {isModified : Bool} {indexed : IndexedPath}
    (hb : s.mixedBranch event isModified = .overwrite indexed) :
    (s.tree.find event.path).isSome = true := by
  unfold mixedBranch at hb
  split at hb
  next => cases hb
  next e _ =>
      dsimp only at hb
      by_cases hover : ((isModified || (s.observe event e).sameIdentity ||
          (((s.observe event e).previousIdentity.any fun p => !p.isDirectory) && !e.isDirectory)) &&
            (s.observe event e).entry.isSome) = true
      · exact (Bool.and_eq_true_iff.mp hover).2
      · rw [if_neg hover] at hb
        split_ifs at hb

/-- What is written in place is indexed. -/
theorem find_of_overwrite {event : PendingEvent} {indexed : IndexedPath} (h : s.InStep)
    (hb : s.branchOf event = .overwrite indexed) :
    ∃ d, s.identities.find event.path = some d ∧ d.isDirectory = indexed.isDirectory := by
  have hfits := branchFits_branchOf (h event.path)
  rw [hb] at hfits
  have hentry : (s.tree.find event.path).isSome = true := by
    unfold branchOf at hb
    dsimp only at hb
    split at hb
    · cases hb
    · split at hb
      · cases hb
      · split at hb
        · exact isSome_of_modifiedBranch hb
        · exact isSome_of_mixedBranch hb
  have hview := h event.path
  cases hf : s.identities.find event.path with
  | some d => exact ⟨d, rfl, hfits d hf⟩
  | none =>
      rw [IdentityIndex.view, hf, DirTree.view, Option.map_none, Option.map_eq_none_iff] at hview
      rw [hview] at hentry
      cases hentry

theorem Told.perform {event : PendingEvent} (h : s.Told V) (hstep : s.InStep)
    (hok : s.EventTold w event) : (s.perform w event (s.branchOf event)).Told V := by
  have hfits := branchFits_branchOf (hstep event.path)
  cases hb : s.branchOf event with
  | addCreatedPath => exact h.addCreatedPath event.createdAnswer (hok hb)
  | removeIndexedPath => exact h.removeIndexedPath event.path
  | unchanged => exact h
  | overwrite indexed =>
      obtain ⟨d, hd, hkind⟩ := find_of_overwrite hstep hb
      exact h.touch hd hkind
  | addNew indexed =>
      rw [hb] at hfits
      exact h.create hfits indexed

/-- No event of the loop finds a directory replaced, each in the state it meets. -/
def EventsTold (w : MacWatcher) (correlatedPaths : List Str) : MacState → List PendingEvent → Prop
  | _, [] => True
  | s, event :: events =>
      if hasFlag event.flags FSEventStreamEventFlag.HistoryDone then True
      else if skips w correlatedPaths event then EventsTold w correlatedPaths s events
      else s.EventTold w event ∧
        EventsTold w correlatedPaths (s.perform w event (s.branchOf event)) events

instance decidableEventsTold (w : MacWatcher) (correlatedPaths : List Str) :
    ∀ (s : MacState) (events : List PendingEvent),
      Decidable (EventsTold w correlatedPaths s events)
  | _, [] => isTrue trivial
  | s, event :: events =>
      have := decidableEventsTold w correlatedPaths s events
      have := decidableEventsTold w correlatedPaths
        (s.perform w event (s.branchOf event)) events
      inferInstanceAs (Decidable (
        if hasFlag event.flags FSEventStreamEventFlag.HistoryDone then True
        else if skips w correlatedPaths event then EventsTold w correlatedPaths s events
        else s.EventTold w event ∧
          EventsTold w correlatedPaths (s.perform w event (s.branchOf event)) events))

theorem Told.handleEvents {correlatedPaths : List Str} {events : List PendingEvent}
    (h : s.Told V) (hstep : s.InStep) (deletedRoot : Bool)
    (hok : EventsTold w correlatedPaths s events) :
    (handleEvents w correlatedPaths s deletedRoot events).1.Told V ∧
      (handleEvents w correlatedPaths s deletedRoot events).1.InStep := by
  induction events generalizing s deletedRoot with
  | nil => exact ⟨h, hstep⟩
  | cons event events ih =>
      unfold EventsTold at hok
      unfold MacState.handleEvents
      split at hok
      next hdone =>
          rw [if_pos hdone]
          exact ⟨h, hstep⟩
      next hdone =>
          rw [if_neg hdone]
          split at hok
          next hskip =>
              rw [if_pos hskip]
              exact ih h hstep deletedRoot hok
          next hskip =>
              rw [if_neg hskip]
              exact ih (h.perform hstep hok.1) (hstep.perform hok.1.keepsStep) _ hok.2

/-! ## Renames within one batch -/

/-- One accepted rename moves one key. -/
theorem Told.correlateIdentity (created : RenameCandidates) {r : MacState × List Str}
    {b : FileIdentity × FiniteMap Str IndexedPath}
    {l : List (FileIdentity × FiniteMap Str IndexedPath)} (h : r.1.Told V)
    (hpending : r.1.Pending (b :: l)) : (correlateIdentity created r b).1.Told V := by
  obtain ⟨s, handled⟩ := r
  unfold MacState.correlateIdentity
  dsimp only
  split
  next oldPath oldEntry newPath newEntry hold hnew =>
      split
      next => exact h
      next hcond =>
          simp only [Bool.or_eq_true, bne_iff_ne, not_or, Bool.not_eq_true,
            Option.isSome_eq_false_iff, Option.isNone_iff_eq_none] at hcond
          obtain ⟨⟨⟨⟨⟨-, hvacant⟩, holdFile⟩, hnewFile⟩, -⟩, -⟩ := hcond
          obtain ⟨hfind, -⟩ := hpending b List.mem_cons_self oldPath oldEntry (by simp [hold])
          have hkey := IdentityIndex.mem_keys_of_find hfind
          have hnewKey : (newPath, entryKind oldEntry.isDirectory) ∉ s.identities.keys :=
            IdentityIndex.not_mem_keys hvacant
          apply (EventList.Tells.rename h hkey hnewKey _).congr
          intro k
          show _ ↔ k ∈ ((s.identities.rename oldPath newPath).add newPath newEntry).keys
          rw [Finset.mem_insert, Finset.mem_erase, IdentityIndex.mem_keys, IdentityIndex.mem_keys,
            IdentityIndex.find_add, IdentityIndex.find_rename_of_file hfind holdFile, holdFile]
          obtain ⟨p, kind⟩ := k
          rw [Prod.mk.injEq, Ne, Prod.mk.injEq]
          dsimp only
          by_cases hp : p = newPath
          · subst hp
            simp [hvacant, hnewFile, eq_comm]
          · by_cases hpo : p = oldPath
            · subst hpo
              simp [hp, hfind, holdFile, eq_comm]
            · simp [hp, hpo]
  next => exact h

theorem told_foldl_correlateIdentity {created : RenameCandidates}
    {l : List (FileIdentity × FiniteMap Str IndexedPath)} {r : MacState × List Str}
    (h : r.1.Told V) (hstep : r.1.InStep) (hpending : r.1.Pending l)
    (hnodup : (l.map Prod.fst).Nodup) : (l.foldl (correlateIdentity created) r).1.Told V := by
  induction l generalizing r with
  | nil => exact h
  | cons b l ih =>
      rw [List.map_cons, List.nodup_cons] at hnodup
      obtain ⟨hnext, hrest⟩ := hstep.correlateIdentity created hpending hnodup.1
      exact ih (h.correlateIdentity created hpending) hnext hrest hnodup.2

theorem Told.correlateRenames (h : s.Told V) (hstep : s.InStep) (w : MacWatcher)
    (events : List PendingEvent) : (s.correlateRenames w events).1.Told V := by
  have hcollected : s.Collected (events.foldl (s.collectCandidates w) (∅, ∅)).1 :=
    collected_foldl events fun i p e hlookup => by
      have hnone : (RenameCandidates.paths ∅ i).lookup p = none := AList.lookup_empty p
      rw [hnone] at hlookup
      cases hlookup
  refine told_foldl_correlateIdentity h hstep ?_ (FiniteMap.pairs_keys_nodup _)
  rintro ⟨i, ps⟩ hb p e hmem
  refine hcollected i p e ?_
  rw [RenameCandidates.paths_of_mem_pairs hb]
  exact FiniteMap.mem_pairs.mp hmem

end MacState

end NativeWatcher
