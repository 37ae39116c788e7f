import NativeWatcher.Macos.ProcessEvents

/-!
# The two indexes stay in step

Tree and identity index hold the same paths with the same kind and modification
time. Every branch of `processEvents` writes both with the same reach, except one:
`recordCreatedPath` over an indexed directory of another identity removes the whole
subtree from the tree and a single binding from the identities. A scan can make up
for it by listing what was dropped, so the invariant along a scan allows the tree to
lag behind on paths that the rest of the scan restores.
-/

namespace NativeWatcher

open Hierarchy

/-! ## What the two structures say about a path -/

/-- Kind and modification time. -/
abbrev PathView := Option (Bool × UInt64)

namespace DirTree

def view (t : DirTree) (p : Str) : PathView :=
  (t.find p).map fun e => (e.isDir, e.mtime)

theorem isDirAt_eq (t : DirTree) (p : Str) : t.isDirAt p = (t.view p).any Prod.fst := by
  unfold isDirAt view
  cases t.find p <;> rfl

@[simp] theorem view_new (root p : Str) : (new root).view p = none := by
  rw [view, find_new]
  rfl

theorem view_add (t : DirTree) (path : Str) (mtime : UInt64) (isDir : Bool) (p : Str) :
    (t.add path mtime isDir).view p =
      if p = path then some ((t.view path).getD (isDir, mtime)) else t.view p := by
  rw [view, find_add]
  by_cases hp : p = path
  · rw [if_pos hp, if_pos hp, view]
    cases t.find path <;> rfl
  · rw [if_neg hp, if_neg hp, view]

theorem view_updateOrAdd (t : DirTree) (path : Str) (mtime : UInt64) (isDir : Bool)
    (p : Str) :
    (t.updateOrAdd path mtime isDir).view p =
      if p = path then some (((t.view path).map Prod.fst).getD isDir, mtime)
      else t.view p := by
  rw [view, find_updateOrAdd]
  by_cases hp : p = path
  · rw [if_pos hp, if_pos hp, view]
    cases t.find path <;> rfl
  · rw [if_neg hp, if_neg hp, view]

theorem view_remove (t : DirTree) (path p : Str) :
    (t.remove path).view p =
      if p = path ∨ ((t.view path).any Prod.fst = true ∧ Under slash path p) then none
      else t.view p := by
  rw [view, find_remove, isDirAt_eq]
  split <;> rfl

end DirTree

namespace IdentityIndex

def view (x : IdentityIndex) (p : Str) : PathView :=
  (x.find p).map fun e => (e.isDirectory, e.mtime)

@[simp] theorem view_empty (p : Str) : empty.view p = none := by
  rw [view, find_empty]
  rfl

theorem view_add (x : IdentityIndex) (path : Str) (e : IndexedPath) (p : Str) :
    (x.add path e).view p =
      if p = path then some (e.isDirectory, e.mtime) else x.view p := by
  rw [view, find_add]
  split <;> rfl

theorem view_remove (x : IdentityIndex) (path p : Str) :
    (x.remove path).view p =
      if p = path ∨ ((x.view path).all Prod.fst = true ∧ Under slash path p) then none
      else x.view p := by
  have hfile : (x.isFileAt path = false) ↔ ((x.view path).all Prod.fst = true) := by
    unfold isFileAt view
    cases x.find path <;> simp
  rw [view, find_remove]
  simp only [hfile]
  split <;> rfl

end IdentityIndex

namespace MacState

/-- Tree and identities agree about the path. -/
def AgreesAt (s : MacState) (p : Str) : Prop := s.tree.view p = s.identities.view p

/-- Tree and identities agree about every path. -/
def InStep (s : MacState) : Prop := ∀ p, s.tree.view p = s.identities.view p

/-! ## Removal -/

theorem view_of_find {x : IdentityIndex} {p : Str} {e : IndexedPath}
    (h : x.find p = some e) : x.view p = some (e.isDirectory, e.mtime) := by
  rw [IdentityIndex.view, h]
  rfl

theorem identities_removeIndexedPath (s : MacState) {path : Str} {e : IndexedPath}
    (h : s.identities.find path = some e) :
    (s.removeIndexedPath path).identities = s.identities.remove path := by
  unfold removeIndexedPath
  rw [h]
  show (if !e.isDirectory then _ else _ : MacState).identities = _
  split <;> rfl

theorem tree_removeIndexedPath (s : MacState) {path : Str} {e : IndexedPath}
    (h : s.identities.find path = some e) :
    (s.removeIndexedPath path).tree = s.tree.remove path := by
  unfold removeIndexedPath
  rw [h]
  show (if !e.isDirectory then _ else _ : MacState).tree = _
  split <;> rfl

theorem AgreesAt.removeIndexedPath {s : MacState} {path p : Str} (h : s.AgreesAt p)
    (hpath : Under slash path p → s.AgreesAt path) : (s.removeIndexedPath path).AgreesAt p := by
  cases hf : s.identities.find path with
  | none =>
      have hsame : s.removeIndexedPath path = s := by
        unfold MacState.removeIndexedPath
        rw [hf]
      rw [hsame]
      exact h
  | some e =>
      unfold AgreesAt at h hpath ⊢
      rw [tree_removeIndexedPath s hf, identities_removeIndexedPath s hf,
        DirTree.view_remove, IdentityIndex.view_remove, h]
      by_cases hunder : Under slash path p
      · rw [hpath hunder, view_of_find hf]
        rfl
      · have hne : p ≠ path := fun heq => hunder (Or.inl heq)
        rw [if_neg (by simp [hne, hunder]), if_neg (by simp [hne, hunder])]

theorem InStep.removeIndexedPath {s : MacState} (h : s.InStep) (path : Str) :
    (s.removeIndexedPath path).InStep := fun p =>
  AgreesAt.removeIndexedPath (h p) fun _ => h path

/-! ## One record of a scan -/

end MacState

/-- The effect of `recordCreatedPath` on the identities. -/
def IdentityIndex.record (x : IdentityIndex) (path : Str) (entry : IndexedPath) :
    IdentityIndex :=
  if (x.find path).any fun p => p.isDirectory != entry.isDirectory then
    (x.remove path).add path entry
  else x.add path entry

/-- A directory where another directory is indexed. -/
def IdentityIndex.replacesDirectory (x : IdentityIndex) (path : Str)
    (entry : IndexedPath) : Bool :=
  (x.find path).any fun p => p.isDirectory && entry.isDirectory &&
    p.identity != entry.identity

namespace MacState

/-- The events aside, `recordCreatedPath` drops and writes. -/
theorem recordCreatedPath_eq (s : MacState) (path : Str) (entry : IndexedPath) :
    ∃ l, s.recordCreatedPath path entry =
      { (s.dropPrevious path
          ((s.identities.find path).any fun p => p.isDirectory != entry.isDirectory)
          ((s.identities.find path).any fun p => p.identity == entry.identity &&
            p.isDirectory == entry.isDirectory)).writeBoth path entry with mEvents := l } := by
  unfold recordCreatedPath
  dsimp only
  split
  · exact ⟨_, rfl⟩
  · split <;> exact ⟨_, rfl⟩

theorem identities_recordCreatedPath (s : MacState) (path : Str) (entry : IndexedPath) :
    (s.recordCreatedPath path entry).identities = s.identities.record path entry := by
  obtain ⟨l, hl⟩ := recordCreatedPath_eq s path entry
  rw [hl]
  unfold IdentityIndex.record
  show (s.dropPrevious path _ _).identities.add path entry = _
  cases hf : s.identities.find path with
  | none => rfl
  | some d =>
      unfold dropPrevious
      simp only [Option.any_some]
      by_cases htype : (d.isDirectory != entry.isDirectory) = true
      · rw [if_pos htype, if_pos htype, identities_removeIndexedPath s hf]
      · rw [if_neg htype, if_neg htype]
        split <;> rfl

end MacState

/-- A file where a directory is indexed. -/
def IdentityIndex.dropsDirectory (x : IdentityIndex) (path : Str)
    (entry : IndexedPath) : Bool :=
  (x.find path).any fun p => p.isDirectory && !entry.isDirectory

theorem IdentityIndex.view_record (x : IdentityIndex) (path : Str) (entry : IndexedPath)
    (q : Str) :
    (x.record path entry).view q =
      if q = path then some (entry.isDirectory, entry.mtime)
      else if x.dropsDirectory path entry = true ∧ Below slash path q then none
      else x.view q := by
  unfold record dropsDirectory
  cases hf : x.find path with
  | none => simp [view_add]
  | some d =>
      simp only [Option.any_some]
      by_cases htype : (d.isDirectory != entry.isDirectory) = true
      · rw [if_pos htype, view_add, view_remove, MacState.view_of_find hf]
        by_cases hq : q = path
        · rw [if_pos hq, if_pos hq]
        · rw [if_neg hq, if_neg hq]
          -- the kinds differ, so exactly one of the two is a directory
          have hentry : entry.isDirectory = !d.isDirectory := by
            cases hd : d.isDirectory <;> cases he : entry.isDirectory <;> simp_all
          simp [hq, hentry, under_iff_below]
      · rw [if_neg htype, view_add]
        have hentry : entry.isDirectory = d.isDirectory := by
          cases hd : d.isDirectory <;> cases he : entry.isDirectory <;> simp_all
        simp [hentry]

namespace MacState

/-- The tree may miss paths that are indexed, and misses them with all they hold. -/
def LagsAt (s : MacState) (path : Str) : Prop :=
  s.tree.view path = s.identities.view path ∨
    (s.tree.view path = none ∧ ∀ q, Below slash path q → s.tree.view q = none)

/-- The effect of `recordCreatedPath` on the tree. -/
theorem view_tree_recordCreatedPath {s : MacState} {path : Str} (h : s.LagsAt path)
    (entry : IndexedPath) (q : Str) :
    (s.recordCreatedPath path entry).tree.view q =
      if q = path then some (entry.isDirectory, entry.mtime)
      else if (s.identities.dropsDirectory path entry = true ∨
          s.identities.replacesDirectory path entry = true) ∧ Below slash path q then none
      else s.tree.view q := by
  obtain ⟨l, hl⟩ := recordCreatedPath_eq s path entry
  rw [hl]
  show ((s.dropPrevious path _ _).tree.updateOrAdd path entry.mtime
    entry.isDirectory).view q = _
  rw [DirTree.view_updateOrAdd]
  unfold IdentityIndex.dropsDirectory IdentityIndex.replacesDirectory dropPrevious
  cases hf : s.identities.find path with
  | none =>
      have hnone : s.tree.view path = none := by
        rcases h with h | h
        · rw [h, IdentityIndex.view, hf]
          rfl
        · exact h.1
      by_cases hq : q = path <;> simp [DirTree.view_remove, hnone, hq]
  | some d =>
      have hview : s.identities.view path = some (d.isDirectory, d.mtime) := view_of_find hf
      -- removing `path` from the tree reaches below it when it is a directory
      have hbelow : ∀ p, p ≠ path → (s.tree.remove path).view p =
          if d.isDirectory = true ∧ Below slash path p then none else s.tree.view p := by
        intro p hp
        rw [DirTree.view_remove]
        rcases h with h | ⟨hnone, hbelow⟩
        · rw [h, hview]
          simp [hp, under_iff_below]
        · rw [hnone]
          by_cases hb : Below slash path p
          · simp [hp, hbelow p hb]
          · simp [hp, hb]
      have hself : (s.tree.remove path).view path = none := by
        rw [DirTree.view_remove, if_pos (Or.inl rfl)]
      simp only [Option.any_some]
      by_cases htype : (d.isDirectory != entry.isDirectory) = true
      · have hentry : entry.isDirectory = !d.isDirectory := by
          cases hd : d.isDirectory <;> cases he : entry.isDirectory <;> simp_all
        rw [if_pos htype, tree_removeIndexedPath s hf, hself]
        by_cases hq : q = path
        · simp [hq]
        · rw [if_neg hq, if_neg hq, hbelow q hq]
          simp [hentry]
      · have hentry : entry.isDirectory = d.isDirectory := by
          cases hd : d.isDirectory <;> cases he : entry.isDirectory <;> simp_all
        rw [if_neg htype]
        by_cases hid : d.identity = entry.identity
        · have hkind : ((s.tree.view path).map Prod.fst).getD entry.isDirectory =
              entry.isDirectory := by
            rcases h with h | ⟨hnone, -⟩
            · rw [h, hview, hentry]
              rfl
            · rw [hnone]
              rfl
          have hsame : (!(d.identity == entry.identity &&
              d.isDirectory == entry.isDirectory)) = false := by
            simp [hid, hentry]
          simp only [hsame, Bool.false_eq_true, if_false, hkind]
          simp [hid, hentry]
        · have hother : (!(d.identity == entry.identity &&
              d.isDirectory == entry.isDirectory)) = true := by
            simp [hid]
          simp only [hother, if_true]
          by_cases hq : q = path
          · simp [hq, hself]
          · rw [if_neg hq, if_neg hq, hbelow q hq]
            simp [hentry, hid]

/-- A record leaves the tree alone but at and below its path. -/
theorem view_tree_recordCreatedPath_elsewhere (s : MacState) {path q : Str} (entry : IndexedPath)
    (h : ¬ Under slash path q) : (s.recordCreatedPath path entry).tree.view q = s.tree.view q := by
  have hne : q ≠ path := fun heq => h (Or.inl heq)
  have hremove : (s.tree.remove path).view q = s.tree.view q := by
    rw [DirTree.view_remove, if_neg (by simp [hne, h])]
  obtain ⟨l, hl⟩ := recordCreatedPath_eq s path entry
  rw [hl]
  show ((s.dropPrevious path _ _).tree.updateOrAdd path entry.mtime
    entry.isDirectory).view q = _
  rw [DirTree.view_updateOrAdd, if_neg hne]
  unfold dropPrevious
  split
  next htype =>
      obtain ⟨d, hd, -⟩ := (Option.any_eq_true _ _).mp htype
      rw [tree_removeIndexedPath s hd, hremove]
  next =>
      split
      · exact hremove
      · rfl

/-- A record keeps the indexes in agreement about a path, unless it replaces a directory
above. -/
theorem AgreesAt.recordCreatedPath {s : MacState} {path p : Str} {entry : IndexedPath}
    (h : s.AgreesAt p) (hpath : Under slash path p → s.AgreesAt path)
    (hreplaces : Below slash path p → s.identities.replacesDirectory path entry = false) :
    (s.recordCreatedPath path entry).AgreesAt p := by
  unfold AgreesAt at h ⊢
  rw [identities_recordCreatedPath, IdentityIndex.view_record]
  by_cases hunder : Under slash path p
  · rw [view_tree_recordCreatedPath (Or.inl (hpath hunder))]
    split
    · rfl
    next hne =>
        have hbelow := hunder.below hne
        rw [hreplaces hbelow, h]
        simp
  · have hne : p ≠ path := fun heq => hunder (Or.inl heq)
    rw [view_tree_recordCreatedPath_elsewhere s entry hunder, if_neg hne,
      if_neg fun hdrop => hunder hdrop.2.under, h]

end MacState

/-! ## A whole scan -/

/-- The rest of a scan takes `path` out of the lag: it lists it, or it lists a file
above it where a directory is indexed. -/
def Restored (path : Str) : IdentityIndex → List (Str × IndexedPath) → Prop
  | _, [] => False
  | x, (p, e) :: rest =>
      path = p ∨ (x.dropsDirectory p e = true ∧ Below slash p path) ∨
        Restored path (x.record p e) rest

/-- Where a scan replaces an indexed directory by another one, it restores whatever
is indexed below. -/
def ReplacementsRestored : IdentityIndex → List (Str × IndexedPath) → Prop
  | _, [] => True
  | x, (p, e) :: rest =>
      (x.replacesDirectory p e = true →
        ∀ b ∈ x.entries, Below slash p b.1 → Restored b.1 (x.record p e) rest) ∧
      ReplacementsRestored (x.record p e) rest

instance decidableRestored (path : Str) : ∀ (x : IdentityIndex)
    (rest : List (Str × IndexedPath)), Decidable (Restored path x rest)
  | _, [] => isFalse id
  | x, (p, e) :: rest =>
      have := decidableRestored path (x.record p e) rest
      inferInstanceAs (Decidable (path = p ∨
        (x.dropsDirectory p e = true ∧ Below slash p path) ∨
          Restored path (x.record p e) rest))

instance decidableReplacementsRestored : ∀ (x : IdentityIndex)
    (rest : List (Str × IndexedPath)), Decidable (ReplacementsRestored x rest)
  | _, [] => isTrue trivial
  | x, (p, e) :: rest =>
      have := decidableReplacementsRestored (x.record p e) rest
      inferInstanceAs (Decidable ((x.replacesDirectory p e = true →
        ∀ b ∈ x.entries, Below slash p b.1 → Restored b.1 (x.record p e) rest) ∧
          ReplacementsRestored (x.record p e) rest))

theorem exists_above_of_restored {path : Str} {x : IdentityIndex}
    {rest : List (Str × IndexedPath)} (h : Restored path x rest) :
    ∃ b ∈ rest, Under slash b.1 path := by
  induction rest generalizing x with
  | nil => exact h.elim
  | cons b rest ih =>
      rcases h with rfl | ⟨-, hbelow⟩ | h
      · exact ⟨b, List.mem_cons_self, Under.refl _⟩
      · exact ⟨b, List.mem_cons_self, hbelow.under⟩
      · obtain ⟨c, hc, hunder⟩ := ih h
        exact ⟨c, List.mem_cons_of_mem _ hc, hunder⟩

namespace MacState

/-- The tree lags behind the identities only on paths that the rest of the scan
restores, and misses those with all they hold. -/
def Lagging (s : MacState) (rest : List (Str × IndexedPath)) : Prop :=
  ∀ p, s.tree.view p = s.identities.view p ∨
    (s.tree.view p = none ∧ Restored p s.identities rest ∧
      ∀ q, Below slash p q → s.tree.view q = none)

theorem InStep.lagging {s : MacState} (h : s.InStep) (rest : List (Str × IndexedPath)) :
    s.Lagging rest := fun p => Or.inl (h p)

theorem Lagging.inStep {s : MacState} (h : s.Lagging []) : s.InStep := fun p =>
  (h p).elim id fun ⟨_, hrestored, _⟩ => hrestored.elim

theorem Lagging.lagsAt {s : MacState} {rest : List (Str × IndexedPath)}
    (h : s.Lagging rest) (p : Str) : s.LagsAt p :=
  (h p).imp_right fun ⟨hnone, _, hbelow⟩ => ⟨hnone, hbelow⟩

/-- One record of a scan. The listing is in preorder, so a path still to be restored
is never above the one being recorded. -/
theorem Lagging.recordCreatedPath {s : MacState} {p : Str} {e : IndexedPath}
    {rest : List (Str × IndexedPath)} (h : s.Lagging ((p, e) :: rest))
    (hpre : ∀ b ∈ rest, ¬ Under slash b.1 p)
    (hok : s.identities.replacesDirectory p e = true →
      ∀ b ∈ s.identities.entries, Below slash p b.1 →
        Restored b.1 (s.identities.record p e) rest) :
    (s.recordCreatedPath p e).Lagging rest := by
  have htree := view_tree_recordCreatedPath (h.lagsAt p) e
  intro q
  rw [identities_recordCreatedPath, IdentityIndex.view_record, htree]
  by_cases hq : q = p
  · left
    rw [if_pos hq, if_pos hq]
  rw [if_neg hq, if_neg hq]
  by_cases hbelow : Below slash p q
  · by_cases hdrops : s.identities.dropsDirectory p e = true
    · left
      rw [if_pos ⟨Or.inl hdrops, hbelow⟩, if_pos ⟨hdrops, hbelow⟩]
    have hindex : ¬ (s.identities.dropsDirectory p e = true ∧ Below slash p q) :=
      fun hc => hdrops hc.1
    rw [if_neg hindex]
    by_cases hreplaces : s.identities.replacesDirectory p e = true
    · -- the tree loses `q`; either it was not indexed or the scan restores it
      rw [if_pos ⟨Or.inr hreplaces, hbelow⟩]
      cases hf : s.identities.find q with
      | none =>
          left
          rw [IdentityIndex.view, hf]
          rfl
      | some d =>
          right
          refine ⟨rfl, hok hreplaces _ (IdentityIndex.mem_entries.mpr hf) hbelow, ?_⟩
          intro r hr
          have hpr : Below slash p r := hbelow.trans hr
          rw [htree, if_neg hpr.ne, if_pos ⟨Or.inr hreplaces, hpr⟩]
    · rw [if_neg (fun hc => hc.1.elim hdrops hreplaces)]
      rcases h q with heq | ⟨hnone, hrestored, hdeep⟩
      · exact Or.inl heq
      · right
        refine ⟨hnone, ?_, ?_⟩
        · rcases hrestored with heq | ⟨hdrop, -⟩ | hrest
          · exact absurd heq hq
          · exact absurd hdrop hdrops
          · exact hrest
        · intro r hr
          have hpr : Below slash p r := hbelow.trans hr
          rw [htree, if_neg hpr.ne, if_neg (fun hc => hc.1.elim hdrops hreplaces)]
          exact hdeep r hr
  · rw [if_neg (fun hc => hbelow hc.2), if_neg (fun hc => hbelow hc.2)]
    rcases h q with heq | ⟨hnone, hrestored, hdeep⟩
    · exact Or.inl heq
    · have hrest : Restored q (s.identities.record p e) rest := by
        rcases hrestored with heq | ⟨-, hb⟩ | hrest
        · exact absurd heq hq
        · exact absurd hb hbelow
        · exact hrest
      right
      refine ⟨hnone, hrest, ?_⟩
      intro r hr
      have hrp : r ≠ p := by
        rintro rfl
        obtain ⟨b, hb, hunder⟩ := exists_above_of_restored hrest
        exact hpre b hb (hunder.trans hr.under)
      rw [htree, if_neg hrp]
      split
      · rfl
      · exact hdeep r hr

/-- The run of a scan. -/
theorem Lagging.recordAll {recorded : List (Str × IndexedPath)} {s : MacState}
    (h : s.Lagging recorded)
    (hpre : recorded.Pairwise fun earlier later => ¬ Under slash later.1 earlier.1)
    (hok : ReplacementsRestored s.identities recorded) :
    (s.recordAll recorded).InStep := by
  induction recorded generalizing s with
  | nil => exact h.inStep
  | cons b rest ih =>
      obtain ⟨hfirst, hrest⟩ := List.pairwise_cons.mp hpre
      refine ih (h.recordCreatedPath hfirst hok.1) hrest ?_
      rw [identities_recordCreatedPath]
      exact hok.2

theorem inStep_recordError {s : MacState} (h : s.InStep) (w : MacWatcher)
    (o : ScanOutcome) : (s.recordError w o).InStep := by
  cases o <;> exact h

/-- A single file: nothing is replaced below it. -/
theorem InStep.recordFile {s : MacState} (h : s.InStep) {p : Str} {e : IndexedPath}
    (he : e.isDirectory = false) : (s.recordCreatedPath p e).InStep := by
  refine ((h.lagging [(p, e)]).recordCreatedPath (by simp) ?_).inStep
  intro hreplaces
  unfold IdentityIndex.replacesDirectory at hreplaces
  simp [he] at hreplaces

/-! ## The branches of the loop -/

/-- The directory scan of an event restores what it drops from the tree. -/
def ScanRestores (w : MacWatcher) (s : MacState) (event : PendingEvent) : Prop :=
  ((readIndexedPath event.createdAnswer event.path).any fun entry =>
      entry.isDirectory) = true →
    ReplacementsRestored s.identities
      (scanIdentityIndex event.path w.isIgnored event.walk).recorded

instance (w : MacWatcher) (s : MacState) (event : PendingEvent) :
    Decidable (s.ScanRestores w event) :=
  inferInstanceAs (Decidable (_ → _))

theorem InStep.addCreatedPath {s : MacState} (h : s.InStep) {w : MacWatcher}
    {event : PendingEvent} (hok : s.ScanRestores w event) :
    (s.addCreatedPath w event.createdAnswer event.walk event.path).InStep := by
  unfold ScanRestores at hok
  unfold MacState.addCreatedPath
  cases hr : readIndexedPath event.createdAnswer event.path with
  | none => exact h
  | some entry =>
      rw [hr] at hok
      cases hd : entry.isDirectory with
      | false =>
          show (if !entry.isDirectory then s.recordCreatedPath event.path entry
            else _ : MacState).InStep
          rw [hd]
          exact h.recordFile hd
      | true =>
          show (if !entry.isDirectory then s.recordCreatedPath event.path entry
            else _ : MacState).InStep
          rw [hd]
          exact inStep_recordError ((h.lagging _).recordAll
            (recorded_preorder event.path w.isIgnored event.walk) (hok hd)) w _

/-- Writing both structures at a path they agree about keeps the kind right. -/
theorem AgreesAt.writeBoth {s : MacState} {path p : Str} {e : IndexedPath} (h : s.AgreesAt p)
    (hkind : p = path → ∀ d, s.identities.find path = some d → d.isDirectory = e.isDirectory) :
    (s.writeBoth path e).AgreesAt p := by
  show (s.tree.updateOrAdd path e.mtime e.isDirectory).view p =
    (s.identities.add path e).view p
  rw [DirTree.view_updateOrAdd, IdentityIndex.view_add]
  split
  next heq =>
      subst heq
      rw [show s.tree.view p = s.identities.view p from h]
      cases hf : s.identities.find p with
      | none => simp [IdentityIndex.view, hf]
      | some d => simp [view_of_find hf, hkind rfl d hf]
  next => exact h

theorem InStep.writeBoth {s : MacState} (h : s.InStep) {path : Str} {e : IndexedPath}
    (hkind : ∀ d, s.identities.find path = some d → d.isDirectory = e.isDirectory) :
    (s.writeBoth path e).InStep := fun p =>
  AgreesAt.writeBoth (h p) fun _ => hkind

theorem AgreesAt.addNew {s : MacState} {path p : Str} {e : IndexedPath} (h : s.AgreesAt p)
    (hnone : p = path → s.identities.find path = none) :
    (s.tree.add path e.mtime e.isDirectory).view p = (s.identities.add path e).view p := by
  rw [DirTree.view_add, IdentityIndex.view_add]
  split
  next heq =>
      subst heq
      rw [show s.tree.view p = s.identities.view p from h, IdentityIndex.view, hnone rfl]
      rfl
  next => exact h

theorem InStep.addNew {s : MacState} (h : s.InStep) {path : Str} {e : IndexedPath}
    (hnone : s.identities.find path = none) (p : Str) :
    (s.tree.add path e.mtime e.isDirectory).view p =
      (s.identities.add path e).view p :=
  AgreesAt.addNew (h p) fun _ => hnone

/-- What the chosen branch says about the indexed entry. -/
def BranchFits (s : MacState) (path : Str) : EventBranch → Prop
  | .overwrite indexed =>
      ∀ d, s.identities.find path = some d → d.isDirectory = indexed.isDirectory
  | .addNew _ => s.identities.find path = none
  | _ => True

theorem branchFits_modifiedBranch (s : MacState) (event : PendingEvent) :
    s.BranchFits event.path (s.modifiedBranch event) := by
  unfold modifiedBranch
  cases readIndexedPath event.entryAnswer event.path with
  | none => trivial
  | some indexed =>
      dsimp only
      split
      next => trivial
      next hnot =>
        split
        next => trivial
        next =>
          intro d hd
          have hkind : ¬ s.tree.find event.path = none ∧
              d.isDirectory = indexed.isDirectory := by
            simpa [observe, hd] using hnot
          exact hkind.2

/-- Where both indexes agree, the last branch is for paths not indexed. -/
theorem branchFits_mixedBranch {s : MacState} {event : PendingEvent} (h : s.AgreesAt event.path)
    (isModified : Bool) : s.BranchFits event.path (s.mixedBranch event isModified) := by
  unfold mixedBranch
  cases readIndexedPath event.entryAnswer event.path with
  | none => trivial
  | some indexed =>
      dsimp only
      split
      next => trivial
      next htype =>
        split
        next => trivial
        next =>
          split
          next =>
            intro d hd
            simpa [observe, hd] using htype
          next hover =>
            split
            next => trivial
            next hlast =>
              show s.identities.find event.path = none
              cases hf : s.identities.find event.path with
              | none => rfl
              | some d =>
                  have hentry : (s.tree.find event.path).isSome = true := by
                    have hview := h
                    rw [AgreesAt, view_of_find hf, DirTree.view] at hview
                    obtain ⟨e, he, -⟩ := Option.map_eq_some_iff.mp hview
                    rw [he]
                    rfl
                  -- a file over a file is overwritten, a directory is scanned
                  cases hi : indexed.isDirectory <;>
                    simp_all [observe]

theorem branchFits_branchOf {s : MacState} {event : PendingEvent} (h : s.AgreesAt event.path) :
    s.BranchFits event.path (s.branchOf event) := by
  unfold branchOf
  dsimp only
  split
  · trivial
  · split
    · trivial
    · split
      · exact branchFits_modifiedBranch s event
      · exact branchFits_mixedBranch h _

/-- The scan that an event starts, if it starts one, restores what it drops. -/
def EventKeepsStep (w : MacWatcher) (s : MacState) (event : PendingEvent) : Prop :=
  s.branchOf event = .addCreatedPath → s.ScanRestores w event

instance (w : MacWatcher) (s : MacState) (event : PendingEvent) :
    Decidable (s.EventKeepsStep w event) :=
  inferInstanceAs (Decidable (_ → _))

theorem InStep.perform {s : MacState} (h : s.InStep) {w : MacWatcher}
    {event : PendingEvent} (hok : s.EventKeepsStep w event) :
    (s.perform w event (s.branchOf event)).InStep := by
  have hfits := branchFits_branchOf (h event.path)
  cases hb : s.branchOf event with
  | addCreatedPath => exact h.addCreatedPath (hok hb)
  | removeIndexedPath => exact h.removeIndexedPath event.path
  | unchanged => exact h
  | overwrite indexed =>
      rw [hb] at hfits
      exact h.writeBoth hfits
  | addNew indexed =>
      rw [hb] at hfits
      exact h.addNew hfits

/-- Every event of the loop keeps the indexes in step, each in the state it meets. -/
def EventsKeepStep (w : MacWatcher) (correlatedPaths : List Str) :
    MacState → List PendingEvent → Prop
  | _, [] => True
  | s, event :: events =>
      if hasFlag event.flags FSEventStreamEventFlag.HistoryDone then True
      else if skips w correlatedPaths event then EventsKeepStep w correlatedPaths s events
      else s.EventKeepsStep w event ∧
        EventsKeepStep w correlatedPaths (s.perform w event (s.branchOf event)) events

instance decidableEventsKeepStep (w : MacWatcher) (correlatedPaths : List Str) :
    ∀ (s : MacState) (events : List PendingEvent),
      Decidable (EventsKeepStep w correlatedPaths s events)
  | _, [] => isTrue trivial
  | s, event :: events =>
      have := decidableEventsKeepStep w correlatedPaths s events
      have := decidableEventsKeepStep w correlatedPaths
        (s.perform w event (s.branchOf event)) events
      inferInstanceAs (Decidable (
        if hasFlag event.flags FSEventStreamEventFlag.HistoryDone then True
        else if skips w correlatedPaths event then EventsKeepStep w correlatedPaths s events
        else s.EventKeepsStep w event ∧
          EventsKeepStep w correlatedPaths (s.perform w event (s.branchOf event)) events))

theorem InStep.handleEvents {w : MacWatcher} {correlatedPaths : List Str}
    {events : List PendingEvent} {s : MacState} (h : s.InStep) (deletedRoot : Bool)
    (hok : EventsKeepStep w correlatedPaths s events) :
    (handleEvents w correlatedPaths s deletedRoot events).1.InStep := by
  induction events generalizing s deletedRoot with
  | nil => exact h
  | cons event events ih =>
      unfold EventsKeepStep at hok
      unfold MacState.handleEvents
      split at hok
      next hdone =>
        rw [if_pos hdone]
        exact h
      next hdone =>
        rw [if_neg hdone]
        split at hok
        next hskip =>
          rw [if_pos hskip]
          exact ih h deletedRoot hok
        next hskip =>
          rw [if_neg hskip]
          exact ih (h.perform hok.1) _ hok.2

/-! ## Renames within one batch -/

/-- Every candidate is indexed as it was collected. -/
def Collected (s : MacState) (removed : RenameCandidates) : Prop :=
  ∀ i p e, (removed.paths i).lookup p = some e →
    s.identities.find p = some e ∧ e.identity = i

theorem Collected.collectCandidates {w : MacWatcher} {s : MacState}
    {c : RenameCandidates × RenameCandidates} (h : s.Collected c.1) (event : PendingEvent) :
    s.Collected (s.collectCandidates w c event).1 := by
  obtain ⟨removed, created⟩ := c
  unfold MacState.collectCandidates
  split
  · exact h
  · dsimp only
    cases hf : s.identities.find event.path with
    | none => exact h
    | some b =>
        dsimp only
        split
        · exact h
        · intro i p e hlookup
          rw [RenameCandidates.lookup_paths_put] at hlookup
          split at hlookup
          next heq =>
            obtain ⟨rfl, rfl⟩ := heq
            rw [← Option.some.inj hlookup]
            exact ⟨hf, rfl⟩
          next => exact h i p e hlookup

theorem collected_foldl {w : MacWatcher} {s : MacState} (events : List PendingEvent)
    {c : RenameCandidates × RenameCandidates} (h : s.Collected c.1) :
    s.Collected (events.foldl (s.collectCandidates w) c).1 := by
  induction events generalizing c with
  | nil => exact h
  | cons event events ih => exact ih (h.collectCandidates event)

/-- What is still to be correlated is indexed as it was collected. -/
def Pending (s : MacState) (l : List (FileIdentity × FiniteMap Str IndexedPath)) : Prop :=
  ∀ b ∈ l, ∀ p e, (p, e) ∈ b.2.pairs → s.identities.find p = some e ∧ e.identity = b.1

/-- One accepted rename moves one file in both structures. -/
theorem InStep.correlateIdentity (created : RenameCandidates) {r : MacState × List Str}
    {b : FileIdentity × FiniteMap Str IndexedPath}
    {l : List (FileIdentity × FiniteMap Str IndexedPath)} (h : r.1.InStep)
    (hpending : r.1.Pending (b :: l)) (hfresh : b.1 ∉ l.map Prod.fst) :
    (correlateIdentity created r b).1.InStep ∧
      (correlateIdentity created r b).1.Pending l := by
  obtain ⟨s, handled⟩ := r
  have hrest : s.Pending l := fun b' hb' => hpending b' (List.mem_cons_of_mem _ hb')
  unfold MacState.correlateIdentity
  dsimp only
  split
  next oldPath oldEntry newPath newEntry hold hnew =>
    split
    next => exact ⟨h, hrest⟩
    next hcond =>
      simp only [Bool.or_eq_true, bne_iff_ne, not_or, Bool.not_eq_true,
        Option.isSome_eq_false_iff, Option.isNone_iff_eq_none] at hcond
      obtain ⟨⟨⟨⟨⟨-, hvacant⟩, holdFile⟩, hnewFile⟩, -⟩, -⟩ := hcond
      obtain ⟨hfind, hid⟩ := hpending b List.mem_cons_self oldPath oldEntry (by simp [hold])
      have hne : newPath ≠ oldPath := by
        rintro rfl
        rw [hfind] at hvacant
        cases hvacant
      -- the identities after the rename
      have hindex : ∀ p, ((s.identities.rename oldPath newPath).add newPath newEntry).find p =
          if p = newPath then some newEntry
          else if p = oldPath then none else s.identities.find p := by
        intro p
        rw [IdentityIndex.find_add, IdentityIndex.find_rename_of_file hfind holdFile]
        split <;> rfl
      constructor
      · intro p
        show ((s.tree.remove oldPath).add newPath newEntry.mtime newEntry.isDirectory).view p =
          ((s.identities.rename oldPath newPath).add newPath newEntry).view p
        have holdView : s.tree.view oldPath = some (oldEntry.isDirectory, oldEntry.mtime) := by
          rw [h, view_of_find hfind]
        have hnewView : s.tree.view newPath = none := by
          rw [h, IdentityIndex.view, hvacant]
          rfl
        rw [DirTree.view_add, DirTree.view_remove, DirTree.view_remove, holdView, hnewView,
          IdentityIndex.view, hindex, h]
        by_cases hp : p = newPath
        · simp [hp, hne]
        · by_cases hpo : p = oldPath
          · simp [hpo, Ne.symm hne]
          · simp [hp, hpo, holdFile, IdentityIndex.view]
      · intro b' hb' p e hmem
        obtain ⟨hf, hi⟩ := hrest b' hb' p e hmem
        refine ⟨?_, hi⟩
        show ((s.identities.rename oldPath newPath).add newPath newEntry).find p = some e
        have hpn : p ≠ newPath := by
          rintro rfl
          rw [hvacant] at hf
          cases hf
        have hpo : p ≠ oldPath := by
          rintro rfl
          rw [hfind] at hf
          apply hfresh
          rw [← hid, Option.some.inj hf, hi]
          exact List.mem_map_of_mem hb'
        rw [hindex, if_neg hpn, if_neg hpo, hf]
  next => exact ⟨h, hrest⟩

theorem inStep_foldl_correlateIdentity {created : RenameCandidates}
    {l : List (FileIdentity × FiniteMap Str IndexedPath)} {r : MacState × List Str}
    (h : r.1.InStep) (hpending : r.1.Pending l) (hnodup : (l.map Prod.fst).Nodup) :
    (l.foldl (correlateIdentity created) r).1.InStep := by
  induction l generalizing r with
  | nil => exact h
  | cons b l ih =>
      rw [List.map_cons, List.nodup_cons] at hnodup
      obtain ⟨hstep, hrest⟩ := h.correlateIdentity created hpending hnodup.1
      exact ih hstep hrest hnodup.2

theorem InStep.correlateRenames {s : MacState} (h : s.InStep) (w : MacWatcher)
    (events : List PendingEvent) : (s.correlateRenames w events).1.InStep := by
  have hcollected : s.Collected (events.foldl (s.collectCandidates w) (∅, ∅)).1 :=
    collected_foldl events fun i p e hlookup => by
      have hnone : (RenameCandidates.paths ∅ i).lookup p = none := AList.lookup_empty p
      rw [hnone] at hlookup
      cases hlookup
  refine inStep_foldl_correlateIdentity h ?_ (FiniteMap.pairs_keys_nodup _)
  rintro ⟨i, ps⟩ hb p e hmem
  refine hcollected i p e ?_
  rw [RenameCandidates.paths_of_mem_pairs hb]
  exact FiniteMap.mem_pairs.mp hmem

/-! ## A full rescan -/

/-- Both structures built from one listing agree. -/
theorem view_foldl_add {entries : List (Str × IndexedPath)}
    (hnodup : (entries.map Prod.fst).Nodup) {t : DirTree} {x : IdentityIndex}
    (h : ∀ p, t.view p = x.view p) (hnew : ∀ b ∈ entries, x.view b.1 = none) (p : Str) :
    (entries.foldl (fun t b => t.add b.1 b.2.mtime b.2.isDirectory) t).view p =
      (entries.foldl (fun x b => x.add b.1 b.2) x).view p := by
  induction entries generalizing t x with
  | nil => exact h p
  | cons b entries ih =>
      rw [List.map_cons, List.nodup_cons] at hnodup
      rw [List.foldl_cons, List.foldl_cons]
      apply ih hnodup.2
      · intro q
        rw [DirTree.view_add, IdentityIndex.view_add, h, h, hnew b List.mem_cons_self]
        rfl
      · intro c hc
        rw [IdentityIndex.view_add, if_neg, hnew c (List.mem_cons_of_mem _ hc)]
        intro heq
        exact hnodup.1 (heq ▸ List.mem_map_of_mem hc)

theorem InStep.rescan {s : MacState} (h : s.InStep) (w : MacWatcher)
    (events : List PendingEvent) (full : FullScan) : (s.rescan w events full).InStep := by
  unfold MacState.rescan reconcileFullTree
  dsimp only
  have hnodup : ((scanIdentityIndex w.mDir w.isIgnored full.walk).recorded.map
      Prod.fst).Nodup :=
    nodup_of_preorder (recorded_preorder w.mDir w.isIgnored full.walk)
  cases (scanIdentityIndex w.mDir w.isIgnored full.walk).outcome with
  | throws error => exact h
  | complete =>
      cases full.cancelled with
      | true => exact h
      | false => exact fun p => view_foldl_add hnodup (by simp) (by simp) p
  | cancelled =>
      cases full.cancelled with
      | true => exact h
      | false => exact fun p => view_foldl_add hnodup (by simp) (by simp) p

/-! ## Runs -/

/-- The guard of one step: in a call that handles its events one by one, every
directory scan restores what it drops. -/
def CallKeepsStep (w : MacWatcher) (s : MacState) : MacAction → Prop
  | .drain => True
  | .processEvents events _ =>
      if events.any fun event => hasFlag event.flags FSEventStreamEventFlag.RootChanged then
        True
      else if (events.any fun event =>
            hasFlag event.flags FSEventStreamEventFlag.MustScanSubDirs) ||
          events.any s.renamesDirectory then True
      else
        EventsKeepStep w (s.correlateRenames w events).2 (s.correlateRenames w events).1
          events

instance (w : MacWatcher) (s : MacState) : ∀ a, Decidable (s.CallKeepsStep w a)
  | .drain => isTrue trivial
  | .processEvents events _ => inferInstanceAs (Decidable (
      if events.any fun event => hasFlag event.flags FSEventStreamEventFlag.RootChanged then
        True
      else if (events.any fun event =>
            hasFlag event.flags FSEventStreamEventFlag.MustScanSubDirs) ||
          events.any s.renamesDirectory then True
      else
        EventsKeepStep w (s.correlateRenames w events).2 (s.correlateRenames w events).1
          events))

theorem InStep.stopStream {s : MacState} (h : s.InStep) : s.stopStream.InStep := h

/-- One call of `processEvents`, or one drain. -/
theorem InStep.step {w : MacWatcher} {s : MacState} {a : MacAction} (h : s.InStep)
    (hok : s.CallKeepsStep w a) : (s.step w a).InStep := by
  cases a with
  | drain => exact h
  | processEvents events full =>
      show (s.processEvents w events full).InStep
      unfold CallKeepsStep at hok
      dsimp only at hok
      unfold MacState.processEvents
      split
      next => exact (h.removeIndexedPath w.mDir).stopStream
      next hroot =>
        rw [if_neg hroot] at hok
        split
        next => exact h.rescan w events full
        next hscan =>
          rw [if_neg hscan] at hok
          have hloop := (h.correlateRenames w events).handleEvents false hok
          dsimp only
          split
          · exact hloop.stopStream
          · exact hloop

end MacState

/-- **The indexes stay in step.** In every run that starts with tree and identities
in step and whose directory scans restore what they drop, they hold the same paths
with the same kind and modification time after every call. -/
theorem identities_in_step (w : MacWatcher) (s : MacState)
    (h : (macMachine w MacState.InStep).Reach (MacState.CallKeepsStep w) s) (p : Str) :
    ((s.tree.find p).map fun e => (e.isDir, e.mtime)) =
      (s.identities.find p).map fun e => (e.isDirectory, e.mtime) := by
  have hinv : s.InStep := by
    refine h.invariant (fun _ hinit => hinit) ?_
    rintro s a s' hs hok rfl
    exact hs.step hok
  exact hinv p

/-! ## A directory replaced by another one -/

/-- The name after the last separator, which a case sensitive volume finds. -/
def sameName (path : Str) : Option Str :=
  some (path.reverse.takeWhile (· != slash)).reverse

/-- A watcher of `/r` that holds a directory `/r/d` with a file `/r/d/f`. -/
def exampleState : MacState :=
  let recorded := [([47, 114], fromStat (exampleStat 1 .directory)),
    ([47, 114, 47, 100], fromStat (exampleStat 2 .directory)),
    ([47, 114, 47, 100, 47, 102], fromStat (exampleStat 3 .regular))]
  { tree := recorded.foldl (fun t b => t.add b.1 b.2.mtime b.2.isDirectory)
      (DirTree.new [47, 114])
    identities := recorded.foldl (fun x b => x.add b.1 b.2) .empty
    renameSequence := 0
    stream := true
    mEvents := .empty
    mNeedsResubscribe := false }

theorem exampleState_inStep : exampleState.InStep := fun p =>
  MacState.view_foldl_add (by decide) (by simp) (by simp) p

/-- `/r/d` is reported as created; the scan finds a directory with another inode. -/
def replacedEvent (nodes : List FtsNode)
    (h : (nodes.filter FtsNode.visited).Pairwise fun earlier later =>
      ¬ Under slash later.fts_path earlier.fts_path) : PendingEvent where
  path := [47, 114, 47, 100]
  flags := FSEventStreamEventFlag.ItemCreated
  rescanAnswer := ⟨none, sameName⟩
  correlateAnswer := ⟨none, sameName⟩
  entryAnswer := ⟨none, sameName⟩
  createdAnswer := ⟨some (exampleStat 9 .directory), sameName⟩
  walk := ⟨false, none, nodes, h⟩

def noScan : FullScan := ⟨⟨true, none, [], List.Pairwise.nil⟩, false⟩

/-- The new directory holds the file of the old one. -/
def refilledDirectory : MacAction :=
  .processEvents [replacedEvent
    [exampleNode [47, 114, 47, 100] 9 .directory,
      exampleNode [47, 114, 47, 100, 47, 102] 3 .regular] (by decide)] noScan

/-- The new directory is empty. -/
def emptiedDirectory : MacAction :=
  .processEvents [replacedEvent [exampleNode [47, 114, 47, 100] 9 .directory] (by decide)]
    noScan

/-- The refilled directory: the scan lists the file again. -/
theorem identities_in_step_refilled :
    (((exampleState.step exampleWatcher refilledDirectory).tree.find
        [47, 114, 47, 100, 47, 102]).map fun e => (e.isDir, e.mtime)) =
      ((exampleState.step exampleWatcher refilledDirectory).identities.find
        [47, 114, 47, 100, 47, 102]).map fun e => (e.isDirectory, e.mtime) :=
  identities_in_step exampleWatcher _
    (.step (.init exampleState_inStep) (by decide) rfl) _

/-- The emptied directory: its file leaves the tree and stays in the identities. -/
theorem identities_out_of_step :
    exampleState.InStep ∧ exampleState.identities.ClosedUnder exampleWatcher.mDir ∧
      ¬ (exampleState.step exampleWatcher emptiedDirectory).InStep := by
  refine ⟨exampleState_inStep, by decide, ?_⟩
  intro h
  have hfile := h [47, 114, 47, 100, 47, 102]
  revert hfile
  decide

end NativeWatcher
