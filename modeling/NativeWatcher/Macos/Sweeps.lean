import NativeWatcher.Macos.FixedFiles

/-!
# Directories that leave the index

An event at whose path nothing is read takes out of the index what is indexed there, and with a
directory all that is below it. A path below that exists, by way of a symbolic link in the place
of the directory, is lost with it until an event names the path again.
-/

namespace NativeWatcher

open Hierarchy FSEventStreamEventFlag

/-! ## Which events take a directory out -/

/-- A directory was indexed at the path of the event, nothing is read there now, and the event
is more than a creation. -/
structure Sweeps (w : MacWatcher) (s : MacState) (fs : FileSystem) (event : PendingEvent) :
    Prop where
  taken : MacState.skips w [] event = false
  flags : event.onlyCreated = false
  indexed : s.identities.isDirectoryAt event.path = true
  gone : fs.read event.path = none

namespace MacState

variable {w : MacWatcher} {s₀ s : MacState} {fs : FileSystem} {p q : Str} {e : IndexedPath}
  {event : PendingEvent} {before events : List PendingEvent} {correlatedPaths : List Str}

/-- The loop comes to the removal for what is more than a creation and not there. -/
theorem branchOf_eq_removeIndexedPath (s : MacState) (h : fs.Answers event)
    (hremoved : event.onlyRemoved = false) :
    s.branchOf event = .removeIndexedPath ↔
      event.onlyCreated = false ∧ fs.read event.path = none := by
  constructor
  · intro hb
    have hreads := branchReads_branchOf s h hremoved
    rw [hb] at hreads
    refine ⟨Bool.eq_false_iff.mpr fun honly => ?_, hreads⟩
    have hcreated : s.branchOf event = .addCreatedPath := if_pos honly
    rw [hb] at hcreated
    cases hcreated
  · rintro ⟨hcreated, hnone⟩
    have hread : readIndexedPath event.entryAnswer event.path = none := by
      rw [h.entry]
      exact hnone
    have hmodified : s.modifiedBranch event = .removeIndexedPath := by
      unfold modifiedBranch
      rw [hread]
    have hmixed : ∀ isModified, s.mixedBranch event isModified = .removeIndexedPath := by
      intro isModified
      unfold mixedBranch
      rw [hread]
    show (if event.onlyCreated = true then EventBranch.addCreatedPath
      else if event.onlyRemoved = true then .removeIndexedPath
      else if _ then s.modifiedBranch event else s.mixedBranch event _) = _
    rw [if_neg (Bool.eq_false_iff.mp hcreated), if_neg (Bool.eq_false_iff.mp hremoved), hmodified,
      hmixed]
    split <;> rfl

/-! ## The directories above a path -/

/-- A path that is not there is not indexed by a record, nor dropped if it is above one that
is. -/
theorem find_recordCreatedPath_of_none (s : MacState) {x : Str} {entry : IndexedPath}
    (hx : fs.read x = some entry) (hq : fs.read q = none) (hp : fs.read p = some e)
    (hbelow : Below slash q p) :
    (s.recordCreatedPath x entry).identities.find q = s.identities.find q := by
  have hne : q ≠ x := by
    rintro rfl
    rw [hq] at hx
    cases hx
  rw [identities_recordCreatedPath, IdentityIndex.find_record, if_neg hne, if_neg]
  rintro ⟨hdrop, hxq⟩
  have hdir := FileSystem.isDirectory_above hx hp (hxq.trans hbelow)
  obtain ⟨d, -, hkinds⟩ := (Option.any_eq_true _ _).mp hdrop
  rw [hdir, Bool.not_true, Bool.and_false] at hkinds
  cases hkinds

theorem find_recordAll_of_none {recorded : List (Str × IndexedPath)}
    (h : ∀ b ∈ recorded, fs.read b.1 = some b.2) (hq : fs.read q = none)
    (hp : fs.read p = some e) (hbelow : Below slash q p) (s : MacState) :
    (s.recordAll recorded).identities.find q = s.identities.find q := by
  induction recorded generalizing s with
  | nil => rfl
  | cons b recorded ih =>
      refine (ih (fun b' hb' => h b' (List.mem_cons_of_mem _ hb')) _).trans ?_
      exact find_recordCreatedPath_of_none s (h b List.mem_cons_self) hq hp hbelow

theorem identities_recordError (s : MacState) (w : MacWatcher) (outcome : ScanOutcome) :
    (s.recordError w outcome).identities = s.identities := by
  cases outcome <;> rfl

theorem find_perform_of_none (s : MacState) (h : fs.Answers event)
    (hremoved : event.onlyRemoved = false) (hq : fs.read q = none) (hp : fs.read p = some e)
    (hbelow : Below slash q p) (hbranch : s.branchOf event ≠ .removeIndexedPath) :
    (s.perform w event (s.branchOf event)).identities.find q = s.identities.find q := by
  have hreads := branchReads_branchOf s h hremoved
  have hwrite : ∀ indexed, fs.read event.path = some indexed →
      (s.identities.add event.path indexed).find q = s.identities.find q := by
    intro indexed hindexed
    refine (IdentityIndex.find_add ..).trans (if_neg ?_)
    rintro rfl
    rw [hq] at hindexed
    cases hindexed
  cases hb : s.branchOf event with
  | addCreatedPath =>
      show (s.addCreatedPath w event.createdAnswer event.walk event.path).identities.find q = _
      unfold addCreatedPath
      rw [h.created]
      split
      · rfl
      next entry hentry =>
          split
          · exact find_recordCreatedPath_of_none s hentry hq hp hbelow
          next hdir =>
              have hlists := h.walk (by
                rw [show fs.read event.path = some entry from hentry, Option.any_some]
                simpa using hdir)
              rw [identities_recordError]
              exact find_recordAll_of_none (fun b hb => (hlists.recorded _ hb).1) hq hp hbelow s
  | removeIndexedPath => exact absurd hb hbranch
  | unchanged => rfl
  | overwrite indexed =>
      rw [hb] at hreads
      exact hwrite indexed hreads
  | addNew indexed =>
      rw [hb] at hreads
      exact hwrite indexed hreads

/-- Above an existing path, what is not there is indexed as a directory until the first event
that takes it out. -/
def DirectoriesAbove (w : MacWatcher) (s₀ : MacState) (fs : FileSystem) (p : Str)
    (before : List PendingEvent) (s : MacState) : Prop :=
  ∀ q, Below slash q p → fs.read q = none →
    (s.identities.isDirectoryAt q = true ↔ s₀.identities.isDirectoryAt q = true ∧
      ∀ earlier ∈ before, Sweeps w s₀ fs earlier → ¬ Under slash earlier.path q)

theorem forall_mem_concat {P : PendingEvent → Prop} :
    (∀ earlier ∈ before ++ [event], P earlier) ↔ (∀ earlier ∈ before, P earlier) ∧ P event := by
  simp [or_imp, forall_and]

theorem DirectoriesAbove.pass (h : DirectoriesAbove w s₀ fs p before s)
    (hnot : ¬ Sweeps w s₀ fs event) : DirectoriesAbove w s₀ fs p (before ++ [event]) s := by
  intro q hbelow hq
  rw [h q hbelow hq, forall_mem_concat]
  exact and_congr_right fun _ => (and_iff_left fun hsweeps => absurd hsweeps hnot).symm

/-- The removal takes out the directories at and below its path. -/
theorem isDirectoryAt_removeIndexedPath (s : MacState) (path q : Str) :
    (s.removeIndexedPath path).identities.isDirectoryAt q = true ↔
      s.identities.isDirectoryAt q = true ∧
        ¬ (s.identities.isDirectoryAt path = true ∧ Under slash path q) := by
  unfold IdentityIndex.isDirectoryAt
  cases hd : s.identities.find path with
  | none =>
      have hsame : s.removeIndexedPath path = s := by
        unfold MacState.removeIndexedPath
        rw [hd]
      rw [hsame]
      simp
  | some d =>
      rw [identities_removeIndexedPath s hd, IdentityIndex.find_remove, IdentityIndex.isFileAt, hd,
        Option.any_some, Option.any_some]
      by_cases hq : q = path
      · subst hq
        rw [if_pos (Or.inl rfl), hd, Option.any_some]
        simp [Under.refl]
      · by_cases hunder : Under slash path q <;> cases hdir : d.isDirectory <;>
          simp [hq, hunder]

theorem DirectoriesAbove.perform (h : DirectoriesAbove w s₀ fs p before s)
    (hanswers : fs.Answers event) (hremoved : event.onlyRemoved = false)
    (hp : fs.read p = some e) (htaken : skips w [] event = false) :
    DirectoriesAbove w s₀ fs p (before ++ [event]) (s.perform w event (s.branchOf event)) := by
  by_cases hb : s.branchOf event = .removeIndexedPath
  · obtain ⟨hflags, hgone⟩ := (branchOf_eq_removeIndexedPath s hanswers hremoved).mp hb
    rw [hb]
    intro q hbelow hq
    show (s.removeIndexedPath event.path).identities.isDirectoryAt q = true ↔ _
    rw [isDirectoryAt_removeIndexedPath, h q hbelow hq, forall_mem_concat, and_assoc]
    refine and_congr_right fun hindexed => and_congr_right fun hbefore => ?_
    rw [not_and']
    -- Of the paths above `q`, the index still has what no event before has taken out.
    constructor
    · intro hkept hsweeps hunder
      refine hkept hunder ((h event.path (hunder.trans_below hbelow) hgone).mpr
        ⟨hsweeps.indexed, fun earlier hmem hs habove => ?_⟩)
      exact hbefore earlier hmem hs (habove.trans hunder)
    · intro hnot hunder hdir
      have hat := (h event.path (hunder.trans_below hbelow) hgone).mp hdir
      exact hnot ⟨htaken, hflags, hat.1, hgone⟩ hunder
  · have hnot : ¬ Sweeps w s₀ fs event := fun hsweeps =>
      hb ((branchOf_eq_removeIndexedPath s hanswers hremoved).mpr ⟨hsweeps.flags, hsweeps.gone⟩)
    intro q hbelow hq
    unfold IdentityIndex.isDirectoryAt
    rw [find_perform_of_none s hanswers hremoved hq hp hbelow hb]
    exact h.pass hnot q hbelow hq

/-! ## The loop -/

/-- What the loop over a batch is given, with the paths that were correlated. -/
structure LoopInput (s₀ : MacState) (fs : FileSystem) (correlatedPaths : List Str)
    (events : List PendingEvent) : Prop where
  answers : ∀ event ∈ events, fs.Answers event
  removed : ∀ event ∈ events, event.onlyRemoved = false
  history : ∀ event ∈ events, hasFlag event.flags HistoryDone = false
  handled : ∀ x ∈ correlatedPaths, fs.read x = none → s₀.identities.isDirectoryAt x = false

theorem LoopInput.mono (h : LoopInput s₀ fs correlatedPaths events) {l : List PendingEvent}
    (hl : l ⊆ events) : LoopInput s₀ fs correlatedPaths l where
  answers event hev := h.answers event (hl hev)
  removed event hev := h.removed event (hl hev)
  history event hev := h.history event (hl hev)
  handled := h.handled

theorem skips_nil (h : skips w correlatedPaths event = false) :
    skips w [] event = false ∧ event.path ∉ correlatedPaths := by
  unfold skips at h ⊢
  rw [Bool.or_eq_false_iff] at h
  exact ⟨Bool.or_eq_false_iff.mpr ⟨h.1, rfl⟩, by simpa using h.2⟩

/-- An event that is skipped takes nothing out: correlated paths are those of files. -/
theorem not_sweeps_of_skips (h : LoopInput s₀ fs correlatedPaths events)
    (hskips : skips w correlatedPaths event = true) : ¬ Sweeps w s₀ fs event := by
  intro hsweeps
  have hnil := hsweeps.taken
  unfold skips at hnil hskips
  dsimp only at hnil hskips
  rw [Bool.or_eq_false_iff] at hnil
  rw [hnil.1, Bool.false_or, List.contains_eq_mem, decide_eq_true_eq] at hskips
  have hfile := h.handled event.path hskips hsweeps.gone
  rw [hsweeps.indexed] at hfile
  cases hfile

/-- The invariant rule of the loop: `P` of the events so far and the state. -/
theorem handleEvents_invariant {P : List PendingEvent → MacState → Prop}
    (before : List PendingEvent) (h : LoopInput s₀ fs correlatedPaths events)
    (hskip : ∀ before s, ∀ event ∈ events, skips w correlatedPaths event = true → P before s →
      P (before ++ [event]) s)
    (hperform : ∀ before s, ∀ event ∈ events, skips w correlatedPaths event = false → P before s →
      P (before ++ [event]) (s.perform w event (s.branchOf event)))
    (hP : P before s) (deletedRoot : Bool) :
    P (before ++ events) (handleEvents w correlatedPaths s deletedRoot events).1 := by
  induction events generalizing before s deletedRoot with
  | nil =>
      rw [List.append_nil]
      exact hP
  | cons event events ih =>
      have hrest : ∀ {s : MacState} (deletedRoot : Bool), P (before ++ [event]) s →
          P (before ++ event :: events)
            (handleEvents w correlatedPaths s deletedRoot events).1 := by
        intro s deletedRoot hP
        rw [List.append_cons]
        exact ih _ (h.mono (List.subset_cons_self _ _))
          (fun before s ev hev => hskip before s ev (List.mem_cons_of_mem _ hev))
          (fun before s ev hev => hperform before s ev (List.mem_cons_of_mem _ hev)) hP deletedRoot
      unfold handleEvents
      rw [if_neg (by simp [h.history event List.mem_cons_self])]
      split
      next hskips => exact hrest _ (hskip before s event List.mem_cons_self hskips hP)
      next hskips =>
          exact hrest _ (hperform before s event List.mem_cons_self (Bool.eq_false_iff.mpr hskips) hP)

theorem DirectoriesAbove.handleEvents (hdirs : DirectoriesAbove w s₀ fs p before s)
    (h : LoopInput s₀ fs correlatedPaths events) (hp : fs.read p = some e) (deletedRoot : Bool) :
    DirectoriesAbove w s₀ fs p (before ++ events)
      (handleEvents w correlatedPaths s deletedRoot events).1 := by
  refine handleEvents_invariant before h ?_ ?_ hdirs deletedRoot
  · exact fun _ _ event _ hskips hP => hP.pass (not_sweeps_of_skips h hskips)
  · exact fun _ _ event hev hskips hP =>
      hP.perform (h.answers event hev) (h.removed event hev) hp (skips_nil hskips).1

/-- No indexed directory above the path has another one in its place. -/
def Unreplaced (s : MacState) (fs : FileSystem) (p : Str) : Prop :=
  ∀ x d a, Below slash x p → s.identities.find x = some d → fs.read x = some a →
    d.identity = a.identity

/-- The indexes agree about the path and what is above it, and hold there what they held at the
start or what is there now; no deletion stands for the path as long as it is indexed. -/
structure InPlace (s₀ : MacState) (fs : FileSystem) (p : Str) (e : IndexedPath) (s : MacState) :
    Prop where
  agree : ∀ x, Under slash x p → s.AgreesAt x
  origin : ∀ x d, Below slash x p → s.identities.find x = some d →
    s₀.identities.find x = some d ∨ fs.read x = some d
  events : ∀ d, s.identities.find p = some d → d.isDirectory = e.isDirectory →
    s.mEvents.NotDeleted (p, entryKind e.isDirectory)

theorem SameAt.notDeleted {s' : MacState} (h : SameAt s s' p) {kind : EntryKind}
    (hnot : s.mEvents.NotDeleted (p, kind)) : s'.mEvents.NotDeleted (p, kind) := by
  intro ev hev
  rw [h.2] at hev
  exact hnot ev hev

/-- A record of a path that is not indexed with its kind clears a deletion. -/
theorem notDeleted_recordCreatedPath (s : MacState) (p : Str) (e : IndexedPath)
    (h : ∀ d, s.identities.find p = some d → d.isDirectory = e.isDirectory →
      s.mEvents.NotDeleted (p, entryKind e.isDirectory)) :
    (s.recordCreatedPath p e).mEvents.NotDeleted (p, entryKind e.isDirectory) := by
  by_cases hkind : ((s.identities.find p).any fun d => d.isDirectory == e.isDirectory) = true
  · obtain ⟨d, hd, hsame⟩ := (Option.any_eq_true _ _).mp hkind
    exact (recordCreatedPath_self s p e).2 (h d hd (eq_of_beq hsame))
  · have hcreated : (s.recordCreatedPath p e).mEvents =
        (s.droppedEvents p e).create p (entryKind e.isDirectory) := by
      unfold recordCreatedPath droppedEvents
      dsimp only
      rw [← mEvents_dropPrevious s p _ ((s.identities.find p).any fun d =>
        d.identity == e.identity && d.isDirectory == e.isDirectory)]
      cases hd : s.identities.find p with
      | none => simp [writeBoth]
      | some d =>
          rw [hd, Option.any_some] at hkind
          cases hdir : d.isDirectory <;> cases hdir' : e.isDirectory <;>
            simp [hdir, hdir', writeBoth] at hkind ⊢
    rw [hcreated]
    exact EventList.notDeleted_create _ _ _

section InPlace

variable (hp : fs.read p = some e)
include hp

theorem InPlace.recordCreatedPath (h : InPlace s₀ fs p e s) (hunreplaced : Unreplaced s₀ fs p)
    {x : Str} {a : IndexedPath} (hx : fs.read x = some a) :
    InPlace s₀ fs p e (s.recordCreatedPath x a) := by
  constructor
  case agree =>
    intro y hy
    refine AgreesAt.recordCreatedPath (h.agree y hy) (fun hxy => h.agree x (hxy.trans hy))
      fun hbelow => Bool.eq_false_iff.mpr fun hreplaces => ?_
    obtain ⟨d, hd, htest⟩ := (Option.any_eq_true _ _).mp hreplaces
    rw [Bool.and_eq_true, bne_iff_ne] at htest
    have habove := hbelow.trans_under hy
    apply htest.2
    rcases h.origin x d habove hd with hold | hnow
    · exact hunreplaced x d a habove hold hx
    · rw [Option.some.inj (hnow.symm.trans hx)]
  case origin =>
    intro y d hy hd
    rw [identities_recordCreatedPath, IdentityIndex.find_record] at hd
    split at hd
    next heq =>
        right
        rw [heq, hx, hd]
    next =>
        split at hd
        · cases hd
        · exact h.origin y d hy hd
  case events =>
    intro d hd hkind
    by_cases hne : p = x
    · subst hne
      obtain rfl := Option.some.inj (hp.symm.trans hx)
      exact notDeleted_recordCreatedPath s p e h.events
    · have hsame : SameAt s (s.recordCreatedPath x a) p := by
        refine sameAt_recordCreatedPath s hne fun hdrop hbelow => ?_
        have hdir := FileSystem.isDirectory_above hx hp hbelow
        obtain ⟨d', -, hkinds⟩ := (Option.any_eq_true _ _).mp hdrop
        rw [hdir, Bool.not_true, Bool.and_false] at hkinds
        cases hkinds
      exact hsame.notDeleted (h.events d (hsame.1 ▸ hd) hkind)

theorem InPlace.recordAll (h : InPlace s₀ fs p e s) (hunreplaced : Unreplaced s₀ fs p)
    {recorded : List (Str × IndexedPath)} (hrecorded : ∀ b ∈ recorded, fs.read b.1 = some b.2) :
    InPlace s₀ fs p e (s.recordAll recorded) := by
  induction recorded generalizing s with
  | nil => exact h
  | cons b recorded ih =>
      exact ih (h.recordCreatedPath hp hunreplaced (hrecorded b List.mem_cons_self))
        fun b' hb' => hrecorded b' (List.mem_cons_of_mem _ hb')

omit hp in
theorem InPlace.recordError (h : InPlace s₀ fs p e s) (w : MacWatcher) (outcome : ScanOutcome) :
    InPlace s₀ fs p e (s.recordError w outcome) := by
  cases outcome with
  | throws error => exact ⟨h.agree, h.origin, h.events⟩
  | _ => exact h

theorem InPlace.addCreatedPath (h : InPlace s₀ fs p e s) (hunreplaced : Unreplaced s₀ fs p)
    (hanswers : fs.Answers event) :
    InPlace s₀ fs p e (s.addCreatedPath w event.createdAnswer event.walk event.path) := by
  unfold MacState.addCreatedPath
  rw [hanswers.created]
  split
  · exact h
  next entry hentry =>
      split
      · exact h.recordCreatedPath hp hunreplaced hentry
      next hdir =>
          have hlists := hanswers.walk (by
            rw [show fs.read event.path = some entry from hentry, Option.any_some]
            simpa using hdir)
          refine InPlace.recordError (h.recordAll hp hunreplaced fun b hb => ?_) w _
          exact (hlists.recorded w.isIgnored hb).1

omit hp in
theorem InPlace.removeIndexedPath (h : InPlace s₀ fs p e s) {x : Str} (hne : p ≠ x) :
    InPlace s₀ fs p e (s.removeIndexedPath x) := by
  have hfind : ∀ y d, (s.removeIndexedPath x).identities.find y = some d →
      s.identities.find y = some d ∧ ¬ (s.identities.isDirectoryAt x = true ∧ Under slash x y) := by
    intro y d hd
    cases hx : s.identities.find x with
    | none =>
        have hsame : s.removeIndexedPath x = s := by
          unfold MacState.removeIndexedPath
          rw [hx]
        rw [hsame] at hd
        refine ⟨hd, fun hdir => ?_⟩
        rw [IdentityIndex.isDirectoryAt, hx] at hdir
        cases hdir.1
    | some a =>
        rw [identities_removeIndexedPath s hx, IdentityIndex.find_remove] at hd
        split at hd
        · cases hd
        next hkept =>
            refine ⟨hd, fun hdir => hkept (Or.inr ⟨?_, hdir.2⟩)⟩
            have hat := hdir.1
            rw [IdentityIndex.isDirectoryAt, hx, Option.any_some] at hat
            rw [IdentityIndex.isFileAt, hx, Option.any_some, hat]
            rfl
  constructor
  case agree => exact fun y hy =>
    AgreesAt.removeIndexedPath (h.agree y hy) fun hxy => h.agree x (hxy.trans hy)
  case origin => exact fun y d hy hd => h.origin y d hy (hfind y d hd).1
  case events =>
    intro d hd hkind
    obtain ⟨hbefore, hkept⟩ := hfind p d hd
    refine (sameAt_removeIndexedPath_of_above s hne fun hbelow => ?_).notDeleted
      (h.events d hbefore hkind)
    exact Bool.eq_false_iff.mpr fun hdir => hkept ⟨hdir, hbelow.under⟩

/-- One event. -/
theorem InPlace.perform (h : InPlace s₀ fs p e s) (hunreplaced : Unreplaced s₀ fs p)
    (hanswers : fs.Answers event) (hremoved : event.onlyRemoved = false) :
    InPlace s₀ fs p e (s.perform w event (s.branchOf event)) := by
  have hreads := branchReads_branchOf s hanswers hremoved
  have hfits : Under slash event.path p → s.BranchFits event.path (s.branchOf event) :=
    fun hunder => branchFits_branchOf (h.agree _ hunder)
  have horigin : ∀ indexed, fs.read event.path = some indexed → ∀ y d, Below slash y p →
      (s.identities.add event.path indexed).find y = some d →
        s₀.identities.find y = some d ∨ fs.read y = some d := by
    intro indexed hindexed y d hy hd
    rw [IdentityIndex.find_add] at hd
    split at hd
    next heq =>
        right
        rw [heq, hindexed, hd]
    next => exact h.origin y d hy hd
  have helsewhere : ∀ indexed, p ≠ event.path → ∀ d,
      (s.identities.add event.path indexed).find p = some d → s.identities.find p = some d := by
    intro indexed hne d hd
    rw [IdentityIndex.find_add, if_neg hne] at hd
    exact hd
  have hentry := tree_find_of_overwrite s event
  cases hb : s.branchOf event <;> rw [hb] at hreads hfits
  case addCreatedPath => exact h.addCreatedPath hp hunreplaced hanswers
  case removeIndexedPath =>
    have hnone : fs.read event.path = none := hreads
    refine h.removeIndexedPath ?_
    rintro rfl
    rw [hp] at hnone
    cases hnone
  case unchanged => exact h
  case overwrite indexed =>
    refine ⟨fun y hy => AgreesAt.writeBoth (h.agree y hy) fun heq => hfits (heq ▸ hy),
      horigin indexed hreads, fun d hd hkind => ?_⟩
    refine EventList.NotDeleted.update ?_ _ _
    by_cases heq : p = event.path
    · -- The tree has the path, so that the identities have it too.
      subst heq
      obtain rfl := Option.some.inj (hp.symm.trans hreads)
      have hagree := h.agree event.path (Under.refl _)
      cases hfound : s.identities.find event.path with
      | none =>
          rw [AgreesAt, IdentityIndex.view, hfound, DirTree.view, Option.map_none,
            Option.map_eq_none_iff] at hagree
          have hsome := hentry e hb
          rw [hagree] at hsome
          cases hsome
      | some d' => exact h.events d' hfound (hfits (Under.refl _) d' hfound)
    · exact h.events d (helsewhere indexed heq d hd) hkind
  case addNew indexed =>
    refine ⟨fun y hy => AgreesAt.addNew (h.agree y hy) fun heq => hfits (heq ▸ hy),
      horigin indexed hreads, fun d hd hkind => ?_⟩
    by_cases heq : p = event.path
    · subst heq
      obtain rfl := Option.some.inj (hp.symm.trans hreads)
      exact EventList.notDeleted_create _ _ _
    · refine EventList.NotDeleted.create ?_ _ _
      exact h.events d (helsewhere indexed heq d hd) hkind

/-- Run lemma: the loop. -/
theorem InPlace.handleEvents (h : InPlace s₀ fs p e s) (hunreplaced : Unreplaced s₀ fs p)
    (hinput : LoopInput s₀ fs correlatedPaths events) (deletedRoot : Bool) :
    InPlace s₀ fs p e (handleEvents w correlatedPaths s deletedRoot events).1 :=
  handleEvents_invariant (P := fun _ s => InPlace s₀ fs p e s) [] hinput
    (fun _ _ _ _ _ hP => hP)
    (fun _ _ event hev _ hP =>
      hP.perform hp hunreplaced (hinput.answers event hev) (hinput.removed event hev))
    h deletedRoot

end InPlace

end MacState

end NativeWatcher
