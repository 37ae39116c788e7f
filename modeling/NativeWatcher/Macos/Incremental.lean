import NativeWatcher.Macos.Sweeps

/-!
# Events handled one by one

What a batch that needs no rescan leaves, when the file system does not change while it
is handled: a path that exists and that one of the events names stays in the index, and
no delete event is reported for it.
-/

namespace NativeWatcher

open Hierarchy FSEventStreamEventFlag

/-! ## What is to hold -/

/-- `p` was the only path of a file that renamed events show gone from there and present,
with one link, at `q` and nowhere else, where nothing was indexed. -/
structure MovedTo (w : MacWatcher) (s : MacState) (fs : FileSystem)
    (events : List PendingEvent) (p q : Str) (o n : IndexedPath) : Prop where
  source : NamesRenamed w events p
  target : NamesRenamed w events q
  before : s.identities.find p = some o
  after : fs.read q = some n
  identity : n.identity = o.identity
  gone : ∀ a, fs.read p = some a → a.identity ≠ o.identity
  vacant : s.identities.find q = none
  onlySource : ∀ p' o', s.identities.find p' = some o' → o'.identity = o.identity → p' = p
  onlyTarget : ∀ q' n', NamesRenamed w events q' → fs.read q' = some n' →
    n'.identity = o.identity → q' = q
  files : o.isDirectory = false ∧ n.isDirectory = false
  links : o.linkCount = 1 ∧ n.linkCount = 1

namespace MacState

variable {fs : FileSystem} {p : Str} {e : IndexedPath}

/-! ## The candidates of a batch -/

/-- The file that was indexed at the path is not there. -/
def Gone (s : MacState) (fs : FileSystem) (p : Str) (o : IndexedPath) : Prop :=
  s.identities.find p = some o ∧ ∀ a, fs.read p = some a → a.identity ≠ o.identity

/-- The file at the path is not the one indexed there. -/
def Appeared (s : MacState) (fs : FileSystem) (q : Str) (n : IndexedPath) : Prop :=
  fs.read q = some n ∧ ∀ b, s.identities.find q = some b → b.identity ≠ n.identity

/-- What the first loop of `correlateRenames` has collected from the events. -/
structure CollectedFrom (w : MacWatcher) (s : MacState) (fs : FileSystem)
    (events : List PendingEvent) (c : RenameCandidates × RenameCandidates) : Prop where
  removed : ∀ i p o, (c.1.paths i).lookup p = some o ↔
    NamesRenamed w events p ∧ Gone s fs p o ∧ o.identity = i
  created : ∀ i p n, (c.2.paths i).lookup p = some n ↔
    NamesRenamed w events p ∧ Appeared s fs p n ∧ n.identity = i

theorem namesRenamed_append {w : MacWatcher} {events : List PendingEvent} {event : PendingEvent}
    {p : Str} : NamesRenamed w (events ++ [event]) p ↔
      NamesRenamed w events p ∨
        (event.path = p ∧ w.isIgnored p = false ∧ hasFlag event.flags ItemRenamed = true) := by
  unfold NamesRenamed
  simp only [List.mem_append, List.mem_singleton, or_and_right, exists_or, exists_eq_left]

/-- Putting the entry of a path that has one entry. -/
theorem lookup_put_iff {c : RenameCandidates} {b : IndexedPath} {q : Str}
    {P : Str → Prop} {Entry : Str → IndexedPath → Prop}
    (h : ∀ i p o, (c.paths i).lookup p = some o ↔ P p ∧ Entry p o ∧ o.identity = i)
    (hb : Entry q b) (honly : ∀ o, Entry q o → o = b) (i : FileIdentity) (p : Str)
    (o : IndexedPath) : ((c.put q b).paths i).lookup p = some o ↔
      (P p ∨ q = p) ∧ Entry p o ∧ o.identity = i := by
  rw [RenameCandidates.lookup_paths_put]
  split
  next heq =>
      obtain ⟨rfl, rfl⟩ := heq
      constructor
      · intro ho
        obtain rfl := Option.some.inj ho
        exact ⟨Or.inr rfl, hb, rfl⟩
      · rintro ⟨-, ho, -⟩
        rw [honly o ho]
  next hne =>
      rw [h]
      constructor
      · rintro ⟨hP, ho⟩
        exact ⟨Or.inl hP, ho⟩
      · rintro ⟨hP | rfl, ho, hi⟩
        · exact ⟨hP, ho, hi⟩
        · exact absurd ⟨(honly o ho ▸ hi).symm, rfl⟩ hne

theorem lookup_skip_iff {c : RenameCandidates} {q : Str} {P : Str → Prop}
    {Entry : Str → IndexedPath → Prop}
    (h : ∀ i p o, (c.paths i).lookup p = some o ↔ P p ∧ Entry p o ∧ o.identity = i)
    (hnone : ∀ o, ¬ Entry q o) (i : FileIdentity) (p : Str) (o : IndexedPath) :
    (c.paths i).lookup p = some o ↔ (P p ∨ q = p) ∧ Entry p o ∧ o.identity = i := by
  rw [h]
  constructor
  · rintro ⟨hP, ho⟩
    exact ⟨Or.inl hP, ho⟩
  · rintro ⟨hP | rfl, ho, hi⟩
    · exact ⟨hP, ho, hi⟩
    · exact absurd ho (hnone o)

theorem CollectedFrom.snoc {w : MacWatcher} {s : MacState} {events : List PendingEvent}
    {c : RenameCandidates × RenameCandidates} (h : CollectedFrom w s fs events c)
    {event : PendingEvent} (hanswers : fs.Answers event) :
    CollectedFrom w s fs (events ++ [event]) (s.collectCandidates w c event) := by
  obtain ⟨removed, created⟩ := c
  unfold collectCandidates
  split
  next hskip =>
      -- An event that is skipped is no rename, or of an ignored path.
      have hnamed : ∀ p, NamesRenamed w (events ++ [event]) p ↔ NamesRenamed w events p := by
        intro p
        rw [namesRenamed_append]
        refine or_iff_left ?_
        rintro ⟨rfl, hignored, hflag⟩
        simp [hignored, hflag] at hskip
      refine ⟨fun i p o => ?_, fun i p n => ?_⟩
      · rw [hnamed]
        exact h.removed i p o
      · rw [hnamed]
        exact h.created i p n
  next hskip =>
      simp only [Bool.or_eq_true, Bool.not_eq_true', not_or, Bool.not_eq_false,
        Bool.not_eq_true] at hskip
      have hnamed : ∀ p, NamesRenamed w (events ++ [event]) p ↔
          NamesRenamed w events p ∨ event.path = p := by
        intro p
        rw [namesRenamed_append]
        refine or_congr_right ⟨And.left, ?_⟩
        rintro rfl
        exact ⟨rfl, hskip.2, hskip.1⟩
      have hafter : readIndexedPath event.correlateAnswer event.path = fs.read event.path := by
        rw [hanswers.correlate]
        rfl
      dsimp only
      rw [hafter]
      refine ⟨fun i p o => ?_, fun i p n => ?_⟩
      · rw [hnamed]
        cases hfind : s.identities.find event.path with
        | none =>
            refine lookup_skip_iff h.removed (fun o ho => ?_) i p o
            rw [ho.1] at hfind
            cases hfind
        | some b =>
            dsimp only
            split
            next hsame =>
                -- The path still has its identity, so that nothing left it.
                obtain ⟨a, ha, hid⟩ := (Option.any_eq_true _ _).mp hsame
                refine lookup_skip_iff h.removed (fun o ho => ?_) i p o
                have hbo := hfind.symm.trans ho.1
                obtain rfl := Option.some.inj hbo
                exact ho.2 a ha (eq_of_beq hid).symm
            next hdiffers =>
                refine lookup_put_iff h.removed ⟨hfind, fun a ha hid => hdiffers ?_⟩
                  (fun o ho => ?_) i p o
                · rw [ha, Option.any_some, hid]
                  exact beq_self_eq_true _
                · exact Option.some.inj (ho.1.symm.trans hfind)
      · rw [hnamed]
        cases hread : fs.read event.path with
        | none =>
            refine lookup_skip_iff h.created (fun n hn => ?_) i p n
            rw [hn.1] at hread
            cases hread
        | some a =>
            dsimp only
            split
            next hsame =>
                -- It had that identity before, so that nothing came to it.
                obtain ⟨b, hb, hid⟩ := (Option.any_eq_true _ _).mp hsame
                refine lookup_skip_iff h.created (fun n hn => ?_) i p n
                have han := hread.symm.trans hn.1
                obtain rfl := Option.some.inj han
                exact hn.2 b hb (eq_of_beq hid)
            next hdiffers =>
                refine lookup_put_iff h.created ⟨hread, fun b hb hid => hdiffers ?_⟩
                  (fun n hn => ?_) i p n
                · rw [hb, Option.any_some, hid]
                  exact beq_self_eq_true _
                · exact Option.some.inj (hn.1.symm.trans hread)

/-- The second loop of `correlateRenames` takes the pair for a rename. -/
structure Correlates (created : RenameCandidates) (s : MacState)
    (b : FileIdentity × FiniteMap Str IndexedPath) (oldPath newPath : Str)
    (oldEntry newEntry : IndexedPath) : Prop where
  removed : b.2.pairs = [(oldPath, oldEntry)]
  created : (created.paths b.1).pairs = [(newPath, newEntry)]
  count : s.identities.pathCount b.1 = 1
  vacant : s.identities.find newPath = none
  files : oldEntry.isDirectory = false ∧ newEntry.isDirectory = false
  links : oldEntry.linkCount = 1 ∧ newEntry.linkCount = 1

/-- The state after that rename. -/
def renamed (s : MacState) (oldPath newPath : Str) (oldEntry newEntry : IndexedPath) : MacState :=
  { s with
    renameSequence := s.renameSequence + 1
    mEvents := s.mEvents.rename oldPath newPath (fseventsId (s.renameSequence + 1))
      (entryKind oldEntry.isDirectory)
    identities := (s.identities.rename oldPath newPath).add newPath newEntry
    tree := (s.tree.remove oldPath).add newPath newEntry.mtime newEntry.isDirectory }

theorem correlateIdentity_of_correlates {created : RenameCandidates} {s : MacState}
    {handled : List Str} {b : FileIdentity × FiniteMap Str IndexedPath} {oldPath newPath : Str}
    {oldEntry newEntry : IndexedPath}
    (h : Correlates created s b oldPath newPath oldEntry newEntry) :
    correlateIdentity created (s, handled) b =
      (s.renamed oldPath newPath oldEntry newEntry, oldPath :: newPath :: handled) := by
  unfold correlateIdentity
  simp only [h.removed, h.created, h.count, h.vacant, h.files.1, h.files.2, h.links.1, h.links.2]
  simp only [bne_self_eq_false, Option.isSome_none, Bool.or_self, Bool.false_eq_true, if_false]
  rw [renamed, h.files.1, h.files.2]

theorem correlateIdentity_cases (created : RenameCandidates) (r : MacState × List Str)
    (b : FileIdentity × FiniteMap Str IndexedPath) :
    correlateIdentity created r b = r ∨
      ∃ oldPath newPath oldEntry newEntry,
        Correlates created r.1 b oldPath newPath oldEntry newEntry := by
  obtain ⟨s, handled⟩ := r
  unfold correlateIdentity
  dsimp only
  split
  next oldPath oldEntry newPath newEntry hold hnew =>
      split
      · exact Or.inl rfl
      next hcond =>
          simp only [Bool.or_eq_true, bne_iff_ne, not_or, Bool.not_eq_true, not_not,
            Option.isSome_eq_false_iff, Option.isNone_iff_eq_none] at hcond
          obtain ⟨⟨⟨⟨⟨hcount, hvacant⟩, holdFile⟩, hnewFile⟩, holdLink⟩, hnewLink⟩ := hcond
          exact Or.inr ⟨oldPath, newPath, oldEntry, newEntry, hold, hnew, hcount, hvacant,
            ⟨holdFile, hnewFile⟩, ⟨holdLink, hnewLink⟩⟩
  next => exact Or.inl rfl

theorem find_renamed {s : MacState} {oldPath : Str} (newPath : Str) {oldEntry : IndexedPath}
    (newEntry : IndexedPath) (hold : s.identities.find oldPath = some oldEntry)
    (hfile : oldEntry.isDirectory = false) (p : Str) :
    (s.renamed oldPath newPath oldEntry newEntry).identities.find p =
      if p = newPath then some newEntry
      else if p = oldPath then none else s.identities.find p := by
  show ((s.identities.rename oldPath newPath).add newPath newEntry).find p = _
  rw [IdentityIndex.find_add, IdentityIndex.find_rename_of_file hold hfile]
  split <;> rfl

section Correlates

variable {created : RenameCandidates} {s : MacState} {b : FileIdentity × FiniteMap Str IndexedPath}
  {l : List (FileIdentity × FiniteMap Str IndexedPath)} {oldPath newPath : Str}
  {oldEntry newEntry : IndexedPath}

theorem Correlates.ne_newPath (hcorr : Correlates created s b oldPath newPath oldEntry newEntry)
    {p : Str} {e : IndexedPath} (hp : s.identities.find p = some e) : p ≠ newPath := by
  rintro rfl
  have hnull := hcorr.vacant
  rw [hp] at hnull
  cases hnull

theorem Correlates.find_old (hcorr : Correlates created s b oldPath newPath oldEntry newEntry)
    (h : s.Pending (b :: l)) :
    s.identities.find oldPath = some oldEntry ∧ oldEntry.identity = b.1 :=
  h b List.mem_cons_self oldPath oldEntry (by simp [hcorr.removed])

theorem Correlates.find_kept (hcorr : Correlates created s b oldPath newPath oldEntry newEntry)
    (h : s.Pending (b :: l)) {p : Str} {e : IndexedPath} (hp : s.identities.find p = some e)
    (hpo : p ≠ oldPath) :
    (s.renamed oldPath newPath oldEntry newEntry).identities.find p = some e := by
  rw [find_renamed newPath newEntry (hcorr.find_old h).1 hcorr.files.1,
    if_neg (hcorr.ne_newPath hp), if_neg hpo, hp]

end Correlates

/-- What is still ahead of the second loop stays indexed as it was collected. -/
theorem Pending.renamed {created : RenameCandidates} {s : MacState}
    {b : FileIdentity × FiniteMap Str IndexedPath}
    {l : List (FileIdentity × FiniteMap Str IndexedPath)} {oldPath newPath : Str}
    {oldEntry newEntry : IndexedPath} (h : s.Pending (b :: l)) (hfresh : b.1 ∉ l.map Prod.fst)
    (hcorr : Correlates created s b oldPath newPath oldEntry newEntry) :
    (s.renamed oldPath newPath oldEntry newEntry).Pending l := by
  obtain ⟨hfind, hid⟩ := hcorr.find_old h
  intro b' hb' p e hmem
  obtain ⟨hp, hi⟩ := h b' (List.mem_cons_of_mem _ hb') p e hmem
  have hpo : p ≠ oldPath := by
    rintro rfl
    rw [hfind] at hp
    obtain rfl := Option.some.inj hp
    exact hfresh (hid ▸ hi ▸ List.mem_map_of_mem hb')
  exact ⟨hcorr.find_kept h hp hpo, hi⟩

/-- The second loop of `correlateRenames`, with the identities `l` still ahead: no existing
path was moved away, and what was added is there. -/
structure Correlating (w : MacWatcher) (s₀ : MacState) (fs : FileSystem)
    (events : List PendingEvent) (l : List (FileIdentity × FiniteMap Str IndexedPath))
    (r : MacState × List Str) : Prop where
  pending : r.1.Pending l
  old : ∀ p d, s₀.identities.find p = some d → r.1.identities.find p = some d ∨
    (fs.read p = none ∧ d.identity ∉ l.map Prod.fst)
  new : ∀ p d, r.1.identities.find p = some d → s₀.identities.find p = some d ∨
    (fs.read p = some d ∧ d.identity ∉ l.map Prod.fst)
  handled : ∀ p ∈ r.2, ∀ e, fs.read p = some e → r.1.identities.find p = some e ∧
    ∃ q o n, MovedTo w s₀ fs events q p o n
  told : ∀ p e kind, fs.read p = some e → r.1.mEvents.NotDeleted (p, kind)

variable {w : MacWatcher} {s₀ : MacState} {events : List PendingEvent}
  {c : RenameCandidates × RenameCandidates}

section Correlating

variable {b : FileIdentity × FiniteMap Str IndexedPath}
  {l : List (FileIdentity × FiniteMap Str IndexedPath)} {s : MacState} {oldPath newPath : Str}
  {oldEntry newEntry : IndexedPath}

/-- What was collected of the pair, in terms of the state at the start and the file system. -/
theorem Correlates.collected (hcorr : Correlates c.2 s b oldPath newPath oldEntry newEntry)
    (hc : CollectedFrom w s₀ fs events c) (hb : c.1.paths b.1 = b.2) :
    (NamesRenamed w events oldPath ∧ Gone s₀ fs oldPath oldEntry ∧ oldEntry.identity = b.1) ∧
      NamesRenamed w events newPath ∧ Appeared s₀ fs newPath newEntry ∧
        newEntry.identity = b.1 := by
  constructor
  · rw [← hc.removed, hb]
    exact FiniteMap.mem_pairs.mp (by simp [hcorr.removed])
  · rw [← hc.created]
    exact FiniteMap.mem_pairs.mp (by simp [hcorr.created])

theorem not_mem_of_not_mem_cons {i : FileIdentity} (hi : i ∉ (b :: l).map Prod.fst) :
    i ∉ l.map Prod.fst :=
  fun hmem => hi (List.mem_cons_of_mem _ hmem)

/-- An identity is passed over. -/
theorem Correlating.tail {r : MacState × List Str} (h : Correlating w s₀ fs events (b :: l) r) :
    Correlating w s₀ fs events l r where
  pending b' hb' := h.pending b' (List.mem_cons_of_mem _ hb')
  old p d hd := (h.old p d hd).imp_right fun hnone => ⟨hnone.1, not_mem_of_not_mem_cons hnone.2⟩
  new p d hd := (h.new p d hd).imp_right fun hread => ⟨hread.1, not_mem_of_not_mem_cons hread.2⟩
  handled := h.handled
  told := h.told

/-- What the loop takes for a rename was one in the state at the start. -/
theorem Correlating.movedTo {handled : List Str}
    (h : Correlating w s₀ fs events (b :: l) (s, handled))
    (hc : CollectedFrom w s₀ fs events c) (hb : c.1.paths b.1 = b.2)
    (hcorr : Correlates c.2 s b oldPath newPath oldEntry newEntry) :
    MovedTo w s₀ fs events oldPath newPath oldEntry newEntry := by
  obtain ⟨hfind, hid⟩ := hcorr.find_old h.pending
  obtain ⟨hsource, htarget⟩ := hcorr.collected hc hb
  have hcount : s.identities.pathCount oldEntry.identity = 1 := hid ▸ hcorr.count
  have honly := (IdentityIndex.pathCount_eq_one_iff hfind).mp hcount
  -- Nothing of this identity was moved away before.
  have hstill : ∀ p d, s₀.identities.find p = some d → d.identity = oldEntry.identity →
      p = oldPath := by
    intro p d hd hdid
    rcases h.old p d hd with hold | ⟨-, hgone⟩
    · exact honly p d hold hdid
    · exact absurd (hdid.trans hid ▸ List.mem_cons_self) hgone
  have hvacant : s₀.identities.find newPath = none := by
    cases hnew : s₀.identities.find newPath with
    | none => rfl
    | some d =>
        rcases h.old newPath d hnew with hold | ⟨hnone, -⟩
        · exact absurd rfl (hcorr.ne_newPath hold)
        · rw [htarget.2.1.1] at hnone
          cases hnone
  refine ⟨hsource.1, htarget.1, hsource.2.1.1, htarget.2.1.1, htarget.2.2.trans hid.symm,
    hsource.2.1.2, hvacant, hstill, fun q' n' hq' hn' hid' => ?_, hcorr.files, hcorr.links⟩
  -- A second target of the identity would have been collected as well.
  have hcreated : (c.2.paths b.1).lookup q' = some n' := by
    refine (hc.created b.1 q' n').mpr ⟨hq', ⟨hn', fun b' hb' hbid => ?_⟩, hid'.trans hid⟩
    have hold : q' = oldPath := hstill q' b' hb' (hbid.trans hid')
    exact hsource.2.1.2 n' (hold ▸ hn') hid'
  have hmem := FiniteMap.mem_pairs.mpr hcreated
  rw [hcorr.created, List.mem_singleton] at hmem
  exact congrArg Prod.fst hmem

/-- A file is moved. -/
theorem Correlating.renamed {handled : List Str}
    (h : Correlating w s₀ fs events (b :: l) (s, handled))
    (hc : CollectedFrom w s₀ fs events c) (hb : c.1.paths b.1 = b.2)
    (hfresh : b.1 ∉ l.map Prod.fst)
    (hcorr : Correlates c.2 s b oldPath newPath oldEntry newEntry)
    (hnone : fs.read oldPath = none) :
    Correlating w s₀ fs events l
      (s.renamed oldPath newPath oldEntry newEntry, oldPath :: newPath :: handled) := by
  obtain ⟨hfind, hid⟩ := hcorr.find_old h.pending
  obtain ⟨-, -, happeared, htid⟩ := hcorr.collected hc hb
  have hne : oldPath ≠ newPath := hcorr.ne_newPath hfind
  have hindex := find_renamed newPath newEntry hfind hcorr.files.1
  constructor
  case pending => exact h.pending.renamed hfresh hcorr
  case old =>
    intro p d hd
    rcases h.old p d hd with hp | ⟨hgone, hi⟩
    · by_cases hpo : p = oldPath
      · subst hpo
        rw [hfind] at hp
        obtain rfl := Option.some.inj hp
        exact Or.inr ⟨hnone, hid ▸ hfresh⟩
      · exact Or.inl (hcorr.find_kept h.pending hp hpo)
    · exact Or.inr ⟨hgone, not_mem_of_not_mem_cons hi⟩
  case new =>
    intro p d hd
    rw [hindex] at hd
    split at hd
    next hpn =>
        obtain rfl := Option.some.inj hd
        exact Or.inr ⟨hpn ▸ happeared.1, htid ▸ hfresh⟩
    next =>
        split at hd
        · cases hd
        · exact h.tail.new p d hd
  case handled =>
    intro p hp e he
    have hpo : p ≠ oldPath := by
      rintro rfl
      rw [he] at hnone
      cases hnone
    rcases List.mem_cons.mp hp with rfl | hp
    · exact absurd rfl hpo
    · rcases List.mem_cons.mp hp with rfl | hp
      · rw [happeared.1] at he
        obtain rfl := Option.some.inj he
        refine ⟨?_, oldPath, oldEntry, newEntry, h.movedTo hc hb hcorr⟩
        rw [hindex, if_pos rfl]
      · obtain ⟨hfound, hmoved⟩ := h.handled p hp e he
        exact ⟨hcorr.find_kept h.pending hfound hpo, hmoved⟩
  case told =>
    intro p e kind he
    refine (h.told p e kind he).rename _ (fun heq => ?_) hne
    obtain rfl : p = oldPath := congrArg Prod.fst heq
    rw [he] at hnone
    cases hnone

/-- One identity. -/
theorem Correlating.step {r : MacState × List Str}
    (h : Correlating w s₀ fs events (b :: l) r) (hc : CollectedFrom w s₀ fs events c)
    (hb : c.1.paths b.1 = b.2) (hfresh : b.1 ∉ l.map Prod.fst)
    (hmoved : ∀ p q o n, MovedTo w s₀ fs events p q o n → fs.read p = none) :
    Correlating w s₀ fs events l (correlateIdentity c.2 r b) := by
  obtain ⟨s, handled⟩ := r
  rcases correlateIdentity_cases c.2 (s, handled) b with heq |
    ⟨oldPath, newPath, oldEntry, newEntry, hcorr⟩
  · rw [heq]
    exact h.tail
  · rw [correlateIdentity_of_correlates hcorr]
    exact h.renamed hc hb hfresh hcorr (hmoved _ _ _ _ (h.movedTo hc hb hcorr))

end Correlating

theorem Correlating.foldl {l : List (FileIdentity × FiniteMap Str IndexedPath)}
    {r : MacState × List Str} (h : Correlating w s₀ fs events l r)
    (hc : CollectedFrom w s₀ fs events c) (hl : ∀ b ∈ l, c.1.paths b.1 = b.2) (hnodup : (l.map Prod.fst).Nodup)
    (hmoved : ∀ p q o n, MovedTo w s₀ fs events p q o n → fs.read p = none) :
    Correlating w s₀ fs events [] (l.foldl (correlateIdentity c.2) r) := by
  induction l generalizing r with
  | nil => exact h
  | cons b l ih =>
      rw [List.map_cons, List.nodup_cons] at hnodup
      exact ih (h.step hc (hl b List.mem_cons_self) hnodup.1 hmoved)
        (fun b' hb' => hl b' (List.mem_cons_of_mem _ hb')) hnodup.2

/-- The renames move files to paths that are there: of what is not there, the index keeps the
directories. -/
structure KeepsDirectories (s₀ : MacState) (fs : FileSystem)
    (l : List (FileIdentity × FiniteMap Str IndexedPath)) (r : MacState × List Str) : Prop where
  pending : r.1.Pending l
  same : ∀ x, fs.read x = none →
    r.1.identities.isDirectoryAt x = s₀.identities.isDirectoryAt x
  handled : ∀ x ∈ r.2, fs.read x = none → s₀.identities.isDirectoryAt x = false

theorem KeepsDirectories.step {b : FileIdentity × FiniteMap Str IndexedPath}
    {l : List (FileIdentity × FiniteMap Str IndexedPath)} {r : MacState × List Str}
    (h : KeepsDirectories s₀ fs (b :: l) r) (hc : CollectedFrom w s₀ fs events c)
    (hb : c.1.paths b.1 = b.2) (hfresh : b.1 ∉ l.map Prod.fst) :
    KeepsDirectories s₀ fs l (correlateIdentity c.2 r b) := by
  obtain ⟨s, handled⟩ := r
  rcases correlateIdentity_cases c.2 (s, handled) b with heq |
    ⟨oldPath, newPath, oldEntry, newEntry, hcorr⟩
  · rw [heq]
    exact ⟨fun b' hb' => h.pending b' (List.mem_cons_of_mem _ hb'), h.same, h.handled⟩
  · rw [correlateIdentity_of_correlates hcorr]
    have hfind := (hcorr.find_old h.pending).1
    have hfile : s.identities.isDirectoryAt oldPath = false := by
      rw [IdentityIndex.isDirectoryAt, hfind, Option.any_some, hcorr.files.1]
    have hthere := (hcorr.collected hc hb).2.2.1.1
    have hnew : ∀ x, fs.read x = none → x ≠ newPath := by
      rintro x hx rfl
      rw [hx] at hthere
      cases hthere
    refine ⟨h.pending.renamed hfresh hcorr, fun x hx => ?_, fun x hx hnone => ?_⟩
    · rw [← h.same x hx, IdentityIndex.isDirectoryAt,
        find_renamed newPath newEntry hfind hcorr.files.1, if_neg (hnew x hx)]
      split
      next heq =>
          rw [heq, hfile]
          rfl
      next => rfl
    · rcases List.mem_cons.mp hx with rfl | hx
      · exact (h.same x hnone).symm.trans hfile
      · rcases List.mem_cons.mp hx with rfl | hx
        · exact absurd rfl (hnew x hnone)
        · exact h.handled x hx hnone

theorem KeepsDirectories.foldl {l : List (FileIdentity × FiniteMap Str IndexedPath)}
    {r : MacState × List Str} (h : KeepsDirectories s₀ fs l r)
    (hc : CollectedFrom w s₀ fs events c) (hl : ∀ b ∈ l, c.1.paths b.1 = b.2)
    (hnodup : (l.map Prod.fst).Nodup) :
    KeepsDirectories s₀ fs [] (l.foldl (correlateIdentity c.2) r) := by
  induction l generalizing r with
  | nil => exact h
  | cons b l ih =>
      rw [List.map_cons, List.nodup_cons] at hnodup
      exact ih (h.step hc (hl b List.mem_cons_self) hnodup.1)
        (fun b' hb' => hl b' (List.mem_cons_of_mem _ hb')) hnodup.2

theorem Correlating.indexes {r : MacState × List Str} (h : Correlating w s₀ fs events [] r)
    (hp : fs.read p = some e) (hindexes : s₀.Indexes p e) : r.1.Indexes p e := by
  obtain ⟨d, hd, hsame⟩ := hindexes
  rcases h.old p d hd with hold | ⟨hnone, -⟩
  · exact ⟨d, hold, hsame⟩
  · rw [hp] at hnone
    cases hnone

/-- The loop that moves `p` away: before and after its identity `i`. -/
structure Moving (p q : Str) (o : IndexedPath)
    (l : List (FileIdentity × FiniteMap Str IndexedPath)) (r : MacState × List Str) : Prop where
  pending : r.1.Pending l
  ahead : o.identity ∈ l.map Prod.fst → r.1.identities.find p = some o ∧
    r.1.identities.find q = none ∧
    ∀ p' d, r.1.identities.find p' = some d → d.identity = o.identity → p' = p
  done : o.identity ∉ l.map Prod.fst → r.1.identities.find p = none ∧ p ∈ r.2

section Moving

variable {p q : Str} {o n e : IndexedPath} {b : FileIdentity × FiniteMap Str IndexedPath}
  {l : List (FileIdentity × FiniteMap Str IndexedPath)} {s : MacState} {handled : List Str}

/-- At its identity the pair is taken for a rename. -/
theorem Moving.correlates (h : Moving p q o (b :: l) (s, handled))
    (hc : CollectedFrom w s₀ fs events c) (hb : c.1.paths b.1 = b.2)
    (hmove : MovedTo w s₀ fs events p q o n) (hi : b.1 = o.identity) :
    Correlates c.2 s b p q o n := by
  obtain ⟨hfind, hvacant, honly⟩ := h.ahead (hi ▸ List.mem_cons_self)
  refine ⟨?_, ?_, ?_, hvacant, hmove.files, hmove.links⟩
  · refine FiniteMap.pairs_eq_singleton fun p' o' => ?_
    rw [← hb, hc.removed]
    constructor
    · rintro ⟨-, hgone, hid⟩
      obtain rfl := hmove.onlySource p' o' hgone.1 (hid.trans hi)
      exact ⟨rfl, Option.some.inj (hgone.1.symm.trans hmove.before)⟩
    · rintro ⟨rfl, rfl⟩
      exact ⟨hmove.source, ⟨hmove.before, hmove.gone⟩, hi.symm⟩
  · refine FiniteMap.pairs_eq_singleton fun q' n' => ?_
    rw [hc.created]
    constructor
    · rintro ⟨hq', hthere, hid⟩
      obtain rfl := hmove.onlyTarget q' n' hq' hthere.1 (hid.trans hi)
      exact ⟨rfl, Option.some.inj (hthere.1.symm.trans hmove.after)⟩
    · rintro ⟨rfl, rfl⟩
      refine ⟨hmove.target, ⟨hmove.after, fun d hd => ?_⟩, hmove.identity.trans hi.symm⟩
      rw [hmove.vacant] at hd
      cases hd
  · rw [hi]
    exact (IdentityIndex.pathCount_eq_one_iff hfind).mpr honly

theorem Moving.here (h : Moving p q o (b :: l) (s, handled)) (hfresh : b.1 ∉ l.map Prod.fst)
    (hi : b.1 = o.identity) (hcorr : Correlates c.2 s b p q o n) :
    Moving p q o l (s.renamed p q o n, p :: q :: handled) := by
  have hfind := (hcorr.find_old h.pending).1
  refine ⟨h.pending.renamed hfresh hcorr, fun hmem => absurd (hi ▸ hmem) hfresh,
    fun _ => ⟨?_, List.mem_cons_self⟩⟩
  rw [find_renamed q n hfind hcorr.files.1, if_neg (hcorr.ne_newPath hfind), if_pos rfl]

/-- The rename of another identity leaves the pair as it is. -/
theorem Moving.elsewhere {oldPath newPath : Str} {oldEntry newEntry : IndexedPath}
    (h : Moving p q o (b :: l) (s, handled)) (hc : CollectedFrom w s₀ fs events c)
    (hb : c.1.paths b.1 = b.2) (hfresh : b.1 ∉ l.map Prod.fst)
    (hmove : MovedTo w s₀ fs events p q o n) (he : fs.read p = some e)
    (hnew : ∀ q d, s₀.identities.find q = some d → d.identity ≠ e.identity)
    (hi : b.1 ≠ o.identity)
    (hcons : o.identity ∈ (b :: l).map Prod.fst ↔ o.identity ∈ l.map Prod.fst)
    (hcorr : Correlates c.2 s b oldPath newPath oldEntry newEntry) :
    Moving p q o l
      (s.renamed oldPath newPath oldEntry newEntry, oldPath :: newPath :: handled) := by
  obtain ⟨hfind, hid⟩ := hcorr.find_old h.pending
  obtain ⟨⟨-, hgone, -⟩, -, happeared, htid⟩ := hcorr.collected hc hb
  have hindex := find_renamed newPath newEntry hfind hcorr.files.1
  refine ⟨h.pending.renamed hfresh hcorr, fun hmem => ?_, fun hmem => ?_⟩
  · obtain ⟨hp, hq, honly⟩ := h.ahead (hcons.mpr hmem)
    have hpo : p ≠ oldPath := by
      rintro rfl
      rw [hfind] at hp
      exact hi (hid.symm.trans (congrArg IndexedPath.identity (Option.some.inj hp)))
    have hqn : q ≠ newPath := by
      rintro rfl
      obtain rfl := Option.some.inj (hmove.after.symm.trans happeared.1)
      exact hi (htid.symm.trans hmove.identity)
    refine ⟨hcorr.find_kept h.pending hp hpo, ?_, fun p' d hd hdid => ?_⟩
    · rw [hindex, if_neg hqn]
      split
      · rfl
      · exact hq
    · rw [hindex] at hd
      split at hd
      · obtain rfl := Option.some.inj hd
        exact absurd (htid.symm.trans hdid) hi
      · split at hd
        · cases hd
        · exact honly p' d hd hdid
  · obtain ⟨hp, hhandled⟩ := h.done fun h' => hmem (hcons.mp h')
    have hpn : p ≠ newPath := by
      rintro rfl
      obtain rfl := Option.some.inj (he.symm.trans happeared.1)
      exact hnew oldPath oldEntry hgone.1 (hid.trans htid.symm)
    refine ⟨?_, List.mem_cons_of_mem _ (List.mem_cons_of_mem _ hhandled)⟩
    rw [hindex, if_neg hpn]
    split
    · rfl
    · exact hp

theorem Moving.step {r : MacState × List Str}
    (h : Moving p q o (b :: l) r) (hc : CollectedFrom w s₀ fs events c)
    (hb : c.1.paths b.1 = b.2) (hfresh : b.1 ∉ l.map Prod.fst)
    (hmove : MovedTo w s₀ fs events p q o n) (he : fs.read p = some e)
    (hnew : ∀ q d, s₀.identities.find q = some d → d.identity ≠ e.identity) :
    Moving p q o l (correlateIdentity c.2 r b) := by
  obtain ⟨s, handled⟩ := r
  by_cases hi : b.1 = o.identity
  · have hcorr := h.correlates hc hb hmove hi
    rw [correlateIdentity_of_correlates hcorr]
    exact h.here hfresh hi hcorr
  · have hcons : o.identity ∈ (b :: l).map Prod.fst ↔ o.identity ∈ l.map Prod.fst := by
      rw [List.map_cons, List.mem_cons]
      exact or_iff_right fun heq => hi heq.symm
    rcases correlateIdentity_cases c.2 (s, handled) b with heq |
      ⟨oldPath, newPath, oldEntry, newEntry, hcorr⟩
    · rw [heq]
      exact ⟨fun b' hb' => h.pending b' (List.mem_cons_of_mem _ hb'),
        fun hmem => h.ahead (hcons.mpr hmem), fun hmem => h.done fun h' => hmem (hcons.mp h')⟩
    · rw [correlateIdentity_of_correlates hcorr]
      exact h.elsewhere hc hb hfresh hmove he hnew hi hcons hcorr

end Moving

theorem Moving.foldl {p q : Str} {o n e : IndexedPath}
    {l : List (FileIdentity × FiniteMap Str IndexedPath)} {r : MacState × List Str}
    (h : Moving p q o l r) (hc : CollectedFrom w s₀ fs events c)
    (hl : ∀ b ∈ l, c.1.paths b.1 = b.2) (hnodup : (l.map Prod.fst).Nodup)
    (hmove : MovedTo w s₀ fs events p q o n) (he : fs.read p = some e)
    (hnew : ∀ q d, s₀.identities.find q = some d → d.identity ≠ e.identity) :
    Moving p q o [] (l.foldl (correlateIdentity c.2) r) := by
  induction l generalizing r with
  | nil => exact h
  | cons b l ih =>
      rw [List.map_cons, List.nodup_cons] at hnodup
      exact ih (h.step hc (hl b List.mem_cons_self) hnodup.1 hmove he hnew)
        (fun b' hb' => hl b' (List.mem_cons_of_mem _ hb')) hnodup.2

end MacState

def fileEvent (fs : FileSystem) (path : Str) (flags : UInt32) : PendingEvent where
  path := path
  flags := flags
  rescanAnswer := fs.answer path
  correlateAnswer := fs.answer path
  entryAnswer := fs.answer path
  createdAnswer := fs.answer path
  walk := noScan.walk

end NativeWatcher
