import NativeWatcher.Linux.Findings

/-!
# What a scan leaves behind

The tree after a scan is put together from what the scan finds: the entries that the tree
did not have are added, and what is at or below a directory that is gone is taken out
again.
-/

namespace NativeWatcher

open Hierarchy

variable {W : Type} {w : InotifyWatcher W} {path p : Str}

/-- What becomes of a tree when the entries `fs` are found and the directories `vs` are
gone: `ks` is added, unless it is at or below one of these. -/
structure Outcome (t t' : DirTree) (ks : List EventKey) (fs : List DirEntry) (vs : List Str) :
    Prop where
  fresh : ∀ k ∈ ks, t.find k.1 = none
  sound : ∀ k ∈ ks, ∃ e ∈ fs, e.key = k
  complete : ∀ e ∈ fs, (∀ v ∈ vs, ¬ Under slash v e.path) → (t'.find e.path).isSome
  grown : ∀ k ∈ t'.keys, k ∈ t.keys ∨ k ∈ ks
  kept : ∀ k, k ∈ t.keys ∨ k ∈ ks → (∀ v ∈ vs, ¬ Under slash v k.1) → k ∈ t'.keys
  gone : ∀ v ∈ vs, t'.find v = none
  told : ∀ v ∈ vs, t.find v = none → ∃ kind, (v, kind) ∈ ks

namespace Outcome

variable {t t₁ t₂ : DirTree} {ks ks₁ ks₂ : List EventKey} {fs fs₁ fs₂ : List DirEntry}
  {vs vs₁ vs₂ : List Str}

theorem refl (t : DirTree) : Outcome t t [] [] [] where
  fresh _ h := by cases h
  sound _ h := by cases h
  complete _ h := by cases h
  grown _ h := Or.inl h
  kept _ h _ := h.resolve_right (by simp)
  gone _ h := by cases h
  told _ h := by cases h

/-- A path that a directory gone is not above keeps its entry. -/
theorem find_isSome (h : Outcome t t₁ ks fs vs) (hp : (t.find p).isSome)
    (hv : ∀ v ∈ vs, ¬ Under slash v p) : (t₁.find p).isSome := by
  obtain ⟨e, he⟩ := Option.isSome_iff_exists.mp hp
  have hpath : e.path = p := DirTree.path_of_find he
  have hkey := h.kept e.key (Or.inl (DirTree.key_mem_keys he)) (by
    show ∀ v ∈ vs, ¬ Under slash v e.path
    rw [hpath]
    exact hv)
  obtain ⟨e', he', _⟩ := DirTree.mem_keys.mp hkey
  change t₁.find e.path = some e' at he'
  rw [← hpath, he']
  rfl

/-- What is at a path that was free was taken in. -/
theorem mem_of_find (h : Outcome t t₁ ks fs vs) {e : DirEntry} (he : t₁.find p = some e)
    (hnone : t.find p = none) : e.key ∈ ks := by
  have hpath : e.path = p := DirTree.path_of_find he
  subst hpath
  exact (h.grown e.key (DirTree.key_mem_keys he)).resolve_left
    (DirTree.not_mem_keys_of_find hnone)

/-- One part of a scan after another: what the second finds is not below what the first
saw go. -/
theorem trans (h₁ : Outcome t t₁ ks₁ fs₁ vs₁) (h₂ : Outcome t₁ t₂ ks₂ fs₂ vs₂)
    (hapart : ∀ e ∈ fs₂, ∀ v ∈ vs₁, ¬ Under slash v e.path) :
    Outcome t t₂ (ks₁ ++ ks₂) (fs₁ ++ fs₂) (vs₁ ++ vs₂) := by
  have hclear : ∀ k ∈ ks₂, ∀ v ∈ vs₁, ¬ Under slash v k.1 := by
    intro k hk
    obtain ⟨e, he, rfl⟩ := h₂.sound k hk
    exact hapart e he
  constructor
  case fresh =>
    intro k hk
    rcases List.mem_append.mp hk with hk | hk
    · exact h₁.fresh k hk
    · by_contra hne
      have hsome := h₁.find_isSome (Option.isSome_iff_ne_none.mpr hne) (hclear k hk)
      rw [h₂.fresh k hk] at hsome
      cases hsome
  case sound =>
    intro k hk
    rcases List.mem_append.mp hk with hk | hk
    · obtain ⟨e, he, heq⟩ := h₁.sound k hk
      exact ⟨e, List.mem_append_left _ he, heq⟩
    · obtain ⟨e, he, heq⟩ := h₂.sound k hk
      exact ⟨e, List.mem_append_right _ he, heq⟩
  case complete =>
    intro e he hv
    rw [List.forall_mem_append] at hv
    rcases List.mem_append.mp he with he | he
    · exact h₂.find_isSome (h₁.complete e he hv.1) hv.2
    · exact h₂.complete e he hv.2
  case grown =>
    intro k hk
    rw [List.mem_append, ← or_assoc]
    exact (h₂.grown k hk).imp_left (h₁.grown k)
  case kept =>
    intro k hk hv
    rw [List.forall_mem_append] at hv
    rw [List.mem_append, ← or_assoc] at hk
    exact h₂.kept k (hk.imp_left fun hk => h₁.kept k hk hv.1) hv.2
  case gone =>
    intro v hv
    rcases List.mem_append.mp hv with hv | hv
    · -- The second part finds nothing there again.
      by_contra hne
      obtain ⟨e, he⟩ := Option.ne_none_iff_exists'.mp hne
      have hpath : e.path = v := DirTree.path_of_find he
      exact hclear e.key (h₂.mem_of_find he (h₁.gone v hv)) v hv (hpath ▸ Under.refl _)
    · exact h₂.gone v hv
  case told =>
    intro v hv hnone
    rcases List.mem_append.mp hv with hv | hv
    · obtain ⟨kind, hk⟩ := h₁.told v hv hnone
      exact ⟨kind, List.mem_append_left _ hk⟩
    · cases hfind : t₁.find v with
      | none =>
          obtain ⟨kind, hk⟩ := h₂.told v hv hfind
          exact ⟨kind, List.mem_append_right _ hk⟩
      | some e =>
          refine ⟨entryKind e.isDir, List.mem_append_left _ ?_⟩
          rw [← DirTree.path_of_find hfind]
          exact h₁.mem_of_find hfind hnone

variable {e : DirEntry} {c : Str}

theorem present (h : (t.find e.path).isSome) : Outcome t t [] [e] [] where
  fresh _ h := by cases h
  sound _ h := by cases h
  complete e' he' _ := by
    rw [List.mem_singleton.mp he']
    exact h
  grown _ h := Or.inl h
  kept _ h _ := h.resolve_right (by simp)
  gone _ h := by cases h
  told _ h := by cases h

theorem add (h : t.find e.path = none) :
    Outcome t (t.add e.path e.mtime e.isDir) [e.key] [e] [] where
  fresh k hk := by
    rw [List.mem_singleton.mp hk]
    exact h
  sound k hk := ⟨e, List.mem_singleton_self _, (List.mem_singleton.mp hk).symm⟩
  complete e' he' _ := by
    rw [List.mem_singleton.mp he', DirTree.find_add, if_pos rfl]
    rfl
  grown k hk := by
    rw [List.mem_singleton, or_comm]
    exact (DirTree.mem_keys_add h).mp hk
  kept k hk _ := by
    rw [List.mem_singleton, or_comm] at hk
    exact (DirTree.mem_keys_add h).mpr hk
  gone _ h := by cases h
  told _ h := by cases h

theorem remove (h : (t.find c).isSome) : Outcome t (t.remove c) [] [] [c] where
  fresh _ h := by cases h
  sound _ h := by cases h
  complete _ h := by cases h
  grown k hk := by
    obtain ⟨e, he, heq⟩ := DirTree.mem_keys.mp hk
    rw [DirTree.find_remove] at he
    split at he
    · cases he
    · exact Or.inl (DirTree.mem_keys.mpr ⟨e, he, heq⟩)
  kept k hk hv := by
    have hclear : ¬ Under slash c k.1 := hv c (List.mem_singleton_self c)
    have hfind : (t.remove c).find k.1 = t.find k.1 := by
      rw [DirTree.find_remove, if_neg]
      rintro (heq | ⟨_, hunder⟩)
      · exact hclear (heq ▸ Under.refl _)
      · exact hclear hunder
    exact (DirTree.keys_congr hfind).mpr (hk.resolve_right (by simp))
  gone v hv := by
    rw [List.mem_singleton.mp hv, DirTree.find_remove]
    exact if_pos (Or.inl rfl)
  told v hv hnone := by
    rw [List.mem_singleton.mp hv] at hnone
    rw [hnone] at h
    cases h

end Outcome

/-! ## The functions -/

/-- A part of a scan has the outcome, and announces what it adds if it reports. -/
def Does (reportEvents : Bool) (s s' : ScanState W) (fs : List DirEntry) (vs : List Str) :
    Prop :=
  ∃ ks : List EventKey, Outcome s.tree s'.tree ks fs vs ∧
    s'.calls = s.calls ++ if reportEvents then ks.map .create else []

namespace Does

variable {reportEvents : Bool} {s s₁ s₂ : ScanState W} {fs fs₁ fs₂ : List DirEntry}
  {vs vs₁ vs₂ : List Str}

theorem of_silent (h : Outcome s.tree s₁.tree [] fs vs) (hcalls : s₁.calls = s.calls) :
    Does reportEvents s s₁ fs vs := by
  refine ⟨[], h, ?_⟩
  rw [hcalls]
  cases reportEvents <;> simp

theorem refl (s : ScanState W) : Does reportEvents s s [] [] :=
  of_silent (Outcome.refl _) rfl

theorem trans (h₁ : Does reportEvents s s₁ fs₁ vs₁) (h₂ : Does reportEvents s₁ s₂ fs₂ vs₂)
    (hapart : ∀ e ∈ fs₂, ∀ v ∈ vs₁, ¬ Under slash v e.path) :
    Does reportEvents s s₂ (fs₁ ++ fs₂) (vs₁ ++ vs₂) := by
  obtain ⟨ks₁, ho₁, hc₁⟩ := h₁
  obtain ⟨ks₂, ho₂, hc₂⟩ := h₂
  refine ⟨ks₁ ++ ks₂, ho₁.trans ho₂ hapart, ?_⟩
  rw [hc₂, hc₁]
  cases reportEvents <;> simp

end Does

variable [DecidableEq W] {reportEvents : Bool} {s s' : ScanState W}

omit [DecidableEq W] in
theorem addItem_does (item : DirItem) (s : ScanState W) :
    Does reportEvents s (addItem w reportEvents path item s) (item.entry w path).toList [] := by
  unfold addItem DirItem.entry
  dsimp only
  cases item.listed w path with
  | none => exact .refl s
  | some attributes =>
      dsimp only [Option.map_some, Option.toList_some]
      split
      next hin => exact .of_silent (.present hin) rfl
      next hnew =>
          rw [Option.not_isSome_iff_eq_none] at hnew
          have hadd := Outcome.add (e := ⟨child path item.name,
            convertTime attributes.st_mtim, attributes.isDirectory⟩) hnew
          refine ⟨_, hadd, ?_⟩
          cases reportEvents <;> simp [DirEntry.key]

omit [DecidableEq W] in
theorem readItems_does : ∀ (items : DirItems) (s : ScanState W),
    (reportEvents = false → items.Uncancelled) →
      (readItems w reportEvents path items s).1 = false ∧
        Does reportEvents s (readItems w reportEvents path items s).2 (items.entries w path) []
  | .nil, s, _ => ⟨rfl, .refl s⟩
  | .cons item below rest, s, hrun => by
      have hgo : (!reportEvents && item.cancelled) = false := by
        cases reportEvents with
        | true => rfl
        | false => exact (hrun rfl).1
      have hrest := readItems_does rest (addItem w reportEvents path item s)
        fun hr => (hrun hr).2.2.2
      rw [readItems, if_neg (by simp [hgo])]
      exact ⟨hrest.1, (addItem_does item s).trans hrest.2 fun _ _ _ hv => by cases hv⟩

/-- An error that ends the loop over the subdirectories is not that of one that is gone. -/
theorem addSubdirectories_error {error : Nat} : ∀ (items : DirItems) (s : ScanState W),
    (addSubdirectories w reportEvents path items s).1 = some error → isGone error = false
  | .nil, _, h => by cases h
  | .cons item below rest, s, h => by
      unfold addSubdirectories at h
      split at h
      · split at h
        · cases h
        · dsimp only at h
          split at h
          · exact addSubdirectories_error rest _ h
          · split at h
            · exact addSubdirectories_error rest _ h
            next hstays =>
                cases h
                exact Bool.eq_false_iff.mpr hstays
      · exact addSubdirectories_error rest _ h

theorem addCreatedTree_opened {fstat : Except Nat FileStat} {items : DirItems}
    (hin : (s.tree.find path).isSome) :
    addCreatedTree w reportEvents path (.opened fstat items) s =
      match readItems w reportEvents path items s with
      | (true, s) => (none, s)
      | (false, s) => addSubdirectories w reportEvents path items s := by
  have hdir : addDirectory path fstat s = .ok s := if_pos hin
  unfold addCreatedTree
  split
  next h =>
      rw [hdir] at h
      cases h
  next h =>
      rw [hdir] at h
      cases h
      rfl

theorem addCreatedTree_error {fstat : Except Nat FileStat} {items : DirItems} {error : Nat}
    (hin : (s.tree.find path).isSome)
    (h : (addCreatedTree w reportEvents path (.opened fstat items) s).1 = some error) :
    isGone error = false := by
  rw [addCreatedTree_opened hin] at h
  split at h
  · cases h
  · exact addSubdirectories_error items _ h

/-- What a subdirectory answers: it is gone and nothing was done, or the scan below it ran,
and only errors of other kinds are passed on. -/
theorem watchThen_answers {item : DirItem} {below : DirScan} {error : Option Nat}
    (hin : (s.tree.find path).isSome)
    (h : watchThen w item.faults item.watch path (addCreatedTree w reportEvents path below) s =
      (error, s')) :
    if item.vanishes below then
      (∃ e, error = some e ∧ isGone e = true) ∧ s'.tree = s.tree ∧ s'.calls = s.calls
    else
      (∃ e, error = some e ∧ isGone e = false) ∨
        ∃ table, addCreatedTree w reportEvents path below { s with table := table } =
          (none, s') ∧ error = none := by
  unfold watchThen at h
  cases hw : item.watch with
  | fails e =>
      rw [hw] at h
      cases h
      have hv : item.vanishes below = isGone e := by
        cases below <;> simp [DirItem.vanishes, hw]
      rw [hv]
      cases hgone : isGone e with
      | true => exact ⟨⟨e, rfl, hgone⟩, rfl, rfl⟩
      | false => exact Or.inl ⟨e, rfl, hgone⟩
  | resolves inode fresh =>
      rw [hw] at h
      dsimp only [SubscriptionTable.watchDir] at h
      cases below with
      | opendirFails e =>
          have hv : item.vanishes (.opendirFails e) = isGone e := by
            simp [DirItem.vanishes, hw]
          rw [hv]
          cases h
          cases hgone : isGone e with
          | true => exact ⟨⟨e, rfl, hgone⟩, rfl, rfl⟩
          | false => exact Or.inl ⟨e, rfl, hgone⟩
      | opened fstat items =>
          have hv : item.vanishes (.opened fstat items) = false := by
            simp [DirItem.vanishes, hw]
          rw [hv, if_neg Bool.false_ne_true]
          cases error with
          | none => exact Or.inr ⟨_, h, rfl⟩
          | some e =>
              have herror := congrArg Prod.fst h
              exact Or.inl ⟨e, rfl, addCreatedTree_error (by exact hin) herror⟩

/-- The loop over the subdirectories past its first item. -/
theorem addSubdirectories_cons {item : DirItem} {below : DirScan} {rest : DirItems}
    (hin : item.entered w path = true → (s.tree.find (child path item.name)).isSome)
    (hrun : reportEvents = false → item.cancelledBelow = false)
    (h : addSubdirectories w reportEvents path (.cons item below rest) s = (none, s')) :
    ∃ s₁, addSubdirectories w reportEvents path rest s₁ = (none, s') ∧
      if item.entered w path then
        if item.vanishes below then
          s₁.tree = s.tree.remove (child path item.name) ∧ s₁.calls = s.calls
        else
          ∃ table, addCreatedTree w reportEvents (child path item.name) below
            { s with table := table } = (none, s₁)
      else s₁ = s := by
  unfold addSubdirectories at h
  split at h
  next hentered =>
      change item.entered w path = true at hentered
      have hcandidate := hin hentered
      have hgo : (!reportEvents && item.cancelledBelow) = false := by
        cases reportEvents with
        | true => rfl
        | false => exact hrun rfl
      rw [if_neg (by simp [hgo])] at h
      dsimp only at h
      simp only [hentered, if_true]
      split at h
      next s₁ hresult =>
          have hanswer := watchThen_answers hcandidate hresult
          refine ⟨s₁, h, ?_⟩
          split at hanswer
          · obtain ⟨⟨e, he, _⟩, _⟩ := hanswer
            cases he
          next hstays =>
              rw [if_neg hstays]
              obtain ⟨e, he, _⟩ | ⟨table, hscan, _⟩ := hanswer
              · cases he
              · exact ⟨table, hscan⟩
      next error s₁ hresult =>
          have hanswer := watchThen_answers hcandidate hresult
          split at h
          next hgone =>
              change isGone error = true at hgone
              refine ⟨_, h, ?_⟩
              split at hanswer
              next hvanishes =>
                  obtain ⟨_, htree, hcalls⟩ := hanswer
                  rw [if_pos hvanishes, ← htree, ← hcalls]
                  exact ⟨rfl, rfl⟩
              next =>
                  obtain ⟨e, he, hne⟩ | ⟨_, _, he⟩ := hanswer
                  · rw [← Option.some.inj he, hgone] at hne
                    cases hne
                  · cases he
          next => cases h
  next hout =>
      change ¬ item.entered w path = true at hout
      rw [Bool.not_eq_true] at hout
      simp only [hout, Bool.false_eq_true, if_false]
      exact ⟨s, h, rfl⟩

omit [DecidableEq W] in
/-- What is found below the names that follow is not below what is gone at the first. -/
theorem rest_apart {item : DirItem} {below : DirScan} {rest : DirItems} {vs : List Str}
    (h : (DirItems.cons item below rest).WellNamed ∨ vs = [])
    (hunder : ∀ v ∈ vs, Under slash (child path item.name) v) :
    ∀ e ∈ rest.foundBelow w path, ∀ v ∈ vs, ¬ Under slash v e.path := by
  intro e he v hv hve
  rcases h with h | h
  · obtain ⟨name, hname, hbelow⟩ := DirItems.foundBelow_below he
    exact h.apart hname ((hunder v hv).trans hve) hbelow.under
  · rw [h] at hv
    cases hv

mutual

/-- **What a scan does.** -/
theorem addCreatedTree_does : ∀ {scan : DirScan} {path : Str} {s s' : ScanState W},
    (s.tree.find path).isSome → scan.WellNamed ∨ scan.vanished w path = [] →
      (reportEvents = false → scan.Uncancelled) →
        addCreatedTree w reportEvents path scan s = (none, s') →
          Does reportEvents s s' (scan.found w path) (scan.vanished w path)
  | .opened fstat items, path, s, s', hin, hnamed, hrun, h => by
      have hread : (readItems w reportEvents path items s).1 = false ∧
          Does reportEvents s (readItems w reportEvents path items s).2 (items.entries w path) [] :=
        readItems_does items s hrun
      rw [addCreatedTree_opened hin] at h
      rcases hr : readItems w reportEvents path items s with ⟨stopped, s₁⟩
      rw [hr] at h hread
      obtain ⟨rfl, hread⟩ := hread
      have hentries : ∀ e ∈ items.entries w path, (s₁.tree.find e.path).isSome := by
        intro e he
        obtain ⟨ks, houtcome, _⟩ := hread
        exact houtcome.complete e he fun v hv => by cases hv
      have hbelow := addSubdirectories_does hentries hnamed hrun h
      exact hread.trans hbelow fun _ _ _ hv => by cases hv

theorem addSubdirectories_does : ∀ {items : DirItems} {path : Str} {s s' : ScanState W},
    (∀ e ∈ items.entries w path, (s.tree.find e.path).isSome) →
      items.WellNamed ∨ items.vanished w path = [] →
        (reportEvents = false → items.Uncancelled) →
          addSubdirectories w reportEvents path items s = (none, s') →
            Does reportEvents s s' (items.foundBelow w path) (items.vanished w path)
  | .nil, _, _, _, _, _, _, h => by
      cases h
      exact .refl _
  | .cons item below rest, path, s, s', hin, hnamed, hrun, h => by
      have hrest : ∀ {s₁ fs vs}, Does reportEvents s s₁ fs vs →
          (DirItems.cons item below rest).WellNamed ∨ vs = [] ∧ rest.vanished w path = [] →
            (∀ v ∈ vs, Under slash (child path item.name) v) →
              addSubdirectories w reportEvents path rest s₁ = (none, s') →
                Does reportEvents s s' (fs ++ rest.foundBelow w path)
                  (vs ++ rest.vanished w path) := by
        intro s₁ fs vs hdoes hnamed hunder h
        have hin₁ : ∀ e ∈ rest.entries w path, (s₁.tree.find e.path).isSome := by
          intro e he
          obtain ⟨ks, houtcome, _⟩ := hdoes
          apply houtcome.find_isSome (hin e (List.mem_append_right _ he))
          intro v hv hve
          rcases hnamed with hnamed | ⟨rfl, _⟩
          · obtain ⟨name, hname, hpath⟩ := DirItems.entries_child he
            rw [hpath] at hve
            exact hnamed.apart hname ((hunder v hv).trans hve) (.refl _)
          · cases hv
        have hlast := addSubdirectories_does hin₁ (hnamed.imp (·.2.2.2) And.right)
          (fun hr => (hrun hr).2.2.2) h
        exact hdoes.trans hlast (rest_apart (hnamed.imp_right And.left) hunder)
      have hcandidate : item.entered w path = true →
          (s.tree.find (child path item.name)).isSome := by
        intro hentered
        obtain ⟨attributes, hlisted, _⟩ := (Option.any_eq_true _ _).mp hentered
        have hentry : ⟨child path item.name, convertTime attributes.st_mtim,
            attributes.isDirectory⟩ ∈ (item.entry w path).toList := by
          simp [DirItem.entry, hlisted]
        exact hin _ (List.mem_append_left _ hentry)
      obtain ⟨s₁, hlast, hfirst⟩ :=
        addSubdirectories_cons hcandidate (fun hr => (hrun hr).2.1) h
      rw [DirItems.foundBelow, DirItems.vanished]
      rw [DirItems.vanished] at hnamed
      cases hentered : item.entered w path with
      | false =>
          rw [hentered, if_neg Bool.false_ne_true] at hfirst hnamed
          subst hfirst
          exact hrest (.refl s₁) (hnamed.imp_right fun h => ⟨rfl, h⟩) (by simp) hlast
      | true =>
          rw [hentered, if_pos rfl] at hfirst hnamed
          rw [List.append_eq_nil_iff] at hnamed
          cases hvanishes : item.vanishes below with
          | true =>
              rw [hvanishes, if_pos rfl] at hfirst hnamed
              have hremove : Does reportEvents s s₁ [] [child path item.name] := by
                apply Does.of_silent _ hfirst.2
                rw [hfirst.1]
                exact .remove (hcandidate hentered)
              refine hrest hremove hnamed ?_ hlast
              intro v hv
              rw [List.mem_singleton.mp hv]
              exact .refl _
          | false =>
              rw [hvanishes, if_neg Bool.false_ne_true] at hfirst hnamed
              obtain ⟨table, hscan⟩ := hfirst
              have hdoes := addCreatedTree_does (by exact hcandidate hentered)
                (hnamed.imp (·.2.2.1) And.left) (fun hr => (hrun hr).2.2.1) hscan
              exact hrest hdoes hnamed (fun v hv => (DirScan.vanished_below hv).under) hlast

end

/-! ## Where every directory can be watched -/

mutual

theorem addCreatedTree_watchable {reportEvents : Bool} : ∀ {scan : DirScan} {path : Str}
    {s : ScanState W}, scan.Watchable w path →
      (addCreatedTree w reportEvents path scan s).1 = none
  | .opened fstat items, path, s, h => by
      unfold addCreatedTree addDirectory
      cases fstat with
      | error errno => cases h.1
      | ok attributes =>
          split
          next hdir =>
              split at hdir <;> cases hdir
          next s₁ _ =>
              split
              · rfl
              · exact addSubdirectories_watchable h.2

theorem addSubdirectories_watchable {reportEvents : Bool} : ∀ {items : DirItems} {path : Str}
    {s : ScanState W}, items.Watchable w path →
      (addSubdirectories w reportEvents path items s).1 = none
  | .nil, _, _, _ => rfl
  | .cons item below rest, path, s, h => by
      unfold addSubdirectories
      split
      next hentered =>
          obtain ⟨⟨inode, fresh, hwatch⟩, hbelow⟩ := h.1 hentered
          split
          · rfl
          · dsimp only
            split
            · exact addSubdirectories_watchable h.2
            next error s₁ hresult =>
                rw [hwatch] at hresult
                have hnone : (watchThen w item.faults (.resolves inode fresh)
                    (child path item.name)
                    (addCreatedTree w reportEvents (child path item.name) below) s).1 = none :=
                  addCreatedTree_watchable hbelow
                rw [hresult] at hnone
                cases hnone
      · exact addSubdirectories_watchable h.2

end

end NativeWatcher
