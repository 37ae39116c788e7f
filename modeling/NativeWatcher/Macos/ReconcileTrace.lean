import NativeWatcher.Macos.Candidates
import NativeWatcher.Event.RenameBatch
import Mathlib.Data.Nat.Digits.Lemmas

/-!
# The renames of a reconciliation

Which calls of `EventList::rename` the two loops over renames make: every sure
rename or, under a directory that moves, whatever moved along with it. Sources are
indexed before, targets were vacant, and every call has an id of its own.
-/

namespace NativeWatcher

open Hierarchy

/-! ## Ids -/

theorem toDecimal_inj {m n : Nat} (hm : 0 < m) (hn : 0 < n)
    (h : toDecimal m = toDecimal n) : m = n := by
  unfold toDecimal at h
  rw [if_neg hm.ne', if_neg hn.ne'] at h
  -- reading the digits back
  have hback : ∀ k : Nat, (((Nat.digits 10 k).reverse.map fun d => UInt8.ofNat (48 + d)).map
      fun b => b.toNat - 48) = (Nat.digits 10 k).reverse := by
    intro k
    rw [List.map_map]
    conv_rhs => rw [← List.map_id (Nat.digits 10 k).reverse]
    apply List.map_congr_left
    intro d hd
    have hlt : d < 10 := Nat.digits_lt_base (by decide) (List.mem_reverse.mp hd)
    show (UInt8.ofNat (48 + d)).toNat - 48 = d
    rw [UInt8.toNat_ofNat', Nat.mod_eq_of_lt (by omega)]
    omega
  have hdigits : (Nat.digits 10 m).reverse = (Nat.digits 10 n).reverse := by
    rw [← hback m, h, hback n]
  exact Nat.digits_inj_iff.mp (List.reverse_injective hdigits)

theorem fseventsId_inj {m n : Nat} (hm : 0 < m) (hn : 0 < n)
    (h : fseventsId m = fseventsId n) : m = n :=
  toDecimal_inj hm hn (List.append_cancel_left h)

/-! ## Moves -/

/-- The entry at `p` is gone or replaced, and its file is now at `q`, which was
vacant. -/
def Moves (before current : IdentityIndex) (p q : Str) (kind : EntryKind) : Prop :=
  ∃ o n, before.find p = some o ∧ current.find q = some n ∧ o.identity = n.identity ∧
    o.isDirectory = n.isDirectory ∧ entryKind o.isDirectory = kind ∧
    before.find q = none ∧ current.differsAt p o = true

/-- `p` is the source of a sure rename, or lies below a directory that is and moved
along with it. -/
def MovedSource (before current : IdentityIndex) (p : Str) : Prop :=
  ∃ oldPath newPath, SureRename before current oldPath newPath ∧
    (p = oldPath ∨
      (before.isDirectoryAt oldPath = true ∧ Below slash oldPath p ∧
        ∃ o n, before.find p = some o ∧ current.differsAt p o = true ∧
          current.find (relocate oldPath newPath p) = some n ∧
          n.identity = o.identity ∧ n.isDirectory = o.isDirectory))

theorem SureRename.differsAt {before current : IdentityIndex} {oldPath newPath : Str}
    (h : SureRename before current oldPath newPath) {o : IndexedPath}
    (ho : before.find oldPath = some o) : current.differsAt oldPath o = true := by
  obtain ⟨o', n, hfo, hfn, hid, -, honlyNew, hvacant, -⟩ := h
  obtain rfl := Option.some.inj (ho.symm.trans hfo)
  rw [differsAt_iff]
  intro d hd heq
  rw [honlyNew oldPath d hd heq, hvacant] at hfo
  cases hfo

theorem SureRename.moves {before current : IdentityIndex} {oldPath newPath : Str}
    (h : SureRename before current oldPath newPath) {n : IndexedPath}
    (hn : current.find newPath = some n) :
    Moves before current oldPath newPath (entryKind n.isDirectory) := by
  have hsure := h
  obtain ⟨o, n', hfo, hfn, hid, -, -, hvacant, hkind, -⟩ := h
  obtain rfl := Option.some.inj (hn.symm.trans hfn)
  exact ⟨o, n, hfo, hn, hid, hkind, by rw [hkind], hvacant, hsure.differsAt hfo⟩

/-! ## The trace of the loops -/

/-- The calls made so far, and what the reconciliation remembers of them. -/
structure Traced (before current : IdentityIndex) (r : Reconciliation)
    (calls : List RenameCall) : Prop where
  events : r.mEvents = EventList.empty.renameAll calls
  removed : ∀ p, p ∈ r.handledRemoved ↔ ∃ c ∈ calls, c.oldPath = p
  created : ∀ p, p ∈ r.handledCreated ↔ ∃ c ∈ calls, c.newPath = p
  moves : ∀ c ∈ calls, Moves before current c.oldPath c.newPath c.kind
  sources : ∀ c ∈ calls, MovedSource before current c.oldPath
  ids : ∀ c ∈ calls, ∃ n, 0 < n ∧ n ≤ r.renameSequence ∧ c.renameId = fseventsId n
  idsInj : ∀ c ∈ calls, ∀ d ∈ calls, c.renameId = d.renameId → c = d

/-- One more call, under a fresh id. -/
theorem Traced.rename {before current : IdentityIndex} {r : Reconciliation}
    {calls : List RenameCall} (h : Traced before current r calls) {p q : Str}
    {isDirectory : Bool} (hmoves : Moves before current p q (entryKind isDirectory))
    (hsource : MovedSource before current p) :
    Traced before current (r.rename p q isDirectory)
      (calls ++ [⟨p, q, fseventsId (r.renameSequence + 1), entryKind isDirectory⟩]) where
  events := by
    rw [EventList.renameAll_snoc, ← h.events]
    rfl
  removed x := by
    show x ∈ p :: r.handledRemoved ↔ _
    rw [List.mem_cons, h.removed]
    simp [or_and_right, exists_or, or_comm, eq_comm]
  created x := by
    show x ∈ q :: r.handledCreated ↔ _
    rw [List.mem_cons, h.created]
    simp [or_and_right, exists_or, or_comm, eq_comm]
  moves c hc := by
    rcases List.mem_append.mp hc with hc | hc
    · exact h.moves c hc
    · rw [List.mem_singleton.mp hc]
      exact hmoves
  sources c hc := by
    rcases List.mem_append.mp hc with hc | hc
    · exact h.sources c hc
    · rw [List.mem_singleton.mp hc]
      exact hsource
  ids c hc := by
    rcases List.mem_append.mp hc with hc | hc
    · obtain ⟨n, hpos, hle, hid⟩ := h.ids c hc
      exact ⟨n, hpos, Nat.le_succ_of_le hle, hid⟩
    · rw [List.mem_singleton.mp hc]
      exact ⟨_, Nat.succ_pos _, Nat.le_refl _, rfl⟩
  idsInj c hc d hd heq := by
    -- an earlier id is not the next one
    have hfresh : ∀ c ∈ calls, c.renameId ≠ fseventsId (r.renameSequence + 1) := by
      intro c hc hid
      obtain ⟨n, hpos, hle, hn⟩ := h.ids c hc
      have := fseventsId_inj hpos (Nat.succ_pos _) (hn.symm.trans hid)
      omega
    rcases List.mem_append.mp hc with hc | hc <;> rcases List.mem_append.mp hd with hd | hd
    · exact h.idsInj c hc d hd heq
    · rw [List.mem_singleton.mp hd] at heq
      exact absurd heq (hfresh c hc)
    · rw [List.mem_singleton.mp hc] at heq
      exact absurd heq.symm (hfresh d hd)
    · rw [List.mem_singleton.mp hc, List.mem_singleton.mp hd]

theorem Traced.disjointEnds {before current : IdentityIndex} {r : Reconciliation}
    {calls : List RenameCall} (h : Traced before current r calls) :
    EventList.DisjointEnds calls := by
  intro c hc d hd heq
  obtain ⟨o, -, hfo, -⟩ := h.moves c hc
  obtain ⟨-, -, -, -, -, -, -, hvacant, -⟩ := h.moves d hd
  have hpath : c.oldPath = d.newPath := (Prod.mk.inj heq).1
  rw [hpath, hvacant] at hfo
  cases hfo

/-! ## The accepted renames -/

/-- What the first loop has established for the candidates in `seen`. -/
structure Accepting (before current : IdentityIndex) (seen : List ReconciledRename)
    (r : Reconciliation) : Prop where
  traced : ∃ calls, Traced before current r calls
  sure : ∀ a ∈ r.acceptedRenames, a ∈ possibleRenames before current
  handled : ∀ a ∈ r.acceptedRenames, a.oldPath ∈ r.handledRemoved
  seen : ∀ a ∈ seen, a ∈ r.acceptedRenames ∨
    Reconciliation.coveredByDirectory r.acceptedRenames a = true

theorem coveredByDirectory_append {accepted : List ReconciledRename}
    {a : ReconciledRename} (h : Reconciliation.coveredByDirectory accepted a = true)
    (more : List ReconciledRename) :
    Reconciliation.coveredByDirectory (accepted ++ more) a = true := by
  unfold Reconciliation.coveredByDirectory at h ⊢
  rw [List.any_append, h, Bool.true_or]

theorem Accepting.accept {before current : IdentityIndex} {seen : List ReconciledRename}
    {r : Reconciliation} (h : Accepting before current seen r) {a : ReconciledRename}
    (ha : a ∈ possibleRenames before current) :
    Accepting before current (seen ++ [a]) (r.accept a) := by
  unfold Reconciliation.accept
  by_cases hcov : Reconciliation.coveredByDirectory r.acceptedRenames a = true
  · rw [if_pos hcov]
    refine ⟨h.traced, h.sure, h.handled, ?_⟩
    intro b hb
    rcases List.mem_append.mp hb with hb | hb
    · exact h.seen b hb
    · rw [List.mem_singleton.mp hb]
      exact Or.inr hcov
  · rw [if_neg hcov]
    obtain ⟨calls, hcalls⟩ := h.traced
    obtain ⟨hsure, hentry⟩ := mem_possibleRenames.mp ha
    have hr : Traced before current
        { r with acceptedRenames := r.acceptedRenames ++ [a] } calls :=
      ⟨hcalls.events, hcalls.removed, hcalls.created, hcalls.moves, hcalls.sources,
        hcalls.ids, hcalls.idsInj⟩
    refine ⟨⟨_, hr.rename (hsure.moves hentry) ⟨_, _, hsure, Or.inl rfl⟩⟩, ?_, ?_, ?_⟩
    · intro b hb
      rcases List.mem_append.mp hb with hb | hb
      · exact h.sure b hb
      · rw [List.mem_singleton.mp hb]
        exact ha
    · intro b hb
      rcases List.mem_append.mp hb with hb | hb
      · exact List.mem_cons_of_mem _ (h.handled b hb)
      · rw [List.mem_singleton.mp hb]
        exact List.mem_cons_self
    · intro b hb
      rcases List.mem_append.mp hb with hb | hb
      · exact (h.seen b hb).imp (List.mem_append_left _)
          fun hc => coveredByDirectory_append hc [a]
      · exact Or.inl (List.mem_append_right _ hb)

theorem accepting_foldl {before current : IdentityIndex} {l : List ReconciledRename}
    (hl : ∀ a ∈ l, a ∈ possibleRenames before current) {r : Reconciliation}
    (hr : Accepting before current [] r) :
    Accepting before current l (l.foldl Reconciliation.accept r) := by
  induction l using List.reverseRecOn with
  | nil => exact hr
  | append_singleton l a ih =>
      rw [List.foldl_append]
      exact (ih fun b hb => hl b (List.mem_append_left _ hb)).accept
        (hl a (List.mem_append_right _ List.mem_cons_self))

/-! ## What moved along -/

theorem movedAlong_iff {current : IdentityIndex} {a : ReconciledRename}
    {b : Str × IndexedPath} :
    Reconciliation.movedAlong current a b = true ↔ Below slash a.oldPath b.1 ∧
      ∃ n, current.find (relocate a.oldPath a.newPath b.1) = some n ∧
        n.identity = b.2.identity ∧ n.isDirectory = b.2.isDirectory := by
  unfold Reconciliation.movedAlong
  rw [Bool.and_eq_true, isDescendantPath_iff, Option.any_eq_true]
  simp

/-- Below a vacant path of a closed index nothing is indexed. -/
theorem find_relocate_eq_none {before current : IdentityIndex} {root p q x : Str}
    {n : IndexedPath} (hbefore : before.ClosedUnder root) (hcurrent : current.ClosedUnder root)
    (hq : current.find q = some n) (hvacant : before.find q = none)
    (hx : Below slash p x) : before.find (relocate p q x) = none := by
  cases hf : before.find (relocate p q x) with
  | none => rfl
  | some e =>
      obtain ⟨d, hd, -⟩ := hbefore.find_above hf (hcurrent.under hq) hx.relocate
      rw [hvacant] at hd
      cases hd

/-- The part of the state that the loops over descendants only extend. -/
structure Covering (before current : IdentityIndex) (r₀ r : Reconciliation) : Prop where
  traced : ∃ calls, Traced before current r calls
  handled : ∀ p ∈ r₀.handledRemoved, p ∈ r.handledRemoved

section Cover

variable {before current : IdentityIndex} {root : Str}

theorem Covering.cover {r₀ r : Reconciliation} (h : Covering before current r₀ r)
    (hbefore : before.ClosedUnder root) (hcurrent : current.ClosedUnder root)
    {a : ReconciledRename} (ha : a ∈ possibleRenames before current)
    (hdir : a.entry.isDirectory = true) {b : Str × IndexedPath}
    (hb : b ∈ (candidatesOf before current).toList) :
    Covering before current r₀ (Reconciliation.cover current a r b) ∧
      (Reconciliation.movedAlong current a b = true →
        b.1 ∈ (Reconciliation.cover current a r b).handledRemoved) := by
  unfold Reconciliation.cover
  by_cases hmoved : Reconciliation.movedAlong current a b = true
  · rw [if_pos hmoved]
    obtain ⟨hbelow, n, hfn, hid, hkind⟩ := movedAlong_iff.mp hmoved
    obtain ⟨hsure, hentry⟩ := mem_possibleRenames.mp ha
    obtain ⟨hfo, hdiffers⟩ := mem_toList_candidatesOf.mp hb
    have hvacant : before.find (relocate a.oldPath a.newPath b.1) = none := by
      obtain ⟨-, -, -, -, -, -, -, hv, -⟩ := hsure
      exact find_relocate_eq_none hbefore hcurrent hentry hv hbelow
    have hold : before.isDirectoryAt a.oldPath = true := by
      obtain ⟨o, n', ho, hn', -, -, -, -, hk, -⟩ := hsure
      obtain rfl := Option.some.inj (hentry.symm.trans hn')
      rw [IdentityIndex.isDirectoryAt, ho]
      exact hk.trans hdir
    obtain ⟨calls, hcalls⟩ := h.traced
    refine ⟨⟨⟨_, hcalls.rename ?_ ?_⟩, ?_⟩, fun _ => List.mem_cons_self⟩
    · exact ⟨b.2, n, hfo, hfn, hid.symm, hkind.symm, rfl, hvacant, hdiffers⟩
    · exact ⟨_, _, hsure, Or.inr ⟨hold, hbelow, b.2, n, hfo, hdiffers, hfn, hid, hkind⟩⟩
    · exact fun p hp => List.mem_cons_of_mem _ (h.handled p hp)
  · rw [if_neg hmoved]
    exact ⟨h, fun hm => absurd hm hmoved⟩

theorem Covering.foldl_cover {r₀ r : Reconciliation} (h : Covering before current r₀ r)
    (hbefore : before.ClosedUnder root) (hcurrent : current.ClosedUnder root)
    {a : ReconciledRename} (ha : a ∈ possibleRenames before current)
    (hdir : a.entry.isDirectory = true) {bs : List (Str × IndexedPath)}
    (hbs : ∀ b ∈ bs, b ∈ (candidatesOf before current).toList) :
    Covering before current r₀ (bs.foldl (Reconciliation.cover current a) r) ∧
      ∀ b ∈ bs, Reconciliation.movedAlong current a b = true →
        b.1 ∈ (bs.foldl (Reconciliation.cover current a) r).handledRemoved := by
  induction bs using List.reverseRecOn with
  | nil => exact ⟨h, fun b hb => absurd hb List.not_mem_nil⟩
  | append_singleton bs b ih =>
      obtain ⟨hcov, hall⟩ := ih fun c hc => hbs c (List.mem_append_left _ hc)
      rw [List.foldl_append]
      have hlast := hbs b (List.mem_append_right _ List.mem_cons_self)
      obtain ⟨hstep, hself⟩ := hcov.cover hbefore hcurrent ha hdir hlast
      refine ⟨hstep, ?_⟩
      intro c hc hmoved
      rcases List.mem_append.mp hc with hc | hc
      · have hprev : Covering before current
            (bs.foldl (Reconciliation.cover current a) r)
            (bs.foldl (Reconciliation.cover current a) r) := ⟨hcov.traced, fun _ hp => hp⟩
        exact (hprev.cover hbefore hcurrent ha hdir hlast).1.handled _ (hall c hc hmoved)
      · rw [List.mem_singleton.mp hc] at hmoved ⊢
        exact hself hmoved

/-- The second loop handles whatever moved along with an accepted directory. -/
theorem Covering.foldl_coverDescendants {r₀ r : Reconciliation}
    (h : Covering before current r₀ r)
    (hbefore : before.ClosedUnder root) (hcurrent : current.ClosedUnder root)
    {accepted : List ReconciledRename}
    (haccepted : ∀ a ∈ accepted, a ∈ possibleRenames before current) :
    Covering before current r₀
        (accepted.foldl (Reconciliation.coverDescendants current
          (candidatesOf before current).toList) r) ∧
      ∀ a ∈ accepted, a.entry.isDirectory = true →
        ∀ b ∈ (candidatesOf before current).toList,
          Reconciliation.movedAlong current a b = true →
            b.1 ∈ (accepted.foldl (Reconciliation.coverDescendants current
              (candidatesOf before current).toList) r).handledRemoved := by
  induction accepted using List.reverseRecOn with
  | nil => exact ⟨h, fun a ha => absurd ha List.not_mem_nil⟩
  | append_singleton accepted a ih =>
      obtain ⟨hcov, hall⟩ := ih fun c hc => haccepted c (List.mem_append_left _ hc)
      rw [List.foldl_append]
      have hlast := haccepted a (List.mem_append_right _ List.mem_cons_self)
      rw [List.foldl_cons, List.foldl_nil]
      unfold Reconciliation.coverDescendants
      cases hdir : a.entry.isDirectory with
      | false =>
          refine ⟨hcov, ?_⟩
          intro c hc hcdir
          rcases List.mem_append.mp hc with hc | hc
          · exact hall c hc hcdir
          · rw [List.mem_singleton.mp hc, hdir] at hcdir
            cases hcdir
      | true =>
          obtain ⟨hstep, hself⟩ := hcov.foldl_cover hbefore hcurrent hlast hdir fun _ hb => hb
          refine ⟨hstep, ?_⟩
          intro c hc hcdir b hb hmoved
          rcases List.mem_append.mp hc with hc | hc
          · have hprev := hall c hc hcdir b hb hmoved
            have hsame : Covering before current _ _ := ⟨hcov.traced, fun _ hp => hp⟩
            exact (hsame.foldl_cover hbefore hcurrent hlast hdir fun _ hb => hb).1.handled _ hprev
          · rw [List.mem_singleton.mp hc] at hmoved
            exact hself b hb hmoved

/-! ## All renames -/

/-- The loops rename exactly the moved sources. -/
theorem reconcileRenames_traced (hbefore : before.ClosedUnder root)
    (hcurrent : current.ClosedUnder root) (renameSequence : Nat) :
    (∃ calls, Traced before current
        (reconcileRenames before current .empty renameSequence) calls) ∧
      ∀ p, p ∈ (reconcileRenames before current .empty renameSequence).handledRemoved ↔
        MovedSource before current p := by
  have hstart : Accepting before current [] ⟨[], [], [], .empty, renameSequence⟩ := by
    refine ⟨⟨[], ?_⟩, by simp, by simp, by simp⟩
    exact ⟨rfl, by simp, by simp, by simp, by simp, by simp, by simp⟩
  have hsorted : ∀ a, a ∈ (possibleRenames before current).insertionSort sortedBefore ↔
      a ∈ possibleRenames before current := fun a =>
    (List.perm_insertionSort sortedBefore _).mem_iff
  have haccepting := accepting_foldl (fun a ha => (hsorted a).mp ha) hstart
  unfold reconcileRenames
  rw [removedCandidates_eq]
  dsimp only
  generalize hr : ((possibleRenames before current).insertionSort sortedBefore).foldl
    Reconciliation.accept ⟨[], [], [], .empty, renameSequence⟩ = r at haccepting
  have hcover : Covering before current r r := ⟨haccepting.traced, fun _ hp => hp⟩
  obtain ⟨hcov, hall⟩ := hcover.foldl_coverDescendants hbefore hcurrent haccepting.sure
  refine ⟨hcov.traced, fun p => ⟨?_, ?_⟩⟩
  · intro hp
    obtain ⟨calls, hcalls⟩ := hcov.traced
    obtain ⟨c, hc, rfl⟩ := (hcalls.removed p).mp hp
    exact hcalls.sources c hc
  · rintro ⟨oldPath, newPath, hsure, hcase⟩
    obtain ⟨o, n, hfo, hfn, hid, -, -, hvacant, hkind, -⟩ := id hsure
    have hcandidate : (⟨oldPath, newPath, n⟩ : ReconciledRename) ∈
        possibleRenames before current := mem_possibleRenames.mpr ⟨hsure, hfn⟩
    have hseen := haccepting.seen _ ((hsorted _).mpr hcandidate)
    rcases hseen with hacc | hcovered
    · rcases hcase with rfl | ⟨hdir, hbelow, o', n', hfo', hdiffers, hfn', hid', hkind'⟩
      · exact hcov.handled _ (haccepting.handled _ hacc)
      · have hn : n.isDirectory = true := by
          rw [IdentityIndex.isDirectoryAt, hfo] at hdir
          exact hkind.symm.trans hdir
        exact hall _ hacc hn (p, o') (mem_toList_candidatesOf.mpr ⟨hfo', hdiffers⟩)
          (movedAlong_iff.mpr ⟨hbelow, n', hfn', hid', hkind'⟩)
    · -- the candidate itself moved along with an accepted directory
      obtain ⟨a, ha, hany⟩ := List.any_eq_true.mp hcovered
      simp only [Bool.and_eq_true, isDescendantPath_iff, beq_iff_eq] at hany
      obtain ⟨⟨hadir, habove⟩, hnew⟩ := hany
      rcases hcase with rfl | ⟨hdir, hbelow, o', n', hfo', hdiffers, hfn', hid', hkind'⟩
      · refine hall a ha hadir (p, o)
          (mem_toList_candidatesOf.mpr ⟨hfo, hsure.differsAt hfo⟩) ?_
        refine movedAlong_iff.mpr ⟨habove, n, ?_, hid.symm, hkind.symm⟩
        rw [← hnew]
        exact hfn
      · refine hall a ha hadir (p, o') (mem_toList_candidatesOf.mpr ⟨hfo', hdiffers⟩) ?_
        refine movedAlong_iff.mpr ⟨habove.trans hbelow, n', ?_, hid', hkind'⟩
        rw [hnew, relocate_relocated habove.under hbelow.under] at hfn'
        exact hfn'

end Cover

end NativeWatcher
