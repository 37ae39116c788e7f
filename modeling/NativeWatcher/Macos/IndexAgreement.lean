import NativeWatcher.Lib.Machine
import NativeWatcher.Macos.IdentityIndex

/-!
# The two maps of an index

`mByIdentity` holds the paths of every identity that some path has, and no empty set: an
identity whose last path goes leaves the map with it. So the number of paths that
`pathCount` reads off is the number of entries.
-/

namespace NativeWatcher

/-- No set of paths is empty. -/
def PathsByIdentity.NoneEmpty (m : PathsByIdentity) : Prop :=
  ∀ i paths, m.lookup i = some paths → paths ≠ ∅

namespace PathsByIdentity

variable {m : PathsByIdentity}

theorem NoneEmpty.insertPath (h : m.NoneEmpty) (i : FileIdentity) (path : Str) :
    (m.insertPath i path).NoneEmpty := by
  intro j paths hj
  unfold PathsByIdentity.insertPath at hj
  rw [FiniteMap.lookup_insert_eq] at hj
  split at hj
  · cases hj
    exact Finset.insert_ne_empty path _
  · exact h j paths hj

theorem NoneEmpty.erasePath (h : m.NoneEmpty) (i : FileIdentity) (path : Str) :
    (m.erasePath i path).NoneEmpty := by
  unfold PathsByIdentity.erasePath
  split
  · exact h
  next ps _ =>
      by_cases hempty : ps.erase path = ∅
      · rw [if_pos hempty]
        intro j paths hj
        rw [FiniteMap.lookup_erase_eq] at hj
        split at hj
        · cases hj
        · exact h j paths hj
      · rw [if_neg hempty]
        intro j paths hj
        rw [FiniteMap.lookup_insert_eq] at hj
        split at hj
        · cases hj
          exact hempty
        · exact h j paths hj

end PathsByIdentity

namespace IdentityIndex

variable {x : IdentityIndex}

/-! ## The operations -/

/-- The reverse map has no empty sets. -/
def NoneEmpty (x : IdentityIndex) : Prop := x.mByIdentity.NoneEmpty

theorem noneEmpty_empty : empty.NoneEmpty := by
  intro i paths h
  have hnone : (∅ : PathsByIdentity).lookup i = none := AList.lookup_empty i
  rw [show empty.mByIdentity = ∅ from rfl, hnone] at h
  cases h

theorem NoneEmpty.removeExact (h : x.NoneEmpty) (path : Str) : (x.removeExact path).NoneEmpty := by
  unfold IdentityIndex.removeExact
  split
  · exact h
  next found _ => exact PathsByIdentity.NoneEmpty.erasePath h found.identity path

theorem NoneEmpty.add (h : x.NoneEmpty) (path : Str) (entry : IndexedPath) :
    (x.add path entry).NoneEmpty :=
  PathsByIdentity.NoneEmpty.insertPath (h.removeExact path) entry.identity path

theorem NoneEmpty.remove (h : x.NoneEmpty) (path : Str) : (x.remove path).NoneEmpty := by
  unfold IdentityIndex.remove
  split
  · exact h.removeExact path
  · exact List.foldlRecOn (motive := NoneEmpty) _ _ h fun x hx p _ => hx.removeExact p

theorem NoneEmpty.rename (h : x.NoneEmpty) (oldPath newPath : Str) :
    (x.rename oldPath newPath).NoneEmpty := by
  unfold IdentityIndex.rename
  split
  · exact (h.removeExact oldPath).add newPath _
  · exact List.foldlRecOn (motive := NoneEmpty) _ _ (h.remove oldPath) fun x hx b _ => hx.add b.1 b.2

/-! ## Calls -/

/-- What happens to an index. A rehash puts its maps in another order. -/
inductive IndexCall where
  | add (path : Str) (entry : IndexedPath)
  | remove (path : Str)
  | rename (oldPath newPath : Str)
  | rehash

def Step (x : IdentityIndex) (call : IndexCall) (y : IdentityIndex) : Prop :=
  match call with
  | .add path entry => y = x.add path entry
  | .remove path => y = x.remove path
  | .rename oldPath newPath => y = x.rename oldPath newPath
  | .rehash => (∀ p, y.find p = x.find p) ∧
      ∀ i, y.mByIdentity.lookup i = x.mByIdentity.lookup i

def indexMachine : Machine IdentityIndex IndexCall where
  init x := x = empty
  step := Step

theorem noneEmpty_step {y : IdentityIndex} {call : IndexCall} (h : x.NoneEmpty)
    (hs : x.Step call y) : y.NoneEmpty := by
  cases call with
  | add path entry =>
      cases hs
      exact h.add path entry
  | remove path =>
      cases hs
      exact h.remove path
  | rename oldPath newPath =>
      cases hs
      exact h.rename oldPath newPath
  | rehash => exact fun i paths hi => h i paths ((hs.2 i).symm.trans hi)

theorem noneEmpty_of_reachable (h : indexMachine.Reachable x) : x.NoneEmpty := by
  apply h.invariant
  · rintro _ rfl
    exact noneEmpty_empty
  · exact fun _ _ _ hx hs => noneEmpty_step hx hs

/-! ## The agreement -/

/-- The paths of an identity are counted once each. -/
theorem pathCount_eq_length (x : IdentityIndex) (identity : FileIdentity) :
    x.pathCount identity = (x.entries.filter fun b => b.2.identity = identity).length := by
  have hnodup : ((x.entries.filter fun b => b.2.identity = identity).map Prod.fst).Nodup :=
    x.mByPath.pairs_keys_nodup.sublist (List.filter_sublist.map _)
  have hpaths : x.mByIdentity.paths identity =
      ((x.entries.filter fun b => b.2.identity = identity).map Prod.fst).toFinset := by
    ext p
    rw [x.agree, List.mem_toFinset, List.mem_map]
    constructor
    · rintro ⟨e, he, hid⟩
      exact ⟨(p, e), List.mem_filter.mpr ⟨mem_entries.mpr he, by simpa using hid⟩, rfl⟩
    · rintro ⟨⟨q, e⟩, hmem, rfl⟩
      obtain ⟨hq, hid⟩ := List.mem_filter.mp hmem
      exact ⟨e, mem_entries.mp hq, by simpa using hid⟩
  rw [pathCount, hpaths, List.toFinset_card_of_nodup hnodup, List.length_map]

/-- A set of the reverse map holds the paths of its identity, and is there when one has it. -/
theorem lookup_mByIdentity_iff (h : x.NoneEmpty) {identity : FileIdentity} {paths : Finset Str} :
    x.mByIdentity.lookup identity = some paths ↔
      paths ≠ ∅ ∧ ∀ p, p ∈ paths ↔ ∃ e, x.find p = some e ∧ e.identity = identity := by
  have hagree := x.agree identity
  unfold PathsByIdentity.paths at hagree
  constructor
  · intro hlookup
    refine ⟨h identity paths hlookup, fun p => ?_⟩
    rw [hlookup] at hagree
    exact hagree p
  · rintro ⟨hne, hpaths⟩
    have hsame : (x.mByIdentity.lookup identity).getD ∅ = paths := by
      ext p
      exact (hagree p).trans (hpaths p).symm
    cases hlookup : x.mByIdentity.lookup identity with
    | none =>
        rw [hlookup] at hsame
        exact absurd hsame.symm hne
    | some found =>
        rw [hlookup] at hsame
        exact congrArg some hsame

/-- **The two maps agree after every sequence of calls.** -/
theorem index_maps_agree {x : IdentityIndex} (h : indexMachine.Reachable x)
    (identity : FileIdentity) :
    (∀ paths, x.mByIdentity.lookup identity = some paths ↔
        paths ≠ ∅ ∧ ∀ p, p ∈ paths ↔ ∃ e, x.find p = some e ∧ e.identity = identity) ∧
      x.pathCount identity = (x.entries.filter fun b => b.2.identity = identity).length :=
  ⟨fun _ => lookup_mByIdentity_iff (noneEmpty_of_reachable h), pathCount_eq_length x identity⟩

/-- A directory with a hard link in it is moved over the other link. -/
theorem index_maps_agree_linked :
    let file : IndexedPath := ⟨⟨1, 7⟩, 0, 2, false⟩
    let x := (((empty.add [47, 97] ⟨⟨1, 6⟩, 0, 2, true⟩).add [47, 97, 47, 120] file).add
      [47, 98, 47, 120] file).rename [47, 97] [47, 98]
    x.pathCount ⟨1, 7⟩ = (x.entries.filter fun b => b.2.identity = ⟨1, 7⟩).length := by
  intro file x
  have hstep : ∀ {x y : IdentityIndex} (call : IndexCall), indexMachine.Reachable x →
      x.Step call y → indexMachine.Reachable y := fun _ h hs => .step h trivial hs
  have hstart : indexMachine.Reachable empty := .init rfl
  have hadded := hstep (.add [47, 98, 47, 120] file) (hstep (.add [47, 97, 47, 120] file)
    (hstep (.add [47, 97] ⟨⟨1, 6⟩, 0, 2, true⟩) hstart rfl) rfl) rfl
  have hrenamed : indexMachine.Reachable x := hstep (.rename [47, 97] [47, 98]) hadded rfl
  exact (index_maps_agree hrenamed ⟨1, 7⟩).2

end IdentityIndex

end NativeWatcher
