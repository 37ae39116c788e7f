import NativeWatcher.Lib.FiniteMap
import NativeWatcher.Path
import Mathlib.Data.Finset.Card

/-!
# `IdentityIndex`: paths and the files they name

Two maps kept in step: what every path names, and the paths of every file
identity. The structure carries their agreement.
-/

namespace NativeWatcher

open Hierarchy

structure FileIdentity where
  device : Int32
  inode : UInt64
deriving DecidableEq, Repr

structure IndexedPath where
  identity : FileIdentity
  mtime : UInt64
  linkCount : UInt16
  isDirectory : Bool
deriving DecidableEq, Repr

/-- `hasPathPrefix(path, prefix)`. -/
def hasPathPrefix (path directory : Str) : Bool := isDescendantPath path directory

/-! ## The paths of an identity -/

/-- `mByIdentity`. -/
abbrev PathsByIdentity := FiniteMap FileIdentity (Finset Str)

namespace PathsByIdentity

def paths (m : PathsByIdentity) (i : FileIdentity) : Finset Str := (m.lookup i).getD ∅

/-- `mByIdentity[identity].insert(path)`. -/
def insertPath (m : PathsByIdentity) (i : FileIdentity) (path : Str) : PathsByIdentity :=
  AList.insert i (insert path (m.paths i)) m

/-- Drop a path, and the set it leaves empty. -/
def erasePath (m : PathsByIdentity) (i : FileIdentity) (path : Str) : PathsByIdentity :=
  match m.lookup i with
  | none => m
  | some paths =>
      if paths.erase path = ∅ then m.erase i
      else AList.insert i (paths.erase path) m

theorem paths_insertPath (m : PathsByIdentity) (i j : FileIdentity) (path : Str) :
    (m.insertPath i path).paths j =
      if j = i then insert path (m.paths i) else m.paths j := by
  unfold insertPath paths
  rw [FiniteMap.lookup_insert_eq]
  split <;> rfl

theorem paths_erasePath (m : PathsByIdentity) (i j : FileIdentity) (path : Str) :
    (m.erasePath i path).paths j =
      if j = i then (m.paths i).erase path else m.paths j := by
  unfold erasePath
  cases hi : m.lookup i with
  | none =>
      show m.paths j = _
      by_cases hj : j = i
      · subst hj
        simp [paths, hi]
      · rw [if_neg hj]
  | some ps =>
      show (if ps.erase path = ∅ then m.erase i
        else AList.insert i (ps.erase path) m : PathsByIdentity).paths j = _
      have hps : m.paths i = ps := by simp [paths, hi]
      rw [hps]
      by_cases hempty : ps.erase path = ∅
      · rw [if_pos hempty, paths, FiniteMap.lookup_erase_eq, hempty]
        split <;> rfl
      · rw [if_neg hempty, paths, FiniteMap.lookup_insert_eq]
        split <;> rfl

end PathsByIdentity

/-! ## The index -/

structure IdentityIndex where
  mByPath : FiniteMap Str IndexedPath
  mByIdentity : PathsByIdentity
  agree : ∀ i p, p ∈ mByIdentity.paths i ↔
    ∃ e, mByPath.lookup p = some e ∧ e.identity = i

namespace IdentityIndex

def empty : IdentityIndex where
  mByPath := ∅
  mByIdentity := ∅
  agree := by
    intro i p
    have hnone : (∅ : FiniteMap Str IndexedPath).lookup p = none := AList.lookup_empty p
    rw [hnone]
    show p ∈ (∅ : Finset Str) ↔ _
    simp

def find (x : IdentityIndex) (path : Str) : Option IndexedPath := x.mByPath.lookup path

/-- `entries()`, in iteration order. -/
def entries (x : IdentityIndex) : List (Str × IndexedPath) := x.mByPath.pairs

def pathCount (x : IdentityIndex) (identity : FileIdentity) : Nat :=
  (x.mByIdentity.paths identity).card

/-- `removeExact` of a path that is indexed as `found`. -/
def dropFound (x : IdentityIndex) (path : Str) (found : IndexedPath)
    (h : x.mByPath.lookup path = some found) : IdentityIndex where
  mByPath := x.mByPath.erase path
  mByIdentity := x.mByIdentity.erasePath found.identity path
  agree := by
    intro i p
    rw [PathsByIdentity.paths_erasePath, FiniteMap.lookup_erase_eq]
    by_cases hp : p = path
    · subst hp
      rw [if_pos rfl]
      simp only [reduceCtorEq, false_and, exists_false, iff_false]
      split
      next => exact Finset.notMem_erase p _
      next hi =>
          rw [x.agree, h]
          rintro ⟨e, he, rfl⟩
          exact hi (Option.some.inj he ▸ rfl)
    · rw [if_neg hp, ← x.agree]
      split
      next hi => rw [Finset.mem_erase, hi, and_iff_right hp]
      next => rfl

def removeExact (x : IdentityIndex) (path : Str) : IdentityIndex :=
  match h : x.mByPath.lookup path with
  | none => x
  | some found => x.dropFound path found h

theorem find_removeExact (x : IdentityIndex) (path p : Str) :
    (x.removeExact path).find p = if p = path then none else x.find p := by
  unfold removeExact
  split
  next h =>
      by_cases hp : p = path
      · rw [if_pos hp, hp]
        exact h
      · rw [if_neg hp]
  next found h => exact FiniteMap.lookup_erase_eq ..

/-- `emplace` of a path that is not indexed. -/
def addFresh (x : IdentityIndex) (path : Str) (entry : IndexedPath)
    (h : x.mByPath.lookup path = none) : IdentityIndex where
  mByPath := x.mByPath.emplace path entry
  mByIdentity := x.mByIdentity.insertPath entry.identity path
  agree := by
    intro i p
    rw [PathsByIdentity.paths_insertPath, FiniteMap.lookup_emplace]
    by_cases hp : p = path
    · subst hp
      rw [if_pos rfl, h]
      simp only [Option.getD_none, Option.some.injEq, exists_eq_left']
      split
      next hi => simp [hi]
      next hi =>
          rw [x.agree, h]
          simp [Ne.symm hi]
    · rw [if_neg hp, ← x.agree]
      split
      next hi => rw [Finset.mem_insert, or_iff_right hp, hi]
      next => rfl

def add (x : IdentityIndex) (path : Str) (entry : IndexedPath) : IdentityIndex :=
  (x.removeExact path).addFresh path entry (by
    have h := x.find_removeExact path path
    rwa [if_pos rfl] at h)

@[simp] theorem find_empty (p : Str) : empty.find p = none := AList.lookup_empty p

theorem find_add (x : IdentityIndex) (path : Str) (entry : IndexedPath) (p : Str) :
    (x.add path entry).find p = if p = path then some entry else x.find p := by
  have h := x.find_removeExact path path
  rw [if_pos rfl] at h
  show ((x.removeExact path).mByPath.emplace path entry).lookup p = _
  rw [FiniteMap.lookup_emplace]
  by_cases hp : p = path
  · rw [if_pos hp, if_pos hp]
    show some (((x.removeExact path).find path).getD entry) = _
    rw [h]
    rfl
  · rw [if_neg hp, if_neg hp]
    have hne := x.find_removeExact path p
    rwa [if_neg hp] at hne

/-! ## Removal and renaming of subtrees -/

/-- `entry.first == path || hasPathPrefix(entry.first, path)`. -/
def covers (path key : Str) : Bool := key == path || hasPathPrefix key path

theorem covers_iff {path key : Str} : covers path key = true ↔ Under slash path key := by
  rw [covers, Bool.or_eq_true, beq_iff_eq]
  exact or_congr_right isDescendantPath_iff

/-- `exact != mByPath.end() && !exact->second.isDirectory`. -/
def isFileAt (x : IdentityIndex) (path : Str) : Bool :=
  (x.find path).any fun e => !e.isDirectory

def remove (x : IdentityIndex) (path : Str) : IdentityIndex :=
  if x.isFileAt path then x.removeExact path
  else
    let removed := (x.entries.map Prod.fst).filter (covers path)
    removed.foldl removeExact x

def rename (x : IdentityIndex) (oldPath newPath : Str) : IdentityIndex :=
  match x.find oldPath with
  | some ⟨identity, mtime, linkCount, false⟩ =>
      (x.removeExact oldPath).add newPath ⟨identity, mtime, linkCount, false⟩
  | _ =>
      let moved := (x.entries.filter fun b => covers oldPath b.1).map
        fun b => (relocate oldPath newPath b.1, b.2)
      moved.foldl (fun x b => x.add b.1 b.2) (x.remove oldPath)

theorem find_foldl_removeExact (x : IdentityIndex) (removed : List Str) (p : Str) :
    (removed.foldl removeExact x).find p =
      if p ∈ removed then none else x.find p := by
  induction removed generalizing x with
  | nil => simp
  | cons q qs ih =>
      rw [List.foldl_cons, ih, find_removeExact]
      by_cases hq : p = q <;> by_cases hqs : p ∈ qs <;> simp [hq, hqs]

theorem find_remove (x : IdentityIndex) (path p : Str) :
    (x.remove path).find p =
      if p = path ∨ (x.isFileAt path = false ∧ Under slash path p) then none
      else x.find p := by
  unfold remove
  cases hf : x.isFileAt path with
  | true =>
      rw [if_pos rfl, find_removeExact]
      by_cases hp : p = path <;> simp [hp]
  | false =>
      rw [if_neg (by simp)]
      show (((x.entries.map Prod.fst).filter (covers path)).foldl removeExact x).find p = _
      rw [find_foldl_removeExact]
      by_cases hp : Under slash path p
      · rw [if_pos (Or.inr ⟨rfl, hp⟩)]
        split
        next => rfl
        next hnot =>
            -- a covered path that is not in the list is not indexed
            cases hx : x.find p with
            | none => rfl
            | some e =>
                refine absurd (List.mem_filter.mpr ⟨?_, covers_iff.mpr hp⟩) hnot
                exact List.mem_map_of_mem (FiniteMap.mem_pairs.mpr hx)
      · have hne : p ≠ path := fun heq => hp (Or.inl heq)
        rw [if_neg fun hmem => hp (covers_iff.mp (List.mem_filter.mp hmem).2),
          if_neg (by simp [hp, hne])]

/-- `rename` of a file moves one binding. -/
theorem find_rename_of_file {x : IdentityIndex} {oldPath newPath : Str}
    {e : IndexedPath} (h : x.find oldPath = some e) (hfile : e.isDirectory = false)
    (p : Str) :
    (x.rename oldPath newPath).find p =
      if p = newPath then some e else if p = oldPath then none else x.find p := by
  obtain ⟨identity, mtime, linkCount, isDirectory⟩ := e
  subst hfile
  unfold rename
  rw [h]
  show ((x.removeExact oldPath).add newPath _).find p = _
  rw [find_add, find_removeExact]

/-! ## Counting paths -/

theorem mem_entries {x : IdentityIndex} {p : Str} {e : IndexedPath} :
    (p, e) ∈ x.entries ↔ x.find p = some e :=
  FiniteMap.mem_pairs

def isDirectoryAt (x : IdentityIndex) (p : Str) : Bool :=
  (x.find p).any fun e => e.isDirectory

/-- Closed under parent directories: every path is at or below `root`, and what lies
between is indexed as a directory. -/
def ClosedUnder (root : Str) (x : IdentityIndex) : Prop :=
  ∀ b ∈ x.entries, Under slash root b.1 ∧
    ∀ a ∈ b.1.inits, Under slash root a → Below slash a b.1 → x.isDirectoryAt a = true

instance (root : Str) (x : IdentityIndex) : Decidable (x.ClosedUnder root) :=
  inferInstanceAs (Decidable (∀ b ∈ x.entries, Under slash root b.1 ∧
    ∀ a ∈ b.1.inits, Under slash root a → Below slash a b.1 → x.isDirectoryAt a = true))

theorem ClosedUnder.under {root : Str} {x : IdentityIndex} (h : x.ClosedUnder root)
    {p : Str} {e : IndexedPath} (hp : x.find p = some e) : Under slash root p :=
  (h _ (mem_entries.mpr hp)).1

theorem ClosedUnder.find_above {root : Str} {x : IdentityIndex} (h : x.ClosedUnder root)
    {p a : Str} {e : IndexedPath} (hp : x.find p = some e) (ha : Under slash root a)
    (hbelow : Below slash a p) : ∃ d, x.find a = some d ∧ d.isDirectory = true := by
  have hdir := (h _ (mem_entries.mpr hp)).2 a
    ((List.mem_inits _ _).mpr hbelow.under.prefix) ha hbelow
  exact (Option.any_eq_true _ _).mp hdir

/-- One path: whatever has the identity is that path. -/
theorem pathCount_eq_one_iff {x : IdentityIndex} {p : Str} {e : IndexedPath}
    (h : x.find p = some e) :
    x.pathCount e.identity = 1 ↔
      ∀ q d, x.find q = some d → d.identity = e.identity → q = p := by
  have hp : p ∈ x.mByIdentity.paths e.identity := (x.agree _ _).mpr ⟨e, h, rfl⟩
  rw [pathCount, Finset.card_eq_one]
  constructor
  · rintro ⟨r, hr⟩ q d hq hid
    have hqr : q ∈ ({r} : Finset Str) := hr ▸ (x.agree _ _).mpr ⟨d, hq, hid⟩
    have hpr : p ∈ ({r} : Finset Str) := hr ▸ hp
    rw [Finset.mem_singleton.mp hqr, Finset.mem_singleton.mp hpr]
  · intro honly
    refine ⟨p, ?_⟩
    ext q
    rw [Finset.mem_singleton, x.agree]
    constructor
    · rintro ⟨d, hd, hid⟩
      exact honly q d hd hid
    · rintro rfl
      exact ⟨e, h, rfl⟩

end IdentityIndex

end NativeWatcher
