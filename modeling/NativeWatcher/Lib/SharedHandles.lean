import Mathlib.Data.List.Dedup
import Mathlib.Data.List.Count

/-!
# Shared handles

Entries of a list share handles of an outside resource. The resource holds a handle
as long as it was not released and did not lose it by itself; an entry gives up its
handle when it leaves the list, and the handle is due for release when its last
entry goes.
-/

universe u v

namespace SharedHandles

variable {κ : Type u} {α : Type v}

/-- Some entry uses the handle. -/
def InUse (entries : List (κ × α)) (h : κ) : Prop := h ∈ entries.map Prod.fst

instance [DecidableEq κ] (entries : List (κ × α)) (h : κ) : Decidable (InUse entries h) :=
  inferInstanceAs (Decidable (h ∈ entries.map Prod.fst))

/-- The number of entries with a handle. -/
def count [DecidableEq κ] (entries : List (κ × α)) (h : κ) : Nat :=
  (entries.map Prod.fst).count h

/-- The handles of the erased entries that no kept entry uses, each once. -/
def released [DecidableEq κ] (erased kept : List (κ × α)) : List κ :=
  (erased.map Prod.fst).dedup.filter fun h => count kept h = 0

theorem inUse_append {l₁ l₂ : List (κ × α)} {h : κ} :
    InUse (l₁ ++ l₂) h ↔ InUse l₁ h ∨ InUse l₂ h := by
  rw [InUse, List.map_append, List.mem_append]
  rfl

theorem inUse_cons {e : κ × α} {l : List (κ × α)} {h : κ} :
    InUse (e :: l) h ↔ h = e.1 ∨ InUse l h :=
  List.mem_cons

theorem inUse_of_mem {l : List (κ × α)} {e : κ × α} (he : e ∈ l) : InUse l e.1 :=
  List.mem_map_of_mem he

theorem inUse_mono {l₁ l₂ : List (κ × α)} (hsub : ∀ e ∈ l₁, e ∈ l₂) {h : κ}
    (hu : InUse l₁ h) : InUse l₂ h := by
  obtain ⟨e, he, rfl⟩ := List.mem_map.mp hu
  exact inUse_of_mem (hsub e he)

theorem inUse_middle {before rest : List (κ × α)} {e : κ × α} {h : κ} :
    InUse (before ++ e :: rest) h ↔ h = e.1 ∨ InUse (before ++ rest) h := by
  rw [inUse_append, inUse_cons, inUse_append, or_left_comm]

section

variable [DecidableEq κ]

theorem count_eq_zero {l : List (κ × α)} {h : κ} : count l h = 0 ↔ ¬ InUse l h :=
  List.count_eq_zero

theorem mem_released {erased kept : List (κ × α)} {h : κ} :
    h ∈ released erased kept ↔ InUse erased h ∧ ¬ InUse kept h := by
  rw [released, List.mem_filter, List.mem_dedup, decide_eq_true_eq, count_eq_zero]
  rfl

/-- An entry is the last one of its handle when the others do not use it. -/
theorem count_eq_one_iff {before rest : List (κ × α)} {e : κ × α} :
    count (before ++ e :: rest) e.1 = 1 ↔ ¬ InUse (before ++ rest) e.1 := by
  rw [← count_eq_zero, count, count, List.map_append, List.map_cons, List.map_append,
    List.count_append, List.count_cons_self, List.count_append]
  omega

end

/-! ## Resource and entries in balance -/

/-- Every handle held is used by some entry, and every handle used is held, unless
the resource lost it by itself. -/
structure Balanced (held lost : κ → Prop) (entries : List (κ × α)) : Prop where
  used : ∀ h, held h → InUse entries h
  live : ∀ h, InUse entries h → held h ∨ lost h

variable {held held' lost lost' : κ → Prop} {entries kept : List (κ × α)}

theorem Balanced.empty (hnone : ∀ h, ¬ held h) :
    Balanced held lost ([] : List (κ × α)) where
  used h hh := absurd hh (hnone h)
  live _ hu := absurd hu List.not_mem_nil

theorem Balanced.congr {entries' : List (κ × α)} (hb : Balanced held lost entries)
    (hu : ∀ h, InUse entries h ↔ InUse entries' h) : Balanced held lost entries' where
  used h hh := (hu h).mp (hb.used h hh)
  live h hh := hb.live h ((hu h).mpr hh)

/-- The resource hands out a handle to a new entry. -/
theorem Balanced.acquire (hb : Balanced held lost entries) (e : κ × α)
    (hheld : ∀ h, held' h ↔ h = e.1 ∨ held h) :
    Balanced held' lost (entries ++ [e]) where
  used h hh := by
    rw [inUse_append]
    rcases (hheld h).mp hh with rfl | hh
    · exact Or.inr (inUse_of_mem List.mem_cons_self)
    · exact Or.inl (hb.used h hh)
  live h hu := by
    rcases inUse_append.mp hu with hu | hu
    · exact (hb.live h hu).imp_left fun hh => (hheld h).mpr (Or.inr hh)
    · rcases inUse_cons.mp hu with rfl | hu
      · exact Or.inl ((hheld _).mpr (Or.inl rfl))
      · exact absurd hu List.not_mem_nil

/-- Entries leave, and exactly the handles that nothing uses any more are given up. -/
theorem Balanced.release (hb : Balanced held lost entries)
    (hsub : ∀ e ∈ kept, e ∈ entries)
    (hheld : ∀ h, held' h ↔ held h ∧ (InUse entries h → InUse kept h)) :
    Balanced held' lost kept where
  used h hh := by
    obtain ⟨hh, hk⟩ := (hheld h).mp hh
    exact hk (hb.used h hh)
  live h hu :=
    (hb.live h (inUse_mono hsub hu)).imp_left fun hh => (hheld h).mpr ⟨hh, fun _ => hu⟩

/-- The last entry of a handle leaves and takes the handle along. -/
theorem Balanced.release_last {before rest : List (κ × α)} {e : κ × α}
    (hb : Balanced held lost (before ++ e :: rest)) (hlast : ¬ InUse (before ++ rest) e.1)
    (hheld : ∀ h, held' h ↔ held h ∧ h ≠ e.1) : Balanced held' lost (before ++ rest) := by
  refine hb.release (fun d hd => ?_) fun h => ?_
  · exact List.mem_append.mpr ((List.mem_append.mp hd).imp_right (List.mem_cons_of_mem e))
  · rw [hheld, inUse_middle]
    refine and_congr_right fun _ => ⟨fun hne hu => hu.resolve_left hne, ?_⟩
    rintro himp rfl
    exact hlast (himp (Or.inl rfl))

/-- An entry leaves whose handle others use. -/
theorem Balanced.release_shared {before rest : List (κ × α)} {e : κ × α}
    (hb : Balanced held lost (before ++ e :: rest)) (hmore : InUse (before ++ rest) e.1) :
    Balanced held lost (before ++ rest) :=
  hb.congr fun h => by
    rw [inUse_middle, or_iff_right_of_imp]
    rintro rfl
    exact hmore

/-- The resource drops handles by itself. -/
theorem Balanced.lose (hb : Balanced held lost entries)
    (hheld : ∀ h, held' h → held h) (hlost : ∀ h, held h → held' h ∨ lost' h)
    (hmono : ∀ h, lost h → lost' h) : Balanced held' lost' entries where
  used h hh := hb.used h (hheld h hh)
  live h hu := by
    rcases hb.live h hu with hh | hl
    · exact hlost h hh
    · exact Or.inr (hmono h hl)

end SharedHandles
