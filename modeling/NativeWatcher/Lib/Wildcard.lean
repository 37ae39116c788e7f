import NativeWatcher.Lib.SegmentMatch
import Mathlib.Data.List.Forall2

/-!
# Wildcard patterns

Segment patterns whose test does not depend on a position. A run of literals takes as many
letters as it is long; from this come the three facts that make a matcher with a single
point of return complete: a later wildcard may forget an earlier one, a failed attempt may
move on by one letter, and an attempt that reaches the end of the word decides.
-/

universe u v w

namespace Wildcard

variable {κ : Type u} {α : Type v} (sat : κ → α → Prop)

/-- `none` takes any run of letters, `some k` one letter that passes its test. -/
abbrev Matches (ps : List (Option κ)) (cs : List α) : Prop :=
  SegmentMatch.Matches (fun (_ : Unit) _ => ()) (fun k _ c => sat k c) ps () cs

variable {sat} {ps qs : List (Option κ)} {k : κ} {ks : List κ} {c : α} {cs ds : List α}

theorem matches_nil_left : Matches sat [] cs ↔ cs = [] := SegmentMatch.matches_nil_iff

theorem matches_cons_cons : Matches sat (some k :: ps) (c :: cs) ↔ sat k c ∧ Matches sat ps cs :=
  SegmentMatch.matches_some_cons

/-- Only wildcards match the empty word. -/
theorem matches_nil_right : Matches sat ps [] ↔ ∀ p ∈ ps, p = none := by
  induction ps with
  | nil =>
      rw [matches_nil_left]
      simp
  | cons p ps ih =>
      cases p with
      | none =>
          rw [Matches, SegmentMatch.matches_none_nil]
          apply ih.trans
          simp
      | some k =>
          apply iff_of_false SegmentMatch.not_matches_some_nil
          simp

/-- A wildcard leaves some end of the word to the rest of the pattern. -/
theorem matches_none_iff : Matches sat (none :: ps) cs ↔ ∃ ds, ds <:+ cs ∧ Matches sat ps ds := by
  induction cs with
  | nil =>
      rw [Matches, SegmentMatch.matches_none_nil]
      constructor
      · exact fun h => ⟨[], List.suffix_refl _, h⟩
      · rintro ⟨ds, hds, h⟩
        rw [List.suffix_nil.mp hds] at h
        exact h
  | cons c cs ih =>
      rw [Matches, SegmentMatch.matches_none_cons]
      constructor
      · rintro (h | h)
        · exact ⟨c :: cs, List.suffix_refl _, h⟩
        · obtain ⟨ds, hds, hm⟩ := ih.mp h
          exact ⟨ds, hds.trans (List.suffix_cons ..), hm⟩
      · rintro ⟨ds, hds, h⟩
        rcases List.suffix_cons_iff.mp hds with rfl | hds
        · exact Or.inl h
        · exact Or.inr (ih.mpr ⟨ds, hds, h⟩)

theorem Matches.of_suffix (h : Matches sat (none :: ps) ds) (hds : ds <:+ cs) :
    Matches sat (none :: ps) cs := by
  obtain ⟨es, hes, hm⟩ := matches_none_iff.mp h
  exact matches_none_iff.mpr ⟨es, hes.trans hds, hm⟩

/-- A run of literals takes the letters at the front. -/
theorem matches_literals_iff :
    Matches sat (ks.map some ++ ps) cs ↔
      ∃ es ds, cs = es ++ ds ∧ List.Forall₂ sat ks es ∧ Matches sat ps ds := by
  induction ks generalizing cs with
  | nil =>
      constructor
      · exact fun h => ⟨[], cs, rfl, .nil, h⟩
      · rintro ⟨es, ds, rfl, hes, h⟩
        cases hes
        exact h
  | cons k ks ih =>
      cases cs with
      | nil =>
          apply iff_of_false SegmentMatch.not_matches_some_nil
          rintro ⟨es, ds, h, hes, _⟩
          cases hes with
          | cons _ _ => cases h
      | cons c cs =>
          rw [List.map_cons, List.cons_append, matches_cons_cons, ih]
          constructor
          · rintro ⟨hk, es, ds, rfl, hes, h⟩
            exact ⟨c :: es, ds, rfl, .cons hk hes, h⟩
          · rintro ⟨es, ds, h, hes, hm⟩
            cases hes with
            | @cons _ d _ es hk hes =>
                obtain ⟨rfl, rfl⟩ := List.cons.inj h
                exact ⟨hk, es, ds, rfl, hes, hm⟩

/-- Once the literals have taken their letters, the rest decides. -/
theorem matches_literals (h : List.Forall₂ sat ks cs) :
    Matches sat (ks.map some ++ ps) (cs ++ ds) ↔ Matches sat ps ds := by
  rw [matches_literals_iff]
  constructor
  · rintro ⟨es, ds', heq, hes, hm⟩
    have hlen : cs.length = es.length := h.length_eq.symm.trans hes.length_eq
    obtain ⟨rfl, rfl⟩ := List.append_inj heq hlen
    exact hm
  · exact fun hm => ⟨cs, ds, rfl, h, hm⟩

/-- A pattern without wildcards. -/
theorem matches_literals_only : Matches sat (ks.map some) cs ↔ List.Forall₂ sat ks cs := by
  have h : Matches sat (ks.map some ++ []) cs ↔ _ := matches_literals_iff
  rw [List.append_nil] at h
  rw [h]
  constructor
  · rintro ⟨es, ds, rfl, hes, hm⟩
    rw [matches_nil_left.mp hm, List.append_nil]
    exact hes
  · exact fun hm => ⟨cs, [], (List.append_nil _).symm, hm, matches_nil_left.mpr rfl⟩

/-! ## The point of return -/

section Return

variable (hks : List.Forall₂ sat ks cs)

include hks

/-- At a second wildcard the first one is settled. -/
theorem matches_forget :
    Matches sat (none :: (ks.map some ++ none :: ps)) (cs ++ ds) ↔
      Matches sat (none :: ps) ds := by
  constructor
  · intro h
    obtain ⟨es, hes, hm⟩ := matches_none_iff.mp h
    obtain ⟨fs, gs, rfl, hfs, hm⟩ := matches_literals_iff.mp hm
    have hlen : fs.length = cs.length := hfs.length_eq.symm.trans hks.length_eq
    -- The literals cannot end before the place where they were first found.
    have hgs : gs <:+ ds := by
      apply List.suffix_of_suffix_length_le ((List.suffix_append fs gs).trans hes)
        (List.suffix_append cs ds)
      have hle := hes.length_le
      rw [List.length_append, List.length_append] at hle
      omega
    exact hm.of_suffix hgs
  · intro h
    exact .skip ((matches_literals hks).mpr h)

/-- A failed attempt starts over one letter later. -/
theorem matches_retry (hfail : ¬ Matches sat ps (c :: ds)) :
    Matches sat (none :: (ks.map some ++ ps)) (cs ++ c :: ds) ↔
      Matches sat (none :: (ks.map some ++ ps)) (cs ++ c :: ds).tail := by
  have hne : cs ++ c :: ds ≠ [] := by simp
  obtain ⟨d, es, hes⟩ := List.exists_cons_of_ne_nil hne
  constructor
  · intro h
    rw [hes] at h ⊢
    rcases SegmentMatch.matches_none_cons.mp h with h | h
    · rw [← hes] at h
      exact absurd ((matches_literals hks).mp h) hfail
    · exact h
  · exact fun h => h.of_suffix (List.tail_suffix _)

/-- An attempt that reaches the end of the word has no successor. -/
theorem matches_end :
    Matches sat (none :: (ks.map some ++ ps)) cs ↔ Matches sat ps [] := by
  constructor
  · intro h
    obtain ⟨es, hes, hm⟩ := matches_none_iff.mp h
    obtain ⟨fs, gs, rfl, hfs, hm⟩ := matches_literals_iff.mp hm
    have hlen : fs.length = cs.length := hfs.length_eq.symm.trans hks.length_eq
    have hle := hes.length_le
    rw [List.length_append] at hle
    have hgs : gs = [] := List.eq_nil_of_length_eq_zero (by omega)
    rw [← hgs]
    exact hm
  · intro h
    apply matches_none_iff.mpr ⟨cs, List.suffix_refl _, _⟩
    have hend : Matches sat (ks.map some ++ ps) (cs ++ []) := (matches_literals hks).mpr h
    rw [List.append_nil] at hend
    exact hend

end Return

/-! ## Renaming letters -/

theorem matches_map {κ' : Type u} {α' : Type v} {sat' : κ' → α' → Prop} (f : κ → κ')
    (g : α → α') (h : ∀ k c, sat' (f k) (g c) ↔ sat k c) (ps : List (Option κ)) (cs : List α) :
    Matches sat' (ps.map (Option.map f)) (cs.map g) ↔ Matches sat ps cs := by
  induction ps generalizing cs with
  | nil =>
      rw [List.map_nil, matches_nil_left, matches_nil_left, List.map_eq_nil_iff]
  | cons p ps ih =>
      cases p with
      | none =>
          induction cs with
          | nil =>
              rw [List.map_cons, Option.map_none, List.map_nil, Matches,
                SegmentMatch.matches_none_nil, Matches, SegmentMatch.matches_none_nil]
              exact ih []
          | cons c cs ihc =>
              rw [List.map_cons, Option.map_none, List.map_cons, Matches,
                SegmentMatch.matches_none_cons, Matches, SegmentMatch.matches_none_cons]
              exact or_congr (ih (c :: cs)) ihc
      | some k =>
          cases cs with
          | nil =>
              exact iff_of_false SegmentMatch.not_matches_some_nil
                SegmentMatch.not_matches_some_nil
          | cons c cs =>
              rw [List.map_cons, Option.map_some, List.map_cons, matches_cons_cons,
                matches_cons_cons, h, ih]

end Wildcard
