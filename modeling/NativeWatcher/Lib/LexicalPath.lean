import Mathlib.Data.List.Infix
import Mathlib.Tactic.Basic

/-!
# Lexical paths

A path is a list over any alphabet, cut at a separator. Empty components and `.` say nothing,
and `..` leaves the directory that was entered last; above the root it says nothing either.
What remains of an absolute path is a list of names, and one list of names is reached from
another by leaving what they do not share.
-/

universe u

namespace LexicalPath

variable {α : Type u} [DecidableEq α] (sep dot : α)

/-! ## Normal form -/

/-- One component of an absolute path. -/
def push (cs : List (List α)) (c : List α) : List (List α) :=
  if c = [] ∨ c = [dot] then cs
  else if c = [dot, dot] then cs.dropLast
  else cs ++ [c]

/-- What the components of an absolute path lead to. -/
def normalize (cs : List (List α)) : List (List α) := cs.foldl (push dot) []

/-- A component that stands for itself. -/
structure Name (c : List α) : Prop where
  ne_nil : c ≠ []
  ne_dot : c ≠ [dot]
  ne_parent : c ≠ [dot, dot]
  plain : sep ∉ c

variable {sep dot} {cs ds : List (List α)} {c : List α}

theorem push_nil : push dot cs [] = cs := if_pos (Or.inl rfl)

theorem push_name (h : Name sep dot c) : push dot cs c = cs ++ [c] := by
  unfold push
  rw [if_neg, if_neg h.ne_parent]
  rintro (hc | hc)
  · exact h.ne_nil hc
  · exact h.ne_dot hc

theorem names_push (hcs : ∀ d ∈ cs, Name sep dot d) (hc : sep ∉ c) :
    ∀ d ∈ push dot cs c, Name sep dot d := by
  unfold push
  split
  · exact hcs
  next hempty =>
      push Not at hempty
      split
      · exact fun d hd => hcs d (List.dropLast_subset cs hd)
      next hparent =>
          intro d hd
          rcases List.mem_append.mp hd with hd | hd
          · exact hcs d hd
          · rw [List.mem_singleton.mp hd]
            exact ⟨hempty.1, hempty.2, hparent, hc⟩

theorem names_foldl_push (hcs : ∀ d ∈ cs, Name sep dot d) (hds : ∀ d ∈ ds, sep ∉ d) :
    ∀ d ∈ ds.foldl (push dot) cs, Name sep dot d := by
  induction ds generalizing cs with
  | nil => exact hcs
  | cons c ds ih =>
      apply ih (names_push hcs (hds c List.mem_cons_self))
      exact fun d hd => hds d (List.mem_cons_of_mem _ hd)

/-- Names are all kept. -/
theorem foldl_push_names (h : ∀ d ∈ ds, Name sep dot d) : ds.foldl (push dot) cs = cs ++ ds := by
  induction ds generalizing cs with
  | nil => rw [List.foldl_nil, List.append_nil]
  | cons c ds ih =>
      rw [List.foldl_cons, push_name (h c List.mem_cons_self),
        ih fun d hd => h d (List.mem_cons_of_mem _ hd), List.append_assoc, List.singleton_append]

/-- Some of the old names are left, and some of the new ones are behind them. -/
theorem foldl_push_split (dot : α) (cs ds : List (List α)) :
    ∃ kept entered, kept <+: cs ∧ (∀ d ∈ entered, d ∈ ds) ∧
      ds.foldl (push dot) cs = kept ++ entered := by
  induction ds using List.reverseRecOn with
  | nil => exact ⟨cs, [], List.prefix_refl _, fun _ hd => hd, (List.append_nil _).symm⟩
  | append_singleton ds c ih =>
      obtain ⟨kept, entered, hkept, hentered, heq⟩ := ih
      have hmem : ∀ d ∈ entered, d ∈ ds ++ [c] := fun d hd => by simp [hentered d hd]
      rw [List.foldl_append, heq, List.foldl_cons, List.foldl_nil]
      unfold push
      split
      · exact ⟨kept, entered, hkept, hmem, rfl⟩
      · split
        · by_cases hnil : entered = []
          · refine ⟨kept.dropLast, [], (List.dropLast_prefix _).trans hkept, by simp, ?_⟩
            rw [hnil, List.append_nil, List.append_nil]
          · refine ⟨kept, entered.dropLast, hkept, ?_, ?_⟩
            · exact fun d hd => hmem d (List.dropLast_subset _ hd)
            · exact List.dropLast_append_of_ne_nil hnil
        · refine ⟨kept, entered ++ [c], hkept, ?_, List.append_assoc ..⟩
          intro d hd
          rcases List.mem_append.mp hd with hd | hd
          · exact hmem d hd
          · simp [List.mem_singleton.mp hd]

/-! ## Text -/

variable (sep) in
/-- The components between separators. -/
abbrev split (p : List α) : List (List α) := p.splitOn sep

variable (sep) in
abbrev join (cs : List (List α)) : List α := [sep].intercalate cs

/-- A component is a part of its path. -/
theorem mem_split {p : List α} (h : c ∈ split sep p) : sep ∉ c ∧ ∀ x ∈ c, x ∈ p := by
  induction p generalizing c with
  | nil =>
      rw [split, List.splitOn_nil, List.mem_singleton] at h
      rw [h]
      exact ⟨List.not_mem_nil, fun _ hx => absurd hx List.not_mem_nil⟩
  | cons y p ih =>
      rw [split, List.splitOn_cons_eq_if_modifyHead] at h
      split at h
      · rcases List.mem_cons.mp h with rfl | h
        · exact ⟨List.not_mem_nil, fun _ hx => absurd hx List.not_mem_nil⟩
        · exact ⟨(ih h).1, fun x hx => List.mem_cons_of_mem _ ((ih h).2 x hx)⟩
      next hy =>
          have hne : sep ≠ y := by
            rintro rfl
            simp at hy
          obtain ⟨d, ds, hds⟩ := List.exists_cons_of_ne_nil (List.splitOn_ne_nil sep p)
          rw [hds, List.modifyHead_cons] at h
          rcases List.mem_cons.mp h with rfl | h
          · obtain ⟨hplain, hsub⟩ := ih (c := d) (by rw [split, hds]; exact List.mem_cons_self)
            refine ⟨?_, ?_⟩
            · rw [List.mem_cons, not_or]
              exact ⟨hne, hplain⟩
            · exact fun x hx => (List.mem_cons.mp hx).elim (fun heq => heq ▸ List.mem_cons_self)
                fun hx => List.mem_cons_of_mem _ (hsub x hx)
          · have hmem : c ∈ split sep p := by
              rw [split, hds]
              exact List.mem_cons_of_mem _ h
            exact ⟨(ih hmem).1, fun x hx => List.mem_cons_of_mem _ ((ih hmem).2 x hx)⟩

omit [DecidableEq α] in
theorem join_cons (h : cs ≠ []) : join sep (c :: cs) = c ++ sep :: join sep cs := by
  rw [join, List.intercalate_cons_of_ne_nil h, List.append_assoc, List.singleton_append]

omit [DecidableEq α] in
theorem mem_join {x : α} (h : x ∈ join sep cs) : x = sep ∨ ∃ c ∈ cs, x ∈ c := by
  induction cs with
  | nil => cases h
  | cons c cs ih =>
      by_cases hnil : cs = []
      · subst hnil
        rw [join, List.intercalate_singleton] at h
        exact Or.inr ⟨c, List.mem_singleton_self c, h⟩
      · rw [join_cons hnil, List.mem_append, List.mem_cons] at h
        rcases h with h | h | h
        · exact Or.inr ⟨c, List.mem_cons_self, h⟩
        · exact Or.inl h
        · exact (ih h).imp_right fun ⟨d, hd, hx⟩ => ⟨d, List.mem_cons_of_mem _ hd, hx⟩

omit [DecidableEq α] in
theorem mem_join_of_mem {x : α} (hc : c ∈ cs) (hx : x ∈ c) : x ∈ join sep cs := by
  induction cs with
  | nil => cases hc
  | cons d cs ih =>
      by_cases hnil : cs = []
      · subst hnil
        rw [join, List.intercalate_singleton, ← List.mem_singleton.mp hc]
        exact hx
      · rw [join_cons hnil, List.mem_append, List.mem_cons]
        rcases List.mem_cons.mp hc with rfl | hc
        · exact Or.inl hx
        · exact Or.inr (Or.inr (ih hc))

omit [DecidableEq α] in
theorem join_append (hcs : cs ≠ []) (hds : ds ≠ []) :
    join sep (cs ++ ds) = join sep cs ++ sep :: join sep ds := by
  induction cs with
  | nil => exact absurd rfl hcs
  | cons c cs ih =>
      by_cases hnil : cs = []
      · subst hnil
        rw [List.singleton_append, join_cons hds, join, join, List.intercalate_singleton]
      · rw [List.cons_append, join_cons (by simp [hnil]), ih hnil, join_cons hnil,
          List.append_assoc, List.cons_append]

/-- Joined names are read back, with a separator before and behind them. -/
theorem foldl_push_join (cs : List (List α)) (hds : ∀ d ∈ ds, Name sep dot d) (rest : List α) :
    (split sep (sep :: join sep ds ++ sep :: rest)).foldl (push dot) cs =
      (split sep rest).foldl (push dot) (cs ++ ds) := by
  have hsplit : split sep (sep :: join sep ds ++ sep :: rest) =
      [] :: split sep (join sep ds) ++ split sep rest := by
    have hfront : split sep (sep :: join sep ds) = [] :: split sep (join sep ds) :=
      List.splitOn_append_cons_self [] (join sep ds)
    rw [split, List.splitOn_append_cons_self, ← split, hfront]
  rw [hsplit, List.foldl_append, List.foldl_cons, push_nil]
  by_cases hnil : ds = []
  · subst hnil
    have hnone : split sep (join sep ([] : List (List α))) = [[]] := List.splitOn_nil sep
    rw [hnone, List.foldl_cons, List.foldl_nil, push_nil, List.append_nil]
  · have hback : split sep (join sep ds) = ds :=
      List.splitOn_intercalate sep (fun d hd => (hds d hd).plain) hnil
    rw [hback, foldl_push_names hds]

/-! ## From one path to another -/

variable (dot) in
/-- Leave what is not shared, and enter the rest of the target. -/
def relative : List (List α) → List (List α) → List (List α)
  | a :: base, b :: target =>
      if a = b then relative base target
      else List.replicate (base.length + 1) [dot, dot] ++ b :: target
  | base, target => List.replicate base.length [dot, dot] ++ target

theorem relative_append (base rest : List (List α)) : relative dot base (base ++ rest) = rest := by
  induction base with
  | nil => cases rest <;> rfl
  | cons a base ih =>
      rw [List.cons_append, relative, if_pos rfl]
      exact ih

variable (dot) in
/-- What is not below the base is reached through its parent. -/
theorem relative_of_not_prefix {base target : List (List α)} (h : ¬ base <+: target) :
    ∃ rest, relative dot base target = [dot, dot] :: rest := by
  induction base generalizing target with
  | nil => exact absurd List.nil_prefix h
  | cons a base ih =>
      cases target with
      | nil => exact ⟨_, rfl⟩
      | cons b target =>
          rw [relative]
          split
          next heq =>
              apply ih
              intro hpre
              exact h (List.cons_prefix_cons.mpr ⟨heq, hpre⟩)
          next => exact ⟨_, rfl⟩

end LexicalPath
