import Mathlib.Data.List.Basic
import Mathlib.Data.List.Infix
import Mathlib.Tactic.Basic

/-!
# Hierarchical names

A name is a list; the names below `base` are those that continue it with a
separator. Facts about the order this induces and about moving a name from
below one base to below another.
-/

universe u

namespace Hierarchy

variable {α : Type u} (sep : α)

/-- `p` is `base` itself or lies below it. -/
def Under (base p : List α) : Prop :=
  p = base ∨ base ++ [sep] <+: p

/-- `p` lies strictly below `base`. -/
def Below (base p : List α) : Prop := base ++ [sep] <+: p

instance [DecidableEq α] (base p : List α) : Decidable (Below sep base p) :=
  inferInstanceAs (Decidable (base ++ [sep] <+: p))

instance [DecidableEq α] (base p : List α) : Decidable (Under sep base p) :=
  inferInstanceAs (Decidable (p = base ∨ base ++ [sep] <+: p))

/-- Replace the base `old` at the front of `p` by `new`. -/
def relocate (old new p : List α) : List α :=
  new ++ p.drop old.length

variable {sep} {a b c p q : List α}

theorem Under.refl (p : List α) : Under sep p p := Or.inl rfl

theorem under_iff_append :
    Under sep a p ↔ ∃ s, p = a ++ s ∧ (s = [] ∨ ∃ t, s = sep :: t) := by
  constructor
  · rintro (rfl | ⟨t, rfl⟩)
    · exact ⟨[], by simp, Or.inl rfl⟩
    · exact ⟨sep :: t, by simp, Or.inr ⟨t, rfl⟩⟩
  · rintro ⟨s, rfl, rfl | ⟨t, rfl⟩⟩
    · exact Or.inl (by simp)
    · exact Or.inr ⟨t, by simp⟩

theorem Under.prefix (h : Under sep a p) : a <+: p := by
  rcases h with rfl | h
  · exact List.prefix_refl _
  · exact (List.prefix_append a [sep]).trans h

theorem Under.length_le (h : Under sep a p) : a.length ≤ p.length :=
  h.prefix.length_le

theorem under_child (a s : List α) : Under sep a (a ++ sep :: s) :=
  Or.inr ⟨s, by simp⟩

theorem Under.trans (hab : Under sep a b) (hbc : Under sep b c) :
    Under sep a c := by
  rcases hbc with rfl | hbc
  · exact hab
  · rcases hab with rfl | hab
    · exact Or.inr hbc
    · exact Or.inr (hab.trans ((List.prefix_append b [sep]).trans hbc))

theorem Under.antisymm (hab : Under sep a b) (hba : Under sep b a) : a = b :=
  hab.prefix.eq_of_length_le hba.length_le

/-- The names above a given one are linearly ordered. -/
theorem Under.comparable (ha : Under sep a p) (hb : Under sep b p) :
    Under sep a b ∨ Under sep b a := by
  rcases ha with rfl | ha
  · exact Or.inr hb
  · rcases hb with rfl | hb
    · exact Or.inl (Or.inr ha)
    · rcases List.prefix_or_prefix_of_prefix ha hb with h | h
      · left
        rcases List.prefix_concat_iff.mp h with heq | h
        · exact Or.inl (List.append_cancel_right heq).symm
        · exact Or.inr h
      · right
        rcases List.prefix_concat_iff.mp h with heq | h
        · exact Or.inl (List.append_cancel_right heq).symm
        · exact Or.inr h

/-! ## Strictly below -/

theorem under_iff_below : Under sep a p ↔ p = a ∨ Below sep a p := Iff.rfl

theorem Below.under (h : Below sep a p) : Under sep a p := Or.inr h

theorem Below.length_lt (h : Below sep a p) : a.length < p.length := by
  have hle := h.length_le
  rw [List.length_append] at hle
  exact hle

theorem Below.ne (h : Below sep a p) : p ≠ a := by
  rintro rfl
  exact Nat.lt_irrefl _ h.length_lt

theorem Under.below (h : Under sep a p) (hne : p ≠ a) : Below sep a p :=
  h.resolve_left hne

theorem Below.trans_under (hab : Below sep a b) (hbc : Under sep b c) :
    Below sep a c :=
  (hab.under.trans hbc).below fun heq =>
    Nat.lt_irrefl _ ((heq ▸ hab.length_lt).trans_le hbc.length_le)

theorem Under.trans_below (hab : Under sep a b) (hbc : Below sep b c) :
    Below sep a c :=
  (hab.trans hbc.under).below fun heq =>
    Nat.lt_irrefl _ ((heq ▸ hbc.length_lt).trans_le hab.length_le)

theorem Below.trans (hab : Below sep a b) (hbc : Below sep b c) : Below sep a c :=
  hab.trans_under hbc.under

/-! ## Relocation -/

theorem relocate_append (old new s : List α) :
    relocate old new (old ++ s) = new ++ s := by
  simp [relocate]

@[simp] theorem relocate_self_base (old new : List α) :
    relocate old new old = new := by
  simp [relocate]

theorem Under.relocate {old new : List α} (h : Under sep old p) :
    Under sep new (relocate old new p) := by
  obtain ⟨s, rfl, hs⟩ := under_iff_append.mp h
  rw [relocate_append]
  exact under_iff_append.mpr ⟨s, rfl, hs⟩

theorem Below.relocate {old new : List α} (h : Below sep old p) :
    Below sep new (relocate old new p) := by
  obtain ⟨s, rfl⟩ := h
  rw [List.append_assoc, relocate_append]
  exact ⟨s, List.append_assoc ..⟩

theorem relocate_back {old new : List α} (h : Under sep old p) :
    Hierarchy.relocate new old (Hierarchy.relocate old new p) = p := by
  obtain ⟨s, rfl, _⟩ := under_iff_append.mp h
  rw [relocate_append, relocate_append]

/-- Relocation from a base that was itself relocated. -/
theorem relocate_relocated {old new : List α} (ha : Under sep old a)
    (hp : Under sep a p) :
    Hierarchy.relocate a (Hierarchy.relocate old new a) p = Hierarchy.relocate old new p := by
  obtain ⟨s, rfl, _⟩ := under_iff_append.mp ha
  obtain ⟨t, rfl, _⟩ := under_iff_append.mp hp
  rw [relocate_append, relocate_append, List.append_assoc, List.append_assoc,
    relocate_append]

/-- Two relocations that agree on one name agree on the lower of their bases. -/
theorem relocate_base_of_agree {old new old' new' : List α} (ha : Under sep old old')
    (hp : Under sep old' p)
    (h : Hierarchy.relocate old new p = Hierarchy.relocate old' new' p) :
    new' = Hierarchy.relocate old new old' := by
  obtain ⟨s, rfl, _⟩ := under_iff_append.mp ha
  obtain ⟨t, rfl, _⟩ := under_iff_append.mp hp
  rw [relocate_append, List.append_assoc, relocate_append, ← List.append_assoc] at h
  rw [relocate_append]
  exact (List.append_cancel_right h).symm

theorem relocate_inj {old new : List α} (hp : Under sep old p)
    (hq : Under sep old q)
    (h : Hierarchy.relocate old new p = Hierarchy.relocate old new q) : p = q := by
  have hback : Hierarchy.relocate new old (Hierarchy.relocate old new p) = p :=
    relocate_back hp
  rw [← hback, h, relocate_back hq]

end Hierarchy
