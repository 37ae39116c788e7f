import Mathlib.Data.Set.Card
import Mathlib.Logic.Function.Basic

/-!
# Reservations

Every client holds at most one reservation. `Counted held n` says that `n` is for each
object the number of its holders.
-/

universe u v

namespace Reservations

open Function

variable {ι : Type u} {β : Type v} [DecidableEq ι] [DecidableEq β]
  {held : ι → Option β} {n : β → ℕ} {i : ι} {b : β}

/-- The counters agree with the reservations. -/
def Counted (held : ι → Option β) (n : β → ℕ) : Prop :=
  ∀ b, Set.encard {i | held i = some b} = n b

omit [DecidableEq ι] [DecidableEq β] in
theorem Counted.start : Counted (fun _ : ι => (none : Option β)) fun _ => 0 := by
  intro b
  have hempty : {i : ι | (none : Option β) = some b} = ∅ := by
    ext i
    simp
  rw [hempty, Set.encard_empty]
  rfl

omit [DecidableEq ι] [DecidableEq β] in
/-- An object whose counter is zero has no holder. -/
theorem Counted.not_held (h : Counted held n) (hb : n b = 0) (i : ι) : held i ≠ some b := by
  have hempty : {i | held i = some b} = ∅ := by
    rw [← Set.encard_eq_zero, h b, hb]
    rfl
  intro hi
  exact Set.notMem_empty i (hempty ▸ hi)

omit [DecidableEq ι] [DecidableEq β] in
theorem Counted.pos (h : Counted held n) (hi : held i = some b) : 0 < n b :=
  Nat.pos_of_ne_zero fun h0 => h.not_held h0 i hi

omit [DecidableEq ι] [DecidableEq β] in
theorem Counted.eq_zero (h : Counted held n) (hb : ∀ i, held i ≠ some b) : n b = 0 := by
  have hempty : {i | held i = some b} = ∅ := by
    ext i
    simp [hb i]
  have hn := h b
  rw [hempty, Set.encard_empty] at hn
  exact_mod_cast hn.symm

theorem Counted.acquire (h : Counted held n) (hi : held i = none) (b : β) :
    Counted (update held i (some b)) (update n b (n b + 1)) := by
  intro c
  by_cases hc : c = b
  · subst hc
    have hset : {j | update held i (some c) j = some c} = insert i {j | held j = some c} := by
      ext j
      by_cases hj : j = i
      · simp [hj]
      · simp [hj]
    have hnew : i ∉ {j | held j = some c} := by
      rw [Set.mem_ofPred_eq, hi]
      exact nofun
    rw [hset, Set.encard_insert_of_notMem hnew, h c, update_self]
    rfl
  · have hset : {j | update held i (some b) j = some c} = {j | held j = some c} := by
      ext j
      by_cases hj : j = i
      · simp [hj, hi, Ne.symm hc]
      · simp [hj]
    rw [hset, h c, update_of_ne hc]

theorem Counted.release (h : Counted held n) (hi : held i = some b) :
    Counted (update held i none) (update n b (n b - 1)) := by
  intro c
  by_cases hc : c = b
  · subst hc
    have hset : {j | update held i none j = some c} = {j | held j = some c} \ {i} := by
      ext j
      by_cases hj : j = i
      · simp [hj]
      · simp [hj]
    have hadd := Set.encard_sdiff_singleton_add_one (s := {j | held j = some c}) hi
    rw [hset, update_self]
    rw [h c, ← Nat.sub_add_cancel (h.pos hi), Nat.cast_add, Nat.cast_one] at hadd
    exact ENat.add_left_injective_of_ne_top ENat.one_ne_top hadd
  · have hset : {j | update held i none j = some c} = {j | held j = some c} := by
      ext j
      by_cases hj : j = i
      · simp [hj, hi, Ne.symm hc]
      · simp [hj]
    rw [hset, h c, update_of_ne hc]

end Reservations
