import NativeWatcher.Glob.Component
import NativeWatcher.Lib.SegmentMatch

/-!
# Matching tables

A table has one row for each rest of a pattern and one column for each rest of a word.
The row below the last segment is true in its last column only; every other row follows
from the one below it.
-/

namespace NativeWatcher

open SegmentMatch

universe u v w

/-- A row whose cells need no memo. -/
theorem rowOver_pure (isStar : Bool) (val : ℕ → Bool) (next : List Bool) :
    RowOver isStar val 0 next (tableRow isStar (fun index (_ : Unit) => (val index, ())) 0 next
      ()).1 := by
  have hcell : ∀ (i : ℕ) (m : Unit), True →
      ((fun index (_ : Unit) => (val index, ())) i m).1 = val i ∧ True :=
    fun _ _ _ => ⟨rfl, trivial⟩
  exact (tableRow_spec isStar hcell 0 next () trivial).1

section Rows

variable {κ : Type u} {α : Type v} {σ : Type w} {adv : σ → α → σ} {sat : κ → σ → α → Prop}
  {position : ℕ → σ} {cs : List α} {rest : List (Option κ)} {next current : List Bool}

variable (adv sat position cs rest) in
/-- The columns of a row tell whether the rest of the pattern matches the rests of the word. -/
def RowDenotes (row : List Bool) : Prop :=
  row.length = cs.length + 1 ∧ ∀ j ≤ cs.length,
    (row.getD j false = true ↔ Matches adv sat rest (position j) (cs.drop j))

theorem rowDenotes_last : RowDenotes adv sat position cs [] (lastRow cs.length) := by
  refine ⟨by simp [lastRow], fun j hj => ?_⟩
  rw [matches_nil_iff, List.drop_eq_nil_iff, lastRow]
  rcases Nat.lt_or_eq_of_le hj with hlt | rfl
  · have hget : (List.replicate cs.length false ++ [true]).getD j false = false := by
      simp [List.getD_eq_getElem?_getD, List.getElem?_append_left, hlt]
    rw [hget]
    simp [hlt]
  · simp [List.getD_eq_getElem?_getD]

variable (hposition : ∀ j (hj : j < cs.length), position (j + 1) = adv (position j) cs[j])

include hposition

/-- A wildcard turns the row of the rest into its own. -/
theorem RowDenotes.star {val : ℕ → Bool} (h : RowDenotes adv sat position cs rest next)
    (hover : RowOver true val 0 next current) :
    RowDenotes adv sat position cs (none :: rest) current := by
  obtain ⟨hlen, hrow⟩ := h
  have hlen' : current.length = cs.length + 1 := hover.length_eq.trans hlen
  refine ⟨hlen', fun j hj => ?_⟩
  have hcol := hover.column j
  rw [if_pos rfl] at hcol
  -- The columns are filled from the last one.
  induction hn : cs.length - j generalizing j with
  | zero =>
      obtain rfl : j = cs.length := by omega
      have hout : current.getD (cs.length + 1) false = false := by
        rw [List.getD_eq_getElem?_getD, List.getElem?_eq_none (by omega)]
        rfl
      have hrowj := hrow _ (Nat.le_refl _)
      rw [List.drop_length] at hrowj ⊢
      rw [matches_none_nil, ← hrowj, hcol, hout, Bool.or_false]
  | succ n ih =>
      have hlt : j < cs.length := by omega
      have hrowj := hrow j hj
      have hcol' := hover.column (j + 1)
      rw [if_pos rfl] at hcol'
      have hih := ih (j + 1) hlt hcol' (by omega)
      rw [List.drop_eq_getElem_cons hlt] at hrowj ⊢
      rw [matches_none_cons, ← hrowj, ← hposition j hlt, hcol, Bool.or_eq_true]
      exact or_congr Iff.rfl hih

/-- One segment turns the row of the rest into its own. -/
theorem RowDenotes.one {k : κ} {val : ℕ → Bool} (h : RowDenotes adv sat position cs rest next)
    (hover : RowOver false val 0 next current)
    (hval : ∀ j (hj : j < cs.length), val j = true ↔ sat k (position j) cs[j]) :
    RowDenotes adv sat position cs (some k :: rest) current := by
  obtain ⟨hlen, hrow⟩ := h
  refine ⟨hover.length_eq.trans hlen, fun j hj => ?_⟩
  have hcol := hover.column j
  rw [if_neg Bool.false_ne_true, Nat.zero_add] at hcol
  rw [hcol, Bool.and_eq_true]
  rcases Nat.lt_or_eq_of_le hj with hlt | rfl
  · rw [List.drop_eq_getElem_cons hlt, matches_some_cons, ← hposition j hlt, ← hrow (j + 1) hlt,
      hval j hlt]
    exact and_comm
  · have hout : next.getD (cs.length + 1) false = false := by
      rw [List.getD_eq_getElem?_getD, List.getElem?_eq_none (by omega)]
      rfl
    rw [List.drop_length, hout]
    simp [not_matches_some_nil]

end Rows

end NativeWatcher
