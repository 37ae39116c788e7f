import Mathlib.Algebra.Ring.Nat
import Mathlib.Data.Set.Insert
import Mathlib.Tactic.Basic

/-!
# Segment patterns

A pattern is matched against a word of segments. A `none` matches any number of
segments, a `some k` exactly one, and the test of `k` may depend on a position
that `adv` moves along the word. The position sets of a pattern are the states of
its automaton: once no two `none` are adjacent, one shift closes a set.
-/

universe u v w

namespace SegmentMatch

variable {κ : Type u} {α : Type v} {σ : Type w}
  (adv : σ → α → σ) (sat : κ → σ → α → Prop)

/-- The pattern `ps` matches the whole word from the position `s`. -/
inductive Matches : List (Option κ) → σ → List α → Prop
  | nil (s : σ) : Matches [] s []
  | skip {ps : List (Option κ)} {s : σ} {cs : List α} (h : Matches ps s cs) :
      Matches (none :: ps) s cs
  | take {ps : List (Option κ)} {s : σ} {c : α} {cs : List α}
      (h : Matches (none :: ps) (adv s c) cs) : Matches (none :: ps) s (c :: cs)
  | one {ps : List (Option κ)} {k : κ} {s : σ} {c : α} {cs : List α}
      (hk : sat k s c) (h : Matches ps (adv s c) cs) :
      Matches (some k :: ps) s (c :: cs)

variable {adv sat} {ps qs : List (Option κ)} {k : κ} {s : σ} {c : α} {cs : List α}

/-! ## One segment at a time -/

theorem matches_nil_iff : Matches adv sat [] s cs ↔ cs = [] := by
  constructor
  · intro h
    cases h
    rfl
  · rintro rfl
    exact .nil s

theorem matches_none_nil :
    Matches adv sat (none :: ps) s [] ↔ Matches adv sat ps s [] := by
  constructor
  · intro h
    cases h
    assumption
  · exact .skip

theorem matches_none_cons :
    Matches adv sat (none :: ps) s (c :: cs) ↔
      Matches adv sat ps s (c :: cs) ∨ Matches adv sat (none :: ps) (adv s c) cs := by
  constructor
  · intro h
    cases h with
    | skip h => exact Or.inl h
    | take h => exact Or.inr h
  · rintro (h | h)
    · exact .skip h
    · exact .take h

theorem not_matches_some_nil : ¬ Matches adv sat (some k :: ps) s [] := by
  intro h
  cases h

theorem matches_some_cons :
    Matches adv sat (some k :: ps) s (c :: cs) ↔
      sat k s c ∧ Matches adv sat ps (adv s c) cs := by
  constructor
  · intro h
    cases h with
    | one hk h => exact ⟨hk, h⟩
  · rintro ⟨hk, h⟩
    exact .one hk h

/-! ## Runs of `none` -/

theorem matches_none_none :
    Matches adv sat (none :: none :: ps) s cs ↔ Matches adv sat (none :: ps) s cs := by
  induction cs generalizing s with
  | nil => rw [matches_none_nil]
  | cons c cs ih =>
      rw [matches_none_cons, ih]
      constructor
      · rintro (h | h)
        · exact h
        · exact .take h
      · exact Or.inl

theorem matches_none_all (s : σ) (cs : List α) : Matches adv sat [none] s cs := by
  induction cs generalizing s with
  | nil => exact .skip (.nil s)
  | cons c cs ih => exact .take (ih _)

/-- Patterns with equal languages stay so behind a common front. -/
theorem matches_append_congr
    (h : ∀ s cs, Matches adv sat ps s cs ↔ Matches adv sat qs s cs) :
    ∀ (front : List (Option κ)) (s : σ) (cs : List α),
      Matches adv sat (front ++ ps) s cs ↔ Matches adv sat (front ++ qs) s cs
  | [], s, cs => h s cs
  | none :: front, s, [] => by
      rw [List.cons_append, List.cons_append, matches_none_nil, matches_none_nil,
        matches_append_congr h front s []]
  | none :: front, s, c :: cs => by
      have ih := matches_append_congr h (none :: front) (adv s c) cs
      rw [List.cons_append, List.cons_append] at ih
      rw [List.cons_append, List.cons_append, matches_none_cons, matches_none_cons,
        matches_append_congr h front s (c :: cs), ih]
  | some k :: front, s, [] => by
      rw [List.cons_append, List.cons_append]
      exact iff_of_false not_matches_some_nil not_matches_some_nil
  | some k :: front, s, c :: cs => by
      rw [List.cons_append, List.cons_append, matches_some_cons, matches_some_cons,
        matches_append_congr h front (adv s c) cs]

/-- A `none` behind a `none` can be left out. -/
theorem matches_append_none {front : List (Option κ)}
    (hlast : front.getLast? = some none) :
    Matches adv sat (front ++ none :: ps) s cs ↔ Matches adv sat (front ++ ps) s cs := by
  obtain ⟨front, rfl⟩ := List.getLast?_eq_some_iff.mp hlast
  rw [List.append_assoc, List.append_assoc]
  exact matches_append_congr (fun _ _ => matches_none_none) front s cs

/-! ## A `none` at the end -/

/-- A last `none` leaves the front of the word to the rest of the pattern. -/
theorem matches_snoc_none :
    Matches adv sat (ps ++ [none]) s cs ↔ ∃ ds, ds <+: cs ∧ Matches adv sat ps s ds := by
  constructor
  · intro h
    generalize hqs : ps ++ [none] = qs at h
    induction h generalizing ps with
    | nil s => simp at hqs
    | @skip qs s cs h ih =>
        cases ps with
        | nil => exact ⟨[], List.nil_prefix, .nil _⟩
        | cons p ps =>
            obtain ⟨rfl, hrest⟩ := List.cons.inj hqs
            obtain ⟨ds, hds, hm⟩ := ih hrest
            exact ⟨ds, hds, .skip hm⟩
    | @take qs s c cs h ih =>
        cases ps with
        | nil => exact ⟨[], List.nil_prefix, .nil _⟩
        | cons p ps =>
            obtain ⟨ds, hds, hm⟩ := ih hqs
            obtain ⟨rfl, -⟩ := List.cons.inj hqs
            exact ⟨c :: ds, List.cons_prefix_cons.mpr ⟨rfl, hds⟩, .take hm⟩
    | @one qs k s c cs hk h ih =>
        cases ps with
        | nil => simp at hqs
        | cons p ps =>
            obtain ⟨rfl, hrest⟩ := List.cons.inj hqs
            obtain ⟨ds, hds, hm⟩ := ih hrest
            exact ⟨c :: ds, List.cons_prefix_cons.mpr ⟨rfl, hds⟩, .one hk hm⟩
  · rintro ⟨ds, ⟨es, rfl⟩, h⟩
    induction h with
    | nil s => exact matches_none_all s es
    | skip h ih => exact .skip ih
    | take h ih => exact .take ih
    | one hk h ih => exact .one hk ih

/-- A pattern that matches the empty word, and is not empty, matches every word. -/
theorem matches_of_nil (hne : ps ≠ []) (h : Matches adv sat ps s []) (cs : List α) :
    Matches adv sat ps s cs := by
  cases ps with
  | nil => exact absurd rfl hne
  | cons p ps =>
      cases p with
      | some k => exact absurd h not_matches_some_nil
      | none =>
          have hnil : ∀ s', Matches adv sat ps s' [] := by
            intro s'
            have hps := matches_none_nil.mp h
            clear h hne
            induction ps with
            | nil => exact .nil s'
            | cons p ps ih =>
                cases p with
                | some k => exact absurd hps not_matches_some_nil
                | none => exact .skip (ih (matches_none_nil.mp hps))
          induction cs generalizing s with
          | nil => exact h
          | cons c cs ih => exact .take (ih (.skip (hnil _)))

/-! ## What a match tells about the letters -/

/-- Every segment test is passed by a letter of the word. -/
theorem Matches.exists_sat (h : Matches adv sat ps s cs) (hk : some k ∈ ps) :
    ∃ s' c, c ∈ cs ∧ sat k s' c := by
  induction h with
  | nil s => cases hk
  | skip h ih =>
      rcases List.mem_cons.mp hk with hk | hk
      · cases hk
      · exact ih hk
  | take h ih =>
      obtain ⟨s', c', hc', hsat⟩ := ih hk
      exact ⟨s', c', List.mem_cons_of_mem _ hc', hsat⟩
  | one hsat h ih =>
      rcases List.mem_cons.mp hk with hk | hk
      · cases hk
        exact ⟨_, _, List.mem_cons_self, hsat⟩
      · obtain ⟨s', c', hc', hsat'⟩ := ih hk
        exact ⟨s', c', List.mem_cons_of_mem _ hc', hsat'⟩

/-- A weight that no test exceeds: the word weighs at least as much as the pattern. -/
theorem Matches.weight_le (h : Matches adv sat ps s cs) (weight : κ → ℕ) (weight' : α → ℕ)
    (hle : ∀ k s c, some k ∈ ps → sat k s c → weight k ≤ weight' c) :
    (ps.map fun p => p.elim 0 weight).sum ≤ (cs.map weight').sum := by
  induction h with
  | nil s => exact Nat.le_refl _
  | skip h ih =>
      rw [List.map_cons, List.sum_cons, Option.elim_none, Nat.zero_add]
      exact ih fun k s c hk => hle k s c (List.mem_cons_of_mem _ hk)
  | take h ih =>
      refine (ih hle).trans ?_
      rw [List.map_cons, List.sum_cons]
      exact Nat.le_add_left ..
  | one hsat h ih =>
      rw [List.map_cons, List.sum_cons, Option.elim_some, List.map_cons, List.sum_cons]
      exact Nat.add_le_add (hle _ _ _ List.mem_cons_self hsat)
        (ih fun k s c hk => hle k s c (List.mem_cons_of_mem _ hk))

/-- No two adjacent `none`. -/
def Squeezed (ps : List (Option κ)) : Prop :=
  ∀ i, ps[i]? = some none → ps[i + 1]? ≠ some none

theorem squeezed_nil : Squeezed ([] : List (Option κ)) := by
  intro i h
  cases h

theorem Squeezed.snoc {o : Option κ} (h : Squeezed ps)
    (hlast : o = none → ps.getLast? ≠ some none) : Squeezed (ps ++ [o]) := by
  intro i hi hnext
  have hlt : i + 1 < (ps ++ [o]).length := (List.getElem?_eq_some_iff.mp hnext).1
  rw [List.length_append, List.length_singleton] at hlt
  rw [List.getElem?_append_left (by omega)] at hi
  by_cases hlen : i + 1 < ps.length
  · rw [List.getElem?_append_left hlen] at hnext
    exact h i hi hnext
  · have heq : i + 1 = ps.length := by omega
    rw [heq, List.getElem?_concat_length] at hnext
    refine hlast (Option.some.inj hnext) ?_
    rw [List.getLast?_eq_getElem?, ← heq, Nat.add_sub_cancel]
    exact hi

/-! ## Position sets -/

variable (adv sat ps) in
/-- Some rest of the pattern, from a position in `S`, matches. -/
def Accepts (S : Set ℕ) (s : σ) (cs : List α) : Prop :=
  ∃ i ∈ S, Matches adv sat (ps.drop i) s cs

variable (ps) in
/-- A position before a `none` may stand behind it. -/
def Closed (S : Set ℕ) : Prop := ∀ i ∈ S, ps[i]? = some none → i + 1 ∈ S

variable (ps) in
def Bounded (S : Set ℕ) : Prop := ∀ i ∈ S, i ≤ ps.length

variable (ps) in
/-- The positions in `S` before a `none`, each with the position behind it. -/
def shiftClosure (S : Set ℕ) : Set ℕ :=
  {j | j ∈ S ∨ ∃ i ∈ S, ps[i]? = some none ∧ j = i + 1}

variable (ps) in
def initial : Set ℕ := shiftClosure ps {0}

variable (sat ps) in
/-- The positions reached by consuming `c`. -/
def consume (s : σ) (c : α) (S : Set ℕ) : Set ℕ :=
  {j | (j ∈ S ∧ ps[j]? = some none) ∨
    ∃ i ∈ S, (∃ k, ps[i]? = some (some k) ∧ sat k s c) ∧ j = i + 1}

variable (sat ps) in
def step (s : σ) (c : α) (S : Set ℕ) : Set ℕ :=
  shiftClosure ps (consume sat ps s c S)

variable {S : Set ℕ}

theorem lt_length_of_getElem? {i : ℕ} {o : Option κ} (h : ps[i]? = some o) :
    i < ps.length := (List.getElem?_eq_some_iff.mp h).1

theorem drop_eq_cons {i : ℕ} {o : Option κ} (h : ps[i]? = some o) :
    ps.drop i = o :: ps.drop (i + 1) := by
  obtain ⟨hlt, rfl⟩ := List.getElem?_eq_some_iff.mp h
  exact List.drop_eq_getElem_cons hlt

/-- One shift closes a set when the pattern is squeezed. -/
theorem closed_shiftClosure (h : Squeezed ps) (S : Set ℕ) :
    Closed ps (shiftClosure ps S) := by
  rintro j (hj | ⟨i, hi, hnone, rfl⟩) hstar
  · exact Or.inr ⟨j, hj, hstar, rfl⟩
  · exact absurd hstar (h i hnone)

theorem Bounded.shiftClosure (h : Bounded ps S) : Bounded ps (shiftClosure ps S) := by
  rintro j (hj | ⟨i, _, hnone, rfl⟩)
  · exact h j hj
  · exact lt_length_of_getElem? hnone

theorem bounded_consume : Bounded ps (consume sat ps s c S) := by
  rintro j (⟨_, hnone⟩ | ⟨i, _, ⟨k, hk, _⟩, rfl⟩)
  · exact Nat.le_of_lt (lt_length_of_getElem? hnone)
  · exact lt_length_of_getElem? hk

theorem closed_step (h : Squeezed ps) : Closed ps (step sat ps s c S) :=
  closed_shiftClosure h _

theorem bounded_step : Bounded ps (step sat ps s c S) := bounded_consume.shiftClosure

theorem closed_initial (h : Squeezed ps) : Closed ps (initial ps) :=
  closed_shiftClosure h _

theorem bounded_initial : Bounded ps (initial ps) := by
  refine Bounded.shiftClosure fun i hi => ?_
  rw [Set.mem_singleton_iff.mp hi]
  exact Nat.zero_le _

theorem accepts_shiftClosure :
    Accepts adv sat ps (shiftClosure ps S) s cs ↔ Accepts adv sat ps S s cs := by
  constructor
  · rintro ⟨j, hj | ⟨i, hi, hnone, rfl⟩, h⟩
    · exact ⟨j, hj, h⟩
    · exact ⟨i, hi, by rw [drop_eq_cons hnone]; exact .skip h⟩
  · rintro ⟨j, hj, h⟩
    exact ⟨j, Or.inl hj, h⟩

theorem accepts_initial :
    Accepts adv sat ps (initial ps) s cs ↔ Matches adv sat ps s cs := by
  rw [initial, accepts_shiftClosure]
  constructor
  · rintro ⟨i, hi, h⟩
    rw [Set.mem_singleton_iff.mp hi] at h
    exact h
  · exact fun h => ⟨0, rfl, h⟩

theorem not_accepts_empty : ¬ Accepts adv sat ps ∅ s cs := by
  rintro ⟨i, hi, _⟩
  exact hi

/-- At the end of the word a closed set accepts through its last position. -/
theorem accepts_nil (hclosed : Closed ps S) (hbound : Bounded ps S) :
    Accepts adv sat ps S s [] ↔ ps.length ∈ S := by
  constructor
  · rintro ⟨i, hi, h⟩
    -- Only `none` is left behind `i`; the set holds each position on the way.
    induction hn : ps.length - i generalizing i with
    | zero =>
        have heq : i = ps.length := by
          have := hbound i hi
          omega
        exact heq ▸ hi
    | succ n ih =>
        have hlt : i < ps.length := by omega
        cases hpi : ps[i] with
        | none =>
            have hnone : ps[i]? = some none := by
              rw [List.getElem?_eq_getElem hlt, hpi]
            rw [drop_eq_cons hnone, matches_none_nil] at h
            exact ih (i + 1) (hclosed i hi hnone) h (by omega)
        | some k =>
            have hsome : ps[i]? = some (some k) := by
              rw [List.getElem?_eq_getElem hlt, hpi]
            rw [drop_eq_cons hsome] at h
            exact absurd h not_matches_some_nil
  · intro h
    refine ⟨ps.length, h, ?_⟩
    rw [List.drop_length]
    exact .nil s

/-- One segment moves a closed set by `step`. -/
theorem accepts_cons (hclosed : Closed ps S) :
    Accepts adv sat ps S s (c :: cs) ↔
      Accepts adv sat ps (step sat ps s c S) (adv s c) cs := by
  rw [step, accepts_shiftClosure]
  constructor
  · rintro ⟨i, hi, h⟩
    induction hn : ps.length - i generalizing i with
    | zero =>
        rw [List.drop_eq_nil_of_le (by omega), matches_nil_iff] at h
        cases h
    | succ n ih =>
        have hlt : i < ps.length := by omega
        cases hpi : ps[i] with
        | none =>
            have hnone : ps[i]? = some none := by
              rw [List.getElem?_eq_getElem hlt, hpi]
            rw [drop_eq_cons hnone, matches_none_cons] at h
            rcases h with h | h
            · exact ih (i + 1) (hclosed i hi hnone) h (by omega)
            · exact ⟨i, Or.inl ⟨hi, hnone⟩, by rw [drop_eq_cons hnone]; exact h⟩
        | some k =>
            have hsome : ps[i]? = some (some k) := by
              rw [List.getElem?_eq_getElem hlt, hpi]
            rw [drop_eq_cons hsome, matches_some_cons] at h
            exact ⟨i + 1, Or.inr ⟨i, hi, ⟨k, hsome, h.1⟩, rfl⟩, h.2⟩
  · rintro ⟨j, ⟨hj, hnone⟩ | ⟨i, hi, ⟨k, hk, hsat⟩, rfl⟩, h⟩
    · refine ⟨j, hj, ?_⟩
      rw [drop_eq_cons hnone] at h ⊢
      exact .take h
    · refine ⟨i, hi, ?_⟩
      rw [drop_eq_cons hk]
      exact .one hsat h

end SegmentMatch
