import NativeWatcher.Glob.Glob
import NativeWatcher.Lib.SegmentMatch

/-!
# The mask engine steps a position set

Bit `i` of a state stands for position `i` of the compiled parts. `stepBitmask`
computes `SegmentMatch.step` on the set a mask denotes: the loop over the set bits
consumes one component, and the final shift closes the set.
-/

namespace NativeWatcher

open SegmentMatch

/-! ## Bits -/

/-- The mask has exactly the bits in `S`. -/
def Bits (mask : Mask) (S : Set ℕ) : Prop := ∀ j, mask.getLsbD j = true ↔ j ∈ S

theorem Bits.eq_zero_iff {mask : Mask} {S : Set ℕ} (h : Bits mask S) :
    mask = 0 ↔ S = ∅ := by
  constructor
  · rintro rfl
    ext j
    simpa using (h j).symm
  · rintro rfl
    apply BitVec.eq_of_getLsbD_eq
    intro j _
    have hj : ¬ mask.getLsbD j = true := fun hj => (h j).mp hj
    simpa using hj

namespace Glob

theorem getLsbD_bit {i j : Nat} : (bit i).getLsbD j = true ↔ j = i ∧ j < 64 := by
  unfold bit
  rw [BitVec.getLsbD_shiftLeft]
  change (decide (j < 64) && !decide (j < i) && (1#64).getLsbD (j - i)) = true ↔ _
  rw [BitVec.getLsbD_one]
  simp only [Bool.and_eq_true, decide_eq_true_eq, Bool.not_eq_true', decide_eq_false_iff_not]
  omega

theorem getLsbD_setBits {mParts : List GlobComponent} {test : GlobComponent → Bool}
    (hlen : mParts.length ≤ 64) (j : Nat) :
    (setBits mParts test).getLsbD j = true ↔
      ∃ part, mParts[j]? = some part ∧ test part = true := by
  induction mParts using List.reverseRecOn with
  | nil => simp [setBits]
  | append_singleton mParts part ih =>
      rw [List.length_append, List.length_singleton] at hlen
      have ih := ih (by omega)
      have hsnoc : setBits (mParts ++ [part]) test =
          if test part then setBits mParts test ||| bit mParts.length
          else setBits mParts test := by
        simp [setBits, List.zipIdx_append]
      rw [hsnoc]
      by_cases hj : j < mParts.length
      · have hne : ¬ j = mParts.length := by omega
        rw [List.getElem?_append_left hj]
        split
        · rw [BitVec.getLsbD_or, Bool.or_eq_true, ih, getLsbD_bit]
          simp [hne]
        · exact ih
      · have hnone : mParts[j]? = none := List.getElem?_eq_none (by omega)
        simp only [hnone, reduceCtorEq, false_and, exists_false, iff_false] at ih
        by_cases heq : j = mParts.length
        · subst heq
          rw [List.getElem?_concat_length]
          split
          next ht =>
              rw [BitVec.getLsbD_or, Bool.or_eq_true, getLsbD_bit]
              simp [ht, show mParts.length < 64 by omega]
          next ht => simp [ih, ht]
        · have hnone' : (mParts ++ [part])[j]? = none :=
            List.getElem?_eq_none (by simp; omega)
          rw [hnone']
          split
          · rw [BitVec.getLsbD_or, Bool.or_eq_true, getLsbD_bit]
            simp [ih, heq]
          · simp [ih]

/-- Subtracting one clears the lowest set bit and sets those below it. -/
theorem testBit_clearLowest {n p : Nat} (hp : n.testBit p = true)
    (hlow : ∀ i < p, n.testBit i = false) (j : Nat) :
    (n &&& (n - 1)).testBit j = (n.testBit j && decide (j ≠ p)) := by
  obtain ⟨m, rfl⟩ : ∃ m, n = 2 ^ p * (2 * m + 1) := by
    refine ⟨n / 2 ^ p / 2, ?_⟩
    have hmod : n % 2 ^ p = 0 := by
      apply Nat.eq_of_testBit_eq
      intro i
      rw [Nat.testBit_mod_two_pow, Nat.zero_testBit]
      by_cases hi : i < p
      · simp [hlow i hi]
      · simp [hi]
    have hodd : n / 2 ^ p % 2 = 1 := by
      rw [Nat.testBit_eq_decide_div_mod_eq, decide_eq_true_eq] at hp
      exact hp
    have hdiv := Nat.div_add_mod n (2 ^ p)
    have hhalf := Nat.div_add_mod (n / 2 ^ p) 2
    rw [hodd] at hhalf
    rw [hhalf]
    omega
  have hpow : 0 < 2 ^ p := Nat.two_pow_pos p
  have hsub : 2 ^ p * (2 * m + 1) - 1 = 2 ^ p * (2 * m) + (2 ^ p - 1) := by
    rw [Nat.mul_add]
    omega
  have hn : 2 ^ p * (2 * m + 1) = 2 ^ p * (2 * m + 1) + 0 := rfl
  rw [Nat.testBit_and, hsub, Nat.testBit_two_pow_mul_add _ (by omega), hn,
    Nat.testBit_two_pow_mul_add _ hpow]
  by_cases hj : j < p
  · simp [hj]
  · simp only [hj, if_false]
    cases hk : j - p with
    | zero =>
        have heq : j = p := by omega
        simp [heq]
    | succ k =>
        have hne : j ≠ p := by omega
        rw [Nat.testBit_succ, Nat.testBit_succ]
        have h₁ : (2 * m + 1) / 2 = m := by omega
        have h₂ : 2 * m / 2 = m := by omega
        simp [h₁, h₂, hne]

/-- `candidates &= candidates - 1` drops the bit that `trailingZeros` found. -/
theorem getLsbD_clearLowest {x : Mask} (hx : x ≠ 0) (j : Nat) :
    (x &&& (x - 1)).getLsbD j = true ↔ x.getLsbD j = true ∧ j ≠ x.ctz.toNat := by
  have hp : x.toNat.testBit x.ctz.toNat = true := BitVec.getLsbD_true_ctz_of_ne_zero hx
  have hlow : ∀ i < x.ctz.toNat, x.toNat.testBit i = false :=
    fun i hi => BitVec.getLsbD_false_of_lt_ctz hi
  have hpos : 0 < x.toNat := Nat.pos_of_ne_zero fun h0 => hx (BitVec.eq_of_toNat_eq h0)
  have hsub : (x - 1).toNat = x.toNat - 1 :=
    BitVec.toNat_sub_of_le (BitVec.le_def.mpr hpos)
  have h := testBit_clearLowest hp hlow j
  rw [← hsub, ← BitVec.toNat_and] at h
  change (x &&& (x - 1)).toNat.testBit j = true ↔ x.toNat.testBit j = true ∧ _
  rw [h]
  simp

end Glob

/-! ## One component -/

/-- The part takes the component in the directory `dir`. -/
def Takes (platform : Platform) (part : GlobComponent) (dir component : Str) : Prop :=
  componentMatchesExact platform.build part component = true ∨
    (componentMatchesFolded platform.build part component = true ∧
      platform.directoryCaseSensitivity dir = .Insensitive)

instance (platform : Platform) (part : GlobComponent) (dir component : Str) :
    Decidable (Takes platform part dir component) := by
  unfold Takes
  infer_instance

/-- A part as a segment pattern. -/
def GlobComponent.segment (part : GlobComponent) : Option GlobComponent :=
  if part.isDoubleStar then none else some part

theorem segment_eq_none {part : GlobComponent} :
    part.segment = none ↔ part.isDoubleStar = true := by
  unfold GlobComponent.segment
  split <;> simp_all

theorem segment_eq_some {part k : GlobComponent} :
    part.segment = some k ↔ part.isDoubleStar = false ∧ part = k := by
  unfold GlobComponent.segment
  split <;> simp_all

namespace Glob

def segments (g : Glob) : List (Option GlobComponent) :=
  g.mParts.map GlobComponent.segment

/-- A glob in mask form: the masks of its parts, all below the top bit. -/
structure MaskForm (g : Glob) : Prop where
  length_lt : g.mParts.length < 63
  doubleStar : g.mDoubleStarMask = setBits g.mParts (·.isDoubleStar)
  active : g.mActiveMask = setBits g.mParts (!·.isDoubleStar)
  initial : g.mInitialState = bit 0 ||| ((bit 0 &&& g.mDoubleStarMask) <<< 1)
  accept : g.mAcceptBit = bit g.mParts.length
  squeezed : Squeezed g.segments

variable {g : Glob}

theorem MaskForm.doubleStar_iff (h : MaskForm g) (j : Nat) :
    g.mDoubleStarMask.getLsbD j = true ↔ g.segments[j]? = some none := by
  have hlt := h.length_lt
  rw [h.doubleStar, getLsbD_setBits (by omega), segments, List.getElem?_map]
  cases g.mParts[j]? with
  | none => simp
  | some part => simpa using segment_eq_none.symm

theorem MaskForm.active_iff (h : MaskForm g) (j : Nat) :
    g.mActiveMask.getLsbD j = true ↔
      ∃ part, g.mParts[j]? = some part ∧ g.segments[j]? = some (some part) := by
  have hlt := h.length_lt
  rw [h.active, getLsbD_setBits (by omega), segments, List.getElem?_map]
  cases g.mParts[j]? with
  | none => simp
  | some part => simp [segment_eq_some]

/-- The final shift of a step closes the set. -/
theorem bits_shiftClosure (h : MaskForm g) {mask : Mask} {S : Set ℕ}
    (hmask : Bits mask S) :
    Bits (mask ||| ((mask &&& g.mDoubleStarMask) <<< 1)) (shiftClosure g.segments S) := by
  have hlt := h.length_lt
  intro j
  rw [BitVec.getLsbD_or, Bool.or_eq_true, hmask j, BitVec.getLsbD_shiftLeft]
  refine or_congr Iff.rfl ?_
  simp only [Bool.and_eq_true, decide_eq_true_eq, Bool.not_eq_true',
    decide_eq_false_iff_not, BitVec.getLsbD_and, hmask (j - 1), h.doubleStar_iff]
  constructor
  · rintro ⟨⟨_, hj⟩, hS, hnone⟩
    exact ⟨j - 1, hS, hnone, by omega⟩
  · rintro ⟨i, hS, hnone, rfl⟩
    have hi : i < g.mParts.length := by
      simpa [segments] using lt_length_of_getElem? hnone
    rw [Nat.add_sub_cancel]
    exact ⟨⟨by omega, by omega⟩, hS, hnone⟩

/-- The memo of one component holds the sensitivity of its directory. -/
def MemoOf (platform : Platform) (dir : Str)
    (cachedSensitivity : Option DirectoryCaseSensitivity) : Prop :=
  cachedSensitivity.getD (platform.directoryCaseSensitivity dir) =
    platform.directoryCaseSensitivity dir

theorem memoOf_none (platform : Platform) (dir : Str) : MemoOf platform dir none := rfl

/-- A candidate is the lowest one or among the others. -/
theorem exists_candidate_iff {candidates : Mask} (hc : ¬ candidates = 0) {P : ℕ → Prop} :
    (∃ q, candidates.getLsbD q = true ∧ P q) ↔
      P candidates.ctz.toNat ∨
        ∃ q, (candidates &&& (candidates - 1)).getLsbD q = true ∧ P q := by
  constructor
  · rintro ⟨q, hq, h⟩
    by_cases hqp : q = candidates.ctz.toNat
    · exact Or.inl (hqp ▸ h)
    · exact Or.inr ⟨q, (getLsbD_clearLowest hc q).mpr ⟨hq, hqp⟩, h⟩
  · rintro (h | ⟨q, hq, h⟩)
    · exact ⟨_, BitVec.getLsbD_true_ctz_of_ne_zero hc, h⟩
    · exact ⟨q, ((getLsbD_clearLowest hc q).mp hq).1, h⟩

/-- The loop adds the bit behind each candidate that takes the component. -/
theorem getLsbD_stepCandidates (g : Glob) (platform : Platform)
    (component root relativeParent : Str) (candidates next : Mask)
    (cachedSensitivity : Option DirectoryCaseSensitivity)
    (hmemo : MemoOf platform (buildParentDirectory root relativeParent) cachedSensitivity) :
    (∀ j, (g.stepCandidates platform component root relativeParent candidates next
        cachedSensitivity).1.getLsbD j = true ↔
      next.getLsbD j = true ∨ ∃ p, candidates.getLsbD p = true ∧
        Takes platform (g.mParts.getD p {}) (buildParentDirectory root relativeParent)
          component ∧ j = p + 1 ∧ j < 64) ∧
    MemoOf platform (buildParentDirectory root relativeParent)
      (g.stepCandidates platform component root relativeParent candidates next
        cachedSensitivity).2 := by
  fun_induction stepCandidates g platform component root relativeParent candidates next
      cachedSensitivity with
  | case1 next cached =>
      refine ⟨fun j => ?_, hmemo⟩
      simp
  | case2 candidates next cached hc p rest part hexact ih =>
      obtain ⟨hbits, hmemo'⟩ := ih hmemo
      refine ⟨fun j => ?_, hmemo'⟩
      -- An exact match does not ask the platform.
      have htakes : Takes platform part (buildParentDirectory root relativeParent)
        component := Or.inl hexact
      rw [hbits j, BitVec.getLsbD_or, Bool.or_eq_true, getLsbD_bit, or_assoc,
        exists_candidate_iff hc]
      exact or_congr_right (or_congr_left (and_iff_right htakes).symm)
  | case3 candidates next cached hc p rest part hexact hfolded ih =>
      obtain ⟨hbits, hmemo'⟩ := ih hmemo
      refine ⟨fun j => ?_, hmemo'⟩
      have htakes : ¬ Takes platform part (buildParentDirectory root relativeParent)
          component := by
        rintro (h | ⟨h, _⟩)
        · exact hexact h
        · simp [h] at hfolded
      rw [hbits j, exists_candidate_iff hc]
      exact or_congr_right (or_iff_right fun h => htakes h.1).symm
  | case4 candidates next cached hc p rest part hexact hfolded sensitivity ih =>
      -- A match up to case counts where the parent directory ignores case.
      have hsens : sensitivity = platform.directoryCaseSensitivity
        (buildParentDirectory root relativeParent) := hmemo
      simp only [dite_eq_ite] at ih
      obtain ⟨hbits, hmemo'⟩ := ih hsens
      refine ⟨fun j => ?_, hmemo'⟩
      have hfold : componentMatchesFolded platform.build part component = true := by
        simpa using hfolded
      have htakes : Takes platform part (buildParentDirectory root relativeParent)
          component ↔ sensitivity = .Insensitive := by
        rw [hsens]
        constructor
        · rintro (h | ⟨_, h⟩)
          · exact absurd h hexact
          · exact h
        · exact fun h => Or.inr ⟨hfold, h⟩
      have hnext : (if sensitivity = .Insensitive then next ||| bit (p + 1)
          else next).getLsbD j = true ↔
          next.getLsbD j = true ∨ (sensitivity = .Insensitive ∧ j = p + 1 ∧ j < 64) := by
        split
        next hins =>
            rw [BitVec.getLsbD_or, Bool.or_eq_true, getLsbD_bit]
            simp [hins]
        next hins => simp [hins]
      rw [hbits j, hnext, or_assoc, exists_candidate_iff hc]
      exact or_congr_right (or_congr_left (and_congr_left fun _ => htakes.symm))

/-- **One component steps the set.** -/
theorem bits_stepBitmask (platform : Platform) (component root relativeParent : Str)
    (h : MaskForm g) {state : Mask} {S : Set ℕ} (hstate : Bits state S)
    {cachedSensitivity : Option DirectoryCaseSensitivity}
    (hmemo : MemoOf platform (buildParentDirectory root relativeParent) cachedSensitivity) :
    Bits (g.stepBitmask platform state component root relativeParent cachedSensitivity).1
      (step (Takes platform) g.segments (buildParentDirectory root relativeParent)
        component S) ∧
    MemoOf platform (buildParentDirectory root relativeParent)
      (g.stepBitmask platform state component root relativeParent cachedSensitivity).2 := by
  obtain ⟨hbits, hmemo'⟩ := getLsbD_stepCandidates g platform component root
    relativeParent (state &&& g.mActiveMask) (state &&& g.mDoubleStarMask)
    cachedSensitivity hmemo
  refine ⟨?_, hmemo'⟩
  have hlt := h.length_lt
  unfold stepBitmask
  generalize g.stepCandidates platform component root relativeParent
    (state &&& g.mActiveMask) (state &&& g.mDoubleStarMask) cachedSensitivity = r
    at hbits hmemo'
  obtain ⟨next, cached'⟩ := r
  have hconsume : Bits next (consume (Takes platform) g.segments
      (buildParentDirectory root relativeParent) component S) := by
    intro j
    rw [hbits j, BitVec.getLsbD_and, Bool.and_eq_true, hstate j, h.doubleStar_iff]
    refine or_congr Iff.rfl ⟨?_, ?_⟩
    · rintro ⟨p, hp, htakes, rfl, _⟩
      rw [BitVec.getLsbD_and, Bool.and_eq_true, hstate p, h.active_iff] at hp
      obtain ⟨hpS, part, hpart, hseg⟩ := hp
      rw [List.getD_eq_getElem?_getD, hpart] at htakes
      exact ⟨p, hpS, ⟨part, hseg, htakes⟩, rfl⟩
    · rintro ⟨p, hpS, ⟨part, hseg, htakes⟩, rfl⟩
      have hplt : p < g.mParts.length := by
        simpa [segments] using lt_length_of_getElem? hseg
      have hpart : g.mParts[p]? = some part := by
        rw [segments, List.getElem?_map] at hseg
        obtain ⟨part', hpart', heq⟩ := Option.map_eq_some_iff.mp hseg
        rw [hpart', (segment_eq_some.mp heq).2]
      refine ⟨p, ?_, ?_, rfl, by omega⟩
      · rw [BitVec.getLsbD_and, Bool.and_eq_true, hstate p, h.active_iff]
        exact ⟨hpS, part, hpart, hseg⟩
      · rw [List.getD_eq_getElem?_getD, hpart]
        exact htakes
  exact bits_shiftClosure h hconsume

end Glob

end NativeWatcher
