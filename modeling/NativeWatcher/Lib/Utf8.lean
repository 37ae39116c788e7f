import Mathlib.Tactic.Basic

/-!
# Well-formed UTF-8

The byte sequences that encode one Unicode scalar value, by the ranges of their bytes: no
overlong form, no surrogate, nothing above U+10FFFF. They are what `String.utf8EncodeChar`
yields.
-/

namespace Utf8

/-- `10xxxxxx`. -/
def Tail (b : UInt8) : Prop := 0x80 ≤ b.toNat ∧ b.toNat ≤ 0xbf

/-- One well-formed sequence. The second byte of some lead bytes is restricted further. -/
inductive WellFormed : List UInt8 → Prop
  | one {a : UInt8} (ha : a.toNat ≤ 0x7f) : WellFormed [a]
  | two {a b : UInt8} (ha : 0xc2 ≤ a.toNat ∧ a.toNat ≤ 0xdf) (hb : Tail b) : WellFormed [a, b]
  | three {a b c : UInt8} (ha : 0xe0 ≤ a.toNat ∧ a.toNat ≤ 0xef) (hb : Tail b) (hc : Tail c)
      (hlow : a.toNat = 0xe0 → 0xa0 ≤ b.toNat) (hhigh : a.toNat = 0xed → b.toNat < 0xa0) :
      WellFormed [a, b, c]
  | four {a b c d : UInt8} (ha : 0xf0 ≤ a.toNat ∧ a.toNat ≤ 0xf4) (hb : Tail b) (hc : Tail c)
      (hd : Tail d) (hlow : a.toNat = 0xf0 → 0x90 ≤ b.toNat)
      (hhigh : a.toNat = 0xf4 → b.toNat < 0x90) : WellFormed [a, b, c, d]

theorem WellFormed.ne_nil {bs : List UInt8} (h : WellFormed bs) : bs ≠ [] := by
  cases h <;> simp

/-! ## Encoding -/

theorem toNat_ofNat_lt {n : Nat} (h : n < 256) : (UInt8.ofNat n).toNat = n := by
  rw [UInt8.toNat_ofNat']
  exact Nat.mod_eq_of_lt h

theorem tail_ofNat (n : Nat) : Tail (UInt8.ofNat (n % 64 + 0x80)) := by
  unfold Tail
  rw [toNat_ofNat_lt (by omega)]
  omega

/-- What a scalar value is. -/
theorem toNat_valid (c : Char) :
    c.val.toNat < 0xd800 ∨ (0xdfff < c.val.toNat ∧ c.val.toNat < 0x110000) := c.valid

theorem wellFormed_utf8EncodeChar (c : Char) : WellFormed (String.utf8EncodeChar c) := by
  have hvalid := toNat_valid c
  unfold String.utf8EncodeChar
  dsimp only
  generalize c.val.toNat = v at hvalid
  split
  next h =>
      apply WellFormed.one
      rw [toNat_ofNat_lt (by omega)]
      exact h
  next h1 =>
      split
      next h2 =>
          apply WellFormed.two _ (tail_ofNat v)
          rw [toNat_ofNat_lt (by omega)]
          omega
      next h2 =>
          split
          next h3 =>
              apply WellFormed.three _ (tail_ofNat (v / 64)) (tail_ofNat v)
              all_goals rw [toNat_ofNat_lt (by omega)]
              · rw [toNat_ofNat_lt (by omega)]
                omega
              · rw [toNat_ofNat_lt (by omega)]
                omega
              · omega
          next h3 =>
              apply WellFormed.four _ (tail_ofNat (v / 4096)) (tail_ofNat (v / 64)) (tail_ofNat v)
              all_goals rw [toNat_ofNat_lt (by omega)]
              · rw [toNat_ofNat_lt (by omega)]
                omega
              · rw [toNat_ofNat_lt (by omega)]
                omega
              · omega

/-! ## ASCII -/

theorem utf8EncodeChar_of_ascii {c : Char} (h : c.val.toNat ≤ 0x7f) :
    String.utf8EncodeChar c = [UInt8.ofNat c.val.toNat] := if_pos h

/-- An ASCII byte stands for itself only. -/
theorem toNat_of_mem_utf8EncodeChar {c : Char} {x : UInt8} (hx : x ∈ String.utf8EncodeChar c)
    (hascii : x.toNat ≤ 0x7f) : c.val.toNat = x.toNat := by
  have hwf := wellFormed_utf8EncodeChar c
  have htail : ∀ b : UInt8, Tail b → b ≠ x := by
    rintro b hb rfl
    unfold Tail at hb
    omega
  have hlead : ∀ a : UInt8, 0xc2 ≤ a.toNat → a ≠ x := by
    rintro a ha rfl
    omega
  by_cases hc : c.val.toNat ≤ 0x7f
  · rw [utf8EncodeChar_of_ascii hc, List.mem_singleton] at hx
    rw [hx, toNat_ofNat_lt (by omega)]
  · have hlong : 1 < (String.utf8EncodeChar c).length := by
      unfold String.utf8EncodeChar
      dsimp only
      rw [if_neg hc]
      split
      · exact Nat.lt_add_one 1
      · split <;> simp
    generalize String.utf8EncodeChar c = bs at hwf hx hlong
    cases hwf with
    | one ha => exact absurd hlong (Nat.lt_irrefl 1)
    | two ha hb =>
        simp [(hlead _ ha.1).symm, (htail _ hb).symm] at hx
    | three ha hb hc' _ _ =>
        simp [(hlead _ (Nat.le_trans (by decide) ha.1)).symm, (htail _ hb).symm,
          (htail _ hc').symm] at hx
    | four ha hb hc' hd _ _ =>
        simp [(hlead _ (Nat.le_trans (by decide) ha.1)).symm, (htail _ hb).symm,
          (htail _ hc').symm, (htail _ hd).symm] at hx

/-! ## Decoding -/

/-- The scalar value of a number in range. -/
theorem exists_char {v : Nat} (h : v < 0xd800 ∨ (0xdfff < v ∧ v < 0x110000)) :
    ∃ c : Char, c.val.toNat = v := by
  have hlt : v < 2 ^ 32 := by omega
  have hval : (UInt32.ofNat v).toNat = v := by
    rw [UInt32.toNat_ofNat']
    exact Nat.mod_eq_of_lt hlt
  refine ⟨⟨UInt32.ofNat v, ?_⟩, hval⟩
  show (UInt32.ofNat v).toNat.isValidChar
  rw [hval]
  exact h

theorem ofNat_eq_of_toNat {n : Nat} {b : UInt8} (h : n = b.toNat) : UInt8.ofNat n = b := by
  rw [h, UInt8.ofNat_toNat]

theorem exists_utf8EncodeChar {bs : List UInt8} (h : WellFormed bs) :
    ∃ c : Char, String.utf8EncodeChar c = bs := by
  cases h with
  | @one a ha =>
      obtain ⟨c, hc⟩ := exists_char (v := a.toNat) (by omega)
      refine ⟨c, ?_⟩
      unfold String.utf8EncodeChar
      dsimp only
      rw [hc, if_pos ha, UInt8.ofNat_toNat]
  | @two a b ha hb =>
      unfold Tail at hb
      obtain ⟨v, hv⟩ : ∃ v, v = (a.toNat - 0xc0) * 64 + (b.toNat - 0x80) := ⟨_, rfl⟩
      obtain ⟨c, hc⟩ := exists_char (v := v) (by omega)
      refine ⟨c, ?_⟩
      unfold String.utf8EncodeChar
      dsimp only
      rw [hc, if_neg (by omega), if_pos (by omega)]
      have ha' := ofNat_eq_of_toNat (n := v / 64 % 0x20 + 0xc0) (b := a) (by omega)
      have hb' := ofNat_eq_of_toNat (n := v % 0x40 + 0x80) (b := b) (by omega)
      rw [ha', hb']
  | @three a b c ha hb hc hlow hhigh =>
      unfold Tail at hb hc
      obtain ⟨v, hv⟩ : ∃ v,
        v = (a.toNat - 0xe0) * 4096 + (b.toNat - 0x80) * 64 + (c.toNat - 0x80) := ⟨_, rfl⟩
      obtain ⟨ch, hch⟩ := exists_char (v := v) (by omega)
      refine ⟨ch, ?_⟩
      unfold String.utf8EncodeChar
      dsimp only
      rw [hch, if_neg (by omega), if_neg (by omega), if_pos (by omega)]
      have ha' := ofNat_eq_of_toNat (n := v / 4096 % 0x10 + 0xe0) (b := a) (by omega)
      have hb' := ofNat_eq_of_toNat (n := v / 64 % 0x40 + 0x80) (b := b) (by omega)
      have hc' := ofNat_eq_of_toNat (n := v % 0x40 + 0x80) (b := c) (by omega)
      rw [ha', hb', hc']
  | @four a b c d ha hb hc hd hlow hhigh =>
      unfold Tail at hb hc hd
      obtain ⟨v, hv⟩ : ∃ v, v = (a.toNat - 0xf0) * 262144 + (b.toNat - 0x80) * 4096 +
        (c.toNat - 0x80) * 64 + (d.toNat - 0x80) := ⟨_, rfl⟩
      obtain ⟨ch, hch⟩ := exists_char (v := v) (by omega)
      refine ⟨ch, ?_⟩
      unfold String.utf8EncodeChar
      dsimp only
      rw [hch, if_neg (by omega), if_neg (by omega), if_neg (by omega)]
      have ha' := ofNat_eq_of_toNat (n := v / 262144 % 0x08 + 0xf0) (b := a) (by omega)
      have hb' := ofNat_eq_of_toNat (n := v / 4096 % 0x40 + 0x80) (b := b) (by omega)
      have hc' := ofNat_eq_of_toNat (n := v / 64 % 0x40 + 0x80) (b := c) (by omega)
      have hd' := ofNat_eq_of_toNat (n := v % 0x40 + 0x80) (b := d) (by omega)
      rw [ha', hb', hc', hd']

/-- **The well-formed sequences are the encodings of the scalar values.** -/
theorem wellFormed_iff {bs : List UInt8} :
    WellFormed bs ↔ ∃ c : Char, String.utf8EncodeChar c = bs := by
  constructor
  · exact exists_utf8EncodeChar
  · rintro ⟨c, rfl⟩
    exact wellFormed_utf8EncodeChar c

end Utf8
