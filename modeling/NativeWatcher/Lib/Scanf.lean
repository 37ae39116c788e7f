import Mathlib.Data.Nat.Digits.Defs
import Mathlib.Data.List.TakeWhile
import Mathlib.Tactic.Ring

/-!
# Numbers in a byte stream

The conversions of `scanf` for decimal integers, over the bytes a stream still
holds: white space is skipped, a sign may follow, then the longest run of
digits is taken. A number printed in decimal reads back as itself when no
digit follows it.
-/

namespace Scanf

/-- `isspace` in the C locale. -/
def isSpace (b : UInt8) : Bool := b == 32 || (decide (9 ≤ b) && decide (b ≤ 13))

/-- `isdigit`. -/
def isDigit (b : UInt8) : Bool := decide (48 ≤ b) && decide (b ≤ 57)

/-- A white-space directive. -/
def skipSpace (f : List UInt8) : List UInt8 := f.dropWhile isSpace

/-- An optional sign: whether it is a minus, and what follows. -/
def scanSign : List UInt8 → Bool × List UInt8
  | 45 :: f => (true, f)
  | 43 :: f => (false, f)
  | f => (false, f)

def digitsValue (ds : List UInt8) : ℕ :=
  ds.foldl (fun v d => 10 * v + (d.toNat - 48)) 0

/-- A decimal conversion: the sign and the digits' value, or `none` when there
is no digit; and the stream behind it. -/
def scanDecimal (f : List UInt8) : Option (Bool × ℕ) × List UInt8 :=
  let (negative, f) := scanSign (skipSpace f)
  let digits := f.takeWhile isDigit
  (if digits = [] then none else some (negative, digitsValue digits),
    f.dropWhile isDigit)

/-- `strtoul` on 64 bits: a minus negates, what does not fit is the greatest value. -/
def toUnsigned : Bool × ℕ → UInt64
  | (negative, v) =>
      if 2 ^ 64 ≤ v then UInt64.ofNat (2 ^ 64 - 1)
      else if negative then -UInt64.ofNat v
      else UInt64.ofNat v

/-- `strtol` on 64 bits, stored in an `int`. -/
def toInt : Bool × ℕ → Int32
  | (negative, v) =>
      let z : ℤ := if negative then -v else v
      Int32.ofInt (max (-2 ^ 63) (min (2 ^ 63 - 1) z))

/-- `fgetc`. -/
def getChar : List UInt8 → Option UInt8 × List UInt8
  | [] => (none, [])
  | b :: f => (some b, f)

/-! ## White space -/

theorem isSpace_eq_false_of_isDigit {b : UInt8} (h : isDigit b = true) :
    isSpace b = false := by
  obtain ⟨hlo, hhi⟩ : 48 ≤ b.toNat ∧ b.toNat ≤ 57 := by
    simpa [isDigit, UInt8.le_iff_toNat_le] using h
  have hne : b ≠ 32 := by
    rintro rfl
    exact absurd hlo (by decide)
  simp only [isSpace, Bool.or_eq_false_iff, beq_eq_false_iff_ne, Bool.and_eq_false_iff,
    decide_eq_false_iff_not, UInt8.le_iff_toNat_le]
  refine ⟨hne, Or.inr ?_⟩
  show ¬ b.toNat ≤ 13
  omega

theorem skipSpace_cons {b : UInt8} {f : List UInt8} (h : isSpace b = false) :
    skipSpace (b :: f) = b :: f :=
  List.dropWhile_cons_of_neg (by rw [h]; exact Bool.false_ne_true)

theorem skipSpace_space {b : UInt8} {f : List UInt8} (h : isSpace b = true) :
    skipSpace (b :: f) = skipSpace f :=
  List.dropWhile_cons_of_pos h

theorem skipSpace_idem (f : List UInt8) : skipSpace (skipSpace f) = skipSpace f := by
  induction f with
  | nil => rfl
  | cons b f ih =>
      cases h : isSpace b with
      | true =>
          rw [skipSpace_space h]
          exact ih
      | false => rw [skipSpace_cons h, skipSpace_cons h]

/-- A conversion starts behind the white space. -/
theorem scanDecimal_skipSpace (f : List UInt8) :
    scanDecimal (skipSpace f) = scanDecimal f := by
  rw [scanDecimal, skipSpace_idem]
  rfl

/-! ## A run of digits -/

theorem scanSign_of_isDigit {b : UInt8} {f : List UInt8} (h : isDigit b = true) :
    scanSign (b :: f) = (false, b :: f) := by
  have hminus : b ≠ 45 := by
    rintro rfl
    revert h
    decide
  have hplus : b ≠ 43 := by
    rintro rfl
    revert h
    decide
  unfold scanSign
  split
  · next heq => exact absurd (List.cons.inj heq).1 hminus
  · next heq => exact absurd (List.cons.inj heq).1 hplus
  · rfl

/-- The digits up to the first byte that is none. -/
theorem scanDecimal_digits {ds rest : List UInt8} (hne : ds ≠ [])
    (hdigits : ∀ d ∈ ds, isDigit d = true)
    (hrest : ∀ b ∈ rest.head?, isDigit b = false) :
    scanDecimal (ds ++ rest) = (some (false, digitsValue ds), rest) := by
  obtain ⟨d, ds', rfl⟩ := List.exists_cons_of_ne_nil hne
  have hd : isDigit d = true := hdigits d List.mem_cons_self
  have hstop : rest.takeWhile isDigit = [] ∧ rest.dropWhile isDigit = rest := by
    cases rest with
    | nil => exact ⟨rfl, rfl⟩
    | cons b rest =>
        have hb : isDigit b = false := hrest b rfl
        exact ⟨List.takeWhile_cons_of_neg (by simp [hb]),
          List.dropWhile_cons_of_neg (by simp [hb])⟩
  have hstart : scanSign (skipSpace (d :: ds' ++ rest)) = (false, d :: ds' ++ rest) := by
    rw [List.cons_append, skipSpace_cons (isSpace_eq_false_of_isDigit hd),
      scanSign_of_isDigit hd]
  have htake : (d :: ds' ++ rest).takeWhile isDigit = d :: ds' := by
    rw [List.takeWhile_append_of_pos hdigits, hstop.1, List.append_nil]
  have hdrop : (d :: ds' ++ rest).dropWhile isDigit = rest := by
    rw [List.dropWhile_append_of_pos hdigits, hstop.2]
  rw [scanDecimal, hstart]
  show (if (d :: ds' ++ rest).takeWhile isDigit = [] then none
    else some (false, digitsValue ((d :: ds' ++ rest).takeWhile isDigit)),
    (d :: ds' ++ rest).dropWhile isDigit) = _
  rw [htake, hdrop, if_neg (List.cons_ne_nil d ds')]

/-! ## Printed numbers -/

/-- The digits of a number, most significant first. -/
def digitBytes (n : ℕ) : List UInt8 :=
  (Nat.digits 10 n).reverse.map fun d => UInt8.ofNat (48 + d)

theorem digitsValue_snoc (ds : List UInt8) (d : UInt8) :
    digitsValue (ds ++ [d]) = 10 * digitsValue ds + (d.toNat - 48) := by
  unfold digitsValue
  rw [List.foldl_append]
  rfl

theorem toNat_digitByte {d : ℕ} (hd : d < 10) : (UInt8.ofNat (48 + d)).toNat - 48 = d := by
  rw [UInt8.toNat_ofNat']
  omega

theorem isDigit_digitByte {d : ℕ} (hd : d < 10) : isDigit (UInt8.ofNat (48 + d)) = true := by
  have hcases : ∀ i : Fin 10, isDigit (UInt8.ofNat (48 + i.val)) = true := by decide
  exact hcases ⟨d, hd⟩

theorem isDigit_of_mem_digitBytes {n : ℕ} {b : UInt8} (h : b ∈ digitBytes n) :
    isDigit b = true := by
  obtain ⟨d, hd, rfl⟩ := List.mem_map.mp h
  exact isDigit_digitByte (Nat.digits_lt_base (by decide) (List.mem_reverse.mp hd))

theorem digitsValue_digitBytes (n : ℕ) : digitsValue (digitBytes n) = n := by
  have hvalue : ∀ l : List ℕ, (∀ d ∈ l, d < 10) →
      digitsValue (l.reverse.map fun d => UInt8.ofNat (48 + d)) = Nat.ofDigits 10 l := by
    intro l hl
    induction l with
    | nil => rfl
    | cons d l ih =>
        rw [List.reverse_cons, List.map_append, List.map_singleton, digitsValue_snoc,
          ih fun d' hd' => hl d' (List.mem_cons_of_mem _ hd'),
          toNat_digitByte (hl d List.mem_cons_self), Nat.ofDigits_cons]
        exact Nat.add_comm _ _
  rw [digitBytes, hvalue _ fun d hd => Nat.digits_lt_base (by decide) hd,
    Nat.ofDigits_digits]

theorem toUnsigned_of_lt {n : ℕ} (h : n < 2 ^ 64) :
    toUnsigned (false, n) = UInt64.ofNat n := by
  rw [toUnsigned, if_neg (Nat.not_le.mpr h)]
  rfl

end Scanf
