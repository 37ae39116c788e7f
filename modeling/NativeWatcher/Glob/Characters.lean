import NativeWatcher.Glob.Component

/-!
# UTF-8 characters

`utf8Characters` cuts a byte string into characters; a byte that starts no well-formed
character stands for itself. An ASCII byte is a character wherever it stands and neither
continues nor absorbs its neighbours, and the case of ASCII letters does not move a cut.
-/

namespace NativeWatcher

/-! ## One byte -/

/-- `(ch & 0xc0) == 0x80`. -/
theorem continuation_ne_ascii {ch : UInt8} (h : ch < 0x80) : (ch &&& 0xc0 == 0x80) = false := by
  rw [beq_eq_false_iff_ne]
  intro heq
  have hle : (ch &&& 0xc0).toNat ≤ ch.toNat := by
    rw [UInt8.toNat_and]
    exact Nat.and_le_left
  rw [heq] at hle
  have hlt : ch.toNat < 128 := UInt8.lt_iff_toNat_lt.mp h
  exact absurd hle (by simpa using hlt)

theorem asciiLower_of_ascii {ch : UInt8} (h : ch < 0x80) : asciiLower ch < 0x80 := by
  unfold asciiLower
  split
  next hletter =>
      have h1 := UInt8.le_iff_toNat_le.mp hletter.1
      have h2 := UInt8.le_iff_toNat_le.mp hletter.2
      rw [UInt8.lt_iff_toNat_lt, UInt8.toNat_add]
      simp at h1 h2 ⊢
      omega
  next => exact h

theorem asciiLower_of_not_ascii {ch : UInt8} (h : ¬ ch < 0x80) : asciiLower ch = ch := by
  unfold asciiLower
  apply if_neg
  rintro ⟨_, h90⟩
  rw [UInt8.lt_iff_toNat_lt] at h
  rw [UInt8.le_iff_toNat_le] at h90
  simp at h h90
  omega

theorem asciiLower_ascii_iff {ch : UInt8} : asciiLower ch < 0x80 ↔ ch < 0x80 := by
  constructor
  · intro h
    by_contra hch
    rw [asciiLower_of_not_ascii hch] at h
    exact hch h
  · exact asciiLower_of_ascii

@[simp] theorem asciiLower_idem (ch : UInt8) : asciiLower (asciiLower ch) = asciiLower ch := by
  by_cases hletter : 65 ≤ ch ∧ ch ≤ 90
  · have h1 := UInt8.le_iff_toNat_le.mp hletter.1
    have h2 := UInt8.le_iff_toNat_le.mp hletter.2
    have hlow : asciiLower ch = ch + 32 := if_pos hletter
    rw [hlow]
    apply if_neg
    rintro ⟨_, h90⟩
    have h3 := UInt8.le_iff_toNat_le.mp h90
    rw [UInt8.toNat_add] at h3
    simp at h1 h2 h3
    omega
  · have hid : asciiLower ch = ch := if_neg hletter
    rw [hid, hid]

theorem asciiLower_eq_star {ch : UInt8} : asciiLower ch = star ↔ ch = star := by
  constructor
  · intro h
    unfold asciiLower at h
    split at h
    next hletter =>
        have h1 := UInt8.le_iff_toNat_le.mp hletter.1
        have h2 := UInt8.le_iff_toNat_le.mp hletter.2
        have h3 := congrArg UInt8.toNat h
        have hstar : star.toNat = 42 := rfl
        rw [UInt8.toNat_add, hstar] at h3
        simp at h1 h2 h3
        omega
    next => exact h
  · rintro rfl
    decide

/-! ## One character -/

theorem utf8Length_ascii {first : UInt8} (h : first < 0x80) (rest : Str) :
    utf8Length first rest = 1 := by
  have hne : ∀ n : UInt8, 0x80 ≤ n → ¬ n ≤ first := by
    intro n hn hle
    rw [UInt8.le_iff_toNat_le] at hn hle
    rw [UInt8.lt_iff_toNat_lt] at h
    omega
  unfold utf8Length
  simp [hne 0xc2 (by decide), hne 0xe0 (by decide), hne 0xf0 (by decide)]

/-- An ASCII byte ends a character as the end of the string does. -/
theorem utf8Length_append (first : UInt8) (a : Str) {ch : UInt8} (h : ch < 0x80) (b : Str) :
    utf8Length first (a ++ ch :: b) = utf8Length first a := by
  have hch := continuation_ne_ascii h
  unfold utf8Length
  match a with
  | [] => simp [hch]
  | [x] => simp [hch]
  | [x, y] => simp [hch]
  | x :: y :: z :: a => simp

theorem utf8Length_le (first : UInt8) (rest : Str) :
    utf8Length first rest ≤ rest.length + 1 := by
  unfold utf8Length
  match rest with
  | [] => simp
  | [x] =>
      simp
      split <;> omega
  | [x, y] =>
      simp
      split
      · omega
      · split <;> omega
  | x :: y :: z :: rest =>
      simp
      split
      · omega
      · split
        · omega
        · split <;> omega

theorem utf8Length_lower (first : UInt8) (rest : Str) :
    utf8Length (asciiLower first) (toAsciiLower rest) = utf8Length first rest := by
  by_cases hfirst : first < 0x80
  · rw [utf8Length_ascii hfirst, utf8Length_ascii (asciiLower_of_ascii hfirst)]
  · rw [asciiLower_of_not_ascii hfirst]
    have hcont : ∀ ch : UInt8, (asciiLower ch &&& 0xc0 == 0x80) = (ch &&& 0xc0 == 0x80) := by
      intro ch
      by_cases hch : ch < 0x80
      · rw [continuation_ne_ascii hch, continuation_ne_ascii (asciiLower_of_ascii hch)]
      · rw [asciiLower_of_not_ascii hch]
    cases rest with
    | nil => rfl
    | cons second rest =>
        by_cases hsecond : second < 0x80
        · have h1 := continuation_ne_ascii hsecond
          have h2 := continuation_ne_ascii (asciiLower_of_ascii hsecond)
          simp [utf8Length, toAsciiLower, h1, h2]
        · have hsame := asciiLower_of_not_ascii hsecond
          match rest with
          | [] => simp [utf8Length, toAsciiLower, hsame]
          | [x] => simp [utf8Length, toAsciiLower, hsame, hcont]
          | x :: y :: rest => simp [utf8Length, toAsciiLower, hsame, hcont]

/-! ## The characters of a string -/

theorem utf8Characters_cons (first : UInt8) (rest : Str) :
    utf8Characters (first :: rest) =
      (first :: rest.take (utf8Length first rest - 1)) ::
        utf8Characters (rest.drop (utf8Length first rest - 1)) := by
  rw [utf8Characters]

/-- An ASCII byte is a character wherever it stands. -/
theorem utf8Characters_append (a : Str) {ch : UInt8} (h : ch < 0x80) (b : Str) :
    utf8Characters (a ++ ch :: b) = utf8Characters a ++ [ch] :: utf8Characters b := by
  fun_induction utf8Characters a with
  | case1 =>
      rw [List.nil_append, utf8Characters_cons, utf8Length_ascii h]
      rfl
  | case2 first rest length ih =>
      have hlen : length - 1 ≤ rest.length := by
        have := utf8Length_le first rest
        omega
      rw [List.cons_append, utf8Characters_cons, utf8Length_append first rest h,
        List.take_append_of_le_length hlen, List.drop_append_of_le_length hlen, ih]
      rfl

theorem flatten_utf8Characters (value : Str) : (utf8Characters value).flatten = value := by
  fun_induction utf8Characters value with
  | case1 => rfl
  | case2 first rest length ih =>
      rw [List.flatten_cons, ih, List.cons_append, List.take_append_drop]

theorem utf8Characters_inj {a b : Str} : utf8Characters a = utf8Characters b ↔ a = b := by
  constructor
  · intro h
    rw [← flatten_utf8Characters a, h, flatten_utf8Characters]
  · exact fun h => h ▸ rfl

/-- The case of ASCII letters does not move a cut. -/
theorem utf8Characters_lower (value : Str) :
    utf8Characters (toAsciiLower value) = (utf8Characters value).map toAsciiLower := by
  fun_induction utf8Characters value with
  | case1 =>
      show utf8Characters [] = []
      rw [utf8Characters]
  | case2 first rest length ih =>
      have htake : (toAsciiLower rest).take (length - 1) = toAsciiLower (rest.take (length - 1)) :=
        List.map_take.symm
      have hdrop : (toAsciiLower rest).drop (length - 1) = toAsciiLower (rest.drop (length - 1)) :=
        List.map_drop.symm
      show utf8Characters (asciiLower first :: toAsciiLower rest) = _
      rw [utf8Characters_cons, utf8Length_lower, htake, hdrop, ih]
      rfl

theorem utf8Characters_ascii {value : Str} (h : isAsciiString value = true) :
    utf8Characters value = value.map fun ch => [ch] := by
  induction value with
  | nil => rw [utf8Characters, List.map_nil]
  | cons ch value ih =>
      rw [isAsciiString, List.all_cons, Bool.and_eq_true, decide_eq_true_eq] at h
      have hcons := utf8Characters_append [] h.1 value
      rw [List.nil_append, utf8Characters, List.nil_append] at hcons
      rw [hcons, ih h.2, List.map_cons]

end NativeWatcher
