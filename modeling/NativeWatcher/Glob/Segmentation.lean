import NativeWatcher.Glob.Characters
import NativeWatcher.Lib.Utf8

/-!
# The cuts between characters

`utf8Characters` takes a well-formed sequence where one starts, and a single byte where none
does. Nothing is lost, and what encodes scalar values is cut into their encodings.
-/

namespace NativeWatcher

open Utf8

/-! ## One character -/

/-- `(ch & 0xc0) == 0x80`. -/
theorem continuation_iff {ch : UInt8} : (ch &&& 0xc0 == 0x80) = true ↔ Tail ch := by
  have hall : ∀ n < 256, (UInt8.ofNat n &&& 0xc0 == 0x80) = decide (0x80 ≤ n ∧ n ≤ 0xbf) := by
    decide +kernel
  have h := hall ch.toNat ch.toNat_lt
  rw [UInt8.ofNat_toNat] at h
  rw [h, decide_eq_true_iff]
  rfl

/-- A continuation byte is there. -/
theorem tail_of_continuation {rest : Str} {i : Nat}
    (h : (match rest[i]? with
      | some ch => ch &&& 0xc0 == 0x80
      | none => false) = true) : ∃ ch, rest[i]? = some ch ∧ Tail ch := by
  split at h
  next ch hget => exact ⟨ch, hget, continuation_iff.mp h⟩
  next => cases h

/-- What the length is, and what is found under it. -/
theorem utf8Length_cases (first : UInt8) (rest : Str) :
    (∃ b r, rest = b :: r ∧ WellFormed [first, b] ∧ utf8Length first rest = 2) ∨
      (∃ b c r, rest = b :: c :: r ∧ WellFormed [first, b, c] ∧ utf8Length first rest = 3) ∨
      (∃ b c d r, rest = b :: c :: d :: r ∧ WellFormed [first, b, c, d] ∧
        utf8Length first rest = 4) ∨
      utf8Length first rest = 1 := by
  unfold utf8Length
  dsimp only
  split
  next h =>
      obtain ⟨hlow, hhigh, hcont⟩ := h
      obtain ⟨b, hb, htail⟩ := tail_of_continuation hcont
      left
      cases rest with
      | nil => cases hb
      | cons b' r =>
          cases hb
          rw [UInt8.le_iff_toNat_le] at hlow hhigh
          exact ⟨b, r, rfl, .two ⟨hlow, hhigh⟩ htail, rfl⟩
  next =>
      split
      next h =>
          -- The two last tests keep out what is overlong and the surrogates.
          obtain ⟨hlow, hhigh, hcont, hcont', hnot, hnot'⟩ := h
          obtain ⟨b, hb, htail⟩ := tail_of_continuation hcont
          obtain ⟨c, hc, htail'⟩ := tail_of_continuation hcont'
          right; left
          rcases rest with _ | ⟨b', _ | ⟨c', r⟩⟩
          · cases hb
          · cases hc
          · cases hb
            cases hc
            rw [UInt8.le_iff_toNat_le] at hlow hhigh
            refine ⟨b, c, r, rfl, .three ⟨hlow, hhigh⟩ htail htail' ?_ ?_, rfl⟩
            · intro hfirst
              have hlead : first = 0xe0 := UInt8.toNat_inj.mp hfirst
              exact Nat.le_of_not_lt fun hlt => hnot ⟨hlead, UInt8.lt_iff_toNat_lt.mpr hlt⟩
            · intro hfirst
              have hlead : first = 0xed := UInt8.toNat_inj.mp hfirst
              exact Nat.lt_of_not_le fun hle => hnot' ⟨hlead, UInt8.le_iff_toNat_le.mpr hle⟩
      next =>
          split
          next h =>
              -- Here they keep out what is overlong and what is above U+10FFFF.
              obtain ⟨hlow, hhigh, hcont, hcont', hcont'', hnot, hnot'⟩ := h
              obtain ⟨b, hb, htail⟩ := tail_of_continuation hcont
              obtain ⟨c, hc, htail'⟩ := tail_of_continuation hcont'
              obtain ⟨d, hd, htail''⟩ := tail_of_continuation hcont''
              right; right; left
              rcases rest with _ | ⟨b', _ | ⟨c', _ | ⟨d', r⟩⟩⟩
              · cases hb
              · cases hc
              · cases hd
              · cases hb
                cases hc
                cases hd
                rw [UInt8.le_iff_toNat_le] at hlow hhigh
                refine ⟨b, c, d, r, rfl, .four ⟨hlow, hhigh⟩ htail htail' htail'' ?_ ?_, rfl⟩
                · intro hfirst
                  have hlead : first = 0xf0 := UInt8.toNat_inj.mp hfirst
                  exact Nat.le_of_not_lt fun hlt => hnot ⟨hlead, UInt8.lt_iff_toNat_lt.mpr hlt⟩
                · intro hfirst
                  have hlead : first = 0xf4 := UInt8.toNat_inj.mp hfirst
                  exact Nat.lt_of_not_le fun hle => hnot' ⟨hlead, UInt8.le_iff_toNat_le.mpr hle⟩
          next => exact Or.inr (Or.inr (Or.inr rfl))

/-- The first chunk is a byte or a well-formed sequence. -/
theorem wellFormed_of_utf8Length (first : UInt8) (rest : Str) :
    utf8Length first rest = 1 ∨
      WellFormed (first :: rest.take (utf8Length first rest - 1)) := by
  rcases utf8Length_cases first rest with ⟨b, r, rfl, hwf, hlen⟩ | ⟨b, c, r, rfl, hwf, hlen⟩ |
    ⟨b, c, d, r, rfl, hwf, hlen⟩ | hlen
  · rw [hlen]
    exact Or.inr hwf
  · rw [hlen]
    exact Or.inr hwf
  · rw [hlen]
    exact Or.inr hwf
  · exact Or.inl hlen

/-- A well-formed sequence is taken whole, whatever comes behind it. -/
theorem utf8Length_of_wellFormed {first : UInt8} {chunk : Str} (h : WellFormed (first :: chunk))
    (rest : Str) : utf8Length first (chunk ++ rest) = chunk.length + 1 := by
  cases h with
  | one ha =>
      apply utf8Length_ascii
      rw [UInt8.lt_iff_toNat_lt]
      exact Nat.lt_succ_of_le ha
  | @two _ b ha hb =>
      unfold utf8Length
      apply if_pos
      exact ⟨UInt8.le_iff_toNat_le.mpr ha.1, UInt8.le_iff_toNat_le.mpr ha.2,
        continuation_iff.mpr hb⟩
  | @three _ b c ha hb hc hlow hhigh =>
      unfold utf8Length
      dsimp only
      rw [if_neg, if_pos]
      · rfl
      · refine ⟨UInt8.le_iff_toNat_le.mpr ha.1, UInt8.le_iff_toNat_le.mpr ha.2,
          continuation_iff.mpr hb, continuation_iff.mpr hc, ?_, ?_⟩
        · rintro ⟨rfl, hlt⟩
          exact absurd (hlow rfl) (Nat.not_le_of_lt (UInt8.lt_iff_toNat_lt.mp hlt))
        · rintro ⟨rfl, hle⟩
          exact absurd (hhigh rfl) (Nat.not_lt_of_le (UInt8.le_iff_toNat_le.mp hle))
      · rintro ⟨_, hle, _⟩
        exact absurd (ha.1.trans (UInt8.le_iff_toNat_le.mp hle)) (by decide)
  | @four _ b c d ha hb hc hd hlow hhigh =>
      unfold utf8Length
      dsimp only
      rw [if_neg, if_neg, if_pos]
      · rfl
      · refine ⟨UInt8.le_iff_toNat_le.mpr ha.1, UInt8.le_iff_toNat_le.mpr ha.2,
          continuation_iff.mpr hb, continuation_iff.mpr hc, continuation_iff.mpr hd, ?_, ?_⟩
        · rintro ⟨rfl, hlt⟩
          exact absurd (hlow rfl) (Nat.not_le_of_lt (UInt8.lt_iff_toNat_lt.mp hlt))
        · rintro ⟨rfl, hle⟩
          exact absurd (hhigh rfl) (Nat.not_lt_of_le (UInt8.le_iff_toNat_le.mp hle))
      · rintro ⟨_, hle, _⟩
        exact absurd (ha.1.trans (UInt8.le_iff_toNat_le.mp hle)) (by decide)
      · rintro ⟨_, hle, _⟩
        exact absurd (ha.1.trans (UInt8.le_iff_toNat_le.mp hle)) (by decide)

/-! ## The characters of a string -/

theorem utf8Characters_of_wellFormed {chunk : Str} (h : WellFormed chunk) (rest : Str) :
    utf8Characters (chunk ++ rest) = chunk :: utf8Characters rest := by
  obtain ⟨first, tail, rfl⟩ := List.exists_cons_of_ne_nil h.ne_nil
  rw [List.cons_append, utf8Characters_cons, utf8Length_of_wellFormed h, Nat.add_sub_cancel,
    List.take_left, List.drop_left]

theorem chunk_of_mem {value chunk : Str} (h : chunk ∈ utf8Characters value) :
    chunk.length = 1 ∨ WellFormed chunk := by
  fun_induction utf8Characters value with
  | case1 => cases h
  | case2 first rest length ih =>
      rcases List.mem_cons.mp h with rfl | h
      · rcases wellFormed_of_utf8Length first rest with hone | hwf
        · left
          show (first :: rest.take (utf8Length first rest - 1)).length = 1
          rw [hone]
          rfl
        · exact Or.inr hwf
      · exact ih h

/-- **The chunks of any byte string** join to it; each is one byte or the encoding of one
scalar value. An encoding is taken wherever it starts, and encoded text is cut between its
scalar values. -/
theorem utf8Characters_segments (value : Str) :
    (utf8Characters value).flatten = value ∧
      (∀ chunk ∈ utf8Characters value,
        chunk.length = 1 ∨ ∃ c : Char, String.utf8EncodeChar c = chunk) ∧
      (∀ (c : Char) (rest : Str), value = String.utf8EncodeChar c ++ rest →
        utf8Characters value = String.utf8EncodeChar c :: utf8Characters rest) ∧
      ∀ cs : List Char, value = cs.flatMap String.utf8EncodeChar →
        utf8Characters value = cs.map String.utf8EncodeChar := by
  refine ⟨flatten_utf8Characters value, ?_, ?_, ?_⟩
  · intro chunk hchunk
    rw [← wellFormed_iff]
    exact chunk_of_mem hchunk
  · rintro c rest rfl
    exact utf8Characters_of_wellFormed (wellFormed_utf8EncodeChar c) rest
  · rintro cs rfl
    induction cs with
    | nil => rw [List.flatMap_nil, utf8Characters, List.map_nil]
    | cons c cs ih =>
        rw [List.flatMap_cons, utf8Characters_of_wellFormed (wellFormed_utf8EncodeChar c), ih,
          List.map_cons]

end NativeWatcher
