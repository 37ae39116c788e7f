import NativeWatcher.Glob.Characters
import NativeWatcher.Glob.Table
import NativeWatcher.Lib.Wildcard

/-!
# Components match as wildcards

Four routes lead to the answer about one component: a literal comparison, the lone star,
the iterative matcher on ASCII bytes and the table on UTF-8 characters. All of them decide
whether the characters of the pattern, with `*` for any run, match those of the value.
-/

namespace NativeWatcher

open Wildcard

/-! ## The reference -/

/-- `*` stands for any run of characters, every other character for itself. -/
def wildcardSegment (ch : Str) : Option Str := if ch = [star] then none else some ch

/-- The characters of a value are matched by those of a pattern. -/
def WildcardMatches (patternChars valueChars : List Str) : Prop :=
  Matches (fun ch valueChar => ch = valueChar) (patternChars.map wildcardSegment) valueChars

/-! ## The iterative matcher -/

section Ascii

variable (ignoreCase : Bool)

/-- The bytes as the loop compares them. -/
def SameByte (k c : UInt8) : Prop :=
  (if ignoreCase then asciiLower k else k) = if ignoreCase then asciiLower c else c

def byteSegment (ch : UInt8) : Option UInt8 := if ch = star then none else some ch

/-- What `matchWildcardAscii` decides. -/
def ByteMatches (pattern value : Str) : Prop :=
  Matches (SameByte ignoreCase) (pattern.map byteSegment) value

/-- The pattern behind the last star has taken the letters behind the restart, and the
answer rests on that star; without one it rests on what is left of both. -/
def ScanInv (pattern value : Str) (s : WildcardScan) : Prop :=
  match s.star with
  | none => ByteMatches ignoreCase pattern value ↔
      ByteMatches ignoreCase (pattern.drop s.p) (value.drop s.v)
  | some star => ∃ ks cs, (∀ k ∈ ks, k ≠ NativeWatcher.star) ∧
      pattern.drop star = NativeWatcher.star :: (ks ++ pattern.drop s.p) ∧
      value.drop s.restart = cs ++ value.drop s.v ∧
      List.Forall₂ (SameByte ignoreCase) ks cs ∧
      (ByteMatches ignoreCase pattern value ↔
        ByteMatches ignoreCase (pattern.drop star) (value.drop s.restart))

variable {ignoreCase} {pattern value : Str} {s : WildcardScan} {pc : UInt8}

theorem byteSegment_star : byteSegment star = none := if_pos rfl

theorem byteSegment_of_ne (h : pc ≠ star) : byteSegment pc = some pc := if_neg h

theorem map_byteSegment {ks : Str} (h : ∀ k ∈ ks, k ≠ star) :
    ks.map byteSegment = ks.map some :=
  List.map_congr_left fun k hk => byteSegment_of_ne (h k hk)

/-- The pattern from a star on. -/
theorem map_from_star {ks rest : Str} (h : ∀ k ∈ ks, k ≠ star) :
    (star :: (ks ++ rest)).map byteSegment = none :: (ks.map some ++ rest.map byteSegment) := by
  rw [List.map_cons, byteSegment_star, List.map_append, map_byteSegment h]

theorem drop_eq_cons_of_getElem? {l : Str} {i : Nat} (h : l[i]? = some pc) :
    l.drop i = pc :: l.drop (i + 1) := by
  obtain ⟨hlt, rfl⟩ := List.getElem?_eq_some_iff.mp h
  exact List.drop_eq_getElem_cons hlt

/-- A letter that fits its pattern byte. -/
theorem ScanInv.letter (h : ScanInv ignoreCase pattern value s) (hp : pattern[s.p]? = some pc)
    (hne : pc ≠ star) (hv : s.v < value.length) (hsame : SameByte ignoreCase pc value[s.v])
    (hle : s.restart ≤ s.v + 1) :
    ScanInv ignoreCase pattern value ⟨s.p + 1, s.v + 1, s.star, s.restart, hle⟩ := by
  have hpat := drop_eq_cons_of_getElem? hp
  have hval := List.drop_eq_getElem_cons hv
  unfold ScanInv at h ⊢
  cases hstar : s.star with
  | none =>
      rw [hstar] at h
      apply h.trans
      rw [ByteMatches, hpat, hval, List.map_cons, byteSegment_of_ne hne, matches_cons_cons]
      exact and_iff_right hsame
  | some st =>
      rw [hstar] at h
      obtain ⟨ks, cs, hks, hfrom, hvalue, htaken, hiff⟩ := h
      refine ⟨ks ++ [pc], cs ++ [value[s.v]], ?_, ?_, ?_, ?_, hiff⟩
      · intro k hk
        rcases List.mem_append.mp hk with hk | hk
        · exact hks k hk
        · rw [List.mem_singleton.mp hk]
          exact hne
      · rw [hfrom, hpat, List.append_assoc]
        rfl
      · rw [hvalue, hval, List.append_assoc]
        rfl
      · exact List.rel_append htaken (.cons hsame .nil)

/-- A star is the new point of return. -/
theorem ScanInv.newStar (h : ScanInv ignoreCase pattern value s) (hp : pattern[s.p]? = some star)
    (hle : s.v ≤ s.v) :
    ScanInv ignoreCase pattern value ⟨s.p + 1, s.v, some s.p, s.v, hle⟩ := by
  have hpat := drop_eq_cons_of_getElem? hp
  refine ⟨[], [], by simp, hpat, rfl, .nil, ?_⟩
  unfold ScanInv at h
  cases hstar : s.star with
  | none =>
      rw [hstar] at h
      exact h
  | some st =>
      rw [hstar] at h
      obtain ⟨ks, cs, hks, hfrom, hvalue, htaken, hiff⟩ := h
      apply hiff.trans
      rw [ByteMatches, ByteMatches, hfrom, hvalue, map_from_star hks, hpat, List.map_cons,
        byteSegment_star]
      exact matches_forget htaken

/-- A letter that fits nothing moves the restart on. -/
theorem ScanInv.retry {st : Nat} (h : ScanInv ignoreCase pattern value s)
    (hstar : s.star = some st) (hv : s.v < value.length)
    (hfail : ¬ ByteMatches ignoreCase (pattern.drop s.p) (value.drop s.v))
    (hle : s.restart + 1 ≤ s.restart + 1) :
    ScanInv ignoreCase pattern value ⟨st + 1, s.restart + 1, s.star, s.restart + 1, hle⟩ := by
  unfold ScanInv at h ⊢
  rw [hstar] at h ⊢
  obtain ⟨ks, cs, hks, hfrom, hvalue, htaken, hiff⟩ := h
  have hst : st < pattern.length := by
    by_contra hge
    rw [List.drop_eq_nil_of_le (by omega)] at hfrom
    cases hfrom
  have hval := List.drop_eq_getElem_cons hv
  have htail : (cs ++ value.drop s.v).tail = value.drop (s.restart + 1) := by
    rw [← hvalue, List.tail_drop]
  refine ⟨[], [], by simp, ?_, rfl, .nil, ?_⟩
  · have hcons := List.drop_eq_getElem_cons hst
    rw [hfrom] at hcons
    obtain ⟨hhead, hrest⟩ := List.cons.inj hcons
    rw [List.nil_append, ← hrest, hfrom]
  · apply hiff.trans
    rw [← htail]
    rw [ByteMatches, ByteMatches, hfrom, hvalue, map_from_star hks]
    rw [ByteMatches, hval] at hfail
    rw [hval]
    exact matches_retry htaken hfail

/-- Nothing is left to compare but stars. -/
theorem byteMatches_nil : ByteMatches ignoreCase pattern [] ↔ ∀ ch ∈ pattern, ch = star := by
  rw [ByteMatches, matches_nil_right, List.forall_mem_map]
  apply forall₂_congr
  intro ch _
  unfold byteSegment
  split <;> simp_all

/-- Neither a letter nor a star: the rest of the pattern does not fit here. -/
theorem not_byteMatches {i j : Nat} (hv : j < value.length) (hstar : pattern[i]? ≠ some star)
    (hletter : ∀ pc, pattern[i]? = some pc → pc ≠ star → ¬ SameByte ignoreCase pc value[j]) :
    ¬ ByteMatches ignoreCase (pattern.drop i) (value.drop j) := by
  rw [List.drop_eq_getElem_cons hv, ByteMatches]
  cases hp : pattern[i]? with
  | none =>
      rw [List.drop_eq_nil_of_le (List.getElem?_eq_none_iff.mp hp), List.map_nil, matches_nil_left]
      exact List.cons_ne_nil _ _
  | some pc =>
      have hne : pc ≠ star := fun h => hstar (h ▸ hp)
      rw [drop_eq_cons_of_getElem? hp, List.map_cons, byteSegment_of_ne hne, matches_cons_cons]
      exact fun h => hletter pc hp hne h.1

/-- The loop decides the rest of the pattern that its point of return stands for. -/
theorem matchWildcardLoop_iff (h : ScanInv ignoreCase pattern value s) (hv : s.v ≤ value.length) :
    (∃ p, matchWildcardLoop pattern value ignoreCase s = some p ∧
        ∀ ch ∈ pattern.drop p, ch = star) ↔ ByteMatches ignoreCase pattern value := by
  fun_induction matchWildcardLoop pattern value ignoreCase s with
  | case1 s hlt fold hp ih =>
      obtain ⟨pc, hpc, htest⟩ := (Option.any_eq_true ..).mp hp
      rw [Bool.and_eq_true, bne_iff_ne, beq_iff_eq] at htest
      exact ih (h.letter hpc htest.1 hlt htest.2 _) hlt
  | case2 s hlt fold hp hstar ih => exact ih (h.newStar hstar _) hv
  | case3 s hlt fold hp hstar st hst ih =>
      have hfail : ¬ ByteMatches ignoreCase (pattern.drop s.p) (value.drop s.v) := by
        apply not_byteMatches hlt hstar
        intro pc hpc hne hsame
        apply hp
        rw [hpc, Option.any_some, Bool.and_eq_true, bne_iff_ne, beq_iff_eq]
        exact ⟨hne, hsame⟩
      -- The star takes one byte more, and the loop is back behind it.
      have hle : s.restart + 1 ≤ value.length := by
        have := s.restart_le
        omega
      exact ih (h.retry hst hlt hfail _) hle
  | case4 s hlt fold hp hstar hst =>
      -- Without a star behind it the mismatch is final.
      have hiff : ByteMatches ignoreCase pattern value ↔
          ByteMatches ignoreCase (pattern.drop s.p) (value.drop s.v) := by
        unfold ScanInv at h
        rw [hst] at h
        exact h
      apply iff_of_false
      · rintro ⟨p, hnone, _⟩
        cases hnone
      · rw [hiff]
        apply not_byteMatches hlt hstar
        intro pc hpc hne hsame
        apply hp
        rw [hpc, Option.any_some, Bool.and_eq_true, bne_iff_ne, beq_iff_eq]
        exact ⟨hne, hsame⟩
  | case5 s hge =>
      -- The value is used up, so that only stars may be left of the pattern.
      have hend : value.drop s.v = [] := List.drop_eq_nil_of_le (by omega)
      have hresult : (∃ p, some s.p = some p ∧ ∀ ch ∈ pattern.drop p, ch = star) ↔
          ByteMatches ignoreCase (pattern.drop s.p) [] := by
        rw [byteMatches_nil]
        constructor
        · rintro ⟨p, hp, hall⟩
          cases hp
          exact hall
        · exact fun hall => ⟨s.p, rfl, hall⟩
      apply hresult.trans
      unfold ScanInv at h
      cases hstar : s.star with
      | none =>
          rw [hstar, hend] at h
          exact h.symm
      | some st =>
          rw [hstar] at h
          obtain ⟨ks, cs, hks, hfrom, hvalue, htaken, hiff⟩ := h
          rw [hend, List.append_nil] at hvalue
          apply Iff.symm
          apply hiff.trans
          rw [ByteMatches, ByteMatches, hfrom, hvalue, map_from_star hks]
          exact matches_end htaken

theorem matchWildcardAscii_iff (pattern value : Str) (ignoreCase : Bool) :
    matchWildcardAscii pattern value ignoreCase = true ↔ ByteMatches ignoreCase pattern value := by
  have hstart : ScanInv ignoreCase pattern value ⟨0, 0, none, 0, Nat.le_refl _⟩ := Iff.rfl
  rw [← matchWildcardLoop_iff hstart (Nat.zero_le _), matchWildcardAscii]
  cases matchWildcardLoop pattern value ignoreCase ⟨0, 0, none, 0, Nat.le_refl _⟩ with
  | none => simp
  | some p => simp

end Ascii

/-! ## The table -/

section Utf8

variable {ignoreCase : Bool}

/-- The characters as the table compares them on POSIX. -/
def SameChar (ignoreCase : Bool) (k c : Str) : Prop :=
  if ignoreCase then toAsciiLower k = toAsciiLower c else k = c

theorem equalIgnoringCase_iff {a b : Str} :
    equalIgnoringCase a b = true ↔ toAsciiLower a = toAsciiLower b := by
  unfold equalIgnoringCase toAsciiLower
  rw [Bool.and_eq_true, beq_iff_eq]
  induction a generalizing b with
  | nil => cases b <;> simp
  | cons x a ih =>
      cases b with
      | nil => simp
      | cons y b =>
          rw [List.length_cons, List.length_cons, List.zip_cons_cons, List.all_cons,
            List.map_cons, List.map_cons, List.cons.injEq, ← ih]
          simp
          tauto

theorem equalsAsciiLower_iff {lowerPattern value : Str} :
    equalsAsciiLower lowerPattern value = true ↔ lowerPattern = toAsciiLower value := by
  unfold equalsAsciiLower toAsciiLower
  rw [Bool.and_eq_true, beq_iff_eq]
  induction lowerPattern generalizing value with
  | nil => cases value <;> simp
  | cons x lowerPattern ih =>
      cases value with
      | nil => simp
      | cons y value =>
          rw [List.length_cons, List.length_cons, List.zip_cons_cons, List.all_cons,
            List.map_cons, List.cons.injEq, ← ih]
          simp
          tauto

/-- The test of one cell. -/
def charCell (ignoreCase : Bool) (valueChars : List Str) (patternChar : Str) (index : Nat) :
    Bool :=
  if ignoreCase then equalIgnoringCase patternChar (valueChars.getD index [])
  else patternChar == valueChars.getD index []

theorem charCell_iff {valueChars : List Str} {patternChar : Str} {j : Nat}
    (hj : j < valueChars.length) :
    charCell ignoreCase valueChars patternChar j = true ↔
      SameChar ignoreCase patternChar valueChars[j] := by
  unfold charCell SameChar
  rw [List.getD_eq_getElem?_getD, List.getElem?_eq_getElem hj, Option.getD_some]
  cases ignoreCase with
  | true => exact equalIgnoringCase_iff
  | false => exact beq_iff_eq

/-- The rows of `matchWildcardUtf8`. -/
def charRows (ignoreCase : Bool) (valueChars patternChars : List Str) : List Bool :=
  patternChars.foldr (fun patternChar next =>
    (tableRow (patternChar == [star])
      (fun index (_ : Unit) => (charCell ignoreCase valueChars patternChar index, ())) 0 next
      ()).1) (lastRow valueChars.length)

theorem rowDenotes_charRows (valueChars patternChars : List Str) :
    RowDenotes (fun (_ : Unit) _ => ()) (fun k _ c => SameChar ignoreCase k c) (fun _ => ())
      valueChars (patternChars.map wildcardSegment)
      (charRows ignoreCase valueChars patternChars) := by
  induction patternChars with
  | nil => exact rowDenotes_last
  | cons patternChar patternChars ih =>
      have hover : RowOver (patternChar == [star]) (charCell ignoreCase valueChars patternChar) 0
          (charRows ignoreCase valueChars patternChars)
          (charRows ignoreCase valueChars (patternChar :: patternChars)) := rowOver_pure ..
      rw [List.map_cons]
      unfold wildcardSegment
      by_cases hchar : patternChar = [star]
      · rw [if_pos hchar]
        rw [beq_iff_eq.mpr hchar] at hover
        exact RowDenotes.star (fun _ _ => rfl) ih hover
      · rw [if_neg hchar]
        rw [beq_eq_false_iff_ne.mpr hchar] at hover
        exact RowDenotes.one (fun _ _ => rfl) ih hover fun j hj => charCell_iff hj

/-- The table decides the characters of the pattern. -/
theorem matchWildcardUtf8_iff (patternChars : List Str) (value : Str) :
    matchWildcardUtf8 .posix patternChars value ignoreCase = true ↔
      Matches (SameChar ignoreCase) (patternChars.map wildcardSegment) (utf8Characters value) := by
  have hhead : ∀ row : List Bool, row.headD false = row.getD 0 false := by
    intro row
    cases row <;> rfl
  have hrows : RowDenotes _ _ _ _ _ (charRows ignoreCase (utf8Characters value) patternChars) :=
    rowDenotes_charRows ..
  have h := hrows.2 0 (Nat.zero_le _)
  rw [List.drop_zero, ← hhead] at h
  exact h

end Utf8

/-! ## One reference for all routes -/

section Routes

variable {ignoreCase : Bool} {pattern value : Str}

/-- The characters of `value` are matched by those of `pattern`. -/
def CharMatches (ignoreCase : Bool) (pattern value : Str) : Prop :=
  Matches (SameChar ignoreCase) ((utf8Characters pattern).map wildcardSegment)
    (utf8Characters value)

theorem charMatches_exact :
    CharMatches false pattern value ↔
      WildcardMatches (utf8Characters pattern) (utf8Characters value) := Iff.rfl

theorem toAsciiLower_eq_star {ch : Str} : toAsciiLower ch = [star] ↔ ch = [star] := by
  constructor
  · intro h
    obtain ⟨c, rfl, hc⟩ := List.map_eq_singleton_iff.mp h
    rw [asciiLower_eq_star.mp hc]
  · rintro rfl
    decide

/-- Ignoring case is matching in lower case. -/
theorem charMatches_folded :
    CharMatches true pattern value ↔
      WildcardMatches (utf8Characters (toAsciiLower pattern))
        (utf8Characters (toAsciiLower value)) := by
  have hsegment : ∀ ch, wildcardSegment (toAsciiLower ch) =
      (wildcardSegment ch).map toAsciiLower := by
    intro ch
    unfold wildcardSegment
    by_cases h : ch = [star]
    · rw [if_pos h, if_pos (toAsciiLower_eq_star.mpr h)]
      rfl
    · rw [if_neg h, if_neg fun hl => h (toAsciiLower_eq_star.mp hl)]
      rfl
  rw [WildcardMatches, utf8Characters_lower, utf8Characters_lower, List.map_map]
  have hmap : wildcardSegment ∘ toAsciiLower = Option.map toAsciiLower ∘ wildcardSegment :=
    funext hsegment
  have hsame : ∀ k c, toAsciiLower k = toAsciiLower c ↔ SameChar true k c :=
    fun _ _ => Iff.rfl
  rw [hmap, ← List.map_map, matches_map toAsciiLower toAsciiLower hsame]
  rfl

theorem asciiStar : star < 0x80 := by decide

/-- A star behind a star says nothing new. -/
theorem charMatches_collapse :
    CharMatches ignoreCase (collapseStars pattern) value ↔ CharMatches ignoreCase pattern value := by
  have hfold : ∀ (rest acc : Str), CharMatches ignoreCase (rest.foldl (fun result ch =>
      if ch = star ∧ result ≠ [] ∧ result.getLast? = some star then result
      else result ++ [ch]) acc) value ↔ CharMatches ignoreCase (acc ++ rest) value := by
    intro rest
    induction rest with
    | nil =>
        intro acc
        rw [List.foldl_nil, List.append_nil]
    | cons ch rest ih =>
        intro acc
        rw [List.foldl_cons, ih]
        split
        next h =>
            obtain ⟨rfl, _, hlast⟩ := h
            obtain ⟨front, rfl⟩ := List.getLast?_eq_some_iff.mp hlast
            have hone : (utf8Characters (front ++ [star] ++ rest)).map wildcardSegment =
                (utf8Characters front).map wildcardSegment ++
                  none :: (utf8Characters rest).map wildcardSegment := by
              rw [List.append_assoc, List.singleton_append, utf8Characters_append _ asciiStar,
                List.map_append, List.map_cons]
              rfl
            have htwo : (utf8Characters (front ++ [star] ++ star :: rest)).map wildcardSegment =
                (utf8Characters front).map wildcardSegment ++
                  none :: none :: (utf8Characters rest).map wildcardSegment := by
              have hempty := utf8Characters_append [] asciiStar rest
              rw [List.nil_append, utf8Characters, List.nil_append] at hempty
              rw [List.append_assoc, List.singleton_append, utf8Characters_append _ asciiStar,
                hempty, List.map_append, List.map_cons, List.map_cons]
              rfl
            rw [CharMatches, CharMatches, hone, htwo]
            exact SegmentMatch.matches_append_congr
              (fun _ _ => SegmentMatch.matches_none_none.symm) _ _ _
        next => rw [List.append_assoc, List.singleton_append]
  exact (hfold pattern []).trans (by rw [List.nil_append])

/-- On ASCII the bytes are the characters. -/
theorem byteMatches_iff (hpattern : isAsciiString pattern = true)
    (hvalue : isAsciiString value = true) :
    ByteMatches ignoreCase pattern value ↔ CharMatches ignoreCase pattern value := by
  have hsegment : wildcardSegment ∘ (fun ch => [ch]) =
      Option.map (fun ch => [ch]) ∘ byteSegment := by
    funext ch
    show wildcardSegment [ch] = (byteSegment ch).map fun ch => [ch]
    unfold wildcardSegment byteSegment
    by_cases h : ch = star <;> simp [h]
  have hsame : ∀ k c : UInt8, SameChar ignoreCase [k] [c] ↔ SameByte ignoreCase k c := by
    intro k c
    unfold SameChar SameByte
    cases ignoreCase <;> simp [toAsciiLower]
  rw [CharMatches, utf8Characters_ascii hpattern, utf8Characters_ascii hvalue, List.map_map,
    hsegment, ← List.map_map, matches_map _ _ hsame]
  rfl

/-- Folding the pattern first changes nothing when case is ignored. -/
theorem byteMatches_lower :
    ByteMatches true (toAsciiLower pattern) value ↔ ByteMatches true pattern value := by
  have hsegment : byteSegment ∘ asciiLower = Option.map asciiLower ∘ byteSegment := by
    funext ch
    show byteSegment (asciiLower ch) = (byteSegment ch).map asciiLower
    unfold byteSegment
    by_cases h : ch = star
    · rw [if_pos h, if_pos (asciiLower_eq_star.mpr h)]
      rfl
    · rw [if_neg h, if_neg fun hl => h (asciiLower_eq_star.mp hl)]
      rfl
  have hsame : ∀ k c : UInt8, SameByte true (asciiLower k) (id c) ↔ SameByte true k c := by
    intro k c
    simp [SameByte]
  have h := matches_map asciiLower id hsame (pattern.map byteSegment) value
  rw [List.map_id, List.map_map, ← hsegment, ← List.map_map] at h
  exact h

/-- The characters of a name without a star. -/
theorem map_wildcardSegment (hstar : star ∉ pattern) :
    (utf8Characters pattern).map wildcardSegment = (utf8Characters pattern).map some := by
  apply List.map_congr_left
  intro ch hch
  apply if_neg
  rintro rfl
  apply hstar
  rw [← flatten_utf8Characters pattern]
  exact List.mem_flatten_of_mem hch (List.mem_singleton_self _)

/-- Without a star only the value itself is matched. -/
theorem charMatches_literal (hstar : star ∉ pattern) :
    CharMatches false pattern value ↔ pattern = value := by
  rw [CharMatches, map_wildcardSegment hstar, matches_literals_only]
  have hsame : SameChar false = Eq := rfl
  rw [hsame, List.forall₂_eq_eq_eq, utf8Characters_inj]

theorem charMatches_literal_folded (hstar : star ∉ pattern) :
    CharMatches true pattern value ↔ toAsciiLower pattern = toAsciiLower value := by
  have hlower : star ∉ toAsciiLower pattern := by
    intro hmem
    obtain ⟨ch, hch, heq⟩ := List.mem_map.mp hmem
    rw [asciiLower_eq_star] at heq
    exact hstar (heq ▸ hch)
  rw [charMatches_folded, ← charMatches_exact, charMatches_literal hlower]

/-- The lone star. -/
theorem charMatches_star : CharMatches ignoreCase [star] value := by
  have hchars := utf8Characters_append [] asciiStar []
  rw [List.nil_append, utf8Characters, List.nil_append] at hchars
  rw [CharMatches, hchars]
  exact matches_none_iff.mpr ⟨[], List.nil_suffix, matches_nil_left.mpr rfl⟩

theorem isAsciiString_lower : isAsciiString (toAsciiLower pattern) = isAsciiString pattern := by
  unfold isAsciiString toAsciiLower
  rw [List.all_map]
  congr 1
  funext ch
  rw [Function.comp_apply, decide_eq_decide]
  exact asciiLower_ascii_iff

end Routes

/-! ## The compiled component -/

section Compiled

variable {pattern : Str} (value : Str)

/-- What the routes read of a component other than `**`. -/
theorem compile_posix (h : pattern ≠ doubleStar) :
    (GlobComponent.compile .posix pattern).hasWildcard = pattern.contains star ∧
      (GlobComponent.compile .posix pattern).raw =
        (if pattern.contains star then collapseStars pattern else pattern) ∧
      (GlobComponent.compile .posix pattern).isSingleStar =
        (pattern.contains star && collapseStars pattern == [star]) ∧
      (pattern.contains star = true → collapseStars pattern ≠ [star] →
        (GlobComponent.compile .posix pattern).chars =
          utf8Characters (GlobComponent.compile .posix pattern).raw) := by
  have hdouble : (pattern == doubleStar) = false := beq_eq_false_iff_ne.mpr h
  unfold GlobComponent.compile
  cases hstar : pattern.contains star with
  | false => simp [hdouble]
  | true =>
      simp only [hdouble, Bool.not_false, Bool.and_true, if_true]
      refine ⟨trivial, trivial, trivial, fun _ hne => ?_⟩
      rw [beq_eq_false_iff_ne.mpr hne]
      rfl

theorem compile_raw_matches (h : pattern ≠ doubleStar) (ignoreCase : Bool) :
    CharMatches ignoreCase (GlobComponent.compile .posix pattern).raw value ↔
      CharMatches ignoreCase pattern value := by
  rw [(compile_posix h).2.1]
  split
  · exact charMatches_collapse
  · exact Iff.rfl

theorem compile_isAscii (part : Str) :
    (GlobComponent.compile .posix part).isAscii =
      isAsciiString (GlobComponent.compile .posix part).raw := rfl

/-- Folding keeps what is ASCII, and folds nothing else. -/
theorem compile_folded (part : Str) :
    (GlobComponent.compile .posix part).isFoldedAscii =
        isAsciiString (GlobComponent.compile .posix part).raw ∧
      (isAsciiString (GlobComponent.compile .posix part).raw = true →
        (GlobComponent.compile .posix part).folded =
          toAsciiLower (GlobComponent.compile .posix part).raw) := by
  have hfolded : (GlobComponent.compile .posix part).folded =
      if isAsciiString (GlobComponent.compile .posix part).raw then
        toAsciiLower (GlobComponent.compile .posix part).raw
      else (GlobComponent.compile .posix part).raw := rfl
  have hascii : (GlobComponent.compile .posix part).isFoldedAscii =
      isAsciiString (GlobComponent.compile .posix part).folded := rfl
  rw [hascii, hfolded]
  split
  next h => exact ⟨isAsciiString_lower, fun _ => rfl⟩
  next h => exact ⟨rfl, fun ht => absurd ht h⟩

theorem componentMatchesExact_iff (h : pattern ≠ doubleStar) :
    componentMatchesExact .posix (GlobComponent.compile .posix pattern) value = true ↔
      CharMatches false pattern value := by
  obtain ⟨hwild, hraw, hsingle, hchars⟩ := compile_posix h
  rw [← compile_raw_matches value h, componentMatchesExact, hwild, hsingle]
  by_cases hstar : pattern.contains star = true
  · rw [hstar, Bool.true_and]
    by_cases hlone : collapseStars pattern = [star]
    · rw [if_pos (beq_iff_eq.mpr hlone), hraw, if_pos hstar, hlone]
      exact iff_of_true rfl charMatches_star
    · rw [if_neg (by simpa using hlone), if_neg (by simp), compile_isAscii]
      split
      next hascii =>
          rw [Bool.and_eq_true] at hascii
          rw [matchWildcardAscii_iff, byteMatches_iff hascii.1 hascii.2]
      next => rw [matchWildcardUtf8_iff, hchars hstar hlone, CharMatches]
  · have hnone : star ∉ pattern := by simpa using hstar
    rw [Bool.not_eq_true] at hstar
    rw [hstar, Bool.false_and, if_neg Bool.false_ne_true, Bool.not_false, if_pos rfl, beq_iff_eq,
      hraw, hstar, if_neg Bool.false_ne_true, charMatches_literal hnone]

theorem componentMatchesFolded_iff (h : pattern ≠ doubleStar) :
    componentMatchesFolded .posix (GlobComponent.compile .posix pattern) value = true ↔
      CharMatches true pattern value := by
  obtain ⟨hwild, hraw, hsingle, hchars⟩ := compile_posix h
  obtain ⟨hfoldedAscii, hfolded⟩ := compile_folded pattern
  rw [← compile_raw_matches value h, componentMatchesFolded, hwild, hsingle, hfoldedAscii]
  by_cases hstar : pattern.contains star = true
  · rw [hstar, Bool.true_and]
    by_cases hlone : collapseStars pattern = [star]
    · rw [if_pos (beq_iff_eq.mpr hlone), hraw, if_pos hstar, hlone]
      exact iff_of_true rfl charMatches_star
    · rw [if_neg (by simpa using hlone)]
      split
      next hascii =>
          rw [Bool.and_eq_true] at hascii
          rw [if_neg (by simp), hfolded hascii.1, matchWildcardAscii_iff, byteMatches_lower,
            byteMatches_iff hascii.1 hascii.2]
      next =>
          rw [if_neg (by simp), matchWildcardUtf8_iff, hchars hstar hlone, CharMatches]
  · have hnone : star ∉ pattern := by simpa using hstar
    rw [Bool.not_eq_true] at hstar
    have hraw' : (GlobComponent.compile .posix pattern).raw = pattern := by
      rw [hraw, hstar, if_neg Bool.false_ne_true]
    rw [hstar, Bool.false_and, if_neg Bool.false_ne_true, hraw', charMatches_literal_folded hnone]
    rw [hraw'] at hfolded
    split
    next hascii =>
        rw [Bool.and_eq_true] at hascii
        rw [Bool.not_false, if_pos rfl, hfolded hascii.1, equalsAsciiLower_iff]
    next => rw [Bool.not_false, if_pos rfl, equalIgnoringCase_iff]

end Compiled

/-- **Every route decides wildcard matching on characters.** The iterative matcher, where
it applies, and the table give the answer whichever of the routes is taken. -/
theorem component_matches_characters (pattern value : Str) (h : pattern ≠ doubleStar) :
    (componentMatchesExact .posix (GlobComponent.compile .posix pattern) value = true ↔
        WildcardMatches (utf8Characters pattern) (utf8Characters value)) ∧
      (componentMatchesFolded .posix (GlobComponent.compile .posix pattern) value = true ↔
        WildcardMatches (utf8Characters (toAsciiLower pattern))
          (utf8Characters (toAsciiLower value))) ∧
      (∀ ignoreCase, matchWildcardUtf8 .posix (utf8Characters (collapseStars pattern)) value
          ignoreCase = (if ignoreCase then componentMatchesFolded .posix
            (GlobComponent.compile .posix pattern) value
          else componentMatchesExact .posix (GlobComponent.compile .posix pattern) value)) ∧
      (isAsciiString (collapseStars pattern) = true → isAsciiString value = true →
        ∀ ignoreCase, matchWildcardAscii (collapseStars pattern) value ignoreCase =
          (if ignoreCase then componentMatchesFolded .posix
            (GlobComponent.compile .posix pattern) value
          else componentMatchesExact .posix (GlobComponent.compile .posix pattern) value)) := by
  have hroute : ∀ ignoreCase, (if ignoreCase then componentMatchesFolded .posix
        (GlobComponent.compile .posix pattern) value
      else componentMatchesExact .posix (GlobComponent.compile .posix pattern) value) = true ↔
        CharMatches ignoreCase pattern value := by
    intro ignoreCase
    cases ignoreCase with
    | true => exact componentMatchesFolded_iff value h
    | false => exact componentMatchesExact_iff value h
  refine ⟨?_, ?_, fun ignoreCase => ?_, fun hpattern hvalue ignoreCase => ?_⟩
  · rw [componentMatchesExact_iff value h, charMatches_exact]
  · rw [componentMatchesFolded_iff value h, charMatches_folded]
  · rw [Bool.eq_iff_iff, hroute, matchWildcardUtf8_iff]
    exact charMatches_collapse
  · rw [Bool.eq_iff_iff, hroute, matchWildcardAscii_iff, byteMatches_iff hpattern hvalue,
      charMatches_collapse]

/-- Two stars and a byte that starts no character. -/
theorem component_matches_characters_malformed :
    let pattern : Str := [42, 42, 97, 42, 195]
    let value : Str := [98, 65, 195]
    (componentMatchesExact .posix (GlobComponent.compile .posix pattern) value = true ↔
        WildcardMatches (utf8Characters pattern) (utf8Characters value)) ∧
      (componentMatchesFolded .posix (GlobComponent.compile .posix pattern) value = true ↔
        WildcardMatches (utf8Characters (toAsciiLower pattern))
          (utf8Characters (toAsciiLower value))) ∧
      (∀ ignoreCase, matchWildcardUtf8 .posix (utf8Characters (collapseStars pattern)) value
          ignoreCase = (if ignoreCase then componentMatchesFolded .posix
            (GlobComponent.compile .posix pattern) value
          else componentMatchesExact .posix (GlobComponent.compile .posix pattern) value)) ∧
      (isAsciiString (collapseStars pattern) = true → isAsciiString value = true →
        ∀ ignoreCase, matchWildcardAscii (collapseStars pattern) value ignoreCase =
          (if ignoreCase then componentMatchesFolded .posix
            (GlobComponent.compile .posix pattern) value
          else componentMatchesExact .posix (GlobComponent.compile .posix pattern) value)) :=
  component_matches_characters _ _ (by decide)

end NativeWatcher
