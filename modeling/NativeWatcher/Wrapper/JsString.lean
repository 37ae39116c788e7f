import NativeWatcher.Lib.Utf8
import NativeWatcher.Path

/-!
# JavaScript strings

A JavaScript string is a list of UTF-16 code units, of which `Utf8Value` makes bytes. An ASCII
unit becomes its byte and meets no other unit, so a path is cut at the same separators before
and after.
-/

namespace NativeWatcher

/-- A JavaScript string. -/
abbrev JsStr := List UInt16

namespace JsStr

/-- `0xd800` to `0xdbff`. -/
def isLead (u : UInt16) : Bool := decide (0xd800 ≤ u.toNat ∧ u.toNat ≤ 0xdbff)

/-- `0xdc00` to `0xdfff`. -/
def isTrail (u : UInt16) : Bool := decide (0xdc00 ≤ u.toNat ∧ u.toNat ≤ 0xdfff)

/-- The character of one unit: U+FFFD for a surrogate that is not in a pair. -/
def unitChar (u : UInt16) : Char :=
  if isLead u || isTrail u then Char.ofNat 0xfffd else Char.ofNat u.toNat

def pairChar (u v : UInt16) : Char :=
  Char.ofNat (0x10000 + (u.toNat - 0xd800) * 0x400 + (v.toNat - 0xdc00))

def scalars : JsStr → List Char
  | [] => []
  | [u] => [unitChar u]
  | u :: v :: rest =>
      if isLead u && isTrail v then pairChar u v :: scalars rest
      else unitChar u :: scalars (v :: rest)

/-- `Utf8Value()`. -/
def utf8Value (s : JsStr) : Str := (scalars s).flatMap String.utf8EncodeChar

/-! ## ASCII units -/

theorem toNat_ofNat {n : Nat} (h : n.isValidChar) : (Char.ofNat n).val.toNat = n := by
  rw [Char.ofNat, dif_pos h]
  rfl

variable {u : UInt16}

theorem isLead_of_ascii (h : u.toNat ≤ 0x7f) : isLead u = false := by
  unfold isLead
  rw [decide_eq_false_iff_not]
  omega

theorem isTrail_of_ascii (h : u.toNat ≤ 0x7f) : isTrail u = false := by
  unfold isTrail
  rw [decide_eq_false_iff_not]
  omega

theorem unitChar_of_ascii (h : u.toNat ≤ 0x7f) : (unitChar u).val.toNat = u.toNat := by
  rw [unitChar, isLead_of_ascii h, isTrail_of_ascii h]
  exact toNat_ofNat (Or.inl (by omega))

/-- An ASCII unit is in no pair. -/
theorem scalars_append (a : JsStr) (h : u.toNat ≤ 0x7f) (b : JsStr) :
    scalars (a ++ u :: b) = scalars a ++ unitChar u :: scalars b := by
  have hsingle : ∀ b : JsStr, scalars (u :: b) = unitChar u :: scalars b := by
    intro b
    cases b with
    | nil => rfl
    | cons v b => rw [scalars, isLead_of_ascii h, Bool.false_and, if_neg Bool.false_ne_true]
  fun_induction scalars a with
  | case1 => exact hsingle b
  | case2 v =>
      show scalars (v :: u :: b) = _
      rw [scalars, isTrail_of_ascii h, Bool.and_false, if_neg Bool.false_ne_true, hsingle]
      rfl
  | case3 v v' rest hpair ih =>
      show scalars (v :: v' :: (rest ++ u :: b)) = _
      rw [scalars, if_pos hpair, ih]
      rfl
  | case4 v v' rest hpair ih =>
      show scalars (v :: v' :: (rest ++ u :: b)) = _
      rw [scalars, if_neg hpair]
      exact congrArg _ ih

theorem utf8Value_append (a : JsStr) (h : u.toNat ≤ 0x7f) (b : JsStr) :
    utf8Value (a ++ u :: b) = utf8Value a ++ UInt8.ofNat u.toNat :: utf8Value b := by
  have hchar := unitChar_of_ascii h
  unfold utf8Value
  rw [scalars_append a h, List.flatMap_append, List.flatMap_cons,
    Utf8.utf8EncodeChar_of_ascii (by omega), hchar, List.singleton_append]

theorem pairChar_not_ascii {v : UInt16} (hu : isLead u = true) (hv : isTrail v = true) :
    0x7f < (pairChar u v).val.toNat := by
  unfold isLead at hu
  unfold isTrail at hv
  rw [decide_eq_true_iff] at hu hv
  rw [pairChar, toNat_ofNat]
  · omega
  · exact Or.inr ⟨by omega, by omega⟩

theorem mem_of_mem_scalars {s : JsStr} {c : Char} (hc : c ∈ scalars s)
    (hascii : c.val.toNat ≤ 0x7f) : ∃ u ∈ s, u.toNat = c.val.toNat := by
  have hunit : ∀ u : UInt16, (unitChar u).val.toNat ≤ 0x7f → u.toNat = (unitChar u).val.toNat := by
    intro u hle
    unfold unitChar at hle ⊢
    split at hle
    · have hvalid : Nat.isValidChar 0xfffd := by
        unfold Nat.isValidChar
        omega
      rw [toNat_ofNat hvalid] at hle
      omega
    next hsurrogate =>
        rw [if_neg hsurrogate]
        unfold isLead isTrail at hsurrogate
        simp only [Bool.or_eq_true, decide_eq_true_eq] at hsurrogate
        have hlt := u.toNat_lt
        refine (toNat_ofNat ?_).symm
        show u.toNat < 0xd800 ∨ (0xdfff < u.toNat ∧ u.toNat < 0x110000)
        omega
  fun_induction scalars s with
  | case1 => cases hc
  | case2 v =>
      rw [List.mem_singleton] at hc
      subst hc
      exact ⟨v, List.mem_singleton_self v, hunit v hascii⟩
  | case3 v v' rest hpair ih =>
      obtain ⟨hlead, htrail⟩ := Bool.and_eq_true_iff.mp hpair
      rcases List.mem_cons.mp hc with hfirst | hc
      · rw [hfirst] at hascii
        exact absurd (pairChar_not_ascii hlead htrail) (Nat.not_lt.mpr hascii)
      · obtain ⟨u, hu, heq⟩ := ih hc
        exact ⟨u, by simp [hu], heq⟩
  | case4 v v' rest hpair ih =>
      rcases List.mem_cons.mp hc with rfl | hc
      · exact ⟨v, List.mem_cons_self, hunit v hascii⟩
      · obtain ⟨u, hu, heq⟩ := ih hc
        exact ⟨u, List.mem_cons_of_mem _ hu, heq⟩

/-- An ASCII byte comes from its unit. -/
theorem mem_of_mem_utf8Value {s : JsStr} {x : UInt8} (hx : x ∈ utf8Value s)
    (hascii : x.toNat ≤ 0x7f) : ∃ u ∈ s, u.toNat = x.toNat := by
  obtain ⟨c, hc, hmem⟩ := List.mem_flatMap.mp hx
  have hval := Utf8.toNat_of_mem_utf8EncodeChar hmem hascii
  obtain ⟨u, hu, heq⟩ := mem_of_mem_scalars hc (hval ▸ hascii)
  exact ⟨u, hu, heq.trans hval⟩

theorem not_mem_utf8Value {s : JsStr} (hascii : u.toNat ≤ 0x7f) (h : u ∉ s) :
    UInt8.ofNat u.toNat ∉ utf8Value s := by
  intro hmem
  have hbyte : (UInt8.ofNat u.toNat).toNat = u.toNat := by
    rw [UInt8.toNat_ofNat']
    omega
  obtain ⟨v, hv, heq⟩ := mem_of_mem_utf8Value hmem (hbyte.symm ▸ hascii)
  rw [hbyte] at heq
  exact h (UInt16.toNat_inj.mp heq ▸ hv)

theorem utf8Value_ne_nil {s : JsStr} (h : s ≠ []) : utf8Value s ≠ [] := by
  have hscalars : scalars s ≠ [] := by
    fun_cases scalars s with
    | case1 => exact absurd rfl h
    | case2 v => exact List.cons_ne_nil _ _
    | case3 v v' rest hpair => exact List.cons_ne_nil _ _
    | case4 v v' rest hpair => exact List.cons_ne_nil _ _
  obtain ⟨c, cs, hcs⟩ := List.exists_cons_of_ne_nil hscalars
  unfold utf8Value
  rw [hcs, List.flatMap_cons]
  exact List.append_ne_nil_of_left_ne_nil String.utf8EncodeChar_ne_nil _

end JsStr

end NativeWatcher
