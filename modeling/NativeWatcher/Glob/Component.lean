import NativeWatcher.Path
import Mathlib.Data.List.AList

/-!
# Glob components

One `'/'`-separated component of a pattern, compiled, and its two tests against a
component of a path: `componentMatchesExact` and `componentMatchesFolded`. ASCII
names go through an iterative matcher, the others through a table over UTF-8
characters.
-/

namespace NativeWatcher

inductive DirectoryCaseSensitivity where
  | Sensitive
  | Insensitive
  | Unknown
deriving DecidableEq, Repr

/-- The POSIX builds. Under `FS_EVENTS`, names that are not ASCII are folded by
the system, through `cfFold`. -/
inductive Build where
  | posix
  | fsEvents (cfFold : Str → Str)

/-- What the globs take from the platform. -/
structure Platform where
  build : Build
  directoryCaseSensitivity : Str → DirectoryCaseSensitivity

/-- `'*'`. -/
abbrev star : UInt8 := 42

/-! ## Strings -/

def isAsciiString (value : Str) : Bool := value.all fun ch => decide (ch < 0x80)

/-- `if (ch >= 'A' && ch <= 'Z') ch += 'a' - 'A'`. -/
def asciiLower (ch : UInt8) : UInt8 := if 65 ≤ ch ∧ ch ≤ 90 then ch + 32 else ch

def toAsciiLower (value : Str) : Str := value.map asciiLower

def equalsAsciiLower (lowerPattern value : Str) : Bool :=
  lowerPattern.length == value.length &&
    (lowerPattern.zip value).all fun (l, ch) => l == asciiLower ch

def equalIgnoringCase (left right : Str) : Bool :=
  left.length == right.length &&
    (left.zip right).all fun (a, b) => asciiLower a == asciiLower b

def collapseStars (value : Str) : Str :=
  value.foldl (fun result ch =>
    if ch = star ∧ result ≠ [] ∧ result.getLast? = some star then result
    else result ++ [ch]) []

/-- `foldedComponent`. -/
def foldedComponent (cfFold : Str → Str) (value : Str) : Str :=
  if isAsciiString value then toAsciiLower value else cfFold value

/-! ## The two wildcard matchers -/

/-- The variables of the loop of `matchWildcardAscii`. A restart never lies ahead
of the scan. -/
structure WildcardScan where
  p : Nat
  v : Nat
  star : Option Nat
  restart : Nat
  restart_le : restart ≤ v

/-- The loop over `value`: the final `p`, or `none` for `return false`. -/
def matchWildcardLoop (pattern value : Str) (ignoreCase : Bool) (s : WildcardScan) :
    Option Nat :=
  if hv : s.v < value.length then
    let fold := fun ch => if ignoreCase then asciiLower ch else ch
    if hp : (pattern[s.p]?.any fun pc =>
        pc != NativeWatcher.star && fold pc == fold value[s.v]) = true then
      matchWildcardLoop pattern value ignoreCase
        ⟨s.p + 1, s.v + 1, s.star, s.restart, Nat.le_succ_of_le s.restart_le⟩
    else if hstar : pattern[s.p]? = some NativeWatcher.star then
      matchWildcardLoop pattern value ignoreCase
        ⟨s.p + 1, s.v, some s.p, s.v, Nat.le_refl _⟩
    else
      match s.star with
      | some star =>
          matchWildcardLoop pattern value ignoreCase
            ⟨star + 1, s.restart + 1, s.star, s.restart + 1, Nat.le_refl _⟩
      | none => none
  else some s.p
termination_by (value.length - s.restart, pattern.length - s.p)
decreasing_by
  -- The restart moves on, or it stays while the pattern moves on.
  · obtain ⟨pc, hpc, _⟩ := (Option.any_eq_true ..).mp hp
    have hlt : s.p < pattern.length := (List.getElem?_eq_some_iff.mp hpc).1
    exact Prod.Lex.right _ (by omega)
  · have hlt : s.p < pattern.length := (List.getElem?_eq_some_iff.mp hstar).1
    rcases Nat.lt_or_eq_of_le s.restart_le with hmoved | heq
    · exact Prod.Lex.left _ _ (by omega)
    · rw [heq]
      exact Prod.Lex.right _ (by omega)
  · have hle := s.restart_le
    exact Prod.Lex.left _ _ (by omega)

def matchWildcardAscii (pattern value : Str) (ignoreCase : Bool) : Bool :=
  match matchWildcardLoop pattern value ignoreCase ⟨0, 0, none, 0, Nat.le_refl _⟩ with
  | none => false
  | some p => (pattern.drop p).all (· == star)

/-- The length of the UTF-8 character that `rest` starts with; malformed bytes
stand for themselves. -/
def utf8Length (first : UInt8) (rest : Str) : Nat :=
  let continuation (offset : Nat) : Bool :=
    match rest[offset - 1]? with
    | some ch => ch &&& 0xc0 == 0x80
    | none => false
  let second := rest[0]?.getD 0
  if 0xc2 ≤ first ∧ first ≤ 0xdf ∧ continuation 1 then 2
  else if 0xe0 ≤ first ∧ first ≤ 0xef ∧ continuation 1 ∧ continuation 2 ∧
      ¬ (first = 0xe0 ∧ second < 0xa0) ∧ ¬ (first = 0xed ∧ 0xa0 ≤ second) then 3
  else if 0xf0 ≤ first ∧ first ≤ 0xf4 ∧ continuation 1 ∧ continuation 2 ∧
      continuation 3 ∧ ¬ (first = 0xf0 ∧ second < 0x90) ∧
      ¬ (first = 0xf4 ∧ 0x90 ≤ second) then 4
  else 1

def utf8Characters : Str → List Str
  | [] => []
  | first :: rest =>
      let length := utf8Length first rest
      (first :: rest.take (length - 1)) :: utf8Characters (rest.drop (length - 1))
termination_by value => value.length
decreasing_by
  rw [List.length_cons, List.length_drop]
  omega

/-- One row of a matching table, filled from its last column: `next` is the row
below, `cell` the test of a column. A table over `n` segments has `n + 1`
columns. -/
def tableRow {μ : Type} (isStar : Bool) (cell : Nat → μ → Bool × μ) :
    Nat → List Bool → μ → List Bool × μ
  | _, [], m => ([], m)
  | _, [next], m => ([isStar && next], m)
  | index, next :: next' :: rest, m =>
      let (current, m) := tableRow isStar cell (index + 1) (next' :: rest) m
      if isStar then ((next || current.headD false) :: current, m)
      else if !next' then (false :: current, m)
      else
        let (matched, m) := cell index m
        (matched :: current, m)

/-- The last row of a table: only the empty rest is matched. -/
def lastRow (n : Nat) : List Bool := List.replicate n false ++ [true]

def matchWildcardUtf8 (build : Build) (patternChars : List Str) (value : Str)
    (ignoreCase : Bool) : Bool :=
  let valueChars := utf8Characters value
  let same (patternChar valueChar : Str) : Bool :=
    match build with
    | .posix =>
        if ignoreCase then equalIgnoringCase patternChar valueChar
        else patternChar == valueChar
    | .fsEvents _ => patternChar == valueChar
  let table := patternChars.foldr (fun patternChar next =>
    (tableRow (patternChar == [star])
      (fun index (_ : Unit) => (same patternChar (valueChars.getD index []), ()))
      0 next ()).1) (lastRow valueChars.length)
  table.headD false

/-! ## Compiled components -/

structure GlobComponent where
  raw : Str := []
  folded : Str := []
  chars : List Str := []
  foldedChars : List Str := []
  isDoubleStar : Bool := false
  isSingleStar : Bool := false
  hasWildcard : Bool := false
  isAscii : Bool := true
  isFoldedAscii : Bool := true

/-- `"**"`. -/
def doubleStar : Str := [star, star]

/-- The body of the loop of `Glob::Glob` for one component. -/
def GlobComponent.compile (build : Build) (part : Str) : GlobComponent :=
  let isDoubleStar := part == doubleStar
  let hasWildcard := part.contains star
  let wild := hasWildcard && !isDoubleStar
  let raw := if wild then collapseStars part else part
  let isSingleStar := wild && raw == [star]
  let isAscii := isAsciiString raw
  let folded :=
    match build with
    | .fsEvents cfFold => foldedComponent cfFold raw
    | .posix => if isAscii then toAsciiLower raw else raw
  let listed := wild && !isSingleStar
  { raw, folded, isDoubleStar, isSingleStar, hasWildcard, isAscii
    isFoldedAscii := isAsciiString folded
    chars := if listed then utf8Characters raw else []
    foldedChars := if listed then utf8Characters folded else [] }

def componentMatchesExact (build : Build) (part : GlobComponent) (value : Str) : Bool :=
  if part.isSingleStar then true
  else if !part.hasWildcard then part.raw == value
  else if part.isAscii && isAsciiString value then
    matchWildcardAscii part.raw value false
  else matchWildcardUtf8 build part.chars value false

def componentMatchesFolded (build : Build) (part : GlobComponent) (value : Str) : Bool :=
  if part.isSingleStar then true
  else if part.isFoldedAscii && isAsciiString value then
    if !part.hasWildcard then equalsAsciiLower part.folded value
    else matchWildcardAscii part.folded value true
  else
    match build with
    | .fsEvents cfFold =>
        let foldedVal := foldedComponent cfFold value
        if !part.hasWildcard then part.folded == foldedVal
        else if part.isFoldedAscii && isAsciiString foldedVal then
          matchWildcardAscii part.folded foldedVal false
        else matchWildcardUtf8 build part.foldedChars foldedVal false
    | .posix =>
        if !part.hasWildcard then equalIgnoringCase part.raw value
        else matchWildcardUtf8 build part.chars value true

/-! ## What a table row holds -/

section TableRow

variable {μ : Type} {cell : Nat → μ → Bool × μ} {Inv : μ → Prop}
  {val : Nat → Bool}

/-- `current` is the row above `next`. -/
structure RowOver (isStar : Bool) (val : Nat → Bool) (index : Nat)
    (next current : List Bool) : Prop where
  length_eq : current.length = next.length
  column : ∀ j, current.getD j false =
    if isStar then next.getD j false || current.getD (j + 1) false
    else next.getD (j + 1) false && val (index + j)

/-- Cells that keep their memo right fill a row with their values. -/
theorem tableRow_spec (isStar : Bool)
    (hcell : ∀ i m, Inv m → (cell i m).1 = val i ∧ Inv (cell i m).2)
    (index : Nat) (next : List Bool) (m : μ) (hm : Inv m) :
    RowOver isStar val index next (tableRow isStar cell index next m).1 ∧
      Inv (tableRow isStar cell index next m).2 := by
  induction next generalizing index m with
  | nil =>
      refine ⟨⟨rfl, fun j => ?_⟩, hm⟩
      simp [tableRow]
  | cons b next ih =>
      cases next with
      | nil =>
          refine ⟨⟨rfl, fun j => ?_⟩, hm⟩
          cases j <;> cases isStar <;> simp [tableRow]
      | cons b' next =>
          obtain ⟨⟨hlen, hval⟩, hm'⟩ := ih (index + 1) m hm
          unfold tableRow
          generalize tableRow isStar cell (index + 1) (b' :: next) m = r at hlen hval hm'
          obtain ⟨current, m'⟩ := r
          have hrest : ∀ (head : Bool) (j : Nat),
              (head :: current).getD (j + 1) false =
                if isStar then (b :: b' :: next).getD (j + 1) false ||
                  (head :: current).getD (j + 2) false
                else (b :: b' :: next).getD (j + 2) false && val (index + (j + 1)) := by
            intro head j
            have h := hval j
            rw [show index + 1 + j = index + (j + 1) by omega] at h
            simpa using h
          cases isStar with
          | true =>
              refine ⟨⟨by simpa using hlen, fun j => ?_⟩, hm'⟩
              cases j with
              | zero => cases current <;> simp
              | succ j => exact hrest _ j
          | false =>
              cases b' with
              | false =>
                  refine ⟨⟨by simpa using hlen, fun j => ?_⟩, hm'⟩
                  cases j with
                  | zero => simp
                  | succ j => exact hrest _ j
              | true =>
                  obtain ⟨hv, hm''⟩ := hcell index m' hm'
                  refine ⟨⟨by simpa using hlen, fun j => ?_⟩, hm''⟩
                  cases j with
                  | zero => simpa using hv
                  | succ j => exact hrest _ j

end TableRow

end NativeWatcher
