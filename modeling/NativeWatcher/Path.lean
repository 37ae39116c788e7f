import NativeWatcher.Lib.Hierarchy
import Mathlib.Data.Nat.Digits.Defs

/-!
# Byte strings and paths

`std::string` is a list of bytes. A path is compared with another by the
literal prefix test of `isPathOrDescendant`, which two source files define with
the same body: over `'/'` in the inotify backend and over `DIR_SEP[0]` in the
watcher.
-/

namespace NativeWatcher

open Hierarchy

/-- `std::string`. -/
abbrev Str := List UInt8

/-- `'/'`, which is also `DIR_SEP[0]` on the POSIX builds. -/
abbrev slash : UInt8 := 47

/-- `std::string::substr(pos, count)`. -/
def substr (s : Str) (pos count : Nat) : Str := (s.drop pos).take count

/-- `std::to_string`. -/
def toDecimal (n : Nat) : Str :=
  if n = 0 then [48] else (Nat.digits 10 n).reverse.map fun d => UInt8.ofNat (48 + d)

/-- The bytes of a message, one character for each. -/
def message (s : Str) : String := String.ofList (s.map fun b => Char.ofNat b.toNat)

/-- `path + "/" + name`. -/
def child (path name : Str) : Str := path ++ slash :: name

/-- The literal prefix test: `path` lies strictly below `directory`. -/
def isDescendantPath (path directory : Str) : Bool :=
  decide (path.length > directory.length) &&
    substr path 0 directory.length == directory &&
    path[directory.length]? == some slash

/-- `isPathOrDescendant(candidate, path)`. -/
def isPathOrDescendant (candidate path : Str) : Bool :=
  candidate == path ||
    (decide (candidate.length > path.length) &&
      substr candidate 0 path.length == path &&
      candidate[path.length]? == some slash)

theorem isDescendantPath_iff {path directory : Str} :
    isDescendantPath path directory = true ↔ Below slash directory path := by
  simp only [isDescendantPath, Bool.and_eq_true, decide_eq_true_eq, beq_iff_eq,
    substr, List.drop_zero]
  constructor
  · rintro ⟨⟨_, htake⟩, hget⟩
    obtain ⟨hlt, hch⟩ := List.getElem?_eq_some_iff.mp hget
    refine ⟨path.drop (directory.length + 1), ?_⟩
    calc directory ++ [slash] ++ path.drop (directory.length + 1)
        = path.take directory.length ++
            (path[directory.length] :: path.drop (directory.length + 1)) := by
          rw [htake, hch]
          simp
      _ = path := by
          rw [← List.drop_eq_getElem_cons hlt, List.take_append_drop]
  · rintro ⟨t, rfl⟩
    simp

theorem isPathOrDescendant_iff {candidate path : Str} :
    isPathOrDescendant candidate path = true ↔ Under slash path candidate := by
  rw [isPathOrDescendant, Bool.or_eq_true, beq_iff_eq]
  exact or_congr_right isDescendantPath_iff

theorem below_child (path name : Str) : Below slash path (child path name) :=
  ⟨name, by simp [child]⟩

end NativeWatcher
