import NativeWatcher.Linux.Scan
import Mathlib.Logic.Relation

/-!
# A scan step by step

A scan goes on by single steps: a watch is installed, the subscriptions of a path are
removed, an entry is added to the tree or removed from it. What each step keeps, the
scan keeps; the recursion over directories is followed here only.
-/

namespace NativeWatcher

open Hierarchy

variable {W : Type} [DecidableEq W]

/-- One step of a scan of `base`. -/
inductive ScanStep (w : InotifyWatcher W) (reportEvents : Bool) (base : Str) :
    ScanState W → ScanState W → Prop
  | watchDir {s : ScanState W} {table : SubscriptionTable W} (faults : RmFaults) (path : Str)
      (answer : WatchAnswer) (h : s.table.watchDir faults w.id w.mDir path answer = .ok table) :
      ScanStep w reportEvents base s { s with table := table }
  | removeSubscriptions (s : ScanState W) (faults : RmFaults) (path : Str) :
      ScanStep w reportEvents base s (s.removeSubscriptions w faults path)
  | directory {s : ScanState W} {path : Str} (mtime : UInt64) (hunder : Under slash base path)
      (hclear : path = base ∨ w.isIgnored path = false) (hnew : s.tree.find path = none) :
      ScanStep w reportEvents base s { s with tree := s.tree.add path mtime true }
  | item {s : ScanState W} {path : Str} (mtime : UInt64) (isDirectory : Bool)
      (hbelow : Below slash base path) (hclear : w.isIgnored path = false)
      (hnew : s.tree.find path = none) :
      ScanStep w reportEvents base s
        { s with
          tree := s.tree.add path mtime isDirectory
          calls := if reportEvents then s.calls ++ [.create (path, entryKind isDirectory)]
            else s.calls }
  | remove {s : ScanState W} {path : Str} (hbelow : Below slash base path) :
      ScanStep w reportEvents base s { s with tree := s.tree.remove path }

/-- Several steps. -/
abbrev ScanSteps (w : InotifyWatcher W) (reportEvents : Bool) (base : Str) :
    ScanState W → ScanState W → Prop :=
  Relation.ReflTransGen (ScanStep w reportEvents base)

namespace ScanSteps

variable {w : InotifyWatcher W} {reportEvents : Bool} {base path : Str} {s s' : ScanState W}

/-- What every step keeps, the scan keeps. -/
theorem invariant {P : ScanState W → Prop} (h : ScanSteps w reportEvents base s s')
    (hstep : ∀ {s s'}, ScanStep w reportEvents base s s' → P s → P s') (hs : P s) : P s' := by
  induction h with
  | refl => exact hs
  | tail _ hlast ih => exact hstep hlast ih

/-! ## The functions as sequences of steps -/

omit [DecidableEq W] in
theorem listed_clear {item : DirItem} {attributes : FileStat}
    (h : item.listed w path = some attributes) : w.isIgnored (child path item.name) = false := by
  unfold DirItem.listed at h
  split at h
  · cases h
  next hskip =>
      rw [Bool.or_eq_true, not_or] at hskip
      exact Bool.eq_false_iff.mpr hskip.2

theorem addItem (hunder : Under slash base path) (item : DirItem) (s : ScanState W) :
    ScanSteps w reportEvents base s (addItem w reportEvents path item s) := by
  unfold NativeWatcher.addItem
  dsimp only
  split
  · exact .refl
  next attributes hlisted =>
      split
      · exact .refl
      next hnew =>
          have hbelow := hunder.trans_below (below_child path item.name)
          exact .single (.item _ _ hbelow (listed_clear hlisted) (by simpa using hnew))

theorem readItems (hunder : Under slash base path) : ∀ (items : DirItems) (s : ScanState W),
    ScanSteps w reportEvents base s (readItems w reportEvents path items s).2
  | .nil, _ => .refl
  | .cons item _ rest, s => by
      unfold NativeWatcher.readItems
      split
      · exact .refl
      · exact (addItem hunder item s).trans (readItems hunder rest _)

theorem addDirectory {fstat : Except Nat FileStat} (hunder : Under slash base path)
    (hclear : path = base ∨ w.isIgnored path = false)
    (h : addDirectory path fstat s = .ok s') : ScanSteps w reportEvents base s s' := by
  unfold NativeWatcher.addDirectory at h
  split at h
  · cases h
    exact .refl
  next hnew =>
      split at h
      · cases h
      · cases h
        exact .single (.directory _ hunder hclear (by simpa using hnew))

theorem watchThen {faults : RmFaults} {answer : WatchAnswer}
    {scan : ScanState W → Option Nat × ScanState W} {r : Option Nat × ScanState W}
    (hr : watchThen w faults answer path scan s = r)
    (hscan : ∀ s, ScanSteps w reportEvents base s (scan s).2) :
    ScanSteps w reportEvents base s r.2 := by
  subst hr
  unfold NativeWatcher.watchThen
  split
  · exact .refl
  next hwatch => exact .head (.watchDir faults path answer hwatch) (hscan _)

mutual

theorem addCreatedTree : ∀ (scan : DirScan) {path : Str}, Under slash base path →
    (path = base ∨ w.isIgnored path = false) → ∀ s : ScanState W,
      ScanSteps w reportEvents base s (addCreatedTree w reportEvents path scan s).2
  | .opendirFails _, _, _, _, _ => .refl
  | .opened fstat items, path, hunder, hclear, s => by
      unfold NativeWatcher.addCreatedTree
      split
      · exact .refl
      next s₁ hs₁ =>
          have hread : ScanSteps w reportEvents base s₁
              (NativeWatcher.readItems w reportEvents path items s₁).2 := readItems hunder items s₁
          apply (addDirectory hunder hclear hs₁).trans
          split
          next heq =>
              rw [heq] at hread
              exact hread
          next heq =>
              rw [heq] at hread
              exact hread.trans (addSubdirectories items hunder _)

theorem addSubdirectories : ∀ (items : DirItems) {path : Str}, Under slash base path →
    ∀ s : ScanState W, ScanSteps w reportEvents base s
      (addSubdirectories w reportEvents path items s).2
  | .nil, _, _, _ => .refl
  | .cons item below rest, path, hunder, s => by
      unfold NativeWatcher.addSubdirectories
      split
      next hlisted =>
          obtain ⟨attributes, hattributes, _⟩ := (Option.any_eq_true _ _).mp hlisted
          have hbelow := hunder.trans_below (below_child path item.name)
          have hclear := listed_clear hattributes
          split
          · exact .refl
          · dsimp only
            split
            next s₁ hresult =>
                have hscan : ScanSteps w reportEvents base s s₁ := watchThen hresult fun s =>
                  addCreatedTree below hbelow.under (Or.inr hclear) s
                exact hscan.trans (addSubdirectories rest hunder _)
            next error s₁ hresult =>
                have hscan : ScanSteps w reportEvents base s s₁ := watchThen hresult fun s =>
                  addCreatedTree below hbelow.under (Or.inr hclear) s
                apply hscan.trans
                split
                · apply Relation.ReflTransGen.head (.removeSubscriptions _ item.faults _)
                  apply Relation.ReflTransGen.head (.remove hbelow)
                  exact addSubdirectories rest hunder _
                · exact .refl
      · exact addSubdirectories rest hunder s

end

end ScanSteps

end NativeWatcher
