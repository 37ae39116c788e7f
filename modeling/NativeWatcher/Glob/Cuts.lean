import NativeWatcher.Glob.Glob

/-!
# The cuts of a path

The loops over a path cut it at its separators. Each cut starts where the one
before it ended, holds no separator, and knows the directory it stands in.
-/

namespace NativeWatcher

/-- The path of `component` in the directory `dir`. -/
def childPath (dir component : Str) : Str := dir ++ [slash] ++ component

/-- The cuts go from one component to the next, and the last one ends the path. -/
inductive CutsOf (path : Str) : Nat → List (Nat × Nat) → Prop
  | last {start : Nat} (hle : start ≤ path.length)
      (hplain : slash ∉ componentAt path (start, path.length)) :
      CutsOf path start [(start, path.length)]
  | cons {start index : Nat} {rest : List (Nat × Nat)} (hle : start ≤ index)
      (hplain : slash ∉ componentAt path (start, index))
      (hsep : path[index]? = some slash) (h : CutsOf path (index + 1) rest) :
      CutsOf path start ((start, index) :: rest)

theorem CutsOf.head {path : Str} {start : Nat} {cut : Nat × Nat}
    {rest : List (Nat × Nat)} (h : CutsOf path start (cut :: rest)) : cut.1 = start := by
  cases h <;> rfl

theorem componentAt_succ {path : Str} {start index : Nat} (hle : start ≤ index)
    (hlt : index < path.length) :
    componentAt path (start, index + 1) = componentAt path (start, index) ++ [path[index]] := by
  have hsub : index + 1 - start = index - start + 1 := by omega
  have hlen : index - start < (path.drop start).length := by
    rw [List.length_drop]
    omega
  have hadd : start + (index - start) = index := by omega
  simp only [componentAt, substr]
  rw [hsub, List.take_succ_eq_append_getElem hlen, List.getElem_drop]
  simp only [hadd]

theorem cutsFrom_spec (path : Str) (n : Nat) :
    ∀ start index, start ≤ index → index + n = path.length →
      slash ∉ componentAt path (start, index) →
        CutsOf path start (cutsFrom path start (List.range' index (n + 1))) := by
  induction n with
  | zero =>
      intro start index hle hn hplain
      obtain rfl : index = path.length := hn
      simpa [cutsFrom] using CutsOf.last hle hplain
  | succ n ih =>
      intro start index hle hn hplain
      rw [List.range'_succ, cutsFrom]
      have hlt : index < path.length := by omega
      by_cases hsep : path[index]? = some slash
      · rw [if_pos (Or.inr hsep)]
        refine .cons hle hplain hsep (ih _ _ (Nat.le_refl _) (by omega) ?_)
        simp [componentAt, substr]
      · rw [if_neg (by simp [hsep, Nat.ne_of_lt hlt])]
        refine ih _ _ (by omega) (by omega) ?_
        rw [componentAt_succ hle hlt, List.mem_append, List.mem_singleton]
        rintro (h | h)
        · exact hplain h
        · exact hsep (by rw [h, List.getElem?_eq_getElem hlt])

/-- The cuts from `start` on. -/
theorem cutsFrom_start {path : Str} {start : Nat} (h : start ≤ path.length) :
    CutsOf path start
      (cutsFrom path start (List.range' start (path.length - start + 1))) :=
  cutsFrom_spec path _ start start (Nat.le_refl _) (by omega)
    (by simp [componentAt, substr])

theorem cuts_spec (path : Str) : CutsOf path 0 (cuts path) := by
  rw [cuts, List.range_eq_range']
  exact cutsFrom_start (Nat.zero_le _)

theorem components_ne_nil {path : Str} (h : path ≠ []) : components path ≠ [] := by
  rw [components, if_neg (by simpa using h)]
  intro hnil
  rw [List.map_eq_nil_iff] at hnil
  have hcuts := cuts_spec path
  rw [hnil] at hcuts
  cases hcuts

/-- At `start` the scan stands behind a separator, in the directory `dir`. -/
structure ScanAt (root path : Str) (start : Nat) (dir : Str) : Prop where
  parent : buildParentDirectory root (relParentAt path start) = dir
  boundary : start = 0 ∨ (1 < start ∧ path[start - 1]? = some slash)

theorem scanAt_zero (root path : Str) : ScanAt root path 0 root :=
  ⟨rfl, Or.inl rfl⟩

/-- A separator and the component behind it. -/
theorem take_eq_append_componentAt {path : Str} {start index : Nat} (hpos : 0 < start)
    (hle : start ≤ index) (hprev : path[start - 1]? = some slash) :
    path.take index = path.take (start - 1) ++ slash :: componentAt path (start, index) := by
  obtain ⟨hlt, hget⟩ := List.getElem?_eq_some_iff.mp hprev
  have h₁ : path.take index = path.take start ++ (path.drop start).take (index - start) := by
    rw [← List.take_add]
    congr 1
    omega
  have h₂ : path.take start = path.take (start - 1) ++ [slash] := by
    have := List.take_append_getElem hlt
    rw [hget, show start - 1 + 1 = start by omega] at this
    exact this.symm
  rw [h₁, h₂, List.append_assoc]
  rfl

/-- Behind a component the scan stands in the path of that component. -/
theorem ScanAt.next {root path dir : Str} {start index : Nat}
    (h : ScanAt root path start dir) (hle : start ≤ index)
    (hsep : path[index]? = some slash)
    (hne : componentAt path (start, index) ≠ []) :
    ScanAt root path (index + 1) (childPath dir (componentAt path (start, index))) := by
  have hlt : start < index := by
    apply Nat.lt_of_le_of_ne hle
    rintro rfl
    exact hne (by simp [componentAt, substr])
  refine ⟨?_, Or.inr ⟨by omega, hsep⟩⟩
  rw [← h.parent]
  have hrel : relParentAt path (index + 1) = path.take index := by
    simp [relParentAt, substr]
  rw [hrel]
  rcases h.boundary with rfl | ⟨hpos, hprev⟩
  · have htake : componentAt path (0, index) = path.take index := by
      simp [componentAt, substr]
    rw [htake] at hne ⊢
    simp [buildParentDirectory, relParentAt, childPath, hne]
  · obtain ⟨hlt', -⟩ := List.getElem?_eq_some_iff.mp hprev
    have hsplit := take_eq_append_componentAt (by omega) hle hprev
    have hrel' : relParentAt path start = path.take (start - 1) := by
      rw [relParentAt, if_neg (by omega)]
      simp [substr]
    have hne' : path.take (start - 1) ≠ [] := by
      intro hnil
      have hlen := congrArg List.length hnil
      rw [List.length_take, List.length_nil] at hlen
      omega
    rw [hrel', hsplit]
    simp [buildParentDirectory, childPath, hne']

end NativeWatcher
