import NativeWatcher.Glob.Cuts

/-!
# Paths spelled by components

A relative path is spelled by the non-empty, separator-free components it joins.
The spelling is unique, and it is what the loops over the path find.
-/

namespace NativeWatcher

def joinPath : List Str → Str
  | [] => []
  | [c] => c
  | c :: c' :: cs => c ++ slash :: joinPath (c' :: cs)

/-- `key` joins the components, all of them non-empty and without separator. -/
structure Spells (key : Str) (comps : List Str) : Prop where
  ne_nil : comps ≠ []
  nonempty : ∀ c ∈ comps, c ≠ []
  plain : ∀ c ∈ comps, slash ∉ c
  join : key = joinPath comps

theorem joinPath_cons {c : Str} {cs : List Str} (h : cs ≠ []) :
    joinPath (c :: cs) = c ++ slash :: joinPath cs := by
  cases cs with
  | nil => exact absurd rfl h
  | cons c' cs => rfl

theorem joinPath_snoc {cs : List Str} (h : cs ≠ []) (c : Str) :
    joinPath (cs ++ [c]) = joinPath cs ++ slash :: c := by
  induction cs with
  | nil => exact absurd rfl h
  | cons c' cs ih =>
      by_cases hcs : cs = []
      · subst hcs
        rfl
      · rw [List.cons_append, joinPath_cons (by simp), ih hcs, joinPath_cons hcs,
          List.append_assoc, List.cons_append]

theorem flatMap_eq_joinPath {comps : List Str} (h : comps ≠ []) :
    comps.flatMap (fun c => slash :: c) = slash :: joinPath comps := by
  induction comps with
  | nil => exact absurd rfl h
  | cons c cs ih =>
      by_cases hcs : cs = []
      · subst hcs
        simp [joinPath]
      · rw [List.flatMap_cons, ih hcs, joinPath_cons hcs]
        rfl

/-- The first separator splits a list in one way. -/
theorem append_sep_inj {a b a' b' : Str} (ha : slash ∉ a) (ha' : slash ∉ a')
    (h : a ++ slash :: b = a' ++ slash :: b') : a = a' ∧ b = b' := by
  rcases List.append_eq_append_iff.mp h with ⟨t, rfl, ht⟩ | ⟨t, rfl, ht⟩
  · cases t with
    | nil => simpa using ht
    | cons x t =>
        obtain ⟨rfl, -⟩ := List.cons.inj ht
        exact absurd (by simp) ha'
  · cases t with
    | nil => simpa using ht.symm
    | cons x t =>
        obtain ⟨rfl, -⟩ := List.cons.inj ht
        exact absurd (by simp) ha

/-- The last separator splits a list in one way. -/
theorem append_sep_inj_right {a b a' b' : Str} (hb : slash ∉ b) (hb' : slash ∉ b')
    (h : a ++ slash :: b = a' ++ slash :: b') : a = a' ∧ b = b' := by
  have hrev := congrArg List.reverse h
  simp only [List.reverse_append, List.reverse_cons, List.append_assoc,
    List.singleton_append] at hrev
  obtain ⟨h₁, h₂⟩ := append_sep_inj (by simpa using hb) (by simpa using hb') hrev
  exact ⟨List.reverse_injective h₂, List.reverse_injective h₁⟩

theorem joinPath_inj {cs cs' : List Str} (hne : cs ≠ []) (hne' : cs' ≠ [])
    (hplain : ∀ c ∈ cs, slash ∉ c) (hplain' : ∀ c ∈ cs', slash ∉ c)
    (h : joinPath cs = joinPath cs') : cs = cs' := by
  induction cs generalizing cs' with
  | nil => exact absurd rfl hne
  | cons c cs ih =>
      obtain ⟨c', cs', rfl⟩ := List.exists_cons_of_ne_nil hne'
      have hc := hplain c (List.mem_cons_self ..)
      have hc' := hplain' c' (List.mem_cons_self ..)
      by_cases hcs : cs = [] <;> by_cases hcs' : cs' = []
      · subst hcs hcs'
        rw [show c = c' from h]
      · subst hcs
        rw [joinPath_cons hcs'] at h
        exact absurd (by rw [show c = _ from h]; simp) hc
      · subst hcs'
        rw [joinPath_cons hcs] at h
        exact absurd (by rw [← show _ = c' from h]; simp) hc'
      · rw [joinPath_cons hcs, joinPath_cons hcs'] at h
        obtain ⟨rfl, hrest⟩ := append_sep_inj hc hc' h
        rw [ih hcs hcs' (fun x hx => hplain x (List.mem_cons_of_mem _ hx))
          (fun x hx => hplain' x (List.mem_cons_of_mem _ hx)) hrest]

theorem Spells.unique {key : Str} {cs cs' : List Str} (h : Spells key cs)
    (h' : Spells key cs') : cs = cs' :=
  joinPath_inj h.ne_nil h'.ne_nil h.plain h'.plain (h.join.symm.trans h'.join)

theorem Spells.key_ne_nil {key : Str} {comps : List Str} (h : Spells key comps) :
    key ≠ [] := by
  obtain ⟨c, cs, rfl⟩ := List.exists_cons_of_ne_nil h.ne_nil
  have hc := h.nonempty c (List.mem_cons_self ..)
  rw [h.join]
  cases cs with
  | nil => exact hc
  | cons c' cs => simp [joinPath]

theorem spells_singleton {c : Str} (hne : c ≠ []) (hplain : slash ∉ c) : Spells c [c] :=
  ⟨by simp, by simpa using hne, by simpa using hplain, rfl⟩

/-- A key without separator is spelled by itself. -/
theorem Spells.of_plain {key : Str} {comps : List Str} (h : Spells key comps)
    (hplain : slash ∉ key) : comps = [key] :=
  h.unique (spells_singleton h.key_ne_nil hplain)

theorem Spells.split_snoc {init : List Str} {key c : Str}
    (h : Spells key (init ++ [c])) (hinit : init ≠ []) :
    key = joinPath init ++ slash :: c ∧ Spells (joinPath init) init := by
  refine ⟨by rw [h.join, joinPath_snoc hinit], hinit, ?_, ?_, rfl⟩
  · exact fun x hx => h.nonempty x (List.mem_append_left _ hx)
  · exact fun x hx => h.plain x (List.mem_append_left _ hx)

/-- A key that ends in a plain component is spelled by what spells the rest. -/
theorem Spells.split {a b : Str} {comps : List Str} (h : Spells (a ++ slash :: b) comps)
    (hb : slash ∉ b) :
    ∃ init, comps = init ++ [b] ∧ Spells a init ∧ b ≠ [] := by
  obtain ⟨init, c, rfl⟩ : ∃ init c, comps = init ++ [c] :=
    ⟨_, _, (List.dropLast_append_getLast h.ne_nil).symm⟩
  have hc : slash ∉ c := h.plain c (by simp)
  by_cases hinit : init = []
  · subst hinit
    exact absurd (by rw [← show _ = c from h.join]; simp) hc
  · obtain ⟨hkey, hspells⟩ := h.split_snoc hinit
    obtain ⟨rfl, rfl⟩ := append_sep_inj_right hb hc hkey
    exact ⟨init, rfl, hspells, h.nonempty b (by simp)⟩

/-! ## The loops find the spelling -/

theorem CutsOf.join {path : Str} {start : Nat} {pathCuts : List (Nat × Nat)}
    (h : CutsOf path start pathCuts) :
    path.drop start = joinPath (pathCuts.map (componentAt path)) ∧
      ∀ c ∈ pathCuts.map (componentAt path), slash ∉ c := by
  induction h with
  | last hle hplain =>
      refine ⟨?_, by simpa using hplain⟩
      simp [joinPath, componentAt, substr]
  | @cons start index rest hle hplain hsep h ih =>
      obtain ⟨hjoin, hrest⟩ := ih
      obtain ⟨hlt, hget⟩ := List.getElem?_eq_some_iff.mp hsep
      have hne : rest.map (componentAt path) ≠ [] := by
        cases h <;> simp
      refine ⟨?_, ?_⟩
      · rw [List.map_cons, joinPath_cons hne, ← hjoin, ← hget,
          ← List.drop_eq_getElem_cons hlt]
        have hadd : start + (index - start) = index := by omega
        have hdrop : path.drop index = (path.drop start).drop (index - start) := by
          rw [List.drop_drop, hadd]
        rw [hdrop]
        exact (List.take_append_drop _ _).symm
      · rw [List.map_cons]
        rintro c (_ | ⟨_, hc⟩)
        · exact hplain
        · exact hrest c hc

/-- What the loops over a path find joins to it again. -/
theorem components_join {path : Str} (hne : path ≠ []) :
    path = joinPath (components path) ∧ ∀ c ∈ components path, slash ∉ c := by
  have hcomp : components path = (cuts path).map (componentAt path) := by
    rw [components, if_neg (by simpa using hne)]
  obtain ⟨hjoin, hplain⟩ := (cuts_spec path).join
  rw [List.drop_zero, ← hcomp] at hjoin
  rw [← hcomp] at hplain
  exact ⟨hjoin, hplain⟩

theorem components_joinPath {comps : List Str} (hne : comps ≠ [])
    (hplain : ∀ c ∈ comps, slash ∉ c) (hjoin : joinPath comps ≠ []) :
    components (joinPath comps) = comps := by
  obtain ⟨hpath, hcomps⟩ := components_join hjoin
  exact joinPath_inj (components_ne_nil hjoin) hne hcomps hplain hpath.symm

theorem Spells.components_eq {path : Str} {comps : List Str} (h : Spells path comps) :
    components path = comps := by
  have hpath := h.key_ne_nil
  rw [h.join] at hpath ⊢
  exact components_joinPath h.ne_nil h.plain hpath

/-! ## Directories -/

/-- The directory that the components lead to. -/
def dirOf (root : Str) (comps : List Str) : Str := comps.foldl childPath root

theorem dirOf_snoc (root : Str) (comps : List Str) (c : Str) :
    dirOf root (comps ++ [c]) = childPath (dirOf root comps) c := by
  unfold dirOf
  rw [List.foldl_append]
  rfl

theorem dirOf_eq_append (root : Str) {comps : List Str} (h : comps ≠ []) :
    dirOf root comps = root ++ slash :: joinPath comps := by
  induction comps using List.reverseRecOn with
  | nil => exact absurd rfl h
  | append_singleton comps c ih =>
      rw [dirOf_snoc]
      by_cases hcomps : comps = []
      · subst hcomps
        simp [dirOf, childPath, joinPath]
      · rw [ih hcomps, joinPath_snoc hcomps, childPath]
        simp

theorem Spells.parent {key : Str} {comps : List Str} (h : Spells key comps) (root : Str) :
    buildParentDirectory root key = dirOf root comps := by
  rw [dirOf_eq_append root h.ne_nil, ← h.join, buildParentDirectory,
    if_neg (by simpa using h.key_ne_nil)]
  simp

end NativeWatcher
