import Mathlib.Data.List.AList

/-!
# Finite maps

Non-dependent association lists with the operations a hash map offers:
insertion without overwriting, erasure of every key a test rejects, and the
list of the bindings. Uniqueness of the keys is carried by `AList`, so no
lemma below assumes it.
-/

universe u v w

/-- A finite map; the order of its entries is the iteration order. -/
abbrev FiniteMap (α : Type u) (β : Type v) := AList (fun _ : α => β)

namespace FiniteMap

variable {α : Type u} {β : Type v} {γ : Type w} [DecidableEq α]

/-! ## Lookup after the `AList` operations -/

theorem lookup_insert_eq (m : FiniteMap α β) (k k' : α) (v : β) :
    (AList.insert k v m).lookup k' = if k' = k then some v else m.lookup k' := by
  by_cases h : k' = k
  · subst h
    rw [if_pos rfl, AList.lookup_insert]
  · rw [if_neg h, AList.lookup_insert_ne h]

theorem lookup_erase_eq (m : FiniteMap α β) (k k' : α) :
    (m.erase k).lookup k' = if k' = k then none else m.lookup k' := by
  by_cases h : k' = k
  · subst h
    rw [if_pos rfl, AList.lookup_erase]
  · rw [if_neg h, AList.lookup_erase_ne h]

theorem mem_iff_lookup {m : FiniteMap α β} {k : α} :
    k ∈ m ↔ ∃ v, m.lookup k = some v := by
  rw [← AList.lookup_isSome, Option.isSome_iff_exists]

/-! ## Insertion without overwriting -/

/-- Bind `k` to `v` unless `k` is bound already. -/
def emplace (m : FiniteMap α β) (k : α) (v : β) : FiniteMap α β :=
  if k ∈ m then m else AList.insert k v m

theorem lookup_emplace (m : FiniteMap α β) (k k' : α) (v : β) :
    (m.emplace k v).lookup k' =
      if k' = k then some ((m.lookup k).getD v) else m.lookup k' := by
  unfold emplace
  by_cases hk : k ∈ m
  · rw [if_pos hk]
    obtain ⟨w, hw⟩ := mem_iff_lookup.mp hk
    by_cases h : k' = k
    · subst h
      rw [if_pos rfl, hw]
      rfl
    · rw [if_neg h]
  · rw [if_neg hk, lookup_insert_eq, AList.lookup_eq_none.mpr hk]
    rfl

/-! ## Restriction to the keys that pass a test -/

/-- Keep the bindings whose key passes `p`. -/
def filterKeys (m : FiniteMap α β) (p : α → Bool) : FiniteMap α β where
  entries := m.entries.filter fun s => p s.1
  nodupKeys := m.nodupKeys.sublist List.filter_sublist

theorem dlookup_filter (p : α → Bool) (k : α) :
    ∀ l : List (Σ _ : α, β),
      (l.filter fun s => p s.1).dlookup k = if p k then l.dlookup k else none
  | [] => by simp
  | ⟨a, b⟩ :: l => by
      have ih := dlookup_filter p k l
      by_cases hk : k = a
      · subst hk
        cases hp : p k with
        | true => simp [hp]
        | false =>
            rw [List.filter_cons_of_neg (by simp [hp]), ih]
            simp [hp]
      · cases hp : p a with
        | true =>
            rw [List.filter_cons_of_pos (by simp [hp]),
              List.dlookup_cons_ne _ _ hk, List.dlookup_cons_ne _ _ hk, ih]
        | false =>
            rw [List.filter_cons_of_neg (by simp [hp]),
              List.dlookup_cons_ne _ _ hk, ih]

theorem lookup_filterKeys (m : FiniteMap α β) (p : α → Bool) (k : α) :
    (m.filterKeys p).lookup k = if p k then m.lookup k else none :=
  dlookup_filter p k m.entries

/-! ## Change of a bound value -/

/-- Apply `f` to the value of `k`, if there is one. -/
def adjust (m : FiniteMap α β) (k : α) (f : β → β) : FiniteMap α β :=
  match m.lookup k with
  | none => m
  | some v => AList.insert k (f v) m

theorem lookup_adjust (m : FiniteMap α β) (k k' : α) (f : β → β) :
    (m.adjust k f).lookup k' =
      if k' = k then (m.lookup k).map f else m.lookup k' := by
  unfold adjust
  cases hk : m.lookup k with
  | none =>
      by_cases h : k' = k
      · subst h
        rw [if_pos rfl, hk]
        rfl
      · rw [if_neg h]
  | some v =>
      show (AList.insert k (f v) m).lookup k' = _
      rw [lookup_insert_eq]
      rfl

/-! ## The list of bindings -/

/-- The bindings in iteration order. -/
def pairs (m : FiniteMap α β) : List (α × β) :=
  m.entries.map fun s => (s.1, s.2)

theorem mem_pairs {m : FiniteMap α β} {k : α} {v : β} :
    (k, v) ∈ m.pairs ↔ m.lookup k = some v := by
  rw [← Option.mem_def, AList.mem_lookup_iff]
  constructor
  · intro h
    obtain ⟨⟨k', v'⟩, hs, heq⟩ := List.mem_map.mp h
    obtain ⟨rfl, rfl⟩ := Prod.mk.inj heq
    exact hs
  · intro h
    exact List.mem_map.mpr ⟨⟨k, v⟩, h, rfl⟩

omit [DecidableEq α] in
theorem pairs_keys_nodup (m : FiniteMap α β) :
    (m.pairs.map Prod.fst).Nodup := by
  rw [pairs, List.map_map]
  exact m.nodupKeys

/-- The bindings of one key: at most one. -/
theorem pairs_filter_key (m : FiniteMap α β) (k : α) :
    (m.pairs.filter fun b => b.1 = k) =
      ((m.lookup k).map fun v => (k, v)).toList := by
  obtain ⟨l, hl⟩ := m
  change ((l.map fun s => (s.1, s.2)).filter fun b => b.1 = k) =
    ((l.dlookup k).map fun v => (k, v)).toList
  induction l with
  | nil => rfl
  | cons s l ih =>
      obtain ⟨a, b⟩ := s
      obtain ⟨hnot, htl⟩ := List.nodupKeys_cons.mp hl
      by_cases h : k = a
      · subst h
        have hrest : List.dlookup k l = none := List.dlookup_eq_none.mpr hnot
        rw [List.map_cons, List.filter_cons_of_pos (by simp), ih htl, hrest]
        simp
      · rw [List.map_cons, List.filter_cons_of_neg (by simpa using Ne.symm h),
          ih htl, List.dlookup_cons_ne _ _ h]

omit [DecidableEq α] in
/-- Maps whose keys correspond one to one have equally many bindings. -/
theorem length_pairs_eq {m : FiniteMap α β} {m' : FiniteMap α γ} (f : α → α)
    (hinj : ∀ k ∈ m, ∀ k' ∈ m, f k = f k' → k = k')
    (hkeys : ∀ k', k' ∈ m' ↔ ∃ k ∈ m, f k = k') : m'.pairs.length = m.pairs.length := by
  have hperm : m'.keys.Perm (m.keys.map f) := by
    rw [List.perm_ext_iff_of_nodup m'.keys_nodup (m.keys_nodup.map_on hinj)]
    intro k'
    rw [List.mem_map]
    exact hkeys k'
  have hlength := hperm.length_eq
  rw [List.length_map, AList.keys, AList.keys, List.keys, List.keys, List.length_map,
    List.length_map] at hlength
  rw [pairs, pairs, List.length_map, List.length_map, hlength]

/-- A map with one binding. -/
theorem pairs_eq_singleton {m : FiniteMap α β} {k : α} {v : β}
    (h : ∀ k' v', m.lookup k' = some v' ↔ k' = k ∧ v' = v) : m.pairs = [(k, v)] := by
  rw [← List.perm_singleton]
  refine (List.perm_ext_iff_of_nodup (List.Nodup.of_map _ m.pairs_keys_nodup)
    (List.nodup_singleton _)).mpr ?_
  rintro ⟨k', v'⟩
  rw [mem_pairs, h, List.mem_singleton, Prod.mk.injEq]

end FiniteMap
