import NativeWatcher.Event.View

/-!
# Calls in sequence

What the consumer will hold after several calls. Entries that leave their keys are taken
one by one, each with the calls for it: its key is withdrawn, and a key may be announced
in its place. They do not disturb each other if no entry arrives at the key of one that
is still to leave. A key whose creation is stale stays with the consumer.
-/

namespace NativeWatcher

namespace EventList

namespace Announces

variable {l : EventList} {V : Finset EventKey} {K K' : Set EventKey}

theorem run_creates (h : l.Announces V K) (ks : List EventKey) :
    (l.run (ks.map .create)).Announces V (K ∪ {k | k ∈ ks}) := by
  induction ks generalizing l K with
  | nil =>
      apply h.congr
      simp
  | cons k ks ih =>
      apply (ih (h.create k)).congr
      intro k'
      simp [or_left_comm, or_assoc]

/-! ## Entries that leave their keys -/

/-- One entry leaves `key`, and may arrive at `new`. -/
structure Leaves (V : Finset EventKey) (key : EventKey) (new : Option EventKey)
    (ops : List EventOp) : Prop where
  frame : ∀ (l : EventList) (k : EventKey), k ≠ key → new ≠ some k →
    (l.run ops).flags k = l.flags k
  announces : ∀ {l : EventList} {K : Set EventKey}, l.Announces V K → l.Known V key →
    (l.run ops).Announces V {k | (k ∈ K ∧ (k ≠ key ∨ l.StaleCreate V k)) ∨ new = some k}

/-- The entries leave, one after the other. -/
theorem carry {α : Type} {key : α → EventKey} {new : α → Option EventKey}
    {ops : α → List EventOp} {moved : List α} (hleaves : ∀ a ∈ moved, Leaves V (key a) (new a) (ops a))
    (hnodup : (moved.map key).Nodup) (hapart : moved.Pairwise fun a b => new a ≠ some (key b))
    (h : l.Announces V K) (hknown : ∀ a ∈ moved, l.Known V (key a)) :
    (l.run (moved.flatMap ops)).Announces V
      {k | (k ∈ K ∧ ((∀ a ∈ moved, k ≠ key a) ∨ l.StaleCreate V k)) ∨
        ∃ a ∈ moved, new a = some k} := by
  induction moved generalizing l K with
  | nil =>
      apply h.congr
      simp
  | cons a moved ih =>
      rw [List.map_cons, List.nodup_cons] at hnodup
      rw [List.pairwise_cons] at hapart
      rw [List.forall_mem_cons] at hleaves hknown
      have hne : ∀ b ∈ moved, key b ≠ key a := by
        intro b hb heq
        exact hnodup.1 (heq ▸ List.mem_map_of_mem hb)
      -- the calls for the first entry leave the keys of the others alone
      have hframe : ∀ k, k ≠ key a → new a ≠ some k →
          (l.run (ops a)).flags k = l.flags k := hleaves.1.frame l
      have hstale : ∀ k, k ≠ key a → new a ≠ some k →
          ((l.run (ops a)).StaleCreate V k ↔ l.StaleCreate V k) := by
        intro k hk hk'
        rw [StaleCreate, StaleCreate, hframe k hk hk']
      have hknownRest : ∀ b ∈ moved, (l.run (ops a)).Known V (key b) := by
        intro b hb
        rw [Known, hframe (key b) (hne b hb) (hapart.1 b hb)]
        exact hknown.2 b hb
      rw [List.flatMap_cons, run_append]
      apply (ih hleaves.2 hnodup.2 hapart.2 (hleaves.1.announces h hknown.1) hknownRest).congr
      intro k
      constructor
      · rintro (⟨⟨hk, hka⟩ | hk, hrest⟩ | ⟨b, hb, hk⟩)
        · rcases hka with hka | hka
          · rcases hrest with hrest | hrest
            · exact Or.inl ⟨hk, Or.inl (List.forall_mem_cons.mpr ⟨hka, hrest⟩)⟩
            · by_cases hnew : new a = some k
              · exact Or.inr ⟨a, List.mem_cons_self, hnew⟩
              · exact Or.inl ⟨hk, Or.inr ((hstale k hka hnew).mp hrest)⟩
          · exact Or.inl ⟨hk, Or.inr hka⟩
        · exact Or.inr ⟨a, List.mem_cons_self, hk⟩
        · exact Or.inr ⟨b, List.mem_cons_of_mem _ hb, hk⟩
      · rintro (⟨hk, hall | hs⟩ | ⟨b, hb, hk⟩)
        · rw [List.forall_mem_cons] at hall
          exact Or.inl ⟨Or.inl ⟨hk, Or.inl hall.1⟩, Or.inl hall.2⟩
        · refine Or.inl ⟨Or.inl ⟨hk, Or.inr hs⟩, ?_⟩
          by_cases hlater : ∀ b ∈ moved, k ≠ key b
          · exact Or.inl hlater
          · push Not at hlater
            obtain ⟨b, hb, rfl⟩ := hlater
            exact Or.inr ((hstale (key b) (hne b hb) (hapart.1 b hb)).mpr hs)
        · rcases List.mem_cons.mp hb with rfl | hb
          · refine Or.inl ⟨Or.inr hk, Or.inl fun c hc heq => ?_⟩
            exact hapart.1 c hc (heq ▸ hk)
          · exact Or.inr ⟨b, hb, hk⟩

/-- The entries leave, and none was created though the consumer held it. -/
theorem carry_fresh {α : Type} {key : α → EventKey} {new : α → Option EventKey}
    {ops : α → List EventOp} {moved : List α} (hleaves : ∀ a ∈ moved, Leaves V (key a) (new a) (ops a))
    (hnodup : (moved.map key).Nodup) (hapart : moved.Pairwise fun a b => new a ≠ some (key b))
    (h : l.Announces V K) (hin : ∀ a ∈ moved, key a ∈ K)
    (hfresh : ∀ a ∈ moved, ¬ l.StaleCreate V (key a)) :
    (l.run (moved.flatMap ops)).Announces V
      {k | (k ∈ K ∧ ∀ a ∈ moved, k ≠ key a) ∨ ∃ a ∈ moved, new a = some k} := by
  apply (h.carry hleaves hnodup hapart fun a ha => h.known_of_mem (hin a ha)).congr
  intro k
  apply or_congr_left
  apply and_congr_right
  intro _
  constructor
  · rintro (hall | hs) a ha
    · exact hall a ha
    · rintro rfl
      exact hfresh a ha hs
  · exact Or.inl

/-! ## The calls for one entry -/

theorem leaves_remove (key : EventKey) : Leaves V key none [.remove key] where
  frame l k hk _ := (flags_remove l key k).trans (if_neg hk)
  announces h hk := by
    apply (h.remove hk).congr
    simp

theorem leaves_remove_create (key new : EventKey) :
    Leaves V key (some new) [.remove key, .create new] where
  frame l k hk hnew := by
    have hne : k ≠ new := fun heq => hnew (heq ▸ rfl)
    apply (flags_create (l.apply (.remove key)) new k).trans
    rw [if_neg hne, flags_remove, if_neg hk]
  announces h hk := by
    apply ((h.remove hk).create new).congr
    intro k
    rw [Set.mem_insert_iff, or_comm, eq_comm]
    exact or_congr_right Option.some_inj.symm

theorem leaves_remove_update (key k' : EventKey) : Leaves V key none [.remove key, .update k'] where
  frame l k hk _ := by
    apply (flags_update (l.apply (.remove key)) k' k).trans
    rw [flags_remove, if_neg hk]
  announces h hk := by
    apply ((h.remove hk).update k').congr
    simp

theorem leaves_rename (old new id : Str) (kind : EntryKind) :
    Leaves V (old, kind) (some (new, kind)) [.rename old new id kind] where
  frame l k hk hnew := by
    have hne : k ≠ (new, kind) := fun heq => hnew (heq ▸ rfl)
    apply (flags_rename l old new id kind k).trans
    rw [if_neg hne, vacatedFlags, if_neg hk]
  announces h hk := by
    apply (h.rename id hk).congr
    intro k
    simp [eq_comm]

/-- Entries are withdrawn. -/
theorem run_removals {ks : List EventKey} (h : l.Announces V K) (hnodup : ks.Nodup)
    (hknown : ∀ k ∈ ks, l.Known V k) :
    (l.run (ks.map .remove)).Announces V {k | k ∈ K ∧ (k ∉ ks ∨ l.StaleCreate V k)} := by
  have hcarry := h.carry (fun k _ => leaves_remove k) (by rwa [List.map_id'])
    (List.pairwise_of_forall fun _ _ => (Option.some_ne_none _).symm) hknown
  rw [List.map_eq_flatMap]
  apply hcarry.congr
  intro k
  have hmem : (∀ a ∈ ks, k ≠ a) ↔ k ∉ ks :=
    ⟨fun hall hk => hall k hk rfl, fun hk a ha heq => hk (heq ▸ ha)⟩
  constructor
  · rintro (⟨hk, hrest⟩ | ⟨_, _, hk⟩)
    · exact ⟨hk, hrest.imp_left hmem.mp⟩
    · cases hk
  · rintro ⟨hk, hrest⟩
    exact Or.inl ⟨hk, hrest.imp_left hmem.mpr⟩

end Announces

end EventList

end NativeWatcher
