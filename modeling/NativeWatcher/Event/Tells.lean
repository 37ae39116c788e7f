import NativeWatcher.Event.View

/-!
# A list that tells a set

A list tells a consumer that holds `V` of the set `K` if legal calls have led from `V` to `K`.
The next legal call goes along with `K`, so that whoever keeps `K` as the keys of an index
has to make the calls of the changes of the index, and nothing else.
-/

namespace NativeWatcher

/-- After a legal sequence the batch tells the live keys. -/
theorem NetInv.deliver {V : Finset EventKey} {ops : List EventOp} {l : EventList}
    (h : NetInv V ops l) : deliver V l.drain.1.events = liveAfter V ops := by
  ext k
  rw [EventList.mem_deliver_drain, EventList.Told, EventList.flags, EventList.internalUpdate]
  have hk := h k
  cases hf : l.find k with
  | none =>
      rw [hf] at hk
      simpa [Event.new, Flags.tells] using hk.1.symm
  | some e =>
      rw [hf] at hk
      obtain ⟨hc, hd, _⟩ := hk
      rw [Option.getD_some, Flags.tells]
      cases hcr : e.isCreated <;> cases hdel : e.isDeleted <;> simp_all

namespace EventList

/-- Legal calls have led from `V` to `K`. -/
def Tells (l : EventList) (V K : Finset EventKey) : Prop :=
  ∃ ops, NetInv V ops l ∧ K = liveAfter V ops

namespace Tells

variable {l : EventList} {V K K' : Finset EventKey} {k : EventKey}

theorem of_empty (V : Finset EventKey) : EventList.empty.Tells V V :=
  ⟨[], @netInv_run _ [] trivial, rfl⟩

theorem apply {op : EventOp} (h : l.Tells V K) (hop : LegalOp K op) :
    (l.apply op).Tells V (liveStep K op) := by
  obtain ⟨ops, hnet, rfl⟩ := h
  exact ⟨ops ++ [op], netInv_step hnet hop, (liveAfter_snoc ..).symm⟩

theorem create (h : l.Tells V K) (hk : k ∉ K) : (l.create k.1 k.2).Tells V (insert k K) :=
  @apply _ _ _ (.create k) h hk

theorem remove (h : l.Tells V K) (hk : k ∈ K) : (l.remove k.1 k.2).Tells V (K.erase k) :=
  @apply _ _ _ (.remove k) h hk

theorem update (h : l.Tells V K) (hk : k ∈ K) : (l.update k.1 k.2).Tells V K :=
  @apply _ _ _ (.update k) h hk

theorem rename {old new : Str} {kind : EntryKind} (h : l.Tells V K) (hold : (old, kind) ∈ K)
    (hnew : (new, kind) ∉ K) (id : Str) :
    (l.rename old new id kind).Tells V (insert (new, kind) (K.erase (old, kind))) :=
  @apply _ _ _ (.rename old new id kind) h ⟨hold, hnew⟩

theorem error (h : l.Tells V K) (err : String) : (l.error err).Tells V K := h

theorem congr (h : l.Tells V K) (hk : ∀ k, k ∈ K ↔ k ∈ K') : l.Tells V K' :=
  Finset.ext hk ▸ h

theorem deliver (h : l.Tells V K) : deliver V l.drain.1.events = K := by
  obtain ⟨ops, hnet, rfl⟩ := h
  exact hnet.deliver

/-- After a drain the consumer holds what was told. -/
theorem drain (h : l.Tells V K) :
    l.drain.2.Tells (NativeWatcher.deliver V l.drain.1.events) K := by
  rw [h.deliver]
  exact of_empty K

/-- Distinct keys are withdrawn, one after the other. -/
theorem removeAll {α : Type} {key : α → EventKey} {es : List α} (h : l.Tells V K)
    (hnodup : (es.map key).Nodup) (hin : ∀ e ∈ es, key e ∈ K) :
    (es.foldl (fun l e => l.remove (key e).1 (key e).2) l).Tells V
      (K.filter fun k => k ∉ es.map key) := by
  induction es generalizing l K with
  | nil => exact h.congr (by simp)
  | cons e es ih =>
      rw [List.map_cons, List.nodup_cons] at hnodup
      rw [List.forall_mem_cons] at hin
      have hrest : ∀ e' ∈ es, key e' ∈ K.erase (key e) := by
        intro e' he'
        refine Finset.mem_erase.mpr ⟨?_, hin.2 e' he'⟩
        intro heq
        exact hnodup.1 (heq ▸ List.mem_map_of_mem he')
      apply (ih (h.remove hin.1) hnodup.2 hrest).congr
      intro k
      simp only [Finset.mem_filter, Finset.mem_erase, List.map_cons, List.mem_cons, not_or]
      constructor
      · rintro ⟨⟨hne, hk⟩, hout⟩
        exact ⟨hk, hne, hout⟩
      · rintro ⟨hk, hne, hout⟩
        exact ⟨⟨hne, hk⟩, hout⟩

end Tells

end EventList

end NativeWatcher
