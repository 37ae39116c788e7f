import NativeWatcher.Event.EventList
import Mathlib.Data.Finset.Basic

/-!
# The net effect of a batch

Over a set of live keys, a legal sequence of operations has a net effect: the
keys that appeared, those that vanished and those that were touched and are
still there. `drain` reports exactly that. The two flags of an entry are tied to
initial and current liveness: `isCreated` says that the key was not live when
the batch began, `isDeleted` that it is not live now, and both together that it
never mattered.
-/

namespace NativeWatcher

/-- One call of a public operation. -/
inductive EventOp where
  | create (k : EventKey)
  | rename (oldPath newPath renameId : Str) (kind : EntryKind)
  | update (k : EventKey)
  | remove (k : EventKey)
deriving DecidableEq

namespace EventOp

/-- The key an operation empties. -/
def vacates : EventOp → Option EventKey
  | create _ => none
  | rename old _ _ kind => some (old, kind)
  | update _ => none
  | remove k => some k

/-- The key an operation fills. -/
def occupies : EventOp → Option EventKey
  | create k => some k
  | rename _ new _ kind => some (new, kind)
  | update _ => none
  | remove _ => none

/-- The keys an operation names, as path, old path or new path. -/
def names : EventOp → List EventKey
  | create k => [k]
  | rename old new _ kind => [(old, kind), (new, kind)]
  | update k => [k]
  | remove k => [k]

end EventOp

namespace EventList

def apply (l : EventList) : EventOp → EventList
  | .create k => l.create k.1 k.2
  | .rename old new id kind => l.rename old new id kind
  | .update k => l.update k.1 k.2
  | .remove k => l.remove k.1 k.2

def run (l : EventList) (ops : List EventOp) : EventList := ops.foldl apply l

theorem run_snoc (l : EventList) (ops : List EventOp) (op : EventOp) :
    l.run (ops ++ [op]) = (l.run ops).apply op := by
  unfold run
  rw [List.foldl_append]
  rfl

theorem run_append (l : EventList) (ops ops' : List EventOp) :
    l.run (ops ++ ops') = (l.run ops).run ops' :=
  List.foldl_append

/-! ## The keys of the entries -/

/-- Every entry has a key with the property. -/
def KeysIn (P : EventKey → Prop) (l : EventList) : Prop := ∀ k e, l.find k = some e → P k

theorem keysIn_empty (P : EventKey → Prop) : KeysIn P empty := by
  intro k e he
  rw [find_empty] at he
  cases he

theorem KeysIn.modify {P : EventKey → Prop} {l : EventList} (h : KeysIn P l) {k : EventKey}
    (hk : P k) (f : Event → Event) (hf : ∀ e, (f e).key = e.key) : KeysIn P (l.modify k f hf) := by
  intro k' e he
  rw [find_modify] at he
  split at he
  next heq => exact heq ▸ hk
  next => exact h k' e he

theorem KeysIn.erase {P : EventKey → Prop} {l : EventList} (h : KeysIn P l) (k : EventKey) :
    KeysIn P (l.erase k) := by
  intro k' e he
  rw [find_erase] at he
  split at he
  · cases he
  · exact h k' e he

theorem KeysIn.apply {P : EventKey → Prop} {l : EventList} (h : KeysIn P l) {op : EventOp}
    (hop : ∀ k ∈ op.names, P k) : KeysIn P (l.apply op) := by
  cases op with
  | create k => exact h.modify (hop k List.mem_cons_self) Event.markCreated Event.key_markCreated
  | update k => exact h.modify (hop k List.mem_cons_self) id Event.key_id
  | remove k => exact h.modify (hop k List.mem_cons_self) Event.markRemoved Event.key_markRemoved
  | rename old new id kind =>
      have hold : P (old, kind) := hop _ List.mem_cons_self
      have hnew : P (new, kind) := hop _ (List.mem_cons_of_mem _ List.mem_cons_self)
      show KeysIn P (l.rename old new id kind)
      unfold rename
      split
      · exact (h.erase _).modify hnew _ _
      · have hdeleted := h.modify hold Event.markDeleted Event.key_markDeleted
        dsimp only
        split
        · exact ((hdeleted.modify hnew _ _).modify hold _ _).modify hnew _ _
        · exact ((hdeleted.modify hnew _ _).modify hold _ _).modify hnew _ _

theorem KeysIn.run {P : EventKey → Prop} {l : EventList} (h : KeysIn P l) {ops : List EventOp}
    (hops : ∀ op ∈ ops, ∀ k ∈ op.names, P k) : KeysIn P (l.run ops) := by
  induction ops generalizing l with
  | nil => exact h
  | cons op ops ih =>
      apply ih (h.apply (hops op List.mem_cons_self))
      exact fun op' hop' => hops op' (List.mem_cons_of_mem _ hop')

/-- The events of a batch have keys of entries. -/
theorem KeysIn.drain {P : EventKey → Prop} {l : EventList} (h : KeysIn P l) :
    ∀ e ∈ l.drain.1.events, P e.key := by
  intro e he
  obtain ⟨e', he', rfl⟩ := List.mem_map.mp he
  rw [key_exposeId]
  exact h _ _ (mem_kept.mp he').1

end EventList

/-! ## Legal sequences -/

/-- The live keys after one operation. -/
def liveStep (S : Finset EventKey) : EventOp → Finset EventKey
  | .create k => insert k S
  | .rename old new _ kind => insert (new, kind) (S.erase (old, kind))
  | .update _ => S
  | .remove k => S.erase k

def liveAfter (S₀ : Finset EventKey) (ops : List EventOp) : Finset EventKey :=
  ops.foldl liveStep S₀

/-- Create an absent key, update or remove a present one, rename a present key
to an absent one. -/
def LegalOp (S : Finset EventKey) : EventOp → Prop
  | .create k => k ∉ S
  | .rename old new _ kind => (old, kind) ∈ S ∧ (new, kind) ∉ S
  | .update k => k ∈ S
  | .remove k => k ∈ S

instance (S : Finset EventKey) (op : EventOp) : Decidable (LegalOp S op) := by
  cases op <;> unfold LegalOp <;> infer_instance

/-- Every operation is legal for the live set it meets. -/
def Legal (S : Finset EventKey) : List EventOp → Prop
  | [] => True
  | op :: ops => LegalOp S op ∧ Legal (liveStep S op) ops

instance decidableLegal : ∀ (S : Finset EventKey) (ops : List EventOp),
    Decidable (Legal S ops)
  | _, [] => isTrue trivial
  | S, op :: ops =>
      have := decidableLegal (liveStep S op) ops
      inferInstanceAs (Decidable (LegalOp S op ∧ Legal (liveStep S op) ops))

theorem liveAfter_snoc (S₀ : Finset EventKey) (ops : List EventOp)
    (op : EventOp) :
    liveAfter S₀ (ops ++ [op]) = liveStep (liveAfter S₀ ops) op := by
  unfold liveAfter
  rw [List.foldl_append]
  rfl

theorem legal_snoc {S₀ : Finset EventKey} {ops : List EventOp} {op : EventOp} :
    Legal S₀ (ops ++ [op]) ↔ Legal S₀ ops ∧ LegalOp (liveAfter S₀ ops) op := by
  induction ops generalizing S₀ with
  | nil => simp [Legal, liveAfter]
  | cons o ops ih =>
      change LegalOp S₀ o ∧ Legal (liveStep S₀ o) (ops ++ [op]) ↔
        (LegalOp S₀ o ∧ Legal (liveStep S₀ o) ops) ∧
          LegalOp (liveAfter (liveStep S₀ o) ops) op
      rw [ih, and_assoc]

/-- Some operation of the sequence named `k`. -/
def Named (ops : List EventOp) (k : EventKey) : Prop := ∃ op ∈ ops, k ∈ op.names

instance (ops : List EventOp) (k : EventKey) : Decidable (Named ops k) := by
  unfold Named
  infer_instance

/-- What a batch owes its consumer about one key. -/
def netEffect (S₀ S₁ : Finset EventKey) (named : Prop) [Decidable named]
    (k : EventKey) : List EventType :=
  if k ∈ S₁ ∧ k ∉ S₀ then [.create]
  else if k ∈ S₀ ∧ k ∉ S₁ then [.delete]
  else if k ∈ S₀ ∧ k ∈ S₁ ∧ named then [.update]
  else []

/-! ## The flags track liveness -/

/-- The entry of a key, given whether the key was live when the batch began
(`s₀`), whether it is live now (`s`) and whether it was named. -/
def Tracks (s₀ s named : Prop) : Option Event → Prop
  | none => (s ↔ s₀) ∧ (named → ¬ s₀)
  | some e => (e.isCreated = true ↔ ¬ s₀) ∧ (e.isDeleted = true ↔ ¬ s) ∧ named

/-- The list tracks the liveness of every key. -/
def NetInv (S₀ : Finset EventKey) (ops : List EventOp) (l : EventList) : Prop :=
  ∀ k, Tracks (k ∈ S₀) (k ∈ liveAfter S₀ ops) (Named ops k) (l.find k)

theorem named_snoc {ops : List EventOp} {op : EventOp} {k : EventKey} :
    Named (ops ++ [op]) k ↔ Named ops k ∨ k ∈ op.names := by
  simp [Named, or_and_right, exists_or]

/-- A key the operation does not name keeps what it had. -/
theorem tracks_unnamed {S₀ : Finset EventKey} {ops : List EventOp} {op : EventOp}
    {l l' : EventList} {k : EventKey} (hinv : NetInv S₀ ops l)
    (hlive : k ∈ liveStep (liveAfter S₀ ops) op ↔ k ∈ liveAfter S₀ ops)
    (hk : k ∉ op.names) (hfind : l'.find k = l.find k) :
    Tracks (k ∈ S₀) (k ∈ liveAfter S₀ (ops ++ [op])) (Named (ops ++ [op]) k)
      (l'.find k) := by
  have h := hinv k
  rw [hfind, liveAfter_snoc]
  unfold Tracks at h ⊢
  rw [named_snoc, hlive, or_iff_left hk]
  exact h

/-- What the entry of an absent key becomes when the key is created. -/
theorem Tracks.markCreated {s₀ named : Prop} {k : EventKey} {o : Option Event}
    (h : Tracks s₀ False named o) :
    ((o.getD (Event.new k)).markCreated.isCreated = true ↔ ¬ s₀) ∧
      (o.getD (Event.new k)).markCreated.isDeleted = false := by
  cases o with
  | none =>
      have hs₀ : ¬ s₀ := h.1.mpr
      simp [Event.markCreated, Event.new, hs₀]
  | some e =>
      have hd : e.isDeleted = true := h.2.1.mpr not_false
      simp [Event.markCreated, hd, h.1]

/-- What the entry of a live key says. -/
theorem Tracks.live {s₀ named : Prop} {k : EventKey} {o : Option Event}
    (h : Tracks s₀ True named o) :
    ((o.getD (Event.new k)).isCreated = true ↔ ¬ s₀) ∧
      (o.getD (Event.new k)).isDeleted = false := by
  cases o with
  | none =>
      have hs₀ : s₀ := h.1.mp trivial
      simp [Event.new, hs₀]
  | some e =>
      have hd : ¬ e.isDeleted = true := fun hd => h.2.1.mp hd trivial
      exact ⟨h.1, by simpa using hd⟩

theorem NetInv.live {S₀ : Finset EventKey} {ops : List EventOp} {l : EventList}
    {k : EventKey} (hinv : NetInv S₀ ops l) (hk : k ∈ liveAfter S₀ ops) :
    ((l.internalUpdate k).isCreated = true ↔ k ∉ S₀) ∧
      (l.internalUpdate k).isDeleted = false := by
  have h := hinv k
  rw [eq_true hk] at h
  exact h.live

theorem NetInv.absent {S₀ : Finset EventKey} {ops : List EventOp} {l : EventList}
    {k : EventKey} (hinv : NetInv S₀ ops l) (hk : k ∉ liveAfter S₀ ops) :
    ((l.internalUpdate k).markCreated.isCreated = true ↔ k ∉ S₀) ∧
      (l.internalUpdate k).markCreated.isDeleted = false := by
  have h := hinv k
  rw [eq_false hk] at h
  exact h.markCreated

theorem EventList.isCreated_of_createdInBatch {l : EventList} {k : EventKey}
    (h : l.createdInBatch k = true) : (l.internalUpdate k).isCreated = true := by
  unfold EventList.createdInBatch at h
  unfold EventList.internalUpdate
  cases hf : l.find k with
  | none => simp [hf] at h
  | some e => simpa [hf] using h

/-- The three keys a rename can be asked about: the new one, the old one and
any other. -/
theorem netInv_rename {S₀ : Finset EventKey} {ops : List EventOp} {l : EventList}
    {old new id : Str} {kind : EntryKind} (hinv : NetInv S₀ ops l)
    (hold : (old, kind) ∈ liveAfter S₀ ops)
    (hnew : (new, kind) ∉ liveAfter S₀ ops) :
    NetInv S₀ (ops ++ [.rename old new id kind])
      (l.apply (.rename old new id kind)) := by
  have hne : old ≠ new := by
    rintro rfl
    exact hnew hold
  obtain ⟨hoc, hod⟩ := hinv.live hold
  obtain ⟨hnc, hnd⟩ := hinv.absent hnew
  have hnamed : ∀ k, k ∈ EventOp.names (.rename old new id kind) →
      Named (ops ++ [.rename old new id kind]) k :=
    fun k h => named_snoc.mpr (Or.inr h)
  have hlive : (new, kind) ∈ liveAfter S₀ (ops ++ [.rename old new id kind]) := by
    rw [liveAfter_snoc]
    simp [liveStep]
  have hgone : (old, kind) ∉ liveAfter S₀ (ops ++ [.rename old new id kind]) := by
    rw [liveAfter_snoc]
    simp [liveStep, hne]
  intro k
  by_cases hknew : k = (new, kind)
  · subst hknew
    have hn := hnamed (new, kind) (by simp [EventOp.names])
    -- Either way the new entry counts as created, unless that takes back a deletion.
    cases hcr : l.createdInBatch (old, kind) with
    | true =>
        rw [EventList.apply, EventList.find_rename_of_created id hcr hne, if_pos rfl]
        refine ⟨?_, by simp [hlive], hn⟩
        rw [Event.isCreated_markMoved, hnc]
    | false =>
        rw [EventList.apply, EventList.find_rename_of_not_created id hcr hne,
          if_pos rfl]
        refine ⟨hnc, ?_, hn⟩
        change (l.internalUpdate (new, kind)).markCreated.isDeleted = true ↔ _
        simp [hnd, hlive]
  · by_cases hkold : k = (old, kind)
    · subst hkold
      have hn := hnamed (old, kind) (by simp [EventOp.names])
      cases hcr : l.createdInBatch (old, kind) with
      | true =>
          -- The entry came and went within the batch.
          have hs₀ : (old, kind) ∉ S₀ :=
            hoc.mp (EventList.isCreated_of_createdInBatch hcr)
          rw [EventList.apply, EventList.find_rename_of_created id hcr hne,
            if_neg hknew, if_pos rfl]
          exact ⟨iff_of_false hgone hs₀, fun _ => hs₀⟩
      | false =>
          rw [EventList.apply, EventList.find_rename_of_not_created id hcr hne,
            if_neg hknew, if_pos rfl]
          exact ⟨hoc, iff_of_true rfl hgone, hn⟩
    · have hkn : k ∉ EventOp.names (.rename old new id kind) := by
        simp [EventOp.names, hknew, hkold]
      refine tracks_unnamed hinv (by simp [liveStep, hknew, hkold]) hkn ?_
      cases hcr : l.createdInBatch (old, kind) with
      | true =>
          rw [EventList.apply, EventList.find_rename_of_created id hcr hne,
            if_neg hknew, if_neg hkold]
      | false =>
          rw [EventList.apply, EventList.find_rename_of_not_created id hcr hne,
            if_neg hknew, if_neg hkold]

/-- One legal operation keeps the flags in step with liveness. -/
theorem netInv_step {S₀ : Finset EventKey} {ops : List EventOp} {op : EventOp}
    {l : EventList} (hinv : NetInv S₀ ops l)
    (hlegal : LegalOp (liveAfter S₀ ops) op) :
    NetInv S₀ (ops ++ [op]) (l.apply op) := by
  cases op with
  | create k₀ =>
      intro k
      by_cases hk : k = k₀
      · subst hk
        obtain ⟨hc, hd⟩ := hinv.absent hlegal
        rw [EventList.apply, EventList.find_create, if_pos rfl, liveAfter_snoc]
        refine ⟨hc, ?_, named_snoc.mpr (Or.inr (by simp [EventOp.names]))⟩
        simp [hd, liveStep]
      · refine tracks_unnamed hinv (by simp [liveStep, hk])
          (by simpa [EventOp.names] using hk) ?_
        rw [EventList.apply, EventList.find_create, if_neg hk]
  | update k₀ =>
      intro k
      by_cases hk : k = k₀
      · subst hk
        have hlive : k ∈ liveAfter S₀ ops := hlegal
        obtain ⟨hc, hd⟩ := hinv.live hlive
        rw [EventList.apply, EventList.find_update, if_pos rfl, liveAfter_snoc]
        refine ⟨hc, ?_, named_snoc.mpr (Or.inr (by simp [EventOp.names]))⟩
        simp [hd, liveStep, hlive]
      · refine tracks_unnamed hinv Iff.rfl (by simpa [EventOp.names] using hk) ?_
        rw [EventList.apply, EventList.find_update, if_neg hk]
  | remove k₀ =>
      intro k
      by_cases hk : k = k₀
      · subst hk
        obtain ⟨hc, _⟩ := hinv.live hlegal
        rw [EventList.apply, EventList.find_remove, if_pos rfl, liveAfter_snoc]
        refine ⟨hc, ?_, named_snoc.mpr (Or.inr (by simp [EventOp.names]))⟩
        simp [Event.markRemoved, liveStep]
      · refine tracks_unnamed hinv (by simp [liveStep, hk])
          (by simpa [EventOp.names] using hk) ?_
        rw [EventList.apply, EventList.find_remove, if_neg hk]
  | rename old new id kind => exact netInv_rename hinv hlegal.1 hlegal.2

theorem netInv_run {S₀ : Finset EventKey} {ops : List EventOp}
    (hlegal : Legal S₀ ops) : NetInv S₀ ops (EventList.empty.run ops) := by
  induction ops using List.reverseRecOn with
  | nil =>
      intro k
      rw [EventList.run, List.foldl_nil, EventList.find_empty]
      exact ⟨Iff.rfl, fun ⟨_, h, _⟩ => absurd h List.not_mem_nil⟩
  | append_singleton ops op ih =>
      obtain ⟨hops, hop⟩ := legal_snoc.mp hlegal
      rw [EventList.run_snoc]
      exact netInv_step (ih hops) hop

/-! ## What `drain` reports -/

/-- The events of one key in a drained batch: its entry, unless it was created
and deleted in the batch. -/
theorem EventList.drain_filter_key (l : EventList) (k : EventKey) :
    ((l.drain.1.events.filter fun e => e.key = k).map Event.type) =
      (((l.find k).toList.filter fun e => !(e.isCreated && e.isDeleted)).map
        Event.type) := by
  change (((l.kept.map (exposeId (renameParts l.kept))).filter
    fun e => e.key = k).map Event.type) = _
  rw [List.filter_map, List.map_map]
  have htype : Event.type ∘ exposeId (renameParts l.kept) = Event.type :=
    funext fun e => type_exposeId _ e
  have hkey : (fun e : Event => decide (e.key = k)) ∘ exposeId (renameParts l.kept) =
      fun e => decide (e.key = k) :=
    funext fun e => by simp
  rw [htype, hkey, kept, List.filter_comm, entries_filter_key]

/-- **The net effect of a batch.** After a legal sequence from `S₀`, the events
of every key are one create if the key appeared, one delete if it vanished, one
update if it was there all along and was named, and none otherwise. -/
theorem drain_net_effect (S₀ : Finset EventKey) (ops : List EventOp)
    (hlegal : Legal S₀ ops) (k : EventKey) :
    (((EventList.empty.run ops).drain.1.events.filter fun e => e.key = k).map
        Event.type) =
      netEffect S₀ (liveAfter S₀ ops) (Named ops k) k := by
  rw [EventList.drain_filter_key]
  have h := netInv_run hlegal k
  cases hf : (EventList.empty.run ops).find k with
  | none =>
      rw [hf] at h
      obtain ⟨hlive, hnamed⟩ := h
      unfold netEffect
      by_cases h₀ : k ∈ S₀
      · have hn : ¬ Named ops k := fun hn => hnamed hn h₀
        simp [h₀, hlive.mpr h₀, hn]
      · simp [h₀, hlive]
  | some e =>
      rw [hf] at h
      obtain ⟨hc, hd, hn⟩ := h
      unfold netEffect
      by_cases h₀ : k ∈ S₀ <;> by_cases h₁ : k ∈ liveAfter S₀ ops <;>
        simp [h₀, h₁, hn, Event.type] at hc hd ⊢ <;> simp [hc, hd]

/-- A file edited, a file replaced by a rename onto it, and a temporary one. -/
theorem drain_net_effect_replace :
    let a : EventKey := ([97], .File)
    let b : EventKey := ([98], .File)
    let ops : List EventOp := [.update a, .create b, .remove a, .rename [98] [97] [49] .File]
    Legal {a} ops ∧
      ((EventList.empty.run ops).drain.1.events.filter fun e => e.key = a).map
        Event.type = netEffect {a} (liveAfter {a} ops) (Named ops a) a :=
  ⟨by decide, drain_net_effect _ _ (by decide) _⟩

end NativeWatcher
