import NativeWatcher.Event.NetEffect

/-!
# Rename ids against the history of objects

A legal sequence of operations read as a history: every key live at the start
holds an object, `create` makes one, `remove` destroys one and `rename` moves
one. A delete and a create that share an id claim that the object of the deleted
path is the object of the created one.

An id misleads when a path of the initial set is re-occupied by another object
which is then moved away: the coalesced entry of the path no longer tells that
its occupant changed. `Misled` describes those sequences, without the flags.
-/

namespace NativeWatcher

/-! ## Objects -/

/-- The object a key held at the start, or the `n`-th one created since. -/
inductive Obj where
  | initial (k : EventKey)
  | made (n : Nat)
deriving DecidableEq

structure Objects where
  object : EventKey → Option Obj
  next : Nat

namespace Objects

def start (S₀ : Finset EventKey) : Objects where
  object k := if k ∈ S₀ then some (.initial k) else none
  next := 0

def step (o : Objects) : EventOp → Objects
  | .create k => ⟨Function.update o.object k (some (.made o.next)), o.next + 1⟩
  | .rename old new _ kind =>
      ⟨Function.update (Function.update o.object (old, kind) none) (new, kind)
        (o.object (old, kind)), o.next⟩
  | .update _ => o
  | .remove k => ⟨Function.update o.object k none, o.next⟩

def after (S₀ : Finset EventKey) (ops : List EventOp) : Objects :=
  ops.foldl step (start S₀)

theorem after_snoc (S₀ : Finset EventKey) (ops : List EventOp) (op : EventOp) :
    after S₀ (ops ++ [op]) = (after S₀ ops).step op := by
  unfold after
  rw [List.foldl_append]
  rfl

/-- An operation that neither empties nor fills a key leaves its object. -/
theorem step_object_of_ne {o : Objects} {op : EventOp} {k : EventKey}
    (hv : op.vacates ≠ some k) (hc : op.occupies ≠ some k) :
    (o.step op).object k = o.object k := by
  cases op with
  | create k₀ =>
      have hne : k ≠ k₀ := fun h => hc (by rw [h]; rfl)
      simp [step, hne]
  | rename old new id kind =>
      have hold : k ≠ (old, kind) := fun h => hv (by rw [h]; rfl)
      have hnew : k ≠ (new, kind) := fun h => hc (by rw [h]; rfl)
      simp [step, hold, hnew]
  | update k₀ => rfl
  | remove k₀ =>
      have hne : k ≠ k₀ := fun h => hv (by rw [h]; rfl)
      simp [step, hne]

end Objects

/-- The ids of the renames, in order. -/
def renameIdsOf (ops : List EventOp) : List Str :=
  ops.filterMap fun
    | .rename _ _ id _ => some id
    | _ => none

/-- Every rename is called with an id not used before. -/
def FreshIds (ops : List EventOp) : Prop := (renameIdsOf ops).Nodup

instance (ops : List EventOp) : Decidable (FreshIds ops) := by
  unfold FreshIds
  infer_instance

/-- A delete and a create of the batch that carry one id are the two ends of one
object. -/
def RenameIdsSound (S₀ : Finset EventKey) (ops : List EventOp) : Prop :=
  ∀ d ∈ (EventList.empty.run ops).drain.1.events,
    ∀ c ∈ (EventList.empty.run ops).drain.1.events,
      d.type = .delete → c.type = .create → ∀ id, d.renameId = some id →
        c.renameId = some id →
          ∃ o, (Objects.start S₀).object d.key = some o ∧
            (Objects.after S₀ ops).object c.key = some o

/-! ## Trails of moves -/

/-- The last operation to empty `k` was a removal. -/
def removedLast (ops : List EventOp) (k : EventKey) : Bool :=
  ops.foldl (fun b op => match op with
    | .remove k' => if k' = k then true else b
    | .rename old _ _ kind => if (old, kind) = k then false else b
    | _ => b) false

/-- The batch has not reported `k` as deleted: it was not live at the start, and
its last occupant, if any, was moved on. -/
def Fresh (S₀ : Finset EventKey) (ops : List EventOp) (k : EventKey) : Prop :=
  k ∉ S₀ ∧ removedLast ops k = false

instance (S₀ : Finset EventKey) (ops : List EventOp) (k : EventKey) :
    Decidable (Fresh S₀ ops k) := by
  unfold Fresh
  infer_instance

/-- `Trail S₀ φ ops p q`: a rename took the occupant of the initial path `p` away,
`p` has been vacant since, and renames have carried that occupant onto fresh keys
only, the last of them `q`. `φ` is asked of the history before the departure. -/
inductive Trail (S₀ : Finset EventKey) (φ : List EventOp → EventKey → Prop) :
    List EventOp → EventKey → EventKey → Prop
  | depart {ops : List EventOp} {old new id : Str} {kind : EntryKind}
      (hold : (old, kind) ∈ S₀) (hφ : φ ops (old, kind))
      (hnew : Fresh S₀ ops (new, kind)) :
      Trail S₀ φ (ops ++ [.rename old new id kind]) (old, kind) (new, kind)
  | carry {ops : List EventOp} {p : EventKey} {old new id : Str} {kind : EntryKind}
      (h : Trail S₀ φ ops p (old, kind)) (hnew : Fresh S₀ ops (new, kind)) :
      Trail S₀ φ (ops ++ [.rename old new id kind]) p (new, kind)
  | idle {ops : List EventOp} {op : EventOp} {p q : EventKey}
      (h : Trail S₀ φ ops p q) (hq : op.vacates ≠ some q)
      (hp : op.occupies ≠ some p) : Trail S₀ φ (ops ++ [op]) p q

/-- A trail whose first step moved an object other than the initial one. -/
def Misled (S₀ : Finset EventKey) : List EventOp → EventKey → EventKey → Prop :=
  Trail S₀ fun ops p => (Objects.after S₀ ops).object p ≠ some (.initial p)

section Trails

variable {S₀ : Finset EventKey} {φ : List EventOp → EventKey → Prop}
  {ops : List EventOp} {op : EventOp} {p q k : EventKey}

theorem trail_nil : ¬ Trail S₀ φ [] p q := by
  intro h
  generalize hL : ([] : List EventOp) = L at h
  cases h <;> exact List.cons_ne_nil _ _ (List.append_eq_nil_iff.mp hL.symm).2

/-- How a trail can come out of one more operation. -/
theorem trail_snoc (h : Trail S₀ φ (ops ++ [op]) p q) :
    (∃ old new id kind, op = .rename old new id kind ∧ p = (old, kind) ∧
        q = (new, kind) ∧ p ∈ S₀ ∧ φ ops p ∧ Fresh S₀ ops q) ∨
    (∃ old new id kind, op = .rename old new id kind ∧ q = (new, kind) ∧
        Trail S₀ φ ops p (old, kind) ∧ Fresh S₀ ops q) ∨
    (Trail S₀ φ ops p q ∧ op.vacates ≠ some q ∧ op.occupies ≠ some p) := by
  generalize hL : ops ++ [op] = L at h
  cases h with
  | depart hold hφ hnew =>
      obtain ⟨rfl, hop⟩ := List.append_inj' hL rfl
      obtain rfl := (List.cons.inj hop).1
      exact Or.inl ⟨_, _, _, _, rfl, rfl, rfl, hold, hφ, hnew⟩
  | carry h hnew =>
      obtain ⟨rfl, hop⟩ := List.append_inj' hL rfl
      obtain rfl := (List.cons.inj hop).1
      exact Or.inr (Or.inl ⟨_, _, _, _, rfl, rfl, h, hnew⟩)
  | idle h hq hp =>
      obtain ⟨rfl, hop⟩ := List.append_inj' hL rfl
      obtain rfl := (List.cons.inj hop).1
      exact Or.inr (Or.inr ⟨h, hq, hp⟩)

/-- Both ends of a trail lie on their side of the initial set. -/
theorem Trail.sides (h : Trail S₀ φ ops p q) : p ∈ S₀ ∧ q ∉ S₀ := by
  induction h with
  | depart hold _ hnew => exact ⟨hold, hnew.1⟩
  | carry _ hnew ih => exact ⟨ih.1, hnew.1⟩
  | idle _ _ _ ih => exact ih

/-- A rename writes the moved object at its new key. -/
theorem object_rename_new (S₀ : Finset EventKey) (ops : List EventOp)
    (old new id : Str) (kind : EntryKind) :
    (Objects.after S₀ (ops ++ [.rename old new id kind])).object (new, kind) =
      (Objects.after S₀ ops).object (old, kind) := by
  rw [Objects.after_snoc]
  simp [Objects.step]

theorem removedLast_snoc (ops : List EventOp) (op : EventOp) (k : EventKey) :
    removedLast (ops ++ [op]) k =
      match op with
      | .remove k' => if k' = k then true else removedLast ops k
      | .rename old _ _ kind => if (old, kind) = k then false else removedLast ops k
      | _ => removedLast ops k := by
  unfold removedLast
  rw [List.foldl_append]
  rfl

/-- In a legal sequence the end of a trail is live. -/
theorem Trail.live (h : Trail S₀ φ ops p q) (hlegal : Legal S₀ ops) :
    q ∈ liveAfter S₀ ops := by
  induction h with
  | depart hold _ hnew =>
      rw [liveAfter_snoc]
      simp [liveStep]
  | carry _ hnew ih =>
      rw [liveAfter_snoc]
      simp [liveStep]
  | @idle ops op p q _ hq hp ih =>
      have hlive := ih (legal_snoc.mp hlegal).1
      rw [liveAfter_snoc]
      cases op with
      | create k₀ => simp [liveStep, hlive]
      | update k₀ => exact hlive
      | remove k₀ =>
          have hne : q ≠ k₀ := fun h => hq (by rw [h]; rfl)
          simp [liveStep, hne, hlive]
      | rename old new id kind =>
          have hne : q ≠ (old, kind) := fun h => hq (by rw [h]; rfl)
          simp [liveStep, hne, hlive]

/-- A legal operation does not fill a live key. -/
theorem occupies_ne_of_live {S : Finset EventKey} (hop : LegalOp S op)
    (hk : k ∈ S) : op.occupies ≠ some k := by
  cases op with
  | create k₀ =>
      intro h
      obtain rfl := Option.some.inj h
      exact hop hk
  | rename old new id kind =>
      intro h
      obtain rfl := Option.some.inj h
      exact hop.2 hk
  | update k₀ => exact Option.some_ne_none k |>.symm
  | remove k₀ => exact Option.some_ne_none k |>.symm

/-- The object at the end of a trail is the one its departure moved: if that was
the initial one, the trail is sound; otherwise it misleads. -/
theorem Trail.object_or_misled (h : Trail S₀ (fun _ _ => True) ops p q)
    (hlegal : Legal S₀ ops) :
    (Objects.after S₀ ops).object q = some (.initial p) ∨ Misled S₀ ops p q := by
  induction h with
  | @depart ops old new id kind hold _ hnew =>
      rw [object_rename_new]
      by_cases hobj : (Objects.after S₀ ops).object (old, kind) =
          some (.initial (old, kind))
      · exact Or.inl hobj
      · exact Or.inr (.depart hold hobj hnew)
  | carry _ hnew ih =>
      rw [object_rename_new]
      exact (ih (legal_snoc.mp hlegal).1).imp id fun h => .carry h hnew
  | idle h hq hp ih =>
      obtain ⟨hops, hop⟩ := legal_snoc.mp hlegal
      rw [Objects.after_snoc, Objects.step_object_of_ne hq
        (occupies_ne_of_live hop (h.live hops))]
      exact (ih hops).imp id fun h => .idle h hq hp

theorem Misled.object_ne (h : Misled S₀ ops p q) (hlegal : Legal S₀ ops) :
    (Objects.after S₀ ops).object q ≠ some (.initial p) := by
  unfold Misled at h
  induction h with
  | depart _ hφ _ =>
      rw [object_rename_new]
      exact hφ
  | carry _ _ ih =>
      rw [object_rename_new]
      exact ih (legal_snoc.mp hlegal).1
  | idle h hq hp ih =>
      obtain ⟨hops, hop⟩ := legal_snoc.mp hlegal
      rw [Objects.after_snoc, Objects.step_object_of_ne hq
        (occupies_ne_of_live hop (h.live hops))]
      exact ih hops

theorem Misled.trail (h : Misled S₀ ops p q) :
    Trail S₀ (fun _ _ => True) ops p q := by
  unfold Misled at h
  induction h with
  | depart hold _ hnew => exact .depart hold trivial hnew
  | carry _ hnew ih => exact .carry ih hnew
  | idle _ hq hp ih => exact .idle ih hq hp

end Trails

/-! ## The ids the list holds -/

/-- The id of the entry of a key. -/
def EventList.idAt (l : EventList) (k : EventKey) : Option Str :=
  (l.internalUpdate k).renameId

theorem EventList.idAt_eq_some {l : EventList} {k : EventKey} {id : Str} :
    l.idAt k = some id ↔ ∃ e, l.find k = some e ∧ e.renameId = some id := by
  unfold EventList.idAt EventList.internalUpdate
  cases l.find k <;> simp [Event.new]

section IdAt

variable {S₀ : Finset EventKey} {ops : List EventOp} {l : EventList}
  {k : EventKey}

/-- A live key was created in the batch iff it was not live at the start. -/
theorem NetInv.createdInBatch_iff (hinv : NetInv S₀ ops l)
    (hk : k ∈ liveAfter S₀ ops) : l.createdInBatch k = true ↔ k ∉ S₀ := by
  have h := hinv k
  unfold EventList.createdInBatch
  cases hf : l.find k with
  | none =>
      rw [hf] at h
      simp [h.1.mp hk]
  | some e =>
      rw [hf] at h
      exact h.1

/-- The entry of an absent key holds no live id once it is created again. -/
theorem NetInv.markCreated_renameId (hinv : NetInv S₀ ops l)
    (hk : k ∉ liveAfter S₀ ops) :
    (l.internalUpdate k).markCreated.renameId = none := by
  have h := hinv k
  unfold EventList.internalUpdate Event.markCreated
  cases hf : l.find k with
  | none => simp [Event.new]
  | some e =>
      rw [hf] at h
      simp [h.2.1.mpr hk]

/-- Of the absent keys, the reported ones are those that are not fresh. -/
theorem isSome_find_iff_removedLast (hlegal : Legal S₀ ops) :
    ∀ k, k ∉ S₀ → k ∉ liveAfter S₀ ops →
      (((EventList.empty.run ops).find k).isSome ↔ removedLast ops k = true) := by
  induction ops using List.reverseRecOn with
  | nil => simp [EventList.run, removedLast]
  | append_singleton ops op ih =>
      obtain ⟨hops, hop⟩ := legal_snoc.mp hlegal
      have hinv := netInv_run hops
      intro k hk₀ hk
      rw [liveAfter_snoc] at hk
      rw [EventList.run_snoc, removedLast_snoc]
      cases op with
      | create k₀ =>
          obtain ⟨hne, hk⟩ : k ≠ k₀ ∧ k ∉ liveAfter S₀ ops := by
            simpa [liveStep] using hk
          rw [EventList.apply, EventList.find_create, if_neg hne]
          exact ih hops k hk₀ hk
      | update k₀ =>
          have hne : k ≠ k₀ := fun h => hk (h ▸ hop)
          rw [EventList.apply, EventList.find_update, if_neg hne]
          exact ih hops k hk₀ hk
      | remove k₀ =>
          rw [EventList.apply, EventList.find_remove]
          by_cases hne : k = k₀
          · simp [hne]
          · have hk' : k ∉ liveAfter S₀ ops := by
              simpa [liveStep, hne] using hk
            simpa [hne, Ne.symm hne] using ih hops k hk₀ hk'
      | rename old new id kind =>
          obtain ⟨hold, hnew⟩ := hop
          have hon : old ≠ new := by
            rintro rfl
            exact hnew hold
          have hkn : k ≠ (new, kind) := by
            rintro rfl
            exact hk (by simp [liveStep])
          by_cases hko : k = (old, kind)
          · subst hko
            have hcr := (hinv.createdInBatch_iff hold).mpr hk₀
            rw [EventList.apply, EventList.find_rename_of_created id hcr hon,
              if_neg hkn, if_pos rfl]
            simp
          · have hk' : k ∉ liveAfter S₀ ops := by
              simpa [liveStep, hkn, hko] using hk
            have hih := ih hops k hk₀ hk'
            cases hcr : (EventList.empty.run ops).createdInBatch (old, kind) with
            | true =>
                rw [EventList.apply, EventList.find_rename_of_created id hcr hon,
                  if_neg hkn, if_neg hko]
                simpa [Ne.symm hko] using hih
            | false =>
                rw [EventList.apply,
                  EventList.find_rename_of_not_created id hcr hon,
                  if_neg hkn, if_neg hko]
                simpa [Ne.symm hko] using hih

theorem isDeleted_iff_not_fresh (hlegal : Legal S₀ ops)
    (hk : k ∉ liveAfter S₀ ops) :
    ((EventList.empty.run ops).internalUpdate k).isDeleted = true ↔
      ¬ Fresh S₀ ops k := by
  have h := netInv_run hlegal k
  by_cases hk₀ : k ∈ S₀
  · refine iff_of_true ?_ fun hf => hf.1 hk₀
    unfold EventList.internalUpdate
    cases hf : (EventList.empty.run ops).find k with
    | none =>
        rw [hf] at h
        exact absurd (h.1.mpr hk₀) hk
    | some e =>
        rw [hf] at h
        exact h.2.1.mpr hk
  · have hiff := isSome_find_iff_removedLast hlegal k hk₀ hk
    have hfresh : Fresh S₀ ops k ↔ ¬ removedLast ops k = true := by
      simp [Fresh, hk₀]
    rw [hfresh, not_not, ← hiff]
    unfold EventList.internalUpdate
    cases hf : (EventList.empty.run ops).find k with
    | none => simp [Event.new]
    | some e =>
        rw [hf] at h
        simpa using h.2.1.mpr hk

theorem idAt_create (hinv : NetInv S₀ ops l) (hk : k ∉ liveAfter S₀ ops)
    (k' : EventKey) :
    (l.apply (.create k)).idAt k' = if k' = k then none else l.idAt k' := by
  change (l.modify k Event.markCreated Event.key_markCreated).idAt k' = _
  rw [EventList.idAt, EventList.internalUpdate_modify]
  split
  · exact hinv.markCreated_renameId hk
  · rfl

theorem idAt_update (l : EventList) (k k' : EventKey) :
    (l.apply (.update k)).idAt k' = l.idAt k' := by
  change (l.modify k id Event.key_id).idAt k' = _
  rw [EventList.idAt, EventList.internalUpdate_modify]
  split
  next h =>
      subst h
      rfl
  next => rfl

theorem idAt_remove (l : EventList) (k k' : EventKey) :
    (l.apply (.remove k)).idAt k' = if k' = k then none else l.idAt k' := by
  change (l.modify k Event.markRemoved Event.key_markRemoved).idAt k' = _
  rw [EventList.idAt, EventList.internalUpdate_modify]
  split <;> rfl

/-- The id a rename leaves on the new key: its own if the old key was there at
the start, the inherited one if not, and none if the new key is not fresh. -/
theorem idAt_rename (hlegal : Legal S₀ ops) {old new : Str} (id : Str)
    {kind : EntryKind}
    (hold : (old, kind) ∈ liveAfter S₀ ops)
    (hnew : (new, kind) ∉ liveAfter S₀ ops) (k : EventKey) :
    ((EventList.empty.run ops).apply (.rename old new id kind)).idAt k =
      if k = (new, kind) then
        if Fresh S₀ ops (new, kind) then
          if (old, kind) ∈ S₀ then some id
          else (EventList.empty.run ops).idAt (old, kind)
        else none
      else if k = (old, kind) then
        if Fresh S₀ ops (new, kind) ∧ (old, kind) ∈ S₀ then some id else none
      else (EventList.empty.run ops).idAt k := by
  have hinv := netInv_run hlegal
  have hon : old ≠ new := by
    rintro rfl
    exact hnew hold
  have hdel := isDeleted_iff_not_fresh hlegal hnew
  have hcriff := hinv.createdInBatch_iff hold
  cases hcr : (EventList.empty.run ops).createdInBatch (old, kind) with
  | true =>
      have hS₀ : (old, kind) ∉ S₀ := hcriff.mp hcr
      rw [EventList.apply, EventList.idAt, EventList.internalUpdate,
        EventList.find_rename_of_created id hcr hon]
      by_cases hkn : k = (new, kind)
      · subst hkn
        by_cases hf : Fresh S₀ ops (new, kind)
        · have hnd : ((EventList.empty.run ops).internalUpdate (new, kind)).isDeleted
              = false := by simpa [hf] using hdel
          simp [hf, hS₀, Event.markMoved, hnd, EventList.idAt]
        · have hd : ((EventList.empty.run ops).internalUpdate (new, kind)).isDeleted
              = true := hdel.mpr hf
          simp [hf, Event.markMoved, hd]
      · by_cases hko : k = (old, kind)
        · subst hko
          simp [hkn, hS₀, Event.new]
        · simp [hkn, hko, EventList.idAt, EventList.internalUpdate]
  | false =>
      have hS₀ : (old, kind) ∈ S₀ := by
        by_contra hS₀
        rw [hcriff.mpr hS₀] at hcr
        exact Bool.noConfusion hcr
      rw [EventList.apply, EventList.idAt, EventList.internalUpdate,
        EventList.find_rename_of_not_created id hcr hon]
      have hid : (if ((EventList.empty.run ops).internalUpdate (new, kind)).isDeleted
          = true then none else some id) =
          if Fresh S₀ ops (new, kind) then some id else none := by
        by_cases hf : Fresh S₀ ops (new, kind)
        · simp [hf, mt hdel.mp (not_not.mpr hf)]
        · simp [hf, hdel.mpr hf]
      by_cases hkn : k = (new, kind)
      · subst hkn
        simpa [hS₀, Event.setRenameId] using hid
      · by_cases hko : k = (old, kind)
        · subst hko
          simpa [hkn, hS₀, Event.setRenameId] using hid
        · simp [hkn, hko, EventList.idAt, EventList.internalUpdate]

end IdAt

/-! ## Shared ids are the ends of a trail -/

/-- An id sits on at most one deleted path of the initial set and at most one
created path outside it, and two entries share one exactly when a trail joins
them. -/
structure IdInv (S₀ : Finset EventKey) (ops : List EventOp) (l : EventList) : Prop where
  used : ∀ k id, l.idAt k = some id → id ∈ renameIdsOf ops
  side : ∀ k id, l.idAt k = some id → (k ∈ S₀ ↔ k ∉ liveAfter S₀ ops)
  inj : ∀ k k' id, l.idAt k = some id → l.idAt k' = some id →
    (k ∈ S₀ ↔ k' ∈ S₀) → k = k'
  pair : ∀ p q id, p ∈ S₀ → q ∉ S₀ → l.idAt p = some id → l.idAt q = some id →
    Trail S₀ (fun _ _ => True) ops p q
  trail : ∀ p q, Trail S₀ (fun _ _ => True) ops p q →
    ∃ id, l.idAt p = some id ∧ l.idAt q = some id

section Steps

variable {S₀ : Finset EventKey} {ops : List EventOp} {l : EventList}
  {k : EventKey}

theorem IdInv.source_absent (h : IdInv S₀ ops l) {p q : EventKey}
    (ht : Trail S₀ (fun _ _ => True) ops p q) : p ∉ liveAfter S₀ ops := by
  obtain ⟨id, hp, _⟩ := h.trail p q ht
  exact (h.side p id hp).mp ht.sides.1

theorem renameIdsOf_snoc_of_ne (ops : List EventOp) {op : EventOp}
    (hop : ∀ old new id kind, op ≠ .rename old new id kind) :
    renameIdsOf (ops ++ [op]) = renameIdsOf ops := by
  cases op with
  | rename old new id kind => exact absurd rfl (hop old new id kind)
  | create _ => simp [renameIdsOf]
  | update _ => simp [renameIdsOf]
  | remove _ => simp [renameIdsOf]

theorem renameIdsOf_snoc_rename (ops : List EventOp) (old new id : Str)
    (kind : EntryKind) :
    renameIdsOf (ops ++ [.rename old new id kind]) = renameIdsOf ops ++ [id] := by
  simp [renameIdsOf]

/-- An operation that only clears the id of `k`. -/
theorem idInv_clear {op : EventOp} (h : IdInv S₀ ops l)
    (hren : ∀ old new id kind, op ≠ .rename old new id kind)
    (hid : ∀ k', (l.apply op).idAt k' = if k' = k then none else l.idAt k')
    (hlive : ∀ k', k' ≠ k →
      (k' ∈ liveStep (liveAfter S₀ ops) op ↔ k' ∈ liveAfter S₀ ops))
    (hv : ∀ k', k' ≠ k → op.vacates ≠ some k')
    (hc : ∀ k', k' ≠ k → op.occupies ≠ some k')
    (hends : ∀ p q, Trail S₀ (fun _ _ => True) ops p q → op.vacates ≠ some q →
      op.occupies ≠ some p → p ≠ k ∧ q ≠ k) :
    IdInv S₀ (ops ++ [op]) (l.apply op) := by
  have hsome : ∀ {k' id}, (l.apply op).idAt k' = some id →
      k' ≠ k ∧ l.idAt k' = some id := by
    intro k' id h'
    rw [hid] at h'
    split at h'
    next => cases h'
    next hne => exact ⟨hne, h'⟩
  refine ⟨?_, ?_, ?_, ?_, ?_⟩
  · intro k' id h'
    rw [renameIdsOf_snoc_of_ne _ hren]
    exact h.used k' id (hsome h').2
  · intro k' id h'
    obtain ⟨hne, h'⟩ := hsome h'
    rw [liveAfter_snoc, hlive k' hne]
    exact h.side k' id h'
  · intro k₁ k₂ id h₁ h₂
    exact h.inj k₁ k₂ id (hsome h₁).2 (hsome h₂).2
  · intro p q id hp hq h₁ h₂
    exact .idle (h.pair p q id hp hq (hsome h₁).2 (hsome h₂).2)
      (hv q (hsome h₂).1) (hc p (hsome h₁).1)
  · intro p q ht
    rcases trail_snoc ht with ⟨_, _, _, _, hop, _⟩ | ⟨_, _, _, _, hop, _⟩ | ⟨ht, hq, hp⟩
    · exact absurd hop (hren _ _ _ _)
    · exact absurd hop (hren _ _ _ _)
    · obtain ⟨hpk, hqk⟩ := hends p q ht hq hp
      obtain ⟨id, h₁, h₂⟩ := h.trail p q ht
      exact ⟨id, by rw [hid, if_neg hpk, h₁], by rw [hid, if_neg hqk, h₂]⟩

theorem idInv_create (hlegal : Legal S₀ ops) (h : IdInv S₀ ops (EventList.empty.run ops))
    (hk : k ∉ liveAfter S₀ ops) :
    IdInv S₀ (ops ++ [.create k]) ((EventList.empty.run ops).apply (.create k)) := by
  refine idInv_clear (k := k) h (by simp) (idAt_create (netInv_run hlegal) hk)
    (fun k' hne => by simp [liveStep, hne]) (fun k' _ => by simp [EventOp.vacates])
    (fun k' hne => by simpa [EventOp.occupies] using hne.symm) ?_
  intro p q ht _ hp
  refine ⟨fun heq => hp (by rw [heq]; rfl), ?_⟩
  rintro rfl
  exact hk (ht.live hlegal)

theorem idInv_remove (h : IdInv S₀ ops l) (hk : k ∈ liveAfter S₀ ops) :
    IdInv S₀ (ops ++ [.remove k]) (l.apply (.remove k)) := by
  refine idInv_clear (k := k) h (by simp) (idAt_remove l k)
    (fun k' hne => by simp [liveStep, hne])
    (fun k' hne => by simpa [EventOp.vacates] using hne.symm)
    (fun k' _ => by simp [EventOp.occupies]) ?_
  intro p q ht hq _
  refine ⟨?_, fun heq => hq (by rw [heq]; rfl)⟩
  rintro rfl
  exact h.source_absent ht hk

theorem idInv_update (h : IdInv S₀ ops l) :
    IdInv S₀ (ops ++ [.update k]) (l.apply (.update k)) := by
  have hid := idAt_update l k
  refine ⟨?_, ?_, ?_, ?_, ?_⟩
  · intro k' id h'
    rw [renameIdsOf_snoc_of_ne _ (by simp)]
    exact h.used k' id (hid k' ▸ h')
  · intro k' id h'
    rw [liveAfter_snoc]
    exact h.side k' id (hid k' ▸ h')
  · intro k₁ k₂ id h₁ h₂
    exact h.inj k₁ k₂ id (hid k₁ ▸ h₁) (hid k₂ ▸ h₂)
  · intro p q id hp hq h₁ h₂
    exact .idle (h.pair p q id hp hq (hid p ▸ h₁) (hid q ▸ h₂)) (by simp [EventOp.vacates])
      (by simp [EventOp.occupies])
  · intro p q ht
    rcases trail_snoc ht with ⟨_, _, _, _, hop, _⟩ | ⟨_, _, _, _, hop, _⟩ | ⟨ht, _, _⟩
    · cases hop
    · cases hop
    · obtain ⟨id, h₁, h₂⟩ := h.trail p q ht
      exact ⟨id, (hid p).trans h₁, (hid q).trans h₂⟩

section Rename

variable {old new id : Str} {kind : EntryKind}

/-- Where an id sits after a rename: on the two ends, which get the new one, on the
new key, which inherits the one of the old key, or where it was. -/
inductive RenamedAt (S₀ : Finset EventKey) (ops : List EventOp) (old new id : Str)
    (kind : EntryKind) : EventKey → Str → Prop
  | ends {k : EventKey} (hfresh : Fresh S₀ ops (new, kind)) (hold : (old, kind) ∈ S₀)
      (hk : k = (new, kind) ∨ k = (old, kind)) : RenamedAt S₀ ops old new id kind k id
  | inherited {id' : Str} (hfresh : Fresh S₀ ops (new, kind)) (hold : (old, kind) ∉ S₀)
      (hid : (EventList.empty.run ops).idAt (old, kind) = some id') :
      RenamedAt S₀ ops old new id kind (new, kind) id'
  | kept {k : EventKey} {id' : Str} (hnew : k ≠ (new, kind)) (hold : k ≠ (old, kind))
      (hid : (EventList.empty.run ops).idAt k = some id') :
      RenamedAt S₀ ops old new id kind k id'

theorem renamedAt_of_idAt (hlegal : Legal S₀ ops) (hold : (old, kind) ∈ liveAfter S₀ ops)
    (hnew : (new, kind) ∉ liveAfter S₀ ops) {k : EventKey} {id' : Str}
    (h : ((EventList.empty.run ops).apply (.rename old new id kind)).idAt k = some id') :
    RenamedAt S₀ ops old new id kind k id' := by
  rw [idAt_rename hlegal id hold hnew] at h
  split at h
  next hkn =>
      subst hkn
      split at h
      next hf =>
          split at h
          next hS =>
              obtain rfl := Option.some.inj h
              exact .ends hf hS (Or.inl rfl)
          next hS => exact .inherited hf hS h
      next => cases h
  next hkn =>
      split at h
      next hko =>
          split at h
          next hf =>
              obtain rfl := Option.some.inj h
              exact .ends hf.1 hf.2 (Or.inr hko)
          next => cases h
      next hko => exact .kept hkn hko h

/-- Two entries of one side share an id only where they did before. -/
theorem RenamedAt.inj (h : IdInv S₀ ops (EventList.empty.run ops)) (hfresh : id ∉ renameIdsOf ops)
    {k₁ k₂ : EventKey} {id' : Str} (h₁ : RenamedAt S₀ ops old new id kind k₁ id')
    (h₂ : RenamedAt S₀ ops old new id kind k₂ id') (hside : k₁ ∈ S₀ ↔ k₂ ∈ S₀) : k₁ = k₂ := by
  cases h₁ with
  | ends hf hS hk₁ =>
      cases h₂ with
      | ends _ _ hk₂ =>
          -- The ends are on different sides.
          rcases hk₁ with rfl | rfl <;> rcases hk₂ with rfl | rfl
          · rfl
          · exact absurd (hside.mpr hS) hf.1
          · exact absurd (hside.mp hS) hf.1
          · rfl
      | inherited _ hS' _ => exact absurd hS hS'
      | kept _ _ hk₂ => exact absurd (h.used _ _ hk₂) hfresh
  | inherited hf hS ho₁ =>
      cases h₂ with
      | ends _ hS' _ => exact absurd hS' hS
      | inherited _ _ _ => rfl
      | kept _ hne hk₂ =>
          refine absurd (h.inj _ _ id' hk₂ ho₁ ?_) hne
          rw [← hside]
          exact iff_of_false hf.1 hS
  | kept _ hne hk₁ =>
      cases h₂ with
      | ends _ _ _ => exact absurd (h.used _ _ hk₁) hfresh
      | inherited hf hS ho₂ =>
          refine absurd (h.inj _ _ id' hk₁ ho₂ ?_) hne
          rw [hside]
          exact iff_of_false hf.1 hS
      | kept _ _ hk₂ => exact h.inj k₁ k₂ id' hk₁ hk₂ hside

/-- A deleted and a created entry that share an id are the ends of a trail. -/
theorem RenamedAt.trail (h : IdInv S₀ ops (EventList.empty.run ops))
    (hfresh : id ∉ renameIdsOf ops) {p q : EventKey} {id' : Str}
    (h₁ : RenamedAt S₀ ops old new id kind p id') (h₂ : RenamedAt S₀ ops old new id kind q id')
    (hp : p ∈ S₀) (hq : q ∉ S₀) :
    Trail S₀ (fun _ _ => True) (ops ++ [.rename old new id kind]) p q := by
  cases h₁ with
  | ends hf hS hk₁ =>
      -- The rename is the first of the trail.
      cases h₂ with
      | ends _ _ hk₂ =>
          rcases hk₁ with rfl | rfl
          · exact absurd hp hf.1
          · rcases hk₂ with rfl | rfl
            · exact .depart hS trivial hf
            · exact absurd hS hq
      | inherited _ hS' _ => exact absurd hS hS'
      | kept _ _ hk₂ => exact absurd (h.used _ _ hk₂) hfresh
  | inherited hf _ _ => exact absurd hp hf.1
  | kept hn₁ _ hk₁ =>
      cases h₂ with
      | ends _ _ _ => exact absurd (h.used _ _ hk₁) hfresh
      | inherited hf hS ho₂ =>
          -- The rename carries the end of a trail further.
          exact .carry (h.pair p _ id' hp hS hk₁ ho₂) hf
      | kept _ ho₂ hk₂ =>
          exact .idle (h.pair p q id' hp hq hk₁ hk₂)
            (by simpa [EventOp.vacates] using ho₂.symm)
            (by simpa [EventOp.occupies] using hn₁.symm)

theorem idInv_rename (hlegal : Legal S₀ ops) (h : IdInv S₀ ops (EventList.empty.run ops))
    (hold : (old, kind) ∈ liveAfter S₀ ops)
    (hnew : (new, kind) ∉ liveAfter S₀ ops) (hfresh : id ∉ renameIdsOf ops) :
    IdInv S₀ (ops ++ [.rename old new id kind])
      ((EventList.empty.run ops).apply (.rename old new id kind)) := by
  have hid := idAt_rename hlegal id hold hnew
  have hon : (old, kind) ≠ (new, kind) := fun heq => hnew (heq ▸ hold)
  have hat : ∀ {k id'},
      ((EventList.empty.run ops).apply (.rename old new id kind)).idAt k = some id' →
      RenamedAt S₀ ops old new id kind k id' := renamedAt_of_idAt hlegal hold hnew
  constructor
  case used =>
    intro k id' h'
    rw [renameIdsOf_snoc_rename, List.mem_append, List.mem_singleton]
    cases hat h' with
    | ends _ _ _ => exact Or.inr rfl
    | inherited _ _ h' => exact Or.inl (h.used _ _ h')
    | kept _ _ h' => exact Or.inl (h.used _ _ h')
  case side =>
    intro k id' h'
    rw [liveAfter_snoc]
    cases hat h' with
    | ends hf hS hk =>
        rcases hk with rfl | rfl
        · simp [liveStep, hf.1]
        · simp [liveStep, hS, hon]
    | inherited hf _ _ => simp [liveStep, hf.1]
    | kept hkn hko h' => simpa [liveStep, hkn, hko] using h.side k id' h'
  case inj => exact fun k₁ k₂ id' h₁ h₂ hside => (hat h₁).inj h hfresh (hat h₂) hside
  case pair => exact fun p q id' hp hq h₁ h₂ => (hat h₁).trail h hfresh (hat h₂) hp hq
  case trail =>
    intro p q ht
    rcases trail_snoc ht with ⟨old', new', id₁, kind', hop, hp, hq, hS, -, hf⟩ |
      ⟨old', new', id₁, kind', hop, hq, ht', hf⟩ | ⟨ht', hq, hp⟩
    · obtain ⟨rfl, rfl, rfl, rfl⟩ := EventOp.rename.inj hop
      subst hp hq
      exact ⟨id, by simp [hid, hf, hS, hon], by simp [hid, hf, hS]⟩
    · obtain ⟨rfl, rfl, rfl, rfl⟩ := EventOp.rename.inj hop
      subst hq
      obtain ⟨id', h₁, h₂⟩ := h.trail _ _ ht'
      have hpn : p ≠ (new, kind) := fun heq => hf.1 (heq ▸ ht'.sides.1)
      have hpo : p ≠ (old, kind) := by
        rintro rfl
        exact ht'.sides.2 ht'.sides.1
      exact ⟨id', by simp [hid, hpn, hpo, h₁], by simp [hid, hf, ht'.sides.2, h₂]⟩
    · -- A trail the rename does not touch keeps the ids of its ends.
      obtain ⟨id', h₁, h₂⟩ := h.trail p q ht'
      have hqo : q ≠ (old, kind) := fun heq => hq (by rw [heq]; rfl)
      have hqn : q ≠ (new, kind) := fun heq => hnew (heq ▸ ht'.live hlegal)
      have hpn : p ≠ (new, kind) := fun heq => hp (by rw [heq]; rfl)
      have hpo : p ≠ (old, kind) := fun heq => h.source_absent ht' (heq ▸ hold)
      exact ⟨id', by simp [hid, hpn, hpo, h₁], by simp [hid, hqn, hqo, h₂]⟩

end Rename

theorem idInv_run (hlegal : Legal S₀ ops) (hfresh : FreshIds ops) :
    IdInv S₀ ops (EventList.empty.run ops) := by
  induction ops using List.reverseRecOn with
  | nil =>
      have hnone : ∀ k, (EventList.empty.run []).idAt k = none := fun k => by
        simp [EventList.run, EventList.idAt, EventList.internalUpdate, Event.new]
      refine ⟨?_, ?_, ?_, ?_, fun p q ht => absurd ht trail_nil⟩ <;> simp [hnone]
  | append_singleton ops op ih =>
      obtain ⟨hops, hop⟩ := legal_snoc.mp hlegal
      have hpre : FreshIds ops := by
        unfold FreshIds renameIdsOf at hfresh ⊢
        rw [List.filterMap_append] at hfresh
        exact (List.nodup_append.mp hfresh).1
      have hinv := ih hops hpre
      rw [EventList.run_snoc]
      cases op with
      | create k => exact idInv_create hops hinv hop
      | update k => exact idInv_update hinv
      | remove k => exact idInv_remove hinv hop
      | rename old new id kind =>
          refine idInv_rename hops hinv hop.1 hop.2 ?_
          unfold FreshIds at hfresh
          rw [renameIdsOf_snoc_rename, List.nodup_append] at hfresh
          exact fun hmem => hfresh.2.2 id hmem id (List.mem_singleton_self id) rfl

end Steps

/-! ## What `drain` exposes -/

section Exposed

variable {S₀ : Finset EventKey} {ops : List EventOp} {e : Event} {id : Str}

/-- A reported entry with an id is one end of a pair: created outside `S₀`, or
deleted inside it. -/
theorem IdInv.flags (hlegal : Legal S₀ ops)
    (hinv : IdInv S₀ ops (EventList.empty.run ops))
    (he : (EventList.empty.run ops).find e.key = some e) (hid : e.renameId = some id) :
    (e.isCreated = true ↔ e.key ∉ S₀) ∧ (e.isDeleted = true ↔ e.key ∈ S₀) := by
  have h := netInv_run hlegal e.key
  rw [he] at h
  have hside := hinv.side e.key id (EventList.idAt_eq_some.mpr ⟨e, he, hid⟩)
  exact ⟨h.1, h.2.1.trans hside.symm⟩

theorem IdInv.mem_kept (hlegal : Legal S₀ ops)
    (hinv : IdInv S₀ ops (EventList.empty.run ops))
    (he : (EventList.empty.run ops).find e.key = some e) (hid : e.renameId = some id) :
    e ∈ (EventList.empty.run ops).kept := by
  obtain ⟨hc, hd⟩ := hinv.flags hlegal he hid
  exact EventList.mem_kept.mpr ⟨he, fun h => (hc.mp h.1) (hd.mp h.2)⟩

theorem IdInv.eq_of_side (hinv : IdInv S₀ ops (EventList.empty.run ops)) {e' : Event}
    (he : (EventList.empty.run ops).find e.key = some e)
    (he' : (EventList.empty.run ops).find e'.key = some e')
    (hid : e.renameId = some id) (hid' : e'.renameId = some id)
    (hside : e'.key ∈ S₀ ↔ e.key ∈ S₀) : e' = e := by
  have hkey := hinv.inj e'.key e.key id (EventList.idAt_eq_some.mpr ⟨e', he', hid'⟩)
    (EventList.idAt_eq_some.mpr ⟨e, he, hid⟩) hside
  rw [hkey, he] at he'
  exact (Option.some.inj he').symm

/-- Two ends of one id make it pass the count of `drain`. -/
theorem IdInv.renameParts_eq (hlegal : Legal S₀ ops)
    (hinv : IdInv S₀ ops (EventList.empty.run ops)) {d c : Event}
    (hd : (EventList.empty.run ops).find d.key = some d)
    (hc : (EventList.empty.run ops).find c.key = some c)
    (hdid : d.renameId = some id) (hcid : c.renameId = some id)
    (hdS : d.key ∈ S₀) (hcS : c.key ∉ S₀) :
    EventList.renameParts (EventList.empty.run ops).kept id = ⟨1, 1, 0⟩ := by
  rw [EventList.renameParts_eq]
  have hdf := hinv.flags hlegal hd hdid
  have hcf := hinv.flags hlegal hc hcid
  congr 1
  · refine EventList.countP_kept_eq_one (hinv.mem_kept hlegal hc hcid)
      (by simp [hcid, hcf.1.mpr hcS]) fun e' he' ht => ?_
    have hfind := (EventList.mem_kept.mp he').1
    obtain ⟨hid', hcr⟩ := of_decide_eq_true ht
    exact hinv.eq_of_side hc hfind hcid hid'
      (iff_of_false ((hinv.flags hlegal hfind hid').1.mp hcr) hcS)
  · refine EventList.countP_kept_eq_one (hinv.mem_kept hlegal hd hdid)
      (by simpa [hdid, hdf.2.mpr hdS] using mt hdf.1.mp (not_not.mpr hdS))
      fun e' he' ht => ?_
    have hfind := (EventList.mem_kept.mp he').1
    obtain ⟨hid', _, hdel⟩ := of_decide_eq_true ht
    exact hinv.eq_of_side hd hfind hdid hid'
      (iff_of_true ((hinv.flags hlegal hfind hid').2.mp hdel) hdS)
  · refine List.countP_eq_zero.mpr fun e' he' ht => ?_
    obtain ⟨hid', hncr, hndel⟩ := of_decide_eq_true ht
    obtain ⟨hcr, hdel⟩ := hinv.flags hlegal (EventList.mem_kept.mp he').1 hid'
    by_cases hS : e'.key ∈ S₀
    · rw [hdel.mpr hS] at hndel
      cases hndel
    · rw [hcr.mpr hS] at hncr
      cases hncr

/-- **Ids are sound exactly when no trail misleads.** -/
theorem rename_ids_sound_iff (S₀ : Finset EventKey) (ops : List EventOp)
    (hlegal : Legal S₀ ops) (hfresh : FreshIds ops) :
    RenameIdsSound S₀ ops ↔ ¬ ∃ p q, Misled S₀ ops p q := by
  have hinv := idInv_run hlegal hfresh
  constructor
  · rintro hsound ⟨p, q, hmis⟩
    obtain ⟨id, hp, hq⟩ := hinv.trail p q hmis.trail
    obtain ⟨hpS, hqS⟩ := hmis.trail.sides
    obtain ⟨d, hd, hdid⟩ := EventList.idAt_eq_some.mp hp
    obtain ⟨c, hc, hcid⟩ := EventList.idAt_eq_some.mp hq
    obtain rfl : d.key = p := EventList.keyed _ _ _ hd
    obtain rfl : c.key = q := EventList.keyed _ _ _ hc
    have hparts := hinv.renameParts_eq hlegal hd hc hdid hcid hpS hqS
    have hexposed : ∀ {e : Event},
        (EventList.empty.run ops).find e.key = some e → e.renameId = some id →
          e ∈ (EventList.empty.run ops).drain.1.events := fun he hid =>
      List.mem_map.mpr ⟨_, hinv.mem_kept hlegal he hid,
        EventList.exposeId_of_paired hid hparts⟩
    have hdf := hinv.flags hlegal hd hdid
    have hcf := hinv.flags hlegal hc hcid
    obtain ⟨o, hstart, hend⟩ := hsound d (hexposed hd hdid) c (hexposed hc hcid)
      (by simpa [Event.type, hdf.2.mpr hpS] using mt hdf.1.mp (not_not.mpr hpS))
      (by simp [Event.type, hcf.1.mpr hqS]) id hdid hcid
    obtain rfl : Obj.initial d.key = o := by simpa [Objects.start, hpS] using hstart
    exact hmis.object_ne hlegal hend
  · intro hno d' hd' c' hc' htd htc id hdid hcid
    obtain ⟨d, hd, rfl⟩ := List.mem_map.mp hd'
    obtain ⟨c, hc, rfl⟩ := List.mem_map.mp hc'
    have hfd := (EventList.mem_kept.mp hd).1
    have hfc := (EventList.mem_kept.mp hc).1
    have hdid := EventList.renameId_of_exposeId hdid
    have hcid := EventList.renameId_of_exposeId hcid
    have hdf := hinv.flags hlegal hfd hdid
    have hcf := hinv.flags hlegal hfc hcid
    rw [EventList.type_exposeId] at htd htc
    rw [EventList.key_exposeId, EventList.key_exposeId]
    have hdS : d.key ∈ S₀ := by
      by_contra hS
      rw [Event.type, if_pos (hdf.1.mpr hS)] at htd
      cases htd
    have hcS : c.key ∉ S₀ := by
      intro hS
      rw [Event.type, if_neg (fun h => hcf.1.mp h hS), if_pos (hcf.2.mpr hS)] at htc
      cases htc
    have htrail := hinv.pair d.key c.key id hdS hcS
      (EventList.idAt_eq_some.mpr ⟨d, hfd, hdid⟩)
      (EventList.idAt_eq_some.mpr ⟨c, hfc, hcid⟩)
    refine ⟨.initial d.key, by simp [Objects.start, hdS], ?_⟩
    exact (htrail.object_or_misled hlegal).resolve_right fun h => hno ⟨_, _, h⟩

end Exposed

/-- A file moved twice in one batch: no trail misleads, whichever the ids. -/
theorem rename_ids_sound_iff_chain :
    let ops : List EventOp := [.rename [97] [98] [49] .File, .rename [98] [99] [50] .File]
    RenameIdsSound {([97], .File)} ops ↔ ¬ ∃ p q, Misled {([97], .File)} ops p q :=
  rename_ids_sound_iff _ _ (by decide) (by decide)

/-- A path removed, made again and moved away: the delete of `a` and the create of
`b` share an id, but what is at `b` is not what was at `a`. -/
theorem rename_ids_unsound :
    let a : EventKey := ([97], .File)
    let ops : List EventOp := [.remove a, .create a, .rename [97] [98] [49] .File]
    Legal {a} ops ∧ FreshIds ops ∧ ¬ RenameIdsSound {a} ops := by
  refine ⟨by decide, by decide, fun h => ?_⟩
  obtain ⟨o, hstart, hend⟩ := h ⟨[97], .File, false, true, some [49]⟩ (by decide)
    ⟨[98], .File, true, false, some [49]⟩ (by decide) rfl rfl [49] rfl rfl
  have hstart' : (Objects.start {(([97], .File) : EventKey)}).object ([97], .File) =
    some (.initial ([97], .File)) := by decide
  have hend' : (Objects.after {(([97], .File) : EventKey)}
    [.remove ([97], .File), .create ([97], .File), .rename [97] [98] [49] .File]).object
      ([98], .File) = some (.made 0) := by decide
  change (Objects.start _).object ([97], .File) = some o at hstart
  change (Objects.after _ _).object ([98], .File) = some o at hend
  rw [hstart'] at hstart
  rw [hend'] at hend
  cases hstart.trans hend.symm

end NativeWatcher
