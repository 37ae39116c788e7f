import Mathlib.Data.List.Basic

/-!
# Logs with readers

Items are published on a log. A reader joins it at some time and is handed the items that
follow, through a channel that keeps their order. A reader may be stopped, and single items
may fail to reach it; what it has seen is then a prefix, or a subsequence, of what was
published since it joined.
-/

universe u v

namespace Broadcast

variable {α : Type u} {β : Type v} {log seen : List α} {since : ℕ}

/-! ## Readers -/

/-- The reader has seen every item since it joined. -/
structure UpToDate (log : List α) (since : ℕ) (seen : List α) : Prop where
  joined : since ≤ log.length
  seen_eq : seen = log.drop since

/-- The reader has seen the items since it joined up to some point. -/
structure Stopped (log : List α) (since : ℕ) (seen : List α) : Prop where
  joined : since ≤ log.length
  seen_start : seen <+: log.drop since

/-- The reader has seen some of the items since it joined, in their order. -/
structure Lossy (log : List α) (since : ℕ) (seen : List α) : Prop where
  joined : since ≤ log.length
  seen_sublist : seen.Sublist (log.drop since)

theorem UpToDate.join (log : List α) : UpToDate log log.length [] where
  joined := Nat.le_refl _
  seen_eq := List.drop_length.symm

theorem drop_publish (h : since ≤ log.length) (a : α) :
    (log ++ [a]).drop since = log.drop since ++ [a] :=
  List.drop_append_of_le_length h

theorem joined_publish (h : since ≤ log.length) (a : α) : since ≤ (log ++ [a]).length := by
  rw [List.length_append]
  exact Nat.le_add_right_of_le h

theorem UpToDate.publish (h : UpToDate log since seen) (a : α) :
    UpToDate (log ++ [a]) since (seen ++ [a]) where
  joined := joined_publish h.joined a
  seen_eq := by rw [drop_publish h.joined, ← h.seen_eq]

theorem UpToDate.stopped (h : UpToDate log since seen) : Stopped log since seen where
  joined := h.joined
  seen_start := h.seen_eq ▸ List.prefix_rfl

theorem Stopped.publish (h : Stopped log since seen) (a : α) :
    Stopped (log ++ [a]) since seen where
  joined := joined_publish h.joined a
  seen_start := by
    rw [drop_publish h.joined]
    exact h.seen_start.trans (List.prefix_append ..)

theorem Stopped.lossy (h : Stopped log since seen) : Lossy log since seen where
  joined := h.joined
  seen_sublist := h.seen_start.sublist

theorem Lossy.skip (h : Lossy log since seen) (a : α) : Lossy (log ++ [a]) since seen where
  joined := joined_publish h.joined a
  seen_sublist := by
    rw [drop_publish h.joined]
    exact h.seen_sublist.trans (List.sublist_append_left ..)

theorem Lossy.publish (h : Lossy log since seen) (a : α) :
    Lossy (log ++ [a]) since (seen ++ [a]) where
  joined := joined_publish h.joined a
  seen_sublist := by
    rw [drop_publish h.joined]
    exact h.seen_sublist.append (List.Sublist.refl [a])

/-- A reader that joins with what the log said before, and has seen everything since, holds
what the log says. -/
theorem UpToDate.foldl (h : UpToDate log since seen) (f : β → α → β) (b : β) :
    seen.foldl f ((log.take since).foldl f b) = log.foldl f b := by
  rw [h.seen_eq, ← List.foldl_append, List.take_append_drop]

/-! ## Channels -/

/-- A channel hands on what it accepts in order. If it is discarded, what it has not handed
on is lost, and it accepts nothing more. -/
structure Channel (α : Type u) where
  accepted : List α
  handled : List α
  queue : List α
  discarded : Bool
  whole : discarded = false → handled ++ queue = accepted
  cut : discarded = true → queue = [] ∧ handled <+: accepted

namespace Channel

def empty : Channel α where
  accepted := []
  handled := []
  queue := []
  discarded := false
  whole _ := rfl
  cut h := by cases h

def send (c : Channel α) (a : α) : Channel α :=
  if h : c.discarded = true then c
  else
    { c with
      accepted := c.accepted ++ [a]
      queue := c.queue ++ [a]
      whole := fun hopen => by rw [← List.append_assoc, c.whole hopen]
      cut := fun hcut => absurd hcut h }

/-- The item that is handed on next. -/
def handle (c : Channel α) : Option (α × Channel α) :=
  match hq : c.queue with
  | [] => none
  | a :: rest =>
      some (a, { c with
        handled := c.handled ++ [a]
        queue := rest
        whole := fun hopen => by rw [List.append_assoc, ← c.whole hopen, hq]; rfl
        cut := fun hcut => absurd ((c.cut hcut).1.symm.trans hq) (List.cons_ne_nil a rest).symm })

def discard (c : Channel α) : Channel α where
  accepted := c.accepted
  handled := c.handled
  queue := []
  discarded := true
  whole h := by cases h
  cut _ := by
    refine ⟨rfl, ?_⟩
    cases h : c.discarded with
    | true => exact (c.cut h).2
    | false => exact c.whole h ▸ List.prefix_append ..

variable {c c' : Channel α} {a : α}

theorem handled_start (c : Channel α) : c.handled <+: c.accepted :=
  (discard c).cut rfl |>.2

@[simp] theorem accepted_discard (c : Channel α) : c.discard.accepted = c.accepted := rfl

@[simp] theorem discarded_discard (c : Channel α) : c.discard.discarded = true := rfl

theorem accepted_send (h : c.discarded = false) (a : α) :
    (c.send a).accepted = c.accepted ++ [a] := by
  unfold send
  rw [dif_neg (by simp [h])]

@[simp] theorem discarded_send (c : Channel α) (a : α) :
    (c.send a).discarded = c.discarded := by
  unfold send
  split <;> rfl

@[simp] theorem handled_send (c : Channel α) (a : α) : (c.send a).handled = c.handled := by
  unfold send
  split <;> rfl

/-- Handing an item on moves it from the queue, and changes nothing else. -/
theorem of_handle (h : c.handle = some (a, c')) :
    c.queue = a :: c'.queue ∧ c'.handled = c.handled ++ [a] ∧
      c'.accepted = c.accepted ∧ c'.discarded = c.discarded := by
  unfold handle at h
  split at h
  · cases h
  next rest hq =>
      cases h
      exact ⟨hq, rfl, rfl, rfl⟩

end Channel

end Broadcast
