import Mathlib.Logic.Relation

/-!
# Machines and guarded runs

A machine is a set of initial states with a labelled step relation. `Reach ok`
collects the states of the runs all of whose steps satisfy the guard `ok`; with
the trivial guard these are the reachable states. An invariant is established
once, for the guarded runs, from its initial and its step obligation.
-/

universe u v

/-- A labelled transition system with its initial states. -/
structure Machine (σ : Type u) (α : Type v) where
  init : σ → Prop
  step : σ → α → σ → Prop

namespace Machine

variable {σ : Type u} {α : Type v} (M : Machine σ α)

/-- The states of the runs whose every step meets the guard. -/
inductive Reach (ok : σ → α → Prop) : σ → Prop
  | init {s : σ} (h : M.init s) : Reach ok s
  | step {s s' : σ} {a : α} (h : Reach ok s) (hok : ok s a)
      (hs : M.step s a s') : Reach ok s'

/-- The states of all runs. -/
def Reachable : σ → Prop := M.Reach fun _ _ => True

/-- The machine of a partial step function. -/
def ofStep (s₀ : σ) (step : σ → α → Option σ) : Machine σ α where
  init s := s = s₀
  step s a s' := step s a = some s'

variable {M} {ok : σ → α → Prop} {Inv : σ → Prop}

/-- The invariant rule for guarded runs. -/
theorem Reach.invariant (h0 : ∀ s, M.init s → Inv s)
    (hstep : ∀ s a s', Inv s → ok s a → M.step s a s' → Inv s')
    {s : σ} (h : M.Reach ok s) : Inv s := by
  induction h with
  | init h => exact h0 _ h
  | step _ hok hs ih => exact hstep _ _ _ ih hok hs

/-- A run goes on by a step that can be taken. -/
theorem Reach.extend {s₀ s : σ} {step : σ → α → Option σ}
    (h : (ofStep s₀ step).Reach ok s) (a : α) (hok : ok s a)
    (hstep : (step s a).isSome = true) :
    (ofStep s₀ step).Reach ok ((step s a).get hstep) :=
  .step h hok (Option.some_get hstep).symm

/-- The invariant rule for the reachable states. -/
theorem Reachable.invariant (h0 : ∀ s, M.init s → Inv s)
    (hstep : ∀ s a s', Inv s → M.step s a s' → Inv s')
    {s : σ} (h : M.Reachable s) : Inv s :=
  Reach.invariant h0 (fun s a s' hi _ hs => hstep s a s' hi hs) h

/-! ## Sequences of actions -/

section Sequences

variable {s₀ s s' : σ} {step : σ → α → Option σ} {l : List α}

/-- The state after a sequence of actions, if all of them can be taken. -/
def execute (step : σ → α → Option σ) (s : σ) (l : List α) : Option σ := l.foldlM step s

/-- Every action of the sequence can be taken and meets the guard. -/
def Admits (ok : σ → α → Prop) (step : σ → α → Option σ) : σ → List α → Prop
  | _, [] => True
  | s, a :: l => ok s a ∧
      match step s a with
      | none => False
      | some s' => Admits ok step s' l

/-- What every step keeps, every sequence of actions keeps. -/
theorem execute_invariant {P : σ → Prop} (hstep : ∀ s a s', step s a = some s' → P s → P s')
    (hs : execute step s l = some s') (h : P s) : P s' := by
  induction l generalizing s with
  | nil =>
      cases hs
      exact h
  | cons a l ih =>
      obtain ⟨s₁, h₁, h₂⟩ := Option.bind_eq_some_iff.mp hs
      exact ih h₂ (hstep s a s₁ h₁ h)

/-- A sequence that meets the guard leads along a guarded run. -/
theorem Reach.execute (h : (ofStep s₀ step).Reach ok s) (hl : Admits ok step s l)
    (hs : Machine.execute step s l = some s') : (ofStep s₀ step).Reach ok s' := by
  induction l generalizing s with
  | nil =>
      cases hs
      exact h
  | cons a l ih =>
      obtain ⟨hok, hrest⟩ := hl
      obtain ⟨s₁, h₁, h₂⟩ := Option.bind_eq_some_iff.mp hs
      rw [h₁] at hrest
      exact ih (.step h hok h₁) hrest h₂

theorem Reachable.execute (h : (ofStep s₀ step).Reachable s)
    (hs : Machine.execute step s l = some s') : (ofStep s₀ step).Reachable s' := by
  induction l generalizing s with
  | nil =>
      cases hs
      exact h
  | cons a l ih =>
      obtain ⟨s₁, h₁, h₂⟩ := Option.bind_eq_some_iff.mp hs
      exact ih (.step h trivial h₁) h₂

end Sequences

end Machine
