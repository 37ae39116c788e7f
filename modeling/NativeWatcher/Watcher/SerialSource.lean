import NativeWatcher.Watcher.Settled

/-!
# A source that calls `notify` itself

On Windows and macOS the thread or the queue of a subscription fills the event list of one
watcher, and calls `notify` before it takes up anything else. Such a source is a backend in the
sense of `Notifier`: it owes a notification from the change on to the call.
-/

namespace NativeWatcher

open EventList

variable {σ α Fn Env : Type}

/-- `notifies` tells the steps that end with a call of `notify`. -/
structure SerialSource (σ α : Type) extends EventSource σ α where
  notifies : σ → α → Bool
  quiet : ∀ {s a s'}, step s a = some s' → notifies s a = false → mEvents s' = mEvents s
  mEvents_drain : ∀ s, mEvents (drain s) = (mEvents s).drain.2

namespace SerialSource

variable (S : SerialSource σ α) (ok : σ → α → Prop)

/-- The source, and whether it has a call of `notify` to make. -/
def notifyingStep (s : σ × Bool) (a : α) : Option (σ × Bool) :=
  if s.2 && S.notifies s.1 a then none
  else (S.step s.1 a).map fun s' => (s', s.2 || S.notifies s.1 a)

def notifier : Notifier Unit (σ × Bool) α where
  mEvents s _ := S.mEvents s.1
  owed s := { _id | s.2 = true }
  ok s a := ok s.1 a
  step := S.notifyingStep
  notify s _ := if s.2 then some (s.1, false) else none
  drain s _ := (S.drain s.1, s.2)
  of_step := by
    intro s a s' id _ hs hid
    unfold notifyingStep at hs
    split at hs
    · cases hs
    · obtain ⟨s₁, hstep, rfl⟩ := Option.map_eq_some_iff.mp hs
      obtain ⟨howed, hquiet⟩ := Bool.or_eq_false_iff.mp (Bool.eq_false_iff.mpr hid)
      exact ⟨Bool.eq_false_iff.mp howed, S.quiet hstep hquiet⟩
  of_notify := by
    intro s id s' hs
    split at hs
    · cases hs
      exact ⟨rfl, fun _ hne => absurd rfl hne⟩
    · cases hs
  drain_self s _ := S.mEvents_drain s.1
  drain_of_ne hne := absurd rfl hne
  owed_drain _ _ := rfl

variable {S ok} {P : σ → Prop}

/-- An invariant of the source, drained at any time, with what a consumer of every batch holds. -/
theorem keeps (hstep : ∀ {s a s'}, P s → ok s a → S.step s a = some s' → P s')
    (hdrain : ∀ {s}, P s → P (S.drain s)) :
    (S.notifier ok).Keeps () (fun s _ a => ok s.1 a) fun s V => P s.1 ∧ S.view s.1 = V where
  meets hok := hok
  step := by
    rintro s V a s' ⟨hkept, hview⟩ hok hs
    change S.notifyingStep s a = some s' at hs
    unfold notifyingStep at hs
    split at hs
    · cases hs
    · obtain ⟨s₁, hsource, rfl⟩ := Option.map_eq_some_iff.mp hs
      exact ⟨hstep hkept hok hsource, (S.view_step hsource).trans hview⟩
  notify := by
    intro s V id s' hkept hs
    change (if s.2 = true then some (s.1, false) else none) = some s' at hs
    split at hs
    · cases hs
      exact hkept
    · cases hs
  drain_self := by
    rintro s V ⟨hkept, rfl⟩
    exact ⟨hdrain hkept, S.view_drain s.1⟩
  drain_of_ne hne := absurd rfl hne

/-- A subscription that has just been made, with nothing under way. -/
def attached (S : SerialSource σ α) (s : σ) : Attached Unit (σ × Bool) Fn Env :=
  ⟨Debounced.start (s, false), S.view s, .start⟩

theorem inv_attached {s : σ} (h : P s) :
    (S.attached s : Attached Unit (σ × Bool) Fn Env).Inv (S.notifier ok) ()
      (fun s V => P s.1 ∧ S.view s.1 = V) (S.view s) where
  rest := ⟨debounceInv_start, fun hwatched => Bool.noConfusion hwatched⟩
  watched := rfl
  tells := ⟨.start, rfl⟩
  kept := ⟨h, rfl⟩

/-- At rest a consumer holds what a consumer of every batch holds, and the list is empty. -/
theorem settled [DecidableEq Fn] [DecidableEq Env] {s₀ : σ} {x : Attached Unit (σ × Bool) Fn Env}
    (hstep : ∀ {s a s'}, P s → ok s a → S.step s a = some s' → P s')
    (hdrain : ∀ {s}, P s → P (S.drain s)) (h₀ : P s₀)
    (h : (Machine.ofStep (S.attached s₀) (Attached.step (S.notifier ok) ())).Reach
      (Attached.Sound (S.notifier ok) () fun s _ a => ok s.1 a) x)
    (hrest : Attached.AtRest (S.notifier ok) () x.debounced) {cb : Nat}
    (hopen : x.callbacks.Open cb) (hmissed : x.callbacks.missed cb = false)
    (hkept : (x.callbacks.tsfn cb).channel.discarded = false)
    (hcalled : (x.callbacks.tsfn cb).channel.queue = []) :
    P x.debounced.source.1 ∧ (S.mEvents x.debounced.source.1).drain.1.events = [] ∧
      deliver (told (S.view s₀) (x.callbacks.batches.take (x.callbacks.joined cb)))
          ((x.callbacks.tsfn cb).channel.handled.flatMap CallbackData.events) =
        S.view x.debounced.source.1 := by
  have hinv := Attached.inv_of_reach (keeps hstep hdrain) (inv_attached h₀) h
  obtain ⟨hwaits, hheld⟩ := hinv.at_rest hrest hopen hmissed hkept hcalled
  exact ⟨hinv.kept.1, drain_events_of_waits hwaits, hheld.trans hinv.kept.2.symm⟩

/-- The watcher gets a callback, the source takes the action, and a round of the debouncer calls
the watcher, and then the callback is called. -/
def handedRun (a : α) : List (AttachedAction Unit α Nat Nat) :=
  [.debounced (.add ()), .callbacks (.watch 0 0 7 true), .debounced (.debounce (.loop true)),
    .debounced (.source a), .debounced (.notify ()), .debounced (.debounce (.lock 0)),
    .debounced (.debounce (.notify 0)), .debounced (.debounce (.unlock 0))] ++
    List.replicate 5 (.debounced (.debounce (.loop true))) ++
      .triggerCallbacks (fun _ => false) ::
        (List.replicate 4 (.debounced (.debounce (.loop true))) ++ [.callbacks (.callJSFunction 1)])

end SerialSource

end NativeWatcher
