import NativeWatcher.Backend.Subscriptions
import NativeWatcher.Lib.Reservations

/-!
# The shared backends

`getShared`, `releaseShared` and `unref` over the registry of running backends, with
the critical sections of `watch` and `unwatch` in between. The registry has a mutex of
its own; `mSharedReservations` is atomic and `releaseShared` decrements it outside of
any lock, so that a new client may come between the decrement and `unref`.

A client makes its calls between `getShared` and `releaseShared`. The cleanup of an
environment, and a backend that reports an error of one watcher, call `unwatch` without
a reservation.
-/

namespace NativeWatcher

/-! ## States and steps -/

/-- Where a client stands. Backends are numbered in the order of their creation. -/
inductive ClientState (Name : Type) where
  | outside
  /-- In `getShared`, before the lookup. -/
  | looking (name : Name)
  /-- After a lookup in vain, before `getBackend`. -/
  | missed (name : Name)
  /-- With a backend of its own that runs, before the lock. -/
  | created (name : Name) (b : Nat)
  /-- Its own backend came too late and is not stopped yet. -/
  | losing (loser b : Nat)
  /-- Between `getShared` and `releaseShared`. -/
  | holding (b : Nat)
  /-- In an `unwatch` without a reservation. -/
  | visiting (b : Nat)
  /-- Before `unref`, at the end of `unwatch` or of a failed `watch`. -/
  | unrefing (b : Nat) (reserved : Bool)
  /-- In `releaseShared`, before `unref`. -/
  | releasing (b : Nat)

namespace ClientState

variable {Name : Type}

/-- The backend the client obtained from the registry and has not released. -/
def reservation : ClientState Name → Option Nat
  | .losing _ b | .holding b | .unrefing b true => some b
  | _ => none

/-- The backend only this client knows. -/
def own : ClientState Name → Option Nat
  | .created _ b | .losing b _ => some b
  | _ => none

/-- The backend from the registry that the client works with. -/
def current : ClientState Name → Option Nat
  | .losing _ b | .holding b | .visiting b | .unrefing b _ | .releasing b => some b
  | _ => none

theorem current_of_reservation {p : ClientState Name} {b : Nat}
    (h : p.reservation = some b) : p.current = some b := by
  cases p with
  | unrefing c reserved => cases reserved <;> simp_all [reservation, current]
  | _ => simp_all [reservation, current]

end ClientState

structure SharedBackends (Name W : Type) where
  sharedBackends : List (Name × Nat)
  backend : Nat → BackendState W
  mSharedReservations : Nat → Nat
  stopped : Nat → Bool
  /-- Some client obtained it from the registry. -/
  obtained : Nat → Bool
  /-- The number of backends created so far. -/
  created : Nat
  client : Nat → ClientState Name

inductive SharedBackendAction (Name W : Type) where
  | getShared (t : Nat) (name : Name)
  | lookup (t : Nat)
  /-- `getBackend` and `run`, which may fail. -/
  | create (t : Nat) (runs : Bool)
  /-- `emplace` under the lock, which may fail. -/
  | register (t : Nat) (emplaces : Bool)
  | stopLoser (t : Nat)
  | watch (t : Nat) (w : W) (isCancelled : Bool) (o : SubscribeOutcome)
  | watchFinish (t : Nat) (o : FinishOutcome)
  | unwatch (t : Nat) (w : W) (keep : Bool) (o : UnsubscribeOutcome)
  | unwatchFinish (t : Nat)
  /-- A thread without a reservation is about to call `unwatch`. -/
  | visit (t b : Nat)
  | unref (t : Nat)
  | releaseShared (t : Nat)
  | teardown (b : Nat) (w : W)
  /-- The thread of a backend fails. -/
  | handleError (b : Nat)

namespace SharedBackends

variable {Name W : Type}

def start : SharedBackends Name W :=
  ⟨[], fun _ => .start, fun _ => 0, fun _ => false, fun _ => false, 0, fun _ => .outside⟩

def setClient (s : SharedBackends Name W) (t : Nat) (p : ClientState Name) :
    SharedBackends Name W :=
  { s with client := Function.update s.client t p }

def setBackend (s : SharedBackends Name W) (b : Nat) (x : BackendState W) :
    SharedBackends Name W :=
  { s with backend := Function.update s.backend b x }

/-- `stop`. -/
def stop (s : SharedBackends Name W) (b : Nat) : SharedBackends Name W :=
  { s with stopped := Function.update s.stopped b true }

/-- `mSharedReservations.fetch_add(1)`, on the way out of the registry. -/
def reserve (s : SharedBackends Name W) (b : Nat) : SharedBackends Name W :=
  { s with
    mSharedReservations := Function.update s.mSharedReservations b (s.mSharedReservations b + 1)
    obtained := Function.update s.obtained b true }

/-- `removeSharedLocked`. -/
def removeSharedLocked (s : SharedBackends Name W) (b : Nat) : SharedBackends Name W :=
  { s with sharedBackends := s.sharedBackends.eraseP fun entry => entry.2 == b }

/-- The case of `unref` that stops the backend. -/
def Unused (s : SharedBackends Name W) (b : Nat) : Prop :=
  (s.backend b).mSubscriptions.card = 0 ∧ (s.backend b).mPendingSubscriptions.card = 0 ∧
    s.mSharedReservations b = 0

instance (s : SharedBackends Name W) (b : Nat) : Decidable (s.Unused b) :=
  inferInstanceAs (Decidable (_ ∧ _ ∧ _))

/-- `unref`. -/
def unref (s : SharedBackends Name W) (b : Nat) : SharedBackends Name W :=
  if s.Unused b then (s.stop b).removeSharedLocked b else s

/-- `mSharedReservations.fetch_sub(1)`. -/
def unreserve (s : SharedBackends Name W) (b : Nat) : SharedBackends Name W :=
  let before := s.mSharedReservations b
  { s with mSharedReservations := Function.update s.mSharedReservations b (before - 1) }

/-- `releaseShared` up to `unref`. -/
def releaseShared (s : SharedBackends Name W) (t b : Nat) : SharedBackends Name W :=
  (s.unreserve b).setClient t
    (if s.mSharedReservations b = 1 then .releasing b else .outside)

variable [DecidableEq Name] (supported : Name → Bool) (default : Name)

/-- `getShared` up to the first unlock. -/
def lookup (s : SharedBackends Name W) (t : Nat) (name : Name) : SharedBackends Name W :=
  match s.sharedBackends.lookup name with
  | some b => (s.reserve b).setClient t (.holding b)
  | none => s.setClient t (.missed name)

/-- `getBackend` and `run`; a name that is not known stands for the default. -/
def create (s : SharedBackends Name W) (t : Nat) (name : Name) (runs : Bool) :
    SharedBackends Name W :=
  if supported name then
    let s' := { s with created := s.created + 1 }
    s'.setClient t (if runs then .created name s.created else .outside)
  else s.setClient t (.looking default)

/-- `getShared` from the second lock on. -/
def register (s : SharedBackends Name W) (t : Nat) (name : Name) (result : Nat)
    (emplaces : Bool) : SharedBackends Name W :=
  if emplaces then
    match s.sharedBackends.lookup name with
    | some selected => (s.reserve selected).setClient t (.losing result selected)
    | none =>
        let s := { s with sharedBackends := s.sharedBackends ++ [(name, result)] }
        (s.reserve result).setClient t (.holding result)
  else (s.stop result).setClient t .outside

variable [DecidableEq W]

/-- `watch` up to the unlock, or to its end but for `unref`. -/
def watch (s : SharedBackends Name W) (t b : Nat) (w : W) (isCancelled : Bool)
    (o : SubscribeOutcome) : Option (SharedBackends Name W) :=
  ((s.backend b).step (.watch t w isCancelled o)).map fun x =>
    if w ∉ (s.backend b).mSubscriptions ∧ (s.backend b).watchThrows w isCancelled o = true then
      (s.setBackend b x).setClient t (.unrefing b true)
    else s.setBackend b x

/-- `watch` from `finishSubscribe` on. -/
def watchFinish (s : SharedBackends Name W) (t b : Nat) (o : FinishOutcome) :
    Option (SharedBackends Name W) :=
  match (s.backend b).thread t with
  | .watching w wasInvalid =>
      let s' := s.setBackend b ((s.backend b).watchFinish t w wasInvalid o)
      match o, wasInvalid with
      | .throws, false => some (s'.setClient t (.unrefing b true))
      | _, _ => some s'
  | _ => none

/-- `unwatch` after `finishUnsubscribe`, up to `unref`. -/
def unwatchFinish (s : SharedBackends Name W) (t b : Nat) (reserved : Bool) :
    Option (SharedBackends Name W) :=
  match (s.backend b).thread t with
  | .unwatching _ =>
      some ((s.setBackend b ((s.backend b).setThread t .idle)).setClient t
        (.unrefing b reserved))
  | _ => none

def step (s : SharedBackends Name W) :
    SharedBackendAction Name W → Option (SharedBackends Name W)
  | .getShared t name =>
      match s.client t with
      | .outside => some (s.setClient t (.looking name))
      | _ => none
  | .lookup t =>
      match s.client t with
      | .looking name => some (s.lookup t name)
      | _ => none
  | .create t runs =>
      match s.client t with
      | .missed name => some (s.create supported default t name runs)
      | _ => none
  | .register t emplaces =>
      match s.client t with
      | .created name result => some (s.register t name result emplaces)
      | _ => none
  | .stopLoser t =>
      match s.client t with
      | .losing result b => some ((s.stop result).setClient t (.holding b))
      | _ => none
  | .watch t w isCancelled o =>
      match s.client t with
      | .holding b => s.watch t b w isCancelled o
      | _ => none
  | .watchFinish t o =>
      match s.client t with
      | .holding b => s.watchFinish t b o
      | _ => none
  | .unwatch t w keep o =>
      match s.client t with
      | .holding b => ((s.backend b).step (.unwatch t w keep o)).map (s.setBackend b)
      | .visiting b =>
          ((s.backend b).step (.unwatch t w keep o)).map fun x =>
            match x.thread t with
            | .idle => (s.setBackend b x).setClient t .outside
            | _ => s.setBackend b x
      | _ => none
  | .unwatchFinish t =>
      match s.client t with
      | .holding b => s.unwatchFinish t b true
      | .visiting b => s.unwatchFinish t b false
      | _ => none
  | .visit t b =>
      match s.client t with
      | .outside => if s.obtained b then some (s.setClient t (.visiting b)) else none
      | _ => none
  | .unref t =>
      match s.client t with
      | .unrefing b reserved =>
          some ((s.unref b).setClient t (if reserved then .holding b else .outside))
      | .releasing b => some ((s.unref b).setClient t .outside)
      | _ => none
  | .releaseShared t =>
      match s.client t with
      | .holding b =>
          match (s.backend b).thread t with
          | .idle => some (s.releaseShared t b)
          | _ => none
      | _ => none
  | .teardown b w => ((s.backend b).step (.teardown w)).map (s.setBackend b)
  | .handleError b => some (s.removeSharedLocked b)

end SharedBackends

/-- The interleavings of any number of clients. -/
def sharedBackendMachine {Name : Type} (W : Type) [DecidableEq Name] [DecidableEq W]
    (supported : Name → Bool) (default : Name) :
    Machine (SharedBackends Name W) (SharedBackendAction Name W) :=
  .ofStep .start (SharedBackends.step supported default)

/-! ## What always holds -/

section Shared

variable {Name W : Type} {s s' : SharedBackends Name W} {t b : Nat}

/-- The clients with a reservation. -/
def SharedBackends.reserved (s : SharedBackends Name W) (t : Nat) : Option Nat :=
  (s.client t).reservation

/-- A backend is stopped only when it is out of use: it serves no watcher, nobody has
it, and nobody can get it. -/
structure OutOfUse (s : SharedBackends Name W) (b : Nat) : Prop where
  subs : (s.backend b).mSubscriptions = ∅
  pending : (s.backend b).mPendingSubscriptions = ∅
  reservations : s.mSharedReservations b = 0
  clients : ∀ t, s.reserved t ≠ some b
  registry : b ∉ s.sharedBackends.map Prod.snd

structure SharedInv (s : SharedBackends Name W) : Prop where
  counted : Reservations.Counted s.reserved s.mSharedReservations
  known : ∀ t b, (s.client t).current = some b → s.obtained b = true
  /-- Only a client with a reservation is in `watch`. -/
  windows : ∀ b t w i, (s.backend b).thread t = .watching w i → s.client t = .holding b
  registered : ∀ b ∈ s.sharedBackends.map Prod.snd, s.obtained b = true ∧ s.stopped b = false
  names : (s.sharedBackends.map Prod.snd).Nodup
  numbered : ∀ b, s.obtained b = true ∨ s.stopped b = true → b < s.created
  /-- A backend that is only created has served nobody. -/
  fresh : ∀ t b, (s.client t).own = some b →
    b < s.created ∧ s.obtained b = false ∧ s.stopped b = false
  owner : ∀ t t' b, (s.client t).own = some b → (s.client t').own = some b → t = t'
  unused : ∀ b, s.obtained b = false →
    (s.backend b).mSubscriptions = ∅ ∧ (s.backend b).mPendingSubscriptions = ∅
  stopped : ∀ b, s.stopped b = true → OutOfUse s b

theorem sharedInv_start : SharedInv (SharedBackends.start : SharedBackends Name W) where
  counted := Reservations.Counted.start
  known _ _ h := nomatch h
  windows _ _ _ _ h := nomatch h
  registered _ h := absurd h List.not_mem_nil
  names := List.nodup_nil
  numbered _ h := h.elim nofun nofun
  fresh _ _ h := nomatch h
  owner _ _ _ h := nomatch h
  unused _ _ := ⟨rfl, rfl⟩
  stopped _ h := nomatch h

/-! ## A client moves -/

@[simp]
theorem setClient_reserved (s : SharedBackends Name W) (t : Nat) (p : ClientState Name) :
    (s.setClient t p).reserved = Function.update s.reserved t p.reservation := by
  ext t' b
  by_cases htt : t' = t
  · subst htt
    simp [SharedBackends.reserved, SharedBackends.setClient]
  · simp [SharedBackends.reserved, SharedBackends.setClient, htt]

theorem client_of_ne (s : SharedBackends Name W) (p : ClientState Name) {t' : Nat}
    (htt : t' ≠ t) : (s.setClient t p).client t' = s.client t' :=
  Function.update_of_ne htt ..

/-- What is known of every client, after one of them moved. -/
theorem forall_client {P : Nat → ClientState Name → Prop} {p : ClientState Name}
    (h : ∀ t', P t' (s.client t')) (hp : P t p) (t' : Nat) :
    P t' ((s.setClient t p).client t') := by
  by_cases htt : t' = t
  · subst htt
    rw [show (s.setClient t' p).client t' = p from Function.update_self ..]
    exact hp
  · rw [client_of_ne s p htt]
    exact h t'

/-- A client keeps its reservation; a backend it owns then is new. -/
theorem SharedInv.move (h : SharedInv s) {p : ClientState Name}
    (hres : p.reservation = (s.client t).reservation)
    (hown : ∀ c, p.own = some c → c < s.created ∧ s.obtained c = false ∧ s.stopped c = false ∧
      ∀ t' ≠ t, (s.client t').own ≠ some c)
    (hknown : ∀ b, p.current = some b → s.obtained b = true)
    (hidle : ∀ b w i, (s.backend b).thread t ≠ .watching w i) :
    SharedInv (s.setClient t p) := by
  have hreserved : (s.setClient t p).reserved = s.reserved := by
    rw [setClient_reserved, hres]
    exact Function.update_eq_self t s.reserved
  have hself : (s.setClient t p).client t = p := Function.update_self ..
  refine ⟨hreserved ▸ h.counted, fun t' b => ?_, fun b t' w i ht' => ?_,
    h.registered, h.names, h.numbered, fun t' b => ?_, fun t₁ t₂ b h₁ h₂ => ?_, h.unused,
    fun b hb => ?_⟩
  · exact forall_client (P := fun _ q => q.current = some b → s.obtained b = true)
      (fun t' => h.known t' b) (hknown b) t'
  · have htt : t' ≠ t := by
      rintro rfl
      exact hidle b w i ht'
    exact (client_of_ne s p htt).trans (h.windows b t' w i ht')
  · refine forall_client
      (P := fun _ q => q.own = some b → b < s.created ∧ s.obtained b = false ∧ s.stopped b = false)
      (fun t' => h.fresh t' b) (fun hp => ?_) t'
    obtain ⟨hlt, hob, hst, -⟩ := hown b hp
    exact ⟨hlt, hob, hst⟩
  · by_cases ht₁ : t₁ = t <;> by_cases ht₂ : t₂ = t
    · rw [ht₁, ht₂]
    · rw [ht₁, hself] at h₁
      rw [client_of_ne s p ht₂] at h₂
      exact absurd h₂ ((hown b h₁).2.2.2 t₂ ht₂)
    · rw [ht₂, hself] at h₂
      rw [client_of_ne s p ht₁] at h₁
      exact absurd h₁ ((hown b h₂).2.2.2 t₁ ht₁)
    · rw [client_of_ne s p ht₁] at h₁
      rw [client_of_ne s p ht₂] at h₂
      exact h.owner t₁ t₂ b h₁ h₂
  · have hout := h.stopped b hb
    exact ⟨hout.subs, hout.pending, hout.reservations, fun t' => hreserved ▸ hout.clients t',
      hout.registry⟩

/-- A client that is not between `getShared` and `releaseShared` is in no window. -/
theorem SharedInv.not_watching (h : SharedInv s) (ht : ∀ b, s.client t ≠ .holding b) (b : Nat)
    (w : W) (i : Bool) : (s.backend b).thread t ≠ .watching w i :=
  fun hw => ht b (h.windows b t w i hw)

/-- A client without a reservation gets one. -/
theorem SharedInv.reserve (h : SharedInv s) {p : ClientState Name}
    (hnone : (s.client t).reservation = none) (hres : p.reservation = some b)
    (hown : ∀ c, p.own = some c → (s.client t).own = some c ∧ c ≠ b)
    (hothers : ∀ t' ≠ t, (s.client t').own ≠ some b)
    (hstopped : s.stopped b = false) (hnumber : b < s.created)
    (hidle : ∀ b w i, (s.backend b).thread t ≠ .watching w i) :
    SharedInv ((s.reserve b).setClient t p) := by
  have hreserved : ((s.reserve b).setClient t p).reserved =
      Function.update s.reserved t (some b) := by
    rw [setClient_reserved, hres]
    rfl
  have hgrow : ∀ c, s.obtained c = true → (s.reserve b).obtained c = true := by
    intro c hc
    by_cases hcb : c = b
    · exact hcb ▸ Function.update_self ..
    · exact (Function.update_of_ne hcb ..).trans hc
  have hold : ∀ c, (s.reserve b).obtained c = false → c ≠ b ∧ s.obtained c = false := by
    intro c hc
    have hcb : c ≠ b := by
      rintro rfl
      rw [show (s.reserve c).obtained c = true from Function.update_self ..] at hc
      cases hc
    exact ⟨hcb, (Function.update_of_ne hcb ..).symm.trans hc⟩
  have howner : ∀ t' c, (((s.reserve b).setClient t p).client t').own = some c →
      (s.client t').own = some c ∧ c ≠ b := by
    intro t' c
    by_cases htt : t' = t
    · subst htt
      rw [show ((s.reserve b).setClient t' p).client t' = p from Function.update_self ..]
      exact hown c
    · rw [client_of_ne (s.reserve b) p htt]
      refine fun hc => ⟨hc, ?_⟩
      rintro rfl
      exact hothers t' htt hc
  refine ⟨hreserved ▸ h.counted.acquire hnone b, fun t' c => ?_, fun c t' w i ht' => ?_,
    fun c hc => ⟨hgrow c (h.registered c hc).1, (h.registered c hc).2⟩, h.names, fun c hc => ?_,
    fun t' c hc => ?_, fun t₁ t₂ c h₁ h₂ => h.owner t₁ t₂ c (howner t₁ c h₁).1 (howner t₂ c h₂).1,
    fun c hc => h.unused c (hold c hc).2, fun c hc => ?_⟩
  · refine forall_client (s := s.reserve b)
      (P := fun _ q => q.current = some c → (s.reserve b).obtained c = true)
      (fun t' hc => hgrow c (h.known t' c hc)) (fun hc => ?_) t'
    rw [ClientState.current_of_reservation hres] at hc
    cases hc
    exact Function.update_self ..
  · have htt : t' ≠ t := by
      rintro rfl
      exact hidle c w i ht'
    exact (client_of_ne (s.reserve b) p htt).trans (h.windows c t' w i ht')
  · by_cases hcb : c = b
    · exact hcb ▸ hnumber
    · exact h.numbered c (hc.imp_left fun ho => (Function.update_of_ne hcb ..).symm.trans ho)
  · obtain ⟨hc, hcb⟩ := howner t' c hc
    obtain ⟨hlt, hobtained, hstop⟩ := h.fresh t' c hc
    exact ⟨hlt, (Function.update_of_ne hcb ..).trans hobtained, hstop⟩
  · -- The reservation is of a backend that runs, so that a stopped one gains nothing.
    have hcb : c ≠ b := by
      rintro rfl
      exact Bool.noConfusion (hstopped.symm.trans hc)
    have hout := h.stopped c hc
    refine ⟨hout.subs, hout.pending, (Function.update_of_ne hcb ..).trans hout.reservations,
      fun t' ht' => ?_, hout.registry⟩
    rw [hreserved] at ht'
    by_cases htt : t' = t
    · rw [htt, Function.update_self] at ht'
      exact hcb (Option.some.inj ht').symm
    · rw [Function.update_of_ne htt] at ht'
      exact hout.clients t' ht'

/-- A client gives its reservation back. -/
theorem SharedInv.release (h : SharedInv s) {p : ClientState Name}
    (ht : (s.client t).reservation = some b) (hres : p.reservation = none)
    (hown : p.own = none) (hknown : ∀ c, p.current = some c → s.obtained c = true)
    (hidle : ∀ b w i, (s.backend b).thread t ≠ .watching w i) :
    SharedInv ((s.unreserve b).setClient t p) := by
  have hreserved : (s.setClient t p).reserved = Function.update s.reserved t none := by
    rw [setClient_reserved, hres]
  have howner : ∀ t' c, ((s.setClient t p).client t').own = some c →
      (s.client t').own = some c := by
    intro t' c
    refine forall_client (P := fun t' q => q.own = some c → (s.client t').own = some c)
      (fun _ h => h) (fun hp => ?_) t'
    rw [hown] at hp
    cases hp
  have hcounted : Reservations.Counted (s.setClient t p).reserved
      (Function.update s.mSharedReservations b (s.mSharedReservations b - 1)) :=
    hreserved ▸ h.counted.release ht
  refine ⟨hcounted, fun t' c => ?_, fun c t' w i ht' => ?_,
    h.registered, h.names, h.numbered, fun t' c hc => h.fresh t' c (howner t' c hc),
    fun t₁ t₂ c h₁ h₂ => h.owner t₁ t₂ c (howner t₁ c h₁) (howner t₂ c h₂), h.unused,
    fun c hc => ?_⟩
  · exact forall_client (P := fun _ q => q.current = some c → s.obtained c = true)
      (fun t' => h.known t' c) (hknown c) t'
  · have htt : t' ≠ t := by
      rintro rfl
      exact hidle c w i ht'
    exact (client_of_ne s p htt).trans (h.windows c t' w i ht')
  · have hout := h.stopped c hc
    have hcb : c ≠ b := by
      rintro rfl
      exact hout.clients t ht
    refine ⟨hout.subs, hout.pending, (Function.update_of_ne hcb ..).trans hout.reservations,
      fun t' ht' => ?_, hout.registry⟩
    have ht'' : (s.setClient t p).reserved t' = some c := ht'
    rw [hreserved] at ht''
    by_cases htt : t' = t
    · rw [htt, Function.update_self] at ht''
      cases ht''
    · rw [Function.update_of_ne htt] at ht''
      exact hout.clients t' ht''

/-! ## The registry and the backends change -/

/-- A critical section of one backend. -/
theorem SharedInv.setBackend (h : SharedInv s) {x : BackendState W}
    (hwindows : ∀ t w i, x.thread t = .watching w i → s.client t = .holding b)
    (hempty : s.stopped b = true ∨ s.obtained b = false →
      x.mSubscriptions = ∅ ∧ x.mPendingSubscriptions = ∅) : SharedInv (s.setBackend b x) := by
  have hself : (s.setBackend b x).backend b = x := Function.update_self ..
  have hother : ∀ c ≠ b, (s.setBackend b x).backend c = s.backend c :=
    fun c hcb => Function.update_of_ne hcb ..
  refine ⟨h.counted, h.known, fun c t w i ht => ?_, h.registered, h.names, h.numbered, h.fresh,
    h.owner, fun c hc => ?_, fun c hc => ?_⟩
  · by_cases hcb : c = b
    · subst hcb
      rw [hself] at ht
      exact hwindows t w i ht
    · rw [hother c hcb] at ht
      exact h.windows c t w i ht
  · by_cases hcb : c = b
    · subst hcb
      rw [hself]
      exact hempty (Or.inr hc)
    · rw [hother c hcb]
      exact h.unused c hc
  · have hout := h.stopped c hc
    by_cases hcb : c = b
    · subst hcb
      obtain ⟨hsubs, hpending⟩ := hempty (Or.inl hc)
      exact ⟨hself.symm ▸ hsubs, hself.symm ▸ hpending, hout.reservations, hout.clients,
        hout.registry⟩
    · exact ⟨(hother c hcb).symm ▸ hout.subs, (hother c hcb).symm ▸ hout.pending,
        hout.reservations, hout.clients, hout.registry⟩

theorem mem_removeSharedLocked {c : Nat}
    (hc : c ∈ (s.removeSharedLocked b).sharedBackends.map Prod.snd) :
    c ∈ s.sharedBackends.map Prod.snd :=
  ((List.eraseP_sublist (l := s.sharedBackends)).map Prod.snd).subset hc

theorem SharedInv.remove (h : SharedInv s) (b : Nat) : SharedInv (s.removeSharedLocked b) := by
  have hnames := h.names.sublist
    ((List.eraseP_sublist (l := s.sharedBackends) (p := fun entry => entry.2 == b)).map Prod.snd)
  refine ⟨h.counted, h.known, h.windows, fun c hc => h.registered c (mem_removeSharedLocked hc),
    hnames, h.numbered, h.fresh, h.owner, h.unused, fun c hc => ?_⟩
  have hout := h.stopped c hc
  exact ⟨hout.subs, hout.pending, hout.reservations, hout.clients,
    fun hmem => hout.registry (mem_removeSharedLocked hmem)⟩

/-- Erasing the first entry of a backend leaves none. -/
theorem not_mem_removeSharedLocked (h : (s.sharedBackends.map Prod.snd).Nodup) :
    b ∉ (s.removeSharedLocked b).sharedBackends.map Prod.snd := by
  have hmap : (s.removeSharedLocked b).sharedBackends.map Prod.snd =
      (s.sharedBackends.map Prod.snd).erase b := by
    rw [List.erase_eq_eraseP', List.eraseP_map]
    rfl
  rw [hmap]
  exact h.not_mem_erase

theorem SharedInv.enroll (h : SharedInv s) (name : Name) (hobtained : s.obtained b = true)
    (hstopped : s.stopped b = false) (hnew : b ∉ s.sharedBackends.map Prod.snd) :
    SharedInv { s with sharedBackends := s.sharedBackends ++ [(name, b)] } := by
  have hmap : (s.sharedBackends ++ [(name, b)]).map Prod.snd =
      s.sharedBackends.map Prod.snd ++ [b] := List.map_append
  refine ⟨h.counted, h.known, h.windows, fun c hc => ?_, ?_, h.numbered, h.fresh, h.owner,
    h.unused, fun c hc => ?_⟩
  · rw [hmap, List.mem_append, List.mem_singleton] at hc
    rcases hc with hc | rfl
    · exact h.registered c hc
    · exact ⟨hobtained, hstopped⟩
  · rw [hmap]
    exact List.nodup_append'.mpr ⟨h.names, List.nodup_singleton b, by simpa using hnew⟩
  · have hout := h.stopped c hc
    refine ⟨hout.subs, hout.pending, hout.reservations, hout.clients, fun hmem => ?_⟩
    rw [hmap, List.mem_append, List.mem_singleton] at hmem
    rcases hmem with hmem | rfl
    · exact hout.registry hmem
    · exact Bool.noConfusion (hstopped.symm.trans hc)

theorem SharedInv.stop (h : SharedInv s) (hout : OutOfUse s b) (hnumber : b < s.created)
    (hown : ∀ t, (s.client t).own ≠ some b) : SharedInv (s.stop b) := by
  refine ⟨h.counted, h.known, h.windows, fun c hc => ?_, h.names, fun c hc => ?_,
    fun t c hc => ?_, h.owner, h.unused, fun c hc => ?_⟩
  · have hcb : c ≠ b := by
      rintro rfl
      exact hout.registry hc
    exact ⟨(h.registered c hc).1, (Function.update_of_ne hcb ..).trans (h.registered c hc).2⟩
  · by_cases hcb : c = b
    · exact hcb ▸ hnumber
    · exact h.numbered c (hc.imp_right fun hs => (Function.update_of_ne hcb ..).symm.trans hs)
  · obtain ⟨hlt, hobtained, hstop⟩ := h.fresh t c hc
    have hcb : c ≠ b := by
      rintro rfl
      exact hown t hc
    exact ⟨hlt, hobtained, (Function.update_of_ne hcb ..).trans hstop⟩
  · by_cases hcb : c = b
    · subst hcb
      exact ⟨hout.subs, hout.pending, hout.reservations, hout.clients, hout.registry⟩
    · have hout' := h.stopped c ((Function.update_of_ne hcb ..).symm.trans hc)
      exact ⟨hout'.subs, hout'.pending, hout'.reservations, hout'.clients, hout'.registry⟩

/-! ## Each critical section -/

/-- A backend a client has a reservation on. -/
theorem SharedInv.of_holding (h : SharedInv s) (ht : s.client t = .holding b) :
    s.obtained b = true ∧ s.stopped b = false := by
  refine ⟨h.known t b (by rw [ht]; rfl), Bool.eq_false_iff.mpr fun hb => ?_⟩
  refine (h.stopped b hb).clients t ?_
  rw [SharedBackends.reserved, ht]
  rfl

/-- A thread that has left its window of `b` is in none. -/
theorem SharedInv.not_in_window (h : SharedInv s) (ht : ∀ c ≠ b, s.client t ≠ .holding c)
    {x : BackendState W} (hx : ∀ w i, x.thread t ≠ .watching w i) (c : Nat) (w : W) (i : Bool) :
    ((s.setBackend b x).backend c).thread t ≠ .watching w i := by
  by_cases hcb : c = b
  · subst hcb
    rw [show (s.setBackend c x).backend c = x from Function.update_self ..]
    exact hx w i
  · rw [show (s.setBackend b x).backend c = s.backend c from Function.update_of_ne hcb ..]
    exact fun hc => ht c hcb (h.windows c t w i hc)

theorem holding_ne (ht : s.client t = .holding b) : ∀ c ≠ b, s.client t ≠ .holding c := by
  rintro c hcb hc
  rw [ht] at hc
  exact hcb (ClientState.holding.inj hc).symm

/-- A client that holds the backend is about to call `unref`. -/
theorem SharedInv.to_unrefing {x : BackendState W} (h : SharedInv s)
    (hb : SharedInv (s.setBackend b x)) (ht : s.client t = .holding b)
    (hx : ∀ w i, x.thread t ≠ .watching w i) :
    SharedInv ((s.setBackend b x).setClient t (.unrefing b true)) := by
  refine hb.move ?_ nofun ?_ (h.not_in_window (holding_ne ht) hx)
  · show some b = (s.client t).reservation
    rw [ht]
    rfl
  · rintro c hc
    cases hc
    exact (h.of_holding ht).1

section

variable [DecidableEq W] {w : W}

theorem SharedInv.watch {isCancelled : Bool} {o : SubscribeOutcome}
    (h : SharedInv s) (ht : s.client t = .holding b)
    (hs : s.watch t b w isCancelled o = some s') : SharedInv s' := by
  obtain ⟨x, hx, rfl⟩ := Option.map_eq_some_iff.mp hs
  obtain ⟨hobtained, hstopped⟩ := h.of_holding ht
  simp only [BackendState.step] at hx
  split at hx
  next hidle =>
      split at hx
      · cases hx
      next hpending =>
          obtain rfl := Option.some.inj hx
          obtain ⟨-, hthread⟩ := watchBegin_cases (s.backend b) t w isCancelled o
          have hb : SharedInv (s.setBackend b ((s.backend b).watchBegin t w isCancelled o)) := by
            refine h.setBackend (fun t' v i ht' => ?_) fun hor => ?_
            · by_cases htt : t' = t
              · exact htt ▸ ht
              · refine h.windows b t' v i ?_
                rcases hthread with ⟨hthread, -⟩ | ⟨j, hthread, -⟩
                · exact hthread ▸ ht'
                · rw [hthread, Function.update_of_ne htt] at ht'
                  exact ht'
            · rw [hstopped, hobtained] at hor
              rcases hor with hor | hor
              · cases hor
              · cases hor
          split
          next hthrows =>
              refine h.to_unrefing hb ht fun v i => ?_
              rw [watchBegin_throws_thread hthrows.2, hidle]
              intro hwatching
              cases hwatching
          next => exact hb
  next => cases hx

theorem SharedInv.watchFinish {o : FinishOutcome} (h : SharedInv s)
    (ht : s.client t = .holding b) (hs : s.watchFinish t b o = some s') : SharedInv s' := by
  unfold SharedBackends.watchFinish at hs
  obtain ⟨hobtained, hstopped⟩ := h.of_holding ht
  split at hs
  next w i hwatching =>
      have hthread := watchFinish_thread (s.backend b) t w i o
      have hb : SharedInv (s.setBackend b ((s.backend b).watchFinish t w i o)) := by
        refine h.setBackend (fun t' v j ht' => ?_) fun hor => ?_
        · rw [hthread] at ht'
          exact h.windows b t' v j (watching_of_update nofun ht').2
        · rw [hstopped, hobtained] at hor
          exact hor.elim nofun nofun
      split at hs
      · obtain rfl := Option.some.inj hs
        refine h.to_unrefing hb ht fun v j => ?_
        rw [hthread, Function.update_self]
        exact nofun
      · obtain rfl := Option.some.inj hs
        exact hb
  next => cases hs

/-- `unwatch` subscribes nothing and enters no window of `watch`. -/
theorem SharedInv.unwatch {x : BackendState W} {keep : Bool} {o : UnsubscribeOutcome}
    (h : SharedInv s) (hx : (s.backend b).step (.unwatch t w keep o) = some x) :
    SharedInv (s.setBackend b x) ∧ ∀ v i, x.thread t ≠ .watching v i := by
  simp only [BackendState.step] at hx
  split at hx
  next hidle =>
      split at hx
      · cases hx
      next hpending =>
          obtain rfl := Option.some.inj hx
          have hthread : ∀ t' v i, ((s.backend b).unwatchBegin t w keep o).thread t' =
              .watching v i → t' ≠ t ∧ (s.backend b).thread t' = .watching v i := by
            intro t' v i ht'
            rcases unwatchBegin_thread (s.backend b) t w keep o with heq | heq
            · rw [heq] at ht'
              refine ⟨?_, ht'⟩
              rintro rfl
              rw [hidle] at ht'
              cases ht'
            · rw [heq] at ht'
              apply watching_of_update _ ht'
              intro v i hwatching
              cases hwatching
          refine ⟨h.setBackend (fun t' v i ht' => h.windows b t' v i (hthread t' v i ht').2)
            fun hor => ?_, fun v i ht' => (hthread t v i ht').1 rfl⟩
          have hempty : (s.backend b).mSubscriptions = ∅ ∧
              (s.backend b).mPendingSubscriptions = ∅ := by
            rcases hor with hor | hor
            · exact ⟨(h.stopped b hor).subs, (h.stopped b hor).pending⟩
            · exact h.unused b hor
          refine ⟨Finset.eq_empty_of_forall_notMem fun v hv => ?_, ?_⟩
          · have hv := unwatchBegin_subs hv
            rw [hempty.1] at hv
            exact Finset.notMem_empty v hv
          · rw [unwatchBegin_pending]
            exact hempty.2
  next => cases hx

end

/-- A thread leaves the window of `unwatch`. -/
theorem SharedInv.park (h : SharedInv s) (t : Nat) :
    SharedInv (s.setBackend b ((s.backend b).setThread t .idle)) := by
  refine h.setBackend (fun t' v i ht' => ?_) fun hor => ?_
  · exact h.windows b t' v i (watching_of_update nofun ht').2
  · rcases hor with hor | hor
    · exact ⟨(h.stopped b hor).subs, (h.stopped b hor).pending⟩
    · exact h.unused b hor

theorem SharedInv.unwatchFinish {reserved : Bool} (h : SharedInv s)
    (ht : s.client t = .holding b ∧ reserved = true ∨ s.client t = .visiting b ∧ reserved = false)
    (hs : s.unwatchFinish t b reserved = some s') : SharedInv s' := by
  have hout : ∀ v i, ((s.backend b).setThread t .idle).thread t ≠ .watching v i := by
    intro v i
    rw [show ((s.backend b).setThread t .idle).thread t = .idle from Function.update_self ..]
    exact nofun
  unfold SharedBackends.unwatchFinish at hs
  split at hs
  · obtain rfl := Option.some.inj hs
    rcases ht with ⟨ht, rfl⟩ | ⟨ht, rfl⟩
    · exact h.to_unrefing (h.park t) ht hout
    · refine (h.park t).move (by rw [show (s.setBackend b _).client t = _ from ht]; rfl) nofun
        (fun c hc => ?_) (h.not_in_window (by simp [ht]) hout)
      cases hc
      exact h.known t b (by rw [ht]; rfl)
  · cases hs

section

variable [DecidableEq W]

theorem SharedInv.teardown {x : BackendState W} {w : W} (h : SharedInv s)
    (hx : (s.backend b).step (.teardown w) = some x) : SharedInv (s.setBackend b x) := by
  obtain rfl := Option.some.inj hx
  obtain ⟨hsubs, hpending, hthread⟩ := invalidate_frame ((s.backend b).setLive w false) w
  refine h.setBackend (fun t v i ht => h.windows b t v i (hthread ▸ ht)) fun hor => ?_
  rw [hsubs, hpending]
  rcases hor with hor | hor
  · exact ⟨(h.stopped b hor).subs, (h.stopped b hor).pending⟩
  · exact h.unused b hor

end

/-- **What `unref` stops is out of use.** -/
theorem SharedInv.unref (h : SharedInv s) (hb : s.obtained b = true) : SharedInv (s.unref b) := by
  unfold SharedBackends.unref
  split
  next hunused =>
      obtain ⟨hsubs, hpending, hzero⟩ := hunused
      refine (h.remove b).stop ?_ (h.numbered b (Or.inl hb)) fun t ht => ?_
      · exact ⟨Finset.card_eq_zero.mp hsubs, Finset.card_eq_zero.mp hpending, hzero,
          h.counted.not_held hzero, not_mem_removeSharedLocked h.names⟩
      · exact Bool.noConfusion (hb.symm.trans (h.fresh t b ht).2.1)
  next => exact h

/-- What nobody obtained serves nobody. -/
theorem SharedInv.outOfUse (h : SharedInv s) (hb : s.obtained b = false) : OutOfUse s b := by
  have hclients : ∀ t, s.reserved t ≠ some b := fun t ht =>
    Bool.noConfusion (hb.symm.trans (h.known t b (ClientState.current_of_reservation ht)))
  exact ⟨(h.unused b hb).1, (h.unused b hb).2, h.counted.eq_zero hclients, hclients,
    fun hmem => Bool.noConfusion (hb.symm.trans (h.registered b hmem).1)⟩

/-- A client gives up a backend that nobody else has: it is stopped. -/
theorem SharedInv.stopOwn {p : ClientState Name} {result : Nat} (h : SharedInv s)
    (hown : (s.client t).own = some result) (hres : p.reservation = (s.client t).reservation)
    (hnone : p.own = none) (hknown : ∀ c, p.current = some c → s.obtained c = true)
    (ht : ∀ c, s.client t ≠ .holding c) : SharedInv ((s.setClient t p).stop result) := by
  obtain ⟨hnumber, hobtained, -⟩ := h.fresh t result hown
  have hm : SharedInv (s.setClient t p) := by
    refine h.move hres (fun c hc => ?_) hknown (h.not_watching ht)
    rw [hnone] at hc
    cases hc
  refine hm.stop (hm.outOfUse hobtained) hnumber fun t' => ?_
  by_cases htt : t' = t
  · rw [htt, show (s.setClient t p).client t = p from Function.update_self .., hnone]
    exact nofun
  · rw [client_of_ne s p htt]
    exact fun ht' => htt (h.owner t' t result ht' hown)

theorem not_watching_of_idle (h : SharedInv s) (ht : s.client t = .holding b)
    (hidle : (s.backend b).thread t = .idle) (c : Nat) (w : W) (i : Bool) :
    (s.backend c).thread t ≠ .watching w i := by
  intro hc
  have hcb := h.windows c t w i hc
  rw [ht] at hcb
  cases hcb
  rw [hidle] at hc
  cases hc

theorem SharedInv.releaseShared (h : SharedInv s) (ht : s.client t = .holding b)
    (hidle : (s.backend b).thread t = .idle) : SharedInv (s.releaseShared t b) := by
  have hres : (s.client t).reservation = some b := by rw [ht]; rfl
  unfold SharedBackends.releaseShared
  split
  · refine h.release hres rfl rfl (fun c hc => ?_) (not_watching_of_idle h ht hidle)
    cases hc
    exact (h.of_holding ht).1
  · exact h.release hres rfl rfl nofun (not_watching_of_idle h ht hidle)

theorem SharedInv.create {supported : Name → Bool} {default name : Name} {runs : Bool}
    (h : SharedInv s) (ht : s.client t = .missed name) :
    SharedInv (s.create supported default t name runs) := by
  have hidle := h.not_watching (t := t) (by simp [ht])
  have hnone : (s.client t).reservation = none := by rw [ht]; rfl
  unfold SharedBackends.create
  split
  · -- The number is new, and the counter goes past it.
    have hgrow : SharedInv { s with created := s.created + 1 } :=
      ⟨h.counted, h.known, h.windows, h.registered, h.names,
        fun c hc => Nat.lt_succ_of_lt (h.numbered c hc),
        fun t' c hc => ⟨Nat.lt_succ_of_lt (h.fresh t' c hc).1, (h.fresh t' c hc).2⟩,
        h.owner, h.unused, fun c hc =>
          let hout := h.stopped c hc
          ⟨hout.subs, hout.pending, hout.reservations, hout.clients, hout.registry⟩⟩
    cases runs with
    | false => exact hgrow.move hnone.symm nofun nofun hidle
    | true =>
        refine hgrow.move hnone.symm (fun c hc => ?_) nofun hidle
        cases hc
        refine ⟨Nat.lt_succ_self _, Bool.eq_false_iff.mpr fun hc => ?_,
          Bool.eq_false_iff.mpr fun hc => ?_, fun t' _ ht' => ?_⟩
        · exact Nat.lt_irrefl _ (h.numbered _ (Or.inl hc))
        · exact Nat.lt_irrefl _ (h.numbered _ (Or.inr hc))
        · exact Nat.lt_irrefl _ (h.fresh t' _ ht').1
  · exact h.move hnone.symm nofun nofun hidle

theorem unref_frame (s : SharedBackends Name W) (b : Nat) :
    (s.unref b).client = s.client ∧ (s.unref b).obtained = s.obtained := by
  unfold SharedBackends.unref
  split <;> exact ⟨rfl, rfl⟩

/-- `unref` and what the client does afterwards. -/
theorem SharedInv.unref_move {p : ClientState Name} (h : SharedInv s)
    (hb : s.obtained b = true) (hres : p.reservation = (s.client t).reservation)
    (hown : p.own = none) (hknown : ∀ c, p.current = some c → c = b)
    (ht : ∀ c, s.client t ≠ .holding c) : SharedInv ((s.unref b).setClient t p) := by
  obtain ⟨hclient, hobtained⟩ := unref_frame s b
  have hu := h.unref hb
  refine hu.move (by rw [hclient, hres]) (fun c hc => ?_) (fun c hc => ?_)
    (hu.not_watching (by rw [hclient]; exact ht))
  · rw [hown] at hc
    cases hc
  · rw [hobtained, hknown c hc]
    exact hb

theorem stop_stopped (s : SharedBackends Name W) (c : Nat) (h : s.stopped b = true) :
    (s.stop c).stopped b = true := by
  by_cases hbc : b = c
  · exact hbc ▸ Function.update_self ..
  · exact (Function.update_of_ne hbc ..).trans h

section

variable [DecidableEq Name]

theorem mem_of_lookup {l : List (Name × Nat)} {name : Name} (h : l.lookup name = some b) :
    b ∈ l.map Prod.snd := by
  obtain ⟨l₁, l₂, rfl, -⟩ := List.lookup_eq_some_iff.mp h
  simp

theorem SharedInv.lookup {name : Name} (h : SharedInv s) (ht : s.client t = .looking name) :
    SharedInv (s.lookup t name) := by
  have hidle := h.not_watching (t := t) (by simp [ht])
  unfold SharedBackends.lookup
  split
  next b hb =>
      obtain ⟨hobtained, hstopped⟩ := h.registered b (mem_of_lookup hb)
      refine h.reserve (by rw [ht]; rfl) rfl nofun (fun t' _ hown => ?_) hstopped
        (h.numbered b (Or.inl hobtained)) hidle
      exact Bool.noConfusion (hobtained.symm.trans (h.fresh t' b hown).2.1)
  next => exact h.move (by rw [ht]; rfl) nofun nofun hidle

theorem SharedInv.register {name : Name} {result : Nat} {emplaces : Bool} (h : SharedInv s)
    (ht : s.client t = .created name result) : SharedInv (s.register t name result emplaces) := by
  have hidle := h.not_watching (t := t) (by simp [ht])
  have hown : (s.client t).own = some result := by rw [ht]; rfl
  have hnone : (s.client t).reservation = none := by rw [ht]; rfl
  obtain ⟨hnumber, hobtained, hstopped⟩ := h.fresh t result hown
  have hothers : ∀ t' ≠ t, (s.client t').own ≠ some result :=
    fun t' htt ht' => htt (h.owner t' t result ht' hown)
  unfold SharedBackends.register
  split
  · split
    next selected hlookup =>
        obtain ⟨hob, hst⟩ := h.registered selected (mem_of_lookup hlookup)
        refine h.reserve hnone rfl (fun c hc => ?_) (fun t' _ ht' => ?_) hst
          (h.numbered selected (Or.inl hob)) hidle
        · cases hc
          refine ⟨hown, ?_⟩
          rintro rfl
          exact Bool.noConfusion (hobtained.symm.trans hob)
        · exact Bool.noConfusion (hob.symm.trans (h.fresh t' selected ht').2.1)
    next =>
        have hr : SharedInv ((s.reserve result).setClient t (.holding result)) :=
          h.reserve hnone rfl nofun hothers hstopped hnumber hidle
        refine hr.enroll name (Function.update_self ..) hstopped fun hmem => ?_
        exact Bool.noConfusion (hobtained.symm.trans (h.registered result hmem).1)
  · exact h.stopOwn hown hnone.symm rfl nofun (by simp [ht])

variable [DecidableEq W] {supported : Name → Bool} {default : Name}

theorem sharedInv_step {a : SharedBackendAction Name W} (h : SharedInv s)
    (hs : s.step supported default a = some s') : SharedInv s' := by
  cases a with
  | getShared t name =>
      simp only [SharedBackends.step] at hs
      split at hs
      next ht =>
          obtain rfl := Option.some.inj hs
          exact h.move (by rw [ht]; rfl) nofun nofun (h.not_watching (by simp [ht]))
      next => cases hs
  | lookup t =>
      simp only [SharedBackends.step] at hs
      split at hs
      next name ht =>
          obtain rfl := Option.some.inj hs
          exact h.lookup ht
      next => cases hs
  | create t runs =>
      simp only [SharedBackends.step] at hs
      split at hs
      next name ht =>
          obtain rfl := Option.some.inj hs
          exact h.create ht
      next => cases hs
  | register t emplaces =>
      simp only [SharedBackends.step] at hs
      split at hs
      next name result ht =>
          obtain rfl := Option.some.inj hs
          exact h.register ht
      next => cases hs
  | stopLoser t =>
      simp only [SharedBackends.step] at hs
      split at hs
      next result b ht =>
          obtain rfl := Option.some.inj hs
          refine h.stopOwn (by rw [ht]; rfl) (by rw [ht]; rfl) rfl (fun c hc => ?_) (by simp [ht])
          refine h.known t c ?_
          rw [ht]
          exact hc
      next => cases hs
  | watch t w isCancelled o =>
      simp only [SharedBackends.step] at hs
      split at hs
      next b ht => exact h.watch ht hs
      next => cases hs
  | watchFinish t o =>
      simp only [SharedBackends.step] at hs
      split at hs
      next b ht => exact h.watchFinish ht hs
      next => cases hs
  | unwatch t w keep o =>
      simp only [SharedBackends.step] at hs
      split at hs
      next b ht =>
          obtain ⟨x, hx, rfl⟩ := Option.map_eq_some_iff.mp hs
          exact (h.unwatch hx).1
      next b ht =>
          obtain ⟨x, hx, rfl⟩ := Option.map_eq_some_iff.mp hs
          obtain ⟨hb, hout⟩ := h.unwatch hx
          -- The visit ends here, unless `unwatchFinish` is still to come.
          split
          · refine hb.move (by rw [show (s.setBackend b x).client t = _ from ht]; rfl) nofun nofun ?_
            exact h.not_in_window (by simp [ht]) hout
          · exact hb
      next => cases hs
  | unwatchFinish t =>
      simp only [SharedBackends.step] at hs
      split at hs
      next b ht => exact h.unwatchFinish (Or.inl ⟨ht, rfl⟩) hs
      next b ht => exact h.unwatchFinish (Or.inr ⟨ht, rfl⟩) hs
      next => cases hs
  | visit t b =>
      simp only [SharedBackends.step] at hs
      split at hs
      next ht =>
          split at hs
          next hb =>
              obtain rfl := Option.some.inj hs
              refine h.move (by rw [ht]; rfl) nofun (fun c hc => ?_)
                (h.not_watching (by simp [ht]))
              cases hc
              exact hb
          next => cases hs
      next => cases hs
  | unref t =>
      simp only [SharedBackends.step] at hs
      split at hs
      next b reserved ht =>
          obtain rfl := Option.some.inj hs
          have hb : s.obtained b = true := h.known t b (by rw [ht]; rfl)
          cases reserved with
          | true => exact h.unref_move hb (by rw [ht]; rfl) rfl (by rintro c ⟨⟩; rfl) (by simp [ht])
          | false => exact h.unref_move hb (by rw [ht]; rfl) rfl nofun (by simp [ht])
      next b ht =>
          obtain rfl := Option.some.inj hs
          have hb : s.obtained b = true := h.known t b (by rw [ht]; rfl)
          exact h.unref_move hb (by rw [ht]; rfl) rfl nofun (by simp [ht])
      next => cases hs
  | releaseShared t =>
      simp only [SharedBackends.step] at hs
      split at hs
      next b ht =>
          split at hs
          next hidle =>
              obtain rfl := Option.some.inj hs
              exact h.releaseShared ht hidle
          next => cases hs
      next => cases hs
  | teardown b w =>
      simp only [SharedBackends.step] at hs
      obtain ⟨x, hx, rfl⟩ := Option.map_eq_some_iff.mp hs
      exact h.teardown hx
  | handleError b =>
      obtain rfl := Option.some.inj hs
      exact h.remove b

/-- A stopped backend stays stopped. -/
theorem step_stopped {a : SharedBackendAction Name W}
    (hs : s.step supported default a = some s') (h : s.stopped b = true) :
    s'.stopped b = true := by
  have hunref : ∀ c, (s.unref c).stopped b = true := by
    intro c
    unfold SharedBackends.unref
    split
    · exact stop_stopped s c h
    · exact h
  cases a with
  | lookup t =>
      simp only [SharedBackends.step, SharedBackends.lookup] at hs
      split at hs
      · split at hs <;> exact Option.some.inj hs ▸ h
      · cases hs
  | create t runs =>
      simp only [SharedBackends.step, SharedBackends.create] at hs
      split at hs
      · split at hs <;> exact Option.some.inj hs ▸ h
      · cases hs
  | register t emplaces =>
      simp only [SharedBackends.step, SharedBackends.register] at hs
      split at hs
      · split at hs
        · split at hs <;> exact Option.some.inj hs ▸ h
        · exact Option.some.inj hs ▸ stop_stopped s _ h
      · cases hs
  | stopLoser t =>
      simp only [SharedBackends.step] at hs
      split at hs
      · exact Option.some.inj hs ▸ stop_stopped s _ h
      · cases hs
  | watch t w isCancelled o =>
      simp only [SharedBackends.step, SharedBackends.watch] at hs
      split at hs
      · obtain ⟨x, -, rfl⟩ := Option.map_eq_some_iff.mp hs
        split <;> exact h
      · cases hs
  | watchFinish t o =>
      simp only [SharedBackends.step, SharedBackends.watchFinish] at hs
      split at hs
      · split at hs
        · split at hs <;> exact Option.some.inj hs ▸ h
        · cases hs
      · cases hs
  | unwatch t w keep o =>
      simp only [SharedBackends.step] at hs
      split at hs
      · obtain ⟨x, -, rfl⟩ := Option.map_eq_some_iff.mp hs
        exact h
      · obtain ⟨x, -, rfl⟩ := Option.map_eq_some_iff.mp hs
        split <;> exact h
      · cases hs
  | unwatchFinish t =>
      simp only [SharedBackends.step, SharedBackends.unwatchFinish] at hs
      split at hs
      · split at hs
        · exact Option.some.inj hs ▸ h
        · cases hs
      · split at hs
        · exact Option.some.inj hs ▸ h
        · cases hs
      · cases hs
  | unref t =>
      simp only [SharedBackends.step] at hs
      split at hs
      · exact Option.some.inj hs ▸ hunref _
      · exact Option.some.inj hs ▸ hunref _
      · cases hs
  | releaseShared t =>
      simp only [SharedBackends.step, SharedBackends.releaseShared] at hs
      split at hs
      · split at hs
        · exact Option.some.inj hs ▸ h
        · cases hs
      · cases hs
  | getShared t name =>
      simp only [SharedBackends.step] at hs
      split at hs
      · exact Option.some.inj hs ▸ h
      · cases hs
  | visit t c =>
      simp only [SharedBackends.step] at hs
      split at hs
      · split at hs
        · exact Option.some.inj hs ▸ h
        · cases hs
      · cases hs
  | teardown c w =>
      simp only [SharedBackends.step] at hs
      obtain ⟨x, -, rfl⟩ := Option.map_eq_some_iff.mp hs
      exact h
  | handleError c => exact Option.some.inj hs ▸ h

/-- **A shared backend is never stopped under a client**: from the step that stops it
on, it serves no watcher, its counter is zero, no client has it, and none gets it. -/
theorem stopped_out_of_use
    (h : (sharedBackendMachine W supported default).Reachable s) (hb : s.stopped b = true)
    {l : List (SharedBackendAction Name W)}
    (hl : Machine.execute (SharedBackends.step supported default) s l = some s') :
    OutOfUse s' b := by
  have hinv : SharedInv s' := by
    refine (h.execute hl).invariant ?_ ?_
    · rintro _ rfl
      exact sharedInv_start
    · rintro s a s' hi hs
      exact sharedInv_step hi hs
  exact hinv.stopped b (Machine.execute_invariant (P := fun s => s.stopped b = true)
    (fun _ _ _ hs h => step_stopped hs h) hl hb)

end

/-- The last client leaves, `unref` stops the backend, and the next client creates
another one. -/
theorem stopped_out_of_use_replaced :
    ∃ s : SharedBackends Nat Nat, OutOfUse s 0 ∧ s.client 1 = .holding 1 := by
  have h₀ : (sharedBackendMachine Nat (fun _ => true) 0).Reachable .start := .init rfl
  have h₁ := h₀.extend (SharedBackendAction.getShared 0 0) trivial rfl
  have h₂ := h₁.extend (SharedBackendAction.lookup 0) trivial rfl
  have h₃ := h₂.extend (SharedBackendAction.create 0 true) trivial rfl
  have h₄ := h₃.extend (SharedBackendAction.register 0 true) trivial rfl
  have h₅ := h₄.extend (SharedBackendAction.watch 0 0 false .throws) trivial rfl
  have h₆ := h₅.extend (SharedBackendAction.unref 0) trivial rfl
  have h₇ := h₆.extend (SharedBackendAction.releaseShared 0) trivial rfl
  have h₈ := h₇.extend (SharedBackendAction.unref 0) trivial rfl
  exact ⟨_, stopped_out_of_use h₈ rfl
    (l := [.getShared 1 0, .lookup 1, .create 1 true, .register 1 true]) rfl, rfl⟩

end Shared

end NativeWatcher
