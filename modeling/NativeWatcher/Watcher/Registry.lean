import NativeWatcher.Lib.Machine
import NativeWatcher.Lib.Reservations
import NativeWatcher.Path
import Mathlib.Data.Finset.Basic

/-!
# The shared watchers

The registry of watchers under its mutex, the callbacks of each watcher under the mutex
of that watcher, and the atomic `mSharedReservations`. `unwatch`, `releaseShared`,
`finishErrorCallback` and `cleanupEnvironment` call `unref` after they have dropped
their lock; `unref` reads the callbacks and the counter again and removes the watcher
while it holds the registry, but no longer the watcher.
-/

namespace NativeWatcher

/-! ## States and steps -/

/-- What `operator==` of watchers compares; a glob stands for its text. -/
@[ext]
structure WatcherKey where
  mDir : Str
  mIgnorePaths : Finset Str
  mIgnoreGlobs : Finset Str
deriving DecidableEq

/-- `Fn` are the JavaScript functions, `Env` the environments. -/
structure WatcherCallback (Fn Env : Type) where
  id : Nat
  ref : Fn
  env : Env
  threadId : Nat

/-- Where a client stands. Watchers are numbered in the order of their creation. -/
inductive WatcherClient (Env : Type) where
  | outside
  /-- Between `getShared` and `releaseShared`. -/
  | holding (w : Nat)
  /-- In the first loop of `cleanupEnvironment`, with the watchers to visit and those to
  unwatch. -/
  | cleaning (env : Env) (watchers toUnwatch : List Nat)
  /-- Before `unref`, with the watchers whose `unref` comes after it and the reservation
  it keeps. -/
  | unrefing (w : Nat) (rest : List Nat) (reserved : Option Nat)
  /-- In `unref`, with the registry locked, before `removeSharedLocked`. -/
  | removing (w : Nat) (rest : List Nat) (reserved : Option Nat)

namespace WatcherClient

variable {Env : Type}

/-- The watcher the client holds a reservation on. -/
def reservation : WatcherClient Env → Option Nat
  | .holding w => some w
  | .unrefing _ _ reserved | .removing _ _ reserved => reserved
  | _ => none

/-- After an `unref`, or where there is none. -/
def resume : List Nat → Option Nat → WatcherClient Env
  | w :: rest, reserved => .unrefing w rest reserved
  | [], some w => .holding w
  | [], none => .outside

@[simp]
theorem reservation_resume (rest : List Nat) (reserved : Option Nat) :
    (resume rest reserved : WatcherClient Env).reservation = reserved := by
  cases rest with
  | cons w rest => rfl
  | nil => cases reserved <;> rfl

theorem resume_ne_removing (rest : List Nat) (reserved : Option Nat) (w : Nat)
    (rest' : List Nat) (reserved' : Option Nat) :
    (resume rest reserved : WatcherClient Env) ≠ .removing w rest' reserved' := by
  cases rest with
  | cons w rest => exact nofun
  | nil => cases reserved <;> exact nofun

end WatcherClient

structure SharedWatchers (Fn Env : Type) where
  sharedWatchers : List Nat
  /-- The client that holds the mutex of the registry over more than one step. -/
  registryMutex : Option Nat
  key : Nat → WatcherKey
  mCallbacks : Nat → List (WatcherCallback Fn Env)
  mNextCallbackId : Nat → Nat
  mCancelled : Nat → Bool
  mSharedReservations : Nat → Nat
  created : Nat
  client : Nat → WatcherClient Env

inductive SharedWatcherAction (Fn Env : Type) where
  /-- `mDebounce->add` may throw. -/
  | getShared (t : Nat) (key : WatcherKey) (adds : Bool)
  /-- `napi_create_threadsafe_function` may fail. -/
  | watch (t : Nat) (thread : Nat) (env : Env) (callback : Fn) (creates : Bool)
  | unwatch (t : Nat) (w : Nat) (thread : Nat) (callback : Fn)
  | releaseShared (t : Nat)
  | finishErrorCallback (t : Nat) (w : Nat) (callbackId : Nat)
  | cleanupEnvironment (t : Nat) (env : Env)
  /-- The next watcher of the first loop, or the end of the loop. -/
  | cleanupNext (t : Nat)
  /-- `unref` up to `lock.unlock()`. -/
  | unref (t : Nat)
  /-- The rest of `unref`. -/
  | remove (t : Nat)

namespace SharedWatchers

variable {Fn Env : Type}

def start : SharedWatchers Fn Env where
  sharedWatchers := []
  registryMutex := none
  key := fun _ => ⟨[], ∅, ∅⟩
  mCallbacks := fun _ => []
  mNextCallbackId := fun _ => 1
  mCancelled := fun _ => false
  mSharedReservations := fun _ => 0
  created := 0
  client := fun _ => .outside

def setClient (s : SharedWatchers Fn Env) (t : Nat) (p : WatcherClient Env) :
    SharedWatchers Fn Env :=
  { s with client := Function.update s.client t p }

def setCallbacks (s : SharedWatchers Fn Env) (w : Nat) (l : List (WatcherCallback Fn Env)) :
    SharedWatchers Fn Env :=
  { s with mCallbacks := Function.update s.mCallbacks w l }

def setCancelled (s : SharedWatchers Fn Env) (w : Nat) (b : Bool) : SharedWatchers Fn Env :=
  { s with mCancelled := Function.update s.mCancelled w b }

/-- `getSharedWatchers().find`. -/
def find (s : SharedWatchers Fn Env) (key : WatcherKey) : Option Nat :=
  s.sharedWatchers.find? fun w => s.key w == key

/-- `mSharedReservations.fetch_add(1)`. -/
def reserve (s : SharedWatchers Fn Env) (w : Nat) : SharedWatchers Fn Env :=
  let before := s.mSharedReservations w
  { s with mSharedReservations := Function.update s.mSharedReservations w (before + 1) }

/-- `mSharedReservations.fetch_sub(1)`. -/
def unreserve (s : SharedWatchers Fn Env) (w : Nat) : SharedWatchers Fn Env :=
  let before := s.mSharedReservations w
  { s with mSharedReservations := Function.update s.mSharedReservations w (before - 1) }

/-- `getShared`. A watcher that cannot be added to the debouncer is dropped again. -/
def getShared (s : SharedWatchers Fn Env) (t : Nat) (key : WatcherKey) (adds : Bool) :
    SharedWatchers Fn Env :=
  match s.find key with
  | some w => (s.reserve w).setClient t (.holding w)
  | none =>
      if adds then
        let w := s.created
        let s := { s with
          created := w + 1
          key := Function.update s.key w key
          sharedWatchers := s.sharedWatchers ++ [w] }
        (s.reserve w).setClient t (.holding w)
      else s

/-- `removeSharedLocked`. -/
def removeSharedLocked (s : SharedWatchers Fn Env) (w : Nat) : SharedWatchers Fn Env :=
  { s with sharedWatchers := s.sharedWatchers.erase w }

/-- `releaseShared` up to `unref`. -/
def releaseShared (s : SharedWatchers Fn Env) (t w : Nat) : SharedWatchers Fn Env :=
  (s.unreserve w).setClient t
    (if s.mSharedReservations w = 1 then .unrefing w [] none else .outside)

/-- `finishErrorCallback` up to `unref`. -/
def finishErrorCallback (s : SharedWatchers Fn Env) (t w callbackId : Nat) :
    SharedWatchers Fn Env :=
  let callbacks := (s.mCallbacks w).eraseP fun callback => callback.id == callbackId
  let s := s.setCallbacks w callbacks
  if callbacks.isEmpty then
    (s.setCancelled w true).setClient t (.unrefing w [] (s.client t).reservation)
  else s

variable [DecidableEq Fn]

/-- `findCallback`. -/
def isCallback (thread : Nat) (callback : Fn) (it : WatcherCallback Fn Env) : Bool :=
  it.threadId == thread && it.ref == callback

/-- `watch`. -/
def watch (s : SharedWatchers Fn Env) (w thread : Nat) (env : Env) (callback : Fn)
    (creates : Bool) : SharedWatchers Fn Env :=
  let s := s.setCancelled w false
  if (s.mCallbacks w).any (isCallback thread callback) then s
  else if creates then
    let id := s.mNextCallbackId w
    let s := { s with mNextCallbackId := Function.update s.mNextCallbackId w (id + 1) }
    s.setCallbacks w (s.mCallbacks w ++ [⟨id, callback, env, thread⟩])
  else s

/-- `unwatch` up to `unref`. -/
def unwatch (s : SharedWatchers Fn Env) (t w thread : Nat) (callback : Fn) :
    SharedWatchers Fn Env :=
  let removed := (s.mCallbacks w).any (isCallback thread callback)
  let callbacks := (s.mCallbacks w).eraseP (isCallback thread callback)
  let s := s.setCallbacks w callbacks
  if removed && callbacks.isEmpty then
    (s.setCancelled w true).setClient t (.unrefing w [] (s.client t).reservation)
  else s

variable [DecidableEq Env]

/-- The body of the first loop of `cleanupEnvironment`. -/
def cleanupNext (s : SharedWatchers Fn Env) (t : Nat) (env : Env) (toUnwatch : List Nat) :
    List Nat → SharedWatchers Fn Env
  | [] => s.setClient t (.resume toUnwatch none)
  | w :: watchers =>
      let removedCallback := (s.mCallbacks w).any fun callback => callback.env == env
      let callbacks := (s.mCallbacks w).filter fun callback => callback.env != env
      let s := s.setCallbacks w callbacks
      if removedCallback && callbacks.isEmpty then
        (s.setCancelled w true).setClient t (.cleaning env watchers (toUnwatch ++ [w]))
      else s.setClient t (.cleaning env watchers toUnwatch)

/-- Whether a client may make a call on the watcher that needs no reservation. -/
def mayCall (s : SharedWatchers Fn Env) (t w : Nat) : Bool :=
  match s.client t with
  | .outside | .holding _ => decide (w < s.created)
  | _ => false

def step (s : SharedWatchers Fn Env) :
    SharedWatcherAction Fn Env → Option (SharedWatchers Fn Env)
  | .getShared t key adds =>
      match s.client t with
      | .outside => if s.registryMutex = none then some (s.getShared t key adds) else none
      | _ => none
  | .watch t thread env callback creates =>
      match s.client t with
      | .holding w => some (s.watch w thread env callback creates)
      | _ => none
  | .unwatch t w thread callback =>
      if s.mayCall t w then some (s.unwatch t w thread callback) else none
  | .releaseShared t =>
      match s.client t with
      | .holding w => some (s.releaseShared t w)
      | _ => none
  | .finishErrorCallback t w callbackId =>
      if s.mayCall t w then some (s.finishErrorCallback t w callbackId) else none
  | .cleanupEnvironment t env =>
      match s.client t with
      | .outside =>
          if s.registryMutex = none then
            some (s.setClient t (.cleaning env s.sharedWatchers []))
          else none
      | _ => none
  | .cleanupNext t =>
      match s.client t with
      | .cleaning env watchers toUnwatch => some (s.cleanupNext t env toUnwatch watchers)
      | _ => none
  | .unref t =>
      match s.client t with
      | .unrefing w rest reserved =>
          if s.registryMutex = none then
            if (s.mCallbacks w).isEmpty ∧ s.mSharedReservations w = 0 then
              some { s.setClient t (.removing w rest reserved) with registryMutex := some t }
            else some (s.setClient t (.resume rest reserved))
          else none
      | _ => none
  | .remove t =>
      match s.client t with
      | .removing w rest reserved =>
          some { (s.removeSharedLocked w).setClient t (.resume rest reserved) with
            registryMutex := none }
      | _ => none

end SharedWatchers

/-- The interleavings of any number of clients. -/
def sharedWatcherMachine (Fn Env : Type) [DecidableEq Fn] [DecidableEq Env] :
    Machine (SharedWatchers Fn Env) (SharedWatcherAction Fn Env) :=
  .ofStep .start SharedWatchers.step

/-! ## What always holds -/

section Registry

variable {Fn Env : Type} {s s' : SharedWatchers Fn Env} {t w : Nat}

/-- The clients with a reservation. -/
def SharedWatchers.reserved (s : SharedWatchers Fn Env) (t : Nat) : Option Nat :=
  (s.client t).reservation

structure WatchersInv (s : SharedWatchers Fn Env) : Prop where
  counted : Reservations.Counted s.reserved s.mSharedReservations
  inUse : ∀ w, s.mCallbacks w ≠ [] ∨ s.mSharedReservations w ≠ 0 → w ∈ s.sharedWatchers
  nodup : s.sharedWatchers.Nodup
  keys : ∀ w ∈ s.sharedWatchers, ∀ w' ∈ s.sharedWatchers, s.key w = s.key w' → w = w'
  numbered : ∀ w ∈ s.sharedWatchers, w < s.created
  /-- What is being removed stays out of use until it is removed. -/
  removing : ∀ t w rest reserved, s.client t = .removing w rest reserved →
    s.mCallbacks w = [] ∧ s.mSharedReservations w = 0 ∧ s.registryMutex = some t

theorem watchersInv_start : WatchersInv (SharedWatchers.start : SharedWatchers Fn Env) where
  counted := Reservations.Counted.start
  inUse _ h := h.elim (absurd rfl) (absurd rfl)
  nodup := List.nodup_nil
  keys _ h := absurd h List.not_mem_nil
  numbered _ h := absurd h List.not_mem_nil
  removing _ _ _ _ h := nomatch h

theorem reserved_setClient (s : SharedWatchers Fn Env) (t : Nat) (p : WatcherClient Env) :
    (s.setClient t p).reserved = Function.update s.reserved t p.reservation := by
  ext t' w
  by_cases htt : t' = t
  · subst htt
    simp [SharedWatchers.reserved, SharedWatchers.setClient]
  · simp [SharedWatchers.reserved, SharedWatchers.setClient, htt]

/-- A client that is removing a watcher after another one moved was so before. -/
theorem removing_of_setClient {p : WatcherClient Env}
    (hp : ∀ w rest reserved, p ≠ .removing w rest reserved) {t' : Nat} {rest : List Nat}
    {reserved : Option Nat} (h : (s.setClient t p).client t' = .removing w rest reserved) :
    t' ≠ t ∧ s.client t' = .removing w rest reserved := by
  by_cases htt : t' = t
  · subst htt
    rw [show (s.setClient t' p).client t' = p from Function.update_self ..] at h
    exact absurd h (hp w rest reserved)
  · exact ⟨htt, (Function.update_of_ne htt ..).symm.trans h⟩

theorem WatchersInv.move (h : WatchersInv s) {p : WatcherClient Env}
    (hres : p.reservation = (s.client t).reservation)
    (hp : ∀ w rest reserved, p ≠ .removing w rest reserved) : WatchersInv (s.setClient t p) := by
  have hreserved : (s.setClient t p).reserved = s.reserved := by
    rw [reserved_setClient, hres]
    exact Function.update_eq_self t s.reserved
  exact ⟨hreserved ▸ h.counted, h.inUse, h.nodup, h.keys, h.numbered,
    fun t' w rest reserved ht' => h.removing t' w rest reserved (removing_of_setClient hp ht').2⟩

/-- While nobody is in `unref` with the registry locked, nothing is being removed. -/
theorem WatchersInv.not_removing (h : WatchersInv s) (hfree : s.registryMutex = none)
    (t w : Nat) (rest : List Nat) (reserved : Option Nat) :
    s.client t ≠ .removing w rest reserved := by
  intro ht
  obtain ⟨-, -, hmutex⟩ := h.removing t w rest reserved ht
  rw [hfree] at hmutex
  cases hmutex

/-- Callbacks come only to a watcher that is reserved, and are taken from any. -/
theorem WatchersInv.setCallbacks (h : WatchersInv s) {l : List (WatcherCallback Fn Env)}
    (hl : s.mCallbacks w = [] → l ≠ [] → s.mSharedReservations w ≠ 0) :
    WatchersInv (s.setCallbacks w l) := by
  have hself : (s.setCallbacks w l).mCallbacks w = l := Function.update_self ..
  have hother : ∀ v ≠ w, (s.setCallbacks w l).mCallbacks v = s.mCallbacks v :=
    fun v hv => Function.update_of_ne hv ..
  refine ⟨h.counted, fun v hv => ?_, h.nodup, h.keys, h.numbered,
    fun t v rest reserved ht => ?_⟩
  · by_cases hvw : v = w
    · subst hvw
      rw [hself] at hv
      refine h.inUse v ?_
      by_cases hnil : s.mCallbacks v = []
      · exact Or.inr (hv.elim (hl hnil) id)
      · exact Or.inl hnil
    · rw [hother v hvw] at hv
      exact h.inUse v hv
  · obtain ⟨hnil, hzero, hmutex⟩ := h.removing t v rest reserved ht
    refine ⟨?_, hzero, hmutex⟩
    by_cases hvw : v = w
    · subst hvw
      rw [hself]
      by_contra hne
      exact hl hnil hne hzero
    · rw [hother v hvw, hnil]

theorem WatchersInv.setCancelled (h : WatchersInv s) (w : Nat) (b : Bool) :
    WatchersInv (s.setCancelled w b) :=
  ⟨h.counted, h.inUse, h.nodup, h.keys, h.numbered, h.removing⟩

/-! ## The reservations -/

theorem WatchersInv.reserve (h : WatchersInv s) (hfree : s.registryMutex = none)
    (hnone : (s.client t).reservation = none) (hw : w ∈ s.sharedWatchers) :
    WatchersInv ((s.reserve w).setClient t (.holding w)) := by
  have hreserved : ((s.reserve w).setClient t (.holding w)).reserved =
      Function.update s.reserved t (some w) := by
    rw [reserved_setClient]
    rfl
  refine ⟨hreserved ▸ h.counted.acquire hnone w, fun v hv => ?_, h.nodup, h.keys, h.numbered,
    fun t' v rest reserved ht' => ?_⟩
  · by_cases hvw : v = w
    · exact hvw ▸ hw
    · refine h.inUse v (hv.imp_right fun hne hz => hne ?_)
      exact (Function.update_of_ne hvw ..).trans hz
  · have ht := (removing_of_setClient (s := s.reserve w) (p := .holding w) nofun ht').2
    exact absurd ht (h.not_removing hfree t' v rest reserved)

theorem WatchersInv.release (h : WatchersInv s) {p : WatcherClient Env}
    (ht : s.client t = .holding w) (hres : p.reservation = none)
    (hp : ∀ w rest reserved, p ≠ .removing w rest reserved) :
    WatchersInv ((s.unreserve w).setClient t p) := by
  have hheld : s.reserved t = some w := by
    rw [SharedWatchers.reserved, ht]
    rfl
  have hreserved : ((s.unreserve w).setClient t p).reserved =
      Function.update s.reserved t none := by
    rw [reserved_setClient, hres]
    rfl
  have hother : ∀ v ≠ w, (s.unreserve w).mSharedReservations v = s.mSharedReservations v :=
    fun v hv => Function.update_of_ne hv ..
  refine ⟨hreserved ▸ h.counted.release hheld, fun v hv => h.inUse v ?_, h.nodup, h.keys,
    h.numbered, fun t' v rest reserved ht' => ?_⟩
  · by_cases hvw : v = w
    · exact Or.inr (hvw ▸ (h.counted.pos hheld).ne')
    · exact hv.imp_right fun hne => hother v hvw ▸ hne
  · obtain ⟨hnil, hzero, hmutex⟩ :=
      h.removing t' v rest reserved (removing_of_setClient (s := s.unreserve w) hp ht').2
    have hvw : v ≠ w := by
      rintro rfl
      exact (h.counted.pos hheld).ne' hzero
    exact ⟨hnil, (hother v hvw).trans hzero, hmutex⟩

/-! ## The registry -/

theorem WatchersInv.find (h : WatchersInv s) (hw : w ∈ s.sharedWatchers) :
    s.find (s.key w) = some w := by
  cases hf : s.find (s.key w) with
  | none =>
      have hnone := List.find?_eq_none.mp hf w hw
      simp at hnone
  | some v =>
      have hv := List.mem_of_find?_eq_some hf
      have hkey := List.find?_some hf
      rw [h.keys v hv w hw (by simpa using hkey)]

/-- A watcher that was not found is created. -/
theorem WatchersInv.insert {key : WatcherKey} (h : WatchersInv s)
    (hf : s.find key = none) :
    WatchersInv { s with
      created := s.created + 1
      key := Function.update s.key s.created key
      sharedWatchers := s.sharedWatchers ++ [s.created] } := by
  have hnew : s.created ∉ s.sharedWatchers := fun hw => Nat.lt_irrefl _ (h.numbered _ hw)
  have hother : ∀ v ∈ s.sharedWatchers, v ≠ s.created := by
    rintro v hv rfl
    exact hnew hv
  have hkeys : ∀ v ∈ s.sharedWatchers, s.key v ≠ key := by
    intro v hv
    simpa using List.find?_eq_none.mp hf v hv
  refine ⟨h.counted, fun v hv => List.mem_append_left _ (h.inUse v hv), ?_, ?_, ?_, h.removing⟩
  · exact List.nodup_append'.mpr ⟨h.nodup, List.nodup_singleton _, by simpa using hnew⟩
  · intro v hv v' hv' heq
    rcases List.mem_append.mp hv with hv | hv <;> rcases List.mem_append.mp hv' with hv' | hv'
    · simp only [Function.update_of_ne (hother v hv), Function.update_of_ne (hother v' hv')] at heq
      exact h.keys v hv v' hv' heq
    · rw [List.mem_singleton] at hv'
      subst hv'
      simp only [Function.update_of_ne (hother v hv), Function.update_self] at heq
      exact absurd heq (hkeys v hv)
    · rw [List.mem_singleton] at hv
      subst hv
      simp only [Function.update_of_ne (hother v' hv'), Function.update_self] at heq
      exact absurd heq.symm (hkeys v' hv')
    · rw [List.mem_singleton] at hv hv'
      rw [hv, hv']
  · intro v hv
    rcases List.mem_append.mp hv with hv | hv
    · exact Nat.lt_succ_of_lt (h.numbered v hv)
    · rw [List.mem_singleton] at hv
      exact hv ▸ Nat.lt_succ_self _

theorem WatchersInv.getShared {key : WatcherKey} {adds : Bool} (h : WatchersInv s)
    (hfree : s.registryMutex = none) (ht : s.client t = .outside) :
    WatchersInv (s.getShared t key adds) := by
  have hnone : (s.client t).reservation = none := by rw [ht]; rfl
  unfold SharedWatchers.getShared
  split
  next w hf => exact h.reserve hfree hnone (List.mem_of_find?_eq_some hf)
  next hf =>
      split
      · exact (h.insert hf).reserve hfree hnone (List.mem_append_right _ List.mem_cons_self)
      · exact h

/-- The removal, while nobody else has the registry. -/
theorem WatchersInv.remove {rest : List Nat} {reserved : Option Nat} (h : WatchersInv s)
    (ht : s.client t = .removing w rest reserved) :
    WatchersInv { (s.removeSharedLocked w).setClient t (.resume rest reserved) with
      registryMutex := none } := by
  obtain ⟨hnil, hzero, hmutex⟩ := h.removing t w rest reserved ht
  have hres : (WatcherClient.resume rest reserved : WatcherClient Env).reservation =
      (s.client t).reservation := by
    rw [WatcherClient.reservation_resume, ht]
    rfl
  have hmove := h.move hres (WatcherClient.resume_ne_removing rest reserved)
  have hsub : ∀ v ∈ s.sharedWatchers.erase w, v ∈ s.sharedWatchers :=
    fun v hv => List.mem_of_mem_erase hv
  refine ⟨hmove.counted, fun v hv => ?_, h.nodup.erase w,
    fun v hv v' hv' => h.keys v (hsub v hv) v' (hsub v' hv'), fun v hv => h.numbered v (hsub v hv),
    fun t' v rest' reserved' ht' => ?_⟩
  · refine (List.mem_erase_of_ne ?_).mpr (h.inUse v hv)
    rintro rfl
    exact hv.elim (absurd hnil) (absurd hzero)
  · obtain ⟨htt, ht'⟩ :=
      removing_of_setClient (s := s) (WatcherClient.resume_ne_removing rest reserved) ht'
    obtain ⟨-, -, hmutex'⟩ := h.removing t' v rest' reserved' ht'
    rw [hmutex] at hmutex'
    exact absurd (Option.some.inj hmutex').symm htt

/-! ## One step -/

/-- The callbacks of a watcher shrink, and `unref` may be due. -/
theorem WatchersInv.shrink {l : List (WatcherCallback Fn Env)} {p : WatcherClient Env}
    (h : WatchersInv s) (hl : s.mCallbacks w = [] → l = [])
    (hres : p.reservation = (s.client t).reservation)
    (hp : ∀ w rest reserved, p ≠ .removing w rest reserved) :
    WatchersInv ((s.setCallbacks w l).setClient t p) ∧
      WatchersInv (((s.setCallbacks w l).setCancelled w true).setClient t p) := by
  have hc : WatchersInv (s.setCallbacks w l) :=
    h.setCallbacks fun hnil hne => absurd (hl hnil) hne
  exact ⟨hc.move hres hp, (hc.setCancelled w true).move hres hp⟩

theorem WatchersInv.finishErrorCallback {callbackId : Nat} (h : WatchersInv s) :
    WatchersInv (s.finishErrorCallback t w callbackId) := by
  have hl : s.mCallbacks w = [] →
      (s.mCallbacks w).eraseP (fun callback => callback.id == callbackId) = [] := by
    intro hnil
    rw [hnil]
    rfl
  simp only [SharedWatchers.finishErrorCallback]
  split
  · exact (h.shrink (p := .unrefing w [] _) hl rfl nofun).2
  · exact h.setCallbacks fun hnil hne => absurd (hl hnil) hne

section

variable [DecidableEq Fn]

theorem WatchersInv.watch {thread : Nat} {env : Env} {callback : Fn} {creates : Bool}
    (h : WatchersInv s) (ht : s.client t = .holding w) :
    WatchersInv (s.watch w thread env callback creates) := by
  have hc := h.setCancelled w false
  have hheld : s.mSharedReservations w ≠ 0 := by
    refine (h.counted.pos (i := t) ?_).ne'
    rw [SharedWatchers.reserved, ht]
    rfl
  simp only [SharedWatchers.watch]
  split
  · exact hc
  · split
    · have hid : WatchersInv { s.setCancelled w false with
          mNextCallbackId := Function.update s.mNextCallbackId w (s.mNextCallbackId w + 1) } :=
        ⟨hc.counted, hc.inUse, hc.nodup, hc.keys, hc.numbered, hc.removing⟩
      exact hid.setCallbacks fun _ _ => hheld
    · exact hc

theorem WatchersInv.unwatch {thread : Nat} {callback : Fn} (h : WatchersInv s) :
    WatchersInv (s.unwatch t w thread callback) := by
  have hl : s.mCallbacks w = [] →
      (s.mCallbacks w).eraseP (SharedWatchers.isCallback thread callback) = [] := by
    intro hnil
    rw [hnil]
    rfl
  simp only [SharedWatchers.unwatch]
  split
  · exact (h.shrink (p := .unrefing w [] _) hl rfl nofun).2
  · exact h.setCallbacks fun hnil hne => absurd (hl hnil) hne

end

theorem WatchersInv.cleanupNext [DecidableEq Env] {env : Env} {watchers toUnwatch : List Nat}
    (h : WatchersInv s) (ht : s.client t = .cleaning env watchers toUnwatch) :
    WatchersInv (s.cleanupNext t env toUnwatch watchers) := by
  have hnone : (s.client t).reservation = none := by rw [ht]; rfl
  cases watchers with
  | nil =>
      refine h.move ?_ (WatcherClient.resume_ne_removing toUnwatch none)
      rw [WatcherClient.reservation_resume, hnone]
  | cons w watchers =>
      have hl : s.mCallbacks w = [] →
          (s.mCallbacks w).filter (fun callback => callback.env != env) = [] := by
        intro hnil
        rw [hnil]
        rfl
      simp only [SharedWatchers.cleanupNext]
      split
      · exact (h.shrink (p := .cleaning ..) hl hnone.symm nofun).2
      · exact (h.shrink (p := .cleaning ..) hl hnone.symm nofun).1

theorem WatchersInv.unref {rest : List Nat} {reserved : Option Nat} (h : WatchersInv s)
    (hfree : s.registryMutex = none) (ht : s.client t = .unrefing w rest reserved)
    (hunused : s.mCallbacks w = [] ∧ s.mSharedReservations w = 0) :
    WatchersInv { s.setClient t (.removing w rest reserved) with registryMutex := some t } := by
  have hreserved : (s.setClient t (.removing w rest reserved)).reserved = s.reserved := by
    rw [reserved_setClient]
    refine (congrArg (Function.update s.reserved t) ?_).trans (Function.update_eq_self t s.reserved)
    rw [SharedWatchers.reserved, ht]
    rfl
  refine ⟨hreserved ▸ h.counted, h.inUse, h.nodup, h.keys, h.numbered,
    fun t' v rest' reserved' ht' => ?_⟩
  by_cases htt : t' = t
  · subst htt
    have hself : Function.update s.client t' (.removing w rest reserved) t' =
        .removing v rest' reserved' := ht'
    rw [Function.update_self] at hself
    cases hself
    exact ⟨hunused.1, hunused.2, rfl⟩
  · exact absurd ((Function.update_of_ne htt ..).symm.trans ht')
      (h.not_removing hfree t' v rest' reserved')

variable [DecidableEq Fn] [DecidableEq Env]

theorem watchersInv_step {a : SharedWatcherAction Fn Env} (h : WatchersInv s)
    (hs : s.step a = some s') : WatchersInv s' := by
  cases a with
  | getShared t key adds =>
      simp only [SharedWatchers.step] at hs
      split at hs
      next ht =>
          split at hs
          next hfree =>
              obtain rfl := Option.some.inj hs
              exact h.getShared hfree ht
          next => cases hs
      next => cases hs
  | watch t thread env callback creates =>
      simp only [SharedWatchers.step] at hs
      split at hs
      next w ht =>
          obtain rfl := Option.some.inj hs
          exact h.watch ht
      next => cases hs
  | unwatch t w thread callback =>
      simp only [SharedWatchers.step] at hs
      split at hs
      next =>
          obtain rfl := Option.some.inj hs
          exact h.unwatch
      next => cases hs
  | releaseShared t =>
      simp only [SharedWatchers.step] at hs
      split at hs
      next w ht =>
          obtain rfl := Option.some.inj hs
          unfold SharedWatchers.releaseShared
          split
          · exact h.release ht rfl nofun
          · exact h.release ht rfl nofun
      next => cases hs
  | finishErrorCallback t w callbackId =>
      simp only [SharedWatchers.step] at hs
      split at hs
      next =>
          obtain rfl := Option.some.inj hs
          exact h.finishErrorCallback
      next => cases hs
  | cleanupEnvironment t env =>
      simp only [SharedWatchers.step] at hs
      split at hs
      next ht =>
          split at hs
          next =>
              obtain rfl := Option.some.inj hs
              exact h.move (by rw [ht]; rfl) nofun
          next => cases hs
      next => cases hs
  | cleanupNext t =>
      simp only [SharedWatchers.step] at hs
      split at hs
      next env watchers toUnwatch ht =>
          obtain rfl := Option.some.inj hs
          exact h.cleanupNext ht
      next => cases hs
  | unref t =>
      simp only [SharedWatchers.step] at hs
      split at hs
      next w rest reserved ht =>
          split at hs
          next hfree =>
              split at hs
              next hunused =>
                  obtain rfl := Option.some.inj hs
                  exact h.unref hfree ht ⟨List.isEmpty_iff.mp hunused.1, hunused.2⟩
              next =>
                  obtain rfl := Option.some.inj hs
                  refine h.move ?_ (WatcherClient.resume_ne_removing rest reserved)
                  rw [WatcherClient.reservation_resume, ht]
                  rfl
          next => cases hs
      next => cases hs
  | remove t =>
      simp only [SharedWatchers.step] at hs
      split at hs
      next w rest reserved ht =>
          obtain rfl := Option.some.inj hs
          exact h.remove ht
      next => cases hs

/-- **The registry never loses a watcher in use**, and names at most one watcher for a
directory with its ignores: who asks for the options of a watcher with callbacks gets
that watcher. -/
theorem registry_keeps_watchers (h : (sharedWatcherMachine Fn Env).Reachable s) :
    (∀ w, (s.mCallbacks w ≠ [] ∨ s.mSharedReservations w ≠ 0 ∨ ∃ t, s.reserved t = some w) →
        w ∈ s.sharedWatchers) ∧
      (s.sharedWatchers.map s.key).Nodup ∧
      ∀ w, s.mCallbacks w ≠ [] → s.find (s.key w) = some w ∧
        ∀ t adds s', s.step (.getShared t (s.key w) adds) = some s' →
          s'.client t = .holding w ∧ s'.mCallbacks w = s.mCallbacks w := by
  have hinv : WatchersInv s := by
    refine h.invariant ?_ ?_
    · rintro _ rfl
      exact watchersInv_start
    · rintro s a s' hi hs
      exact watchersInv_step hi hs
  refine ⟨fun w hw => hinv.inUse w (hw.imp_right ?_), ?_, fun w hw => ?_⟩
  · rintro (hne | ⟨t, ht⟩)
    · exact hne
    · exact (hinv.counted.pos ht).ne'
  · exact List.Nodup.map_on hinv.keys hinv.nodup
  · have hf := hinv.find (hinv.inUse w (Or.inl hw))
    refine ⟨hf, fun t adds s' hs => ?_⟩
    simp only [SharedWatchers.step] at hs
    split at hs
    next =>
        split at hs
        next =>
            obtain rfl := Option.some.inj hs
            simp only [SharedWatchers.getShared, hf]
            exact ⟨Function.update_self .., rfl⟩
        next => cases hs
    next => cases hs

/-- A subscriber that comes between the decrement of another one and its `unref`. -/
theorem registry_keeps_watchers_between :
    ∃ s : SharedWatchers Nat Nat, s.sharedWatchers = [0] ∧ s.mCallbacks 0 ≠ [] ∧
      s.find (s.key 0) = some 0 := by
  have h₀ : (sharedWatcherMachine Nat Nat).Reachable .start := .init rfl
  have h₁ := h₀.extend (SharedWatcherAction.getShared 0 ⟨[47], ∅, ∅⟩ true) trivial rfl
  have h₂ := h₁.extend (SharedWatcherAction.releaseShared 0) trivial rfl
  have h₃ := h₂.extend (SharedWatcherAction.getShared 1 ⟨[47], ∅, ∅⟩ true) trivial rfl
  have h₄ := h₃.extend (SharedWatcherAction.watch 1 0 0 5 true) trivial rfl
  have h₅ := h₄.extend (SharedWatcherAction.unref 0) trivial rfl
  obtain ⟨-, -, hfind⟩ := registry_keeps_watchers h₅
  have hcallback := List.cons_ne_nil (⟨1, 5, 0, 0⟩ : WatcherCallback Nat Nat) []
  exact ⟨_, rfl, hcallback, (hfind 0 hcallback).1⟩

end Registry

end NativeWatcher
