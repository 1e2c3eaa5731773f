import Mathlib.Tactic
import TeeClient.Lib.Resumption

/-! The connection of a CA's process to `cadaemon` (`TeeClient::InitTeecService` and
`DeathNotifier` in `tee_client.cpp`).  Any number of threads make requests, the service dies and is
started again, and its death is announced at any later time, on a thread that does not take
`mServiceLock`. -/

namespace TeeClient.Client.Connection

open Resumption

section Source

/-- What is read and written one at a time; `onRemoteDied` is the body of
`DeathNotifier::OnRemoteDied` for a service, and `die` and `publish` are the service's own. -/
inductive Act
  | lock
  | unlock
  | readServiceValid
  | setServiceValid
  | readDeathNotifier
  | newDeathNotifier
  | addDeathRecipient
  | readNotify
  | newNotify
  | getSystemAbilityManager
  | getSystemAbility
  | clearTeecService
  | readTeecService
  | sendSetCallBack
  | sendRequest
  | onRemoteDied (service : Nat)
  | die (service : Nat)
  | publish

abbrev Resp : Act → Type
  | .readServiceValid | .readDeathNotifier | .newDeathNotifier | .addDeathRecipient | .readNotify
  | .newNotify | .getSystemAbilityManager | .getSystemAbility | .readTeecService
  | .sendSetCallBack | .sendRequest => Bool
  | .lock | .unlock | .setServiceValid | .clearTeecService | .onRemoteDied _ | .die _
  | .publish => Unit

abbrev Program (α : Type) := Prog Act Resp α

def act (a : Act) : Program (Resp a) := .act a .pure

/-- `SetCallBack`; `sendSetCallBack` fails as well when the parcel cannot be written. -/
def setCallBack : Program Bool := do
  let notify : Bool ← act .readNotify
  let service : Bool ← act .readTeecService
  if notify && service then act .sendSetCallBack else pure false

def addCaDeathRecipient : Program Bool := do
  let notifier : Bool ← act .readDeathNotifier
  if notifier then pure true
  else
    let created : Bool ← act .newDeathNotifier
    if created then
      let added : Bool ← act .addDeathRecipient
      if added then pure true
      else
        act .clearTeecService
        pure false
    else
      act .clearTeecService
      pure false

def connect : Program Bool := do
  let manager : Bool ← act .getSystemAbilityManager
  if manager then
    let service : Bool ← act .getSystemAbility
    if service then
      let added ← addCaDeathRecipient
      if added then
        let result ← setCallBack
        if result then
          act .setServiceValid
          pure true
        else
          act .clearTeecService
          pure false
      else pure false
    else pure false
  else pure false

def initLocked : Program Bool := do
  let valid : Bool ← act .readServiceValid
  if valid then
    let _ ← addCaDeathRecipient
    pure true
  else
    let notify : Bool ← act .readNotify
    if notify then connect
    else
      let created : Bool ← act .newNotify
      if created then connect else pure false

def initTeecService : Program Bool := do
  act .lock
  let ret ← initLocked
  act .unlock
  pure ret

def request : Program Unit := do
  let ret ← initTeecService
  if ret then
    let _ : Bool ← act .sendRequest
    pure ()
  else pure ()

end Source

section System

/-- The members of `TeeClient`, with what has become of the services: `attempts` counts the calls of
`AddDeathRecipient`, `watched` are the services where it succeeded, `noticed` those whose death was
announced, `accepted` those that took the CA's own death notice, `resets` counts how often
`mServiceValid` was set to false, and `nullCalls` the calls through an `mTeecService` that is
null. -/
structure State where
  locked : Bool
  mServiceValid : Bool
  mTeecService : Option Nat
  mDeathNotifier : Bool
  mNotify : Bool
  published : Option Nat
  next : Nat
  dead : List Nat
  attempts : Nat
  watched : List Nat
  noticed : List Nat
  accepted : List Nat
  resets : Nat
  nullCalls : Nat

def State.init : State where
  locked := false
  mServiceValid := false
  mTeecService := none
  mDeathNotifier := false
  mNotify := false
  published := none
  next := 0
  dead := []
  attempts := 0
  watched := []
  noticed := []
  accepted := []
  resets := 0
  nullCalls := 0

/-- A request reaches a service that is alive, unless `ok` says that it fails.  The death of a
service is announced once, where somebody watches. -/
def State.exec (s : State) (ok : Bool) : (a : Act) → Option (Resp a × State)
  | .lock => if s.locked then none else some ((), { s with locked := true })
  | .unlock => some ((), { s with locked := false })
  | .readServiceValid => some (s.mServiceValid, s)
  | .setServiceValid => some ((), { s with mServiceValid := true })
  | .readDeathNotifier => some (s.mDeathNotifier, s)
  | .newDeathNotifier => some (ok, { s with mDeathNotifier := s.mDeathNotifier || ok })
  | .addDeathRecipient =>
    match s.mTeecService with
    | some service =>
      if ok = true ∧ service ∉ s.dead then
        some (true, { s with attempts := s.attempts + 1, watched := service :: s.watched })
      else some (false, { s with attempts := s.attempts + 1 })
    | none =>
      some (false, { s with attempts := s.attempts + 1, nullCalls := s.nullCalls + 1 })
  | .readNotify => some (s.mNotify, s)
  | .newNotify => some (ok, { s with mNotify := s.mNotify || ok })
  | .getSystemAbilityManager => some (ok, s)
  | .getSystemAbility =>
    let service := if ok then s.published else none
    some (service.isSome, { s with mTeecService := service })
  | .clearTeecService => some ((), { s with mTeecService := none })
  | .readTeecService => some (s.mTeecService.isSome, s)
  | .sendSetCallBack =>
    match s.mTeecService with
    | some service =>
      if ok = true ∧ service ∉ s.dead then
        some (true, { s with accepted := service :: s.accepted })
      else some (false, s)
    | none => some (false, { s with nullCalls := s.nullCalls + 1 })
  | .sendRequest =>
    match s.mTeecService with
    | some service => some (ok && decide (service ∉ s.dead), s)
    | none => some (false, { s with nullCalls := s.nullCalls + 1 })
  | .onRemoteDied service =>
    if service ∈ s.watched ∧ service ∈ s.dead ∧ service ∉ s.noticed then
      some ((), { s with
        mServiceValid := false, noticed := service :: s.noticed, resets := s.resets + 1 })
    else none
  | .die service =>
    some ((), { s with
      dead := service :: s.dead
      published := if s.published = some service then none else s.published })
  | .publish => some ((), { s with published := some s.next, next := s.next + 1 })

end System

end TeeClient.Client.Connection
