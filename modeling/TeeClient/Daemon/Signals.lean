import Mathlib.Tactic
import TeeClient.Lib.Resumption
import TeeClient.Lib.Ring

/-! The threads of `cadaemon` that are in the driver for a CA, and the signal that gets them out of
it when the CA has died (`AddTidData`, `RemoveTidFromList` and `SendSigToTzdriver` in
`cadaemon_service.cpp`). -/

namespace TeeClient.Daemon.Signals

open Resumption Rings

section Source

structure TidData where
  tid : Nat
  callingPid : Int

/-- A place in the list: `none` is the head `g_teecTidList`, and `some x` the `tidHead` of a
`TidData`. -/
abbrev Node := Option Nat

/-- `clone` is the beginning of a thread, and `driver` the call of `TEEC_OpenSessionInner`,
`TEEC_InvokeCommandInner` or `TEEC_CloseSessionInner`.  `listNext` and `tgkill` say for which
process the caller is looking. -/
inductive Act
  | clone
  | malloc
  | setTidData (x : Nat) (d : TidData)
  | lock
  | unlock
  | listInsertTail (x : Nat)
  | listRemoveEntry (x : Nat)
  | free (x : Nat)
  | driver
  | signal
  | listNext (ptr : Node) (pid : Int)
  | readTidData (x : Nat)
  | tgkill (tid : Nat) (pid : Int)

abbrev Resp : Act → Type
  | .clone => Nat
  | .malloc => Option Nat
  | .lock | .tgkill _ _ => Bool
  | .listNext _ _ => Node
  | .readTidData _ => TidData
  | .setTidData _ _ | .unlock | .listInsertTail _ | .listRemoveEntry _ | .free _ | .driver
  | .signal => Unit

abbrev Program (α : Type) := Prog Act Resp α

def act (a : Act) : Program (Resp a) := .act a .pure

def addTidData (tid : Nat) (pid : Int) : Program (Option Nat) := do
  let tidData : Option Nat ← act .malloc
  match tidData with
  | none => pure none
  | some x =>
    act (.setTidData x ⟨tid, pid⟩)
    let locked : Bool ← act .lock
    if locked then
      act (.listInsertTail x)
      act .unlock
      pure (some x)
    else
      act (.free x)
      pure none

def removeTidFromList (x : Nat) : Program Unit := do
  let locked : Bool ← act .lock
  act (.listRemoveEntry x)
  if locked then
    act .unlock
    act (.free x)
  else act (.free x)

def sendSigs (pid : Int) : Nat → Node → Program Bool
  | 0, _ => pure false
  | rounds + 1, pos => do
    let ptr : Node ← act (.listNext pos pid)
    match ptr with
    | none => pure true
    | some x =>
      let tmp : TidData ← act (.readTidData x)
      if tmp.callingPid = pid then
        let _ : Bool ← act (.tgkill tmp.tid pid)
        sendSigs pid rounds ptr
      else sendSigs pid rounds ptr

def sendSigToTzdriver (rounds : Nat) (pid : Int) : Program Bool := do
  act .signal
  let locked : Bool ← act .lock
  if locked then
    let first : Node ← act (.listNext none pid)
    match first with
    | none =>
      act .unlock
      pure true
    | some _ =>
      let ended ← sendSigs pid rounds none
      if ended then
        act .unlock
        pure true
      else pure false
  else pure true

/-- What a thread is given to do: `OpenSession`, `InvokeCommand` or `CloseSession` for a caller,
from `AddTidData` on, or `ProcessCaDied`. -/
inductive Errand
  | session (pid : Int)
  | processCaDied (pid : Int) (rounds : Nat)

def Errand.program (tid : Nat) : Errand → Program Bool
  | .session pid => do
    let tidData ← addTidData tid pid
    match tidData with
    | none => pure true
    | some x =>
      act .driver
      removeTidFromList x
      pure true
  | .processCaDied pid rounds => sendSigToTzdriver rounds pid

def serve (tid : Nat) : List Errand → Program Unit
  | [] => pure ()
  | e :: es => do
    let ended ← e.program tid
    if ended then serve tid es else pure ()

def thread (errands : List Errand) : Program Unit := do
  let tid : Nat ← act .clone
  serve tid errands

end Source

section System

/-- A signal that was sent to a thread, for which process, and the process for which the thread was
on the list then. -/
structure Sent where
  tid : Nat
  pid : Int
  working : Option Int

/-- `working` is the process for which a thread is on the list, and `signalled` whether it was sent
a signal since; `wild` counts accesses to a `TidData` that is not allocated, and `unhandled` the
signals that were sent before their handler was installed. -/
structure State where
  locked : Bool
  links : Links Node
  tidData : Nat → TidData
  next : Nat
  frees : Nat → Nat
  threads : Nat
  handler : Bool
  working : Nat → Option Int
  signalled : Nat → Bool
  sent : List Sent
  wild : Nat
  unhandled : Nat

def State.init : State where
  locked := false
  links := Links.init ⟨fun x => x, fun x => x⟩ none
  tidData _ := ⟨0, 0⟩
  next := 0
  frees _ := 0
  threads := 0
  handler := false
  working _ := none
  signalled _ := false
  sent := []
  wild := 0
  unhandled := 0

def State.allocated (s : State) : Node → Bool
  | none => true
  | some x => decide (x < s.next ∧ s.frees x = 0)

def State.touch (s : State) (nodes : List Node) : State :=
  if nodes.all s.allocated then s else { s with wild := s.wild + 1 }

/-- `ok` decides whether `malloc`, `pthread_mutex_lock` and `tgkill` succeed. -/
def State.exec (s : State) (ok : Bool) : (a : Act) → Option (Resp a × State)
  | .clone => some (s.threads, { s with threads := s.threads + 1 })
  | .malloc => if ok then some (some s.next, { s with next := s.next + 1 }) else some (none, s)
  | .setTidData x d =>
    let s := s.touch [some x]
    some ((), { s with
      tidData := Function.update s.tidData x d, links := s.links.init (some x) })
  | .lock =>
    if ok then if s.locked then none else some (true, { s with locked := true })
    else some (false, s)
  | .unlock => some ((), { s with locked := false })
  | .listInsertTail x =>
    let s := s.touch [some x, s.links.prev none]
    let d := s.tidData x
    some ((), { s with
      links := s.links.insertTail none (some x)
      working := Function.update s.working d.tid (some d.callingPid)
      signalled := Function.update s.signalled d.tid false })
  | .listRemoveEntry x =>
    let s := s.touch [some x, s.links.prev (some x), s.links.next (some x)]
    some ((), { s with
      links := s.links.removeEntry (some x)
      working := Function.update s.working (s.tidData x).tid none })
  | .free x =>
    let s := s.touch [some x]
    some ((), { s with frees := Function.update s.frees x (s.frees x + 1) })
  | .driver => some ((), s)
  | .signal => some ((), { s with handler := true })
  | .listNext ptr _ => some (s.links.next ptr, s.touch [ptr])
  | .readTidData x => some (s.tidData x, s.touch [some x])
  | .tgkill tid pid =>
    let s := { s with
      sent := ⟨tid, pid, s.working tid⟩ :: s.sent
      unhandled := if s.handler then s.unhandled else s.unhandled + 1 }
    if ok then some (true, { s with signalled := Function.update s.signalled tid true })
    -- a thread that works has not ended, so that the signal finds it
    else if (s.working tid).isSome then none
    else some (false, s)

end System

end TeeClient.Daemon.Signals
