import Mathlib.Tactic
import TeeClient.Lib.Resumption

/-! The TUI thread of `cadaemon` (`tee_tui_daemon_wrapper.cpp`), the library that it loads
(`tee_tui_daemon.cpp`, `tui_event.cpp`), and the callbacks that the library has registered, which
run on other threads at any time. -/

namespace TeeClient.Tui.Daemon

open Resumption

section Source

inductive Event
  | config
  | unused
  | other
  deriving DecidableEq

/-- The variables that only the TUI thread uses, each as whether it is set: the first two are the
wrapper's, `dlHandle` and `g_tuiDaemonFunc`, and the others are the library's. -/
inductive Field
  | dlHandle
  | tuiDaemonFunc
  | tuiDaemonInit
  | tuiDaemon
  | tuiCallBackRegisted
  | tuiDisplayListenerRegisted
  | mTUIDisplayListener
  | mRunningLock
  deriving DecidableEq

def Field.inLibrary : Field → Bool
  | .dlHandle | .tuiDaemonFunc => false
  | _ => true

inductive TuiPoll
  | cancel
  | notch
  | fold

inductive Callback
  | foldStatusChanged
  | callDetailsChange
  deriving DecidableEq

/-- `outcome` is an answer of another service, or of `new`, that the library only looks at, and
`invoke` the beginning of a callback. -/
inductive Act
  | spawn
  | getEvent
  | read (f : Field)
  | write (f : Field) (b : Bool)
  | dlopen
  | dlsym
  | dlclose
  | registerCallBack
  | unRegisterCallBack
  | registerFoldStatusListener
  | unregisterFoldStatusListener
  | tuiEventInit
  | lock
  | unLock
  | readStatus
  | setStatus (status : Bool)
  | readSendHashSuccess
  | setSendHashSuccess
  | sendEventToTz (e : TuiPoll)
  | outcome
  | invoke (c : Callback)

abbrev Resp : Act → Type
  | .getEvent => Option Event
  | .dlsym => Bool × Bool
  | .read _ | .dlopen | .registerCallBack | .unRegisterCallBack | .registerFoldStatusListener
  | .unregisterFoldStatusListener | .readStatus | .readSendHashSuccess | .sendEventToTz _
  | .outcome => Bool
  | .spawn | .write _ _ | .dlclose | .tuiEventInit | .lock | .unLock | .setStatus _
  | .setSendHashSuccess | .invoke _ => Unit

abbrev Program (α : Type) := Prog Act Resp α

def act (a : Act) : Program (Resp a) := .act a .pure

section Library

-- `hashLen` says whether `FONT_HASH_VAL` has the right length.
variable (hashLen : Bool)

def tuiSendTTFHashToTeeos : Program Unit := do
  let sent : Bool ← act .readSendHashSuccess
  if sent then pure ()
  else if hashLen then
    let sent : Bool ← act (.sendEventToTz .notch)
    if sent then act .setSendHashSuccess else pure ()
  else pure ()

def tuiSendCmd (tuiEvent : TuiPoll) : Program Bool := do
  tuiSendTTFHashToTeeos hashLen
  act (.sendEventToTz tuiEvent)

def tuiGetRunningLock : Program Unit := do
  let mRunningLock : Bool ← act (.read .mRunningLock)
  if mRunningLock then act .lock
  else
    let created : Bool ← act .outcome
    act (.write .mRunningLock created)
    if created then act .lock else pure ()

def tuiReleaseRunningLock : Program Unit := do
  let mRunningLock : Bool ← act (.read .mRunningLock)
  if mRunningLock then act .unLock else pure ()

def tuiDealWithEvent (state : Bool) : Program Unit := do
  if state then
    tuiGetRunningLock
    let _ : Bool ← act .outcome
    act (.setStatus true)
    let _ ← tuiSendCmd hashLen .fold
    pure ()
  else
    tuiReleaseRunningLock
    act (.setStatus false)

def tuiRegisteCallBack : Program Unit := do
  let registed : Bool ← act (.read .tuiCallBackRegisted)
  if registed then pure ()
  else
    let ready : Bool ← act .outcome
    if ready then
      let ret : Bool ← act .registerCallBack
      if ret then act (.write .tuiCallBackRegisted true) else pure ()
    else pure ()

def tuiRegisteDisplayListener : Program Unit := do
  let registed : Bool ← act (.read .tuiDisplayListenerRegisted)
  if registed then pure ()
  else
    let ready : Bool ← act .outcome
    if ready then
      let listener : Bool ← act (.read .mTUIDisplayListener)
      let created : Bool ← if listener then pure true else act .outcome
      if created then
        act (.write .mTUIDisplayListener true)
        let result : Bool ← act .registerFoldStatusListener
        act (.write .tuiDisplayListenerRegisted result)
      else pure ()
    else pure ()

/-- `TUIDaemon::TuiDaemonInit` -/
def initDaemon (onlyConfigRes : Bool) : Program Unit := do
  act .tuiEventInit
  if onlyConfigRes then pure ()
  else
    tuiRegisteCallBack
    tuiRegisteDisplayListener

/-- `TUIDaemon::~TUIDaemon`, which does not look whether it unregisters anything. -/
def deleteDaemon : Program Unit := do
  let listener : Bool ← act (.read .mTUIDisplayListener)
  if listener then
    let _ : Bool ← act .unregisterFoldStatusListener
    act (.write .mTUIDisplayListener false)
  else pure ()
  act (.write .tuiDisplayListenerRegisted false)
  let registed : Bool ← act (.read .tuiCallBackRegisted)
  if registed then
    let _ : Bool ← act .unRegisterCallBack
    act (.write .tuiCallBackRegisted false)
  else pure ()

def tuiDaemonClear : Program Unit := do
  let tuiDaemon : Bool ← act (.read .tuiDaemon)
  if tuiDaemon then
    deleteDaemon
    act (.write .tuiDaemon false)
  else pure ()
  act (.write .tuiDaemonInit false)

def tuiDaemonInit (onlyConfigRes : Bool) : Program Bool := do
  let init : Bool ← act (.read .tuiDaemonInit)
  if init then pure true
  else
    act (.write .tuiDaemon true)
    initDaemon onlyConfigRes
    let pannelInfo : Bool ← act .outcome
    if pannelInfo then
      let sent ← tuiSendCmd hashLen .fold
      if sent then
        act (.write .tuiDaemonInit true)
        pure true
      else
        tuiDaemonClear
        pure false
    else
      tuiDaemonClear
      pure false

inductive TuiState
  | init
  | tuiStart
  | tuiEnd
  deriving DecidableEq

def teeTuiDaemonWork (tuiState : TuiState) : Program Bool := do
  let ready ← tuiDaemonInit hashLen (tuiState = .init)
  if ready then
    match tuiState with
    | .init => pure true
    | .tuiStart =>
      tuiDealWithEvent hashLen true
      pure true
    | .tuiEnd =>
      tuiDealWithEvent hashLen false
      tuiDaemonClear
      pure true
  else pure false

def onFoldStatusChanged : Program Unit := do
  act (.invoke .foldStatusChanged)
  let _ : Bool ← act .readStatus
  let pannelInfo : Bool ← act .outcome
  if pannelInfo then
    let _ ← tuiSendCmd hashLen .fold
    pure ()
  else pure ()
  let status : Bool ← act .readStatus
  if status then
    let _ ← tuiSendCmd hashLen .cancel
    pure ()
  else pure ()

def onCallDetailsChange (incoming : Bool) : Program Unit := do
  act (.invoke .callDetailsChange)
  if incoming then
    let status : Bool ← act .readStatus
    if status then
      act (.setStatus false)
      let _ ← tuiSendCmd hashLen .cancel
      pure ()
    else pure ()
  else pure ()

end Library

section Wrapper

variable (hashLen : Bool)

/-- `TuiDaemonInit` of the wrapper.  `g_tuiDaemonFunc` keeps what `dlsym` gave also when the other
function is missing. -/
def openLibrary : Program Bool := do
  let dlHandle : Bool ← act (.read .dlHandle)
  if dlHandle then pure true
  else
    let opened : Bool ← act .dlopen
    if opened then
      let found : Bool × Bool ← act .dlsym
      act (.write .tuiDaemonFunc found.1)
      if found.1 && found.2 then pure true
      else
        act .dlclose
        pure false
    else pure false

def tuiDaemonClean : Program Unit := do
  let dlHandle : Bool ← act (.read .dlHandle)
  if dlHandle then
    act (.write .tuiDaemonFunc false)
    act .dlclose
  else pure ()

def handleEvent : Event → Program Unit
  | .unused => do
    let func : Bool ← act (.read .tuiDaemonFunc)
    if func then
      let _ ← teeTuiDaemonWork hashLen .tuiEnd
      pure ()
    else pure ()
  | .config => do
    let opened ← openLibrary
    if opened then
      let _ ← teeTuiDaemonWork hashLen .tuiStart
      pure ()
    else pure ()
  | .other => pure ()

def tryInit : Nat → Program Unit
  | 0 => pure ()
  | tries + 1 => do
    let opened ← openLibrary
    let initFlag : Bool ←
      if opened then do
        let initFlag ← teeTuiDaemonWork hashLen .init
        tuiDaemonClean
        pure initFlag
      else pure false
    if initFlag then pure () else tryInit tries

def handleEvents : Nat → Program Unit
  | 0 => pure ()
  | rounds + 1 => do
    let event : Option Event ← act .getEvent
    match event with
    | some event =>
      handleEvent hashLen event
      handleEvents rounds
    | none => pure ()

def tuiInitRetryTimes : Nat := 10

def teeTuiThreadWork (rounds : Nat) : Program Unit := do
  act .spawn
  tryInit hashLen (tuiInitRetryTimes + 1)
  handleEvents hashLen rounds

end Wrapper

end Source

section System

/-- What belongs to the TUI thread: its variables, what it has registered and whether it ever has,
whether the running lock is locked, and the event before. -/
structure Own where
  get : Field → Bool
  listeners : Nat
  callBacks : Nat
  held : Bool
  ever : Bool
  last : Option Event

def Own.init : Own where
  get _ := false
  listeners := 0
  callBacks := 0
  held := false
  ever := false
  last := none

def Own.set (o : Own) (f : Field) (b : Bool) : Own := { o with get := Function.update o.get f b }

def Own.reload (o : Own) (loaded : Bool) : Own :=
  { o with get := fun f => if f = .dlHandle then loaded else !f.inLibrary && o.get f }

def Own.step (o : Own) : (a : Act) → Resp a → Own
  | .getEvent, r => { o with last := r }
  | .write f b, _ => o.set f b
  | .dlopen, r => if r then o.reload true else o
  | .dlclose, _ => o.reload false
  | .registerCallBack, r => if r then { o with callBacks := o.callBacks + 1, ever := true } else o
  | .unRegisterCallBack, r => if r then { o with callBacks := o.callBacks - 1 } else o
  | .registerFoldStatusListener, r =>
    if r then { o with listeners := o.listeners + 1, ever := true } else o
  | .unregisterFoldStatusListener, r => if r then { o with listeners := o.listeners - 1 } else o
  | .tuiEventInit, _ => o.set .mRunningLock false
  | .lock, _ => { o with held := true }
  | .unLock, _ => { o with held := false }
  | .spawn, _ | .read _, _ | .dlsym, _ | .readStatus, _ | .setStatus _, _
  | .readSendHashSuccess, _ | .setSendHashSuccess, _ | .sendEventToTz _, _ | .outcome, _
  | .invoke _, _ => o

def Act.inLibrary : Act → Bool
  | .read f | .write f _ => f.inLibrary
  | .spawn | .getEvent | .dlopen | .dlsym | .dlclose => false
  | _ => true

/-- `status` is `mTUIStatus`, and `crashes` counts the actions of the library while it is not
loaded. -/
structure State where
  spawned : Bool
  own : Own
  status : Bool
  sendHashSuccess : Bool
  crashes : Nat

def State.init : State where
  spawned := false
  own := .init
  status := false
  sendHashSuccess := false
  crashes := 0

structure Env where
  ok : Bool
  foldable : Bool
  event : Option Event

def State.answer (s : State) (e : Env) : (a : Act) → Option (Resp a)
  | .spawn => if s.spawned then none else some ()
  | .getEvent => some e.event
  | .read f => some (s.own.get f)
  | .dlsym => some (e.ok, e.foldable)
  | .readStatus => some s.status
  | .readSendHashSuccess => some s.sendHashSuccess
  | .invoke .foldStatusChanged => if 0 < s.own.listeners then some () else none
  | .invoke .callDetailsChange => if 0 < s.own.callBacks then some () else none
  | .dlopen | .registerCallBack | .unRegisterCallBack | .registerFoldStatusListener
  | .unregisterFoldStatusListener | .sendEventToTz _ | .outcome => some e.ok
  | .write _ _ | .dlclose | .tuiEventInit | .lock | .unLock | .setStatus _
  | .setSendHashSuccess => some ()

def nextStatus (status : Bool) : (a : Act) → Resp a → Bool
  | .setStatus b, _ => b
  | .tuiEventInit, _ => false
  | .dlopen, r => status && !r
  | _, _ => status

def nextSendHashSuccess (sendHashSuccess : Bool) : (a : Act) → Resp a → Bool
  | .setSendHashSuccess, _ => true
  | .dlopen, r => sendHashSuccess && !r
  | _, _ => sendHashSuccess

def Act.isSpawn : Act → Bool
  | .spawn => true
  | _ => false

def State.exec (s : State) (e : Env) (a : Act) : Option (Resp a × State) :=
  (s.answer e a).map fun r => (r, {
    spawned := s.spawned || a.isSpawn
    own := s.own.step a r
    status := nextStatus s.status a r
    sendHashSuccess := nextSendHashSuccess s.sendHashSuccess a r
    crashes := if a.inLibrary && !s.own.get .dlHandle then s.crashes + 1 else s.crashes })

end System

end TeeClient.Tui.Daemon
