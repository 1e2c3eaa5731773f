import Mathlib.Tactic
import TeeClient.Vendor.World
import TeeClient.Vendor.Operation

/-! The functions of `tee_client_api.c` as programs over the critical sections of
`World`.  What `malloc`, `memset_s`, `TEEC_GetApp` and `SendLoginInfo` give is the
answer to `outcome`. -/

namespace TeeClient.Vendor.Api

open Resumption (Prog)

variable {P : Type} [DecidableEq P] [Zero P]

def originApi : U32 := 0x1

def originComms : U32 := 0x2

abbrev Program (P : Type) [Zero P] (α : Type) := Prog (Act P) Resp α

def core (a : CoreAct) : Program P (CoreResp a) := .act (.core a) .pure

def obj (a : ObjAct P) : Program P (ObjResp a) := .act (.obj a) .pure

section Put

def putBnSession (c session : Nat) : Program P Unit := do
  let zero : Bool ← obj (.atomDecSession c session)
  if zero then obj (.releaseSession c session) else pure ()

def putBnShrMem (c shrMem : Nat) : Program P Unit := do
  let zero : Bool ← obj (.atomDecShm c shrMem)
  if zero then obj (.releaseShm c shrMem) else pure ()

def teecCloseSessionInner (session c : Nat) : Program P TeecResult := do
  let _ : Session ← obj (.readSession c session)
  let encoded : Bool ← core .outcome
  if encoded then
    let fd : Int ← core (.readContextFd c)
    let reply : IoctlReply ← core (.ioctl fd)
    if reply.ret = 0 then
      obj (.clearSession c session)
      pure .success
    else pure (.code reply.code)
  else pure .errorBadParameters

def finalizeSession (c : Nat) (callFromService : Bool) (session : Nat) : Program P Unit := do
  let _ ← teecCloseSessionInner session c
  if callFromService then putBnSession c session else pure ()

def teecFinalizeContextInner (c : Nat) : Program P Unit := do
  let sessions : List Nat ← obj (.takeSessions c)
  let callFromService : Bool ← core (.readCallFromService c)
  Prog.each (finalizeSession c callFromService) sessions
  let shms : List Nat ← obj (.takeShms c)
  Prog.each (putBnShrMem c) shms
  core (.closeContext c)
  core (.freeFinalized c)

def putBnContext (context : Option Nat) : Program P Bool :=
  match context with
  | none => pure false
  | some c => do
    let zero : Bool ← core (.atomDecContext c)
    if zero then do
      teecFinalizeContextInner c
      pure true
    else pure false

end Put

section Contexts

/-- `vendor` is `LIB_TEEC_VENDOR`: the library of a CA asks `teecd` for a descriptor
and does not log in by itself. -/
def teecInitializeContextInner (vendor : Bool) (c : Nat) : Program P TeecResult := do
  let connected : Option Int ← core (.openTzdriver c)
  match connected with
  | none => pure (if vendor then .errorGeneric else .errorBadParameters)
  | some fd =>
    let loggedIn : Bool ← core .outcome
    if vendor || loggedIn then
      core (.setContext c fd)
      obj (.initLists c)
      let cleared : Bool ← core .outcome
      if cleared then
        core (.insertContext c)
        pure .success
      else
        core (.closeFd fd)
        pure .fail
    else
      core (.closeFd fd)
      pure .errorGeneric

def initializeLocked (self : CallerIdentity) : Program P TeecResult := do
  let contextInner : Option Nat ← core (.mallocContext self)
  match contextInner with
  | none => pure .errorGeneric
  | some c =>
    let cleared : Bool ← core .outcome
    if cleared then
      let ret ← teecInitializeContextInner true c
      if ret = .success then
        let _ : Int ← core (.readContextFd c)
        let _ ← putBnContext (some c)
        pure .success
      else
        core (.freeContext c)
        pure ret
    else
      core (.freeContext c)
      pure .fail

def teecInitializeContext (self : CallerIdentity) : Program P TeecResult := do
  core .lockReadContextList
  let below : Bool ← core .contextCountLimitCheck
  let ret ← if below then initializeLocked self else pure .fail
  core .unlockReadContextList
  pure ret

def teecFinalizeContext (fd : Int) : Program P Unit := do
  let contextInner : Option Nat ← core (.findAndRemoveBnContext fd)
  let _ ← putBnContext contextInner

end Contexts

section Sessions

def translateRetValue (ret : Int) : TeecResult :=
  if ret = -14 then .errorAccessDenied
  else if ret = -12 then .errorOutOfMemory
  else if ret = -22 then .errorBadParameters
  else .errorGeneric

/-- `CheckOpensessionRetryStatus`, with `TEE_ERROR_CA_AUTH_FAIL` and
`TEE_ERROR_RETRY_OPEN_SESSION` -/
def checkOpensessionRetryStatus (returnCode : U32) : Bool :=
  returnCode = 0xFFFFCFE5 ∨ returnCode = 0xFFFF920E

def openSessionIoctl (fd : Int) : Nat → IoctlReply → Program P IoctlReply
  | 0, last => pure last
  | n + 1, _ => do
    let reply : IoctlReply ← core (.ioctl fd)
    if checkOpensessionRetryStatus reply.code then openSessionIoctl fd n reply else pure reply

/-- `RETRY_TIMEOUT_LEN / RETRY_INTERVAL` -/
def retryCount : Nat := 200

def noReply : IoctlReply where
  ret := 0
  errno := 0
  code := 0
  origin := originApi
  sessionId := 0
  outputs _ := { a := 0, b := 0, size := 0 }

def ioctlError (ret : Int) (reply : IoctlReply) : TeecResult :=
  if reply.ret < 0 then translateRetValue ret
  else if reply.code = 0 then .errorGeneric
  else .code reply.code

def ioctlOrigin (reply : IoctlReply) : U32 := if reply.ret < 0 then originComms else reply.origin

/-- What the inner functions leave behind: the operation as they changed it, and what
the driver wrote behind the addresses in it. -/
structure InnerResult (P : Type) where
  ret : TeecResult
  returnOrigin : U32
  operation : Option (Operation P)
  outputs : Option (Fin 4 → SlotOutput)

def InnerResult.failed (ret : TeecResult) (operation : Option (Operation P)) : InnerResult P where
  ret
  returnOrigin := originApi
  operation
  outputs := none

def InnerResult.answered (ret : TeecResult) (reply : IoctlReply)
    (operation : Option (Operation P)) : InnerResult P where
  ret
  returnOrigin := ioctlOrigin reply
  operation
  outputs := some reply.outputs

def teecDoOpenSession (c session : Nat) (operation : Option (Operation P)) :
    Program P (InnerResult P) := do
  let fd : Int ← core (.readContextFd c)
  let reply ← openSessionIoctl fd retryCount noReply
  if reply.ret = 0 then
    obj (.addSessionList c session reply.sessionId)
    pure (.answered .success reply operation)
  else pure (.answered (ioctlError reply.ret reply) reply operation)

def teecLoginIdentify : U32 := 0x7

variable [HAdd P Nat P] (shm : P → SharedMemory P)

def teecEncode (op : Operation P) : Operation P :=
  if op.paramTypes = 0 then op else (teecEncodeParam shm op).2

def teecOpenSessionInner (c session : Nat) (connectionMethod : U32) (connectionData : Bool)
    (operation : Option (Operation P)) : Program P (InnerResult P) :=
  if connectionMethod ≠ teecLoginIdentify ∨ connectionData then
    pure (.failed .errorBadParameters operation)
  else do
    let operation := operation.map (·.maskIdentParams)
    let checked ← teecCheckOperation shm (fun p => obj (.checkSharedBufferExist c p)) operation
    if checked = .success then
      let _ : Session ← obj (.readSession c session)
      let encoded : Bool ← core .outcome
      if encoded then
        let operation := operation.map (teecEncode shm)
        let gotApp : Bool ← core .outcome
        if gotApp then teecDoOpenSession c session operation
        else pure (.failed .errorTrustedAppLoadError operation)
      else pure (.failed .errorBadParameters operation)
    else pure (.failed checked operation)

def teecOpenSession (fd : Int) (session : Nat) (connectionMethod : U32) (connectionData : Bool)
    (operation : Option (Operation P)) : Program P TeecResult := do
  let contextInner : Option Nat ← core (.getBnContext fd)
  match contextInner with
  | none => pure .errorBadParameters
  | some c =>
    let result ← teecOpenSessionInner shm c session connectionMethod connectionData operation
    let _ ← putBnContext (some c)
    pure result.ret

def teecCloseSession (fd : Int) (session : Nat) (sessionId : U32) : Program P Unit := do
  let contextInner : Option Nat ← core (.getBnContext fd)
  match contextInner with
  | none => pure ()
  | some c =>
    let sessionInList : Option Nat ← obj (.findAndRemoveSession c sessionId)
    match sessionInList with
    | none =>
      let _ ← putBnContext (some c)
    | some _ =>
      let _ ← teecCloseSessionInner session c
      let _ ← putBnContext (some c)

def processInvokeCommand (c : Nat) (operation : Option (Operation P)) :
    Program P (InnerResult P) := do
  let fd : Int ← core (.readContextFd c)
  let reply : IoctlReply ← core (.ioctl fd)
  let ret := if reply.ret = 0 then .success else ioctlError (-reply.errno) reply
  pure (.answered ret reply operation)

def teecInvokeCommandInner (c session : Nat) (operation : Option (Operation P)) :
    Program P (InnerResult P) := do
  let checked ← teecCheckOperation shm (fun p => obj (.checkSharedBufferExist c p)) operation
  if checked = .success then
    let _ : Session ← obj (.readSession c session)
    let encoded : Bool ← core .outcome
    if encoded then processInvokeCommand c (operation.map (teecEncode shm))
    else pure (.failed .errorBadParameters operation)
  else pure (.failed checked operation)

def teecInvokeCommand (fd : Int) (session : Nat) (operation : Option (Operation P)) :
    Program P TeecResult := do
  let contextInner : Option Nat ← core (.getBnContext fd)
  match contextInner with
  | none => pure .errorBadParameters
  | some c =>
    let result ← teecInvokeCommandInner shm c session operation
    let _ ← putBnContext (some c)
    pure result.ret

end Sessions

section SharedMemory

variable [OfNat P 16]

def teecRegisterSharedMemoryInner (c shmInner : Nat) (shm : ShmArgs P) : Program P TeecResult :=
  if shm.buffer = 0 ∨ sharedMemoryFlags shm.flags = false then pure .errorBadParameters
  else do
    obj (.insertShm c shmInner shm false uint32Max)
    pure .success

def teecAllocateSharedMemoryInner (c shmInner : Nat) (shm : ShmArgs P) : Program P TeecResult :=
  if checkSharedMemoryParam shm.flags = .success then do
    let validBit : Option Nat ← obj (.getAndSetBit c)
    match validBit with
    | none => pure .errorBadParameters
    | some bit =>
      let buffer : Option { p : P // p ≠ 0 } ← obj (.mapBuffer c)
      let memset : Bool ← core .outcome
      match allocateBuffer { mallocInner := true, buffer, memset } shm with
      | .error e =>
        obj (.clearBit c bit)
        pure e
      | .ok p =>
        obj (.insertShm c shmInner { shm with buffer := p } true (BitVec.ofNat 32 bit))
        pure .success
  else pure .errorBadParameters

/-- `TEEC_RegisterSharedMemory` and `TEEC_AllocateSharedMemory`, by what they do with
the new `TEEC_SharedMemoryInner`, which is allocated before the context is found. -/
def addSharedMemory (inner : Nat → Nat → Program P TeecResult) (fd : Int) :
    Program P TeecResult := do
  let mallocInner : Bool ← core .outcome
  if mallocInner then
    let contextInner : Option Nat ← core (.getBnContext fd)
    match contextInner with
    | none => pure .errorBadParameters
    | some c =>
      let shmInner : Nat ← obj (.mallocShm c)
      let ret ← inner c shmInner
      if ret = .success then
        let _ : Option (SharedMemoryInner P) ← obj (.readShm c shmInner)
        putBnShrMem c shmInner
        let _ ← putBnContext (some c)
        pure ret
      else
        let _ ← putBnContext (some c)
        obj (.freeShm c shmInner)
        pure ret
  else pure .fail

def teecRegisterSharedMemory (fd : Int) (shm : ShmArgs P) : Program P TeecResult :=
  addSharedMemory (teecRegisterSharedMemoryInner · · shm) fd

def teecAllocateSharedMemory (fd : Int) (shm : ShmArgs P) : Program P TeecResult :=
  addSharedMemory (teecAllocateSharedMemoryInner · · shm) fd

def teecReleaseSharedMemoryInner (c : Nat) (shm : ShmArgs P) : Program P Unit := do
  let callFromService : Bool ← core (.readCallFromService c)
  let found : Option Nat ← obj (.findAndRemoveShrMem c callFromService shm)
  match found with
  | none => pure ()
  | some b => putBnShrMem c b

def teecReleaseSharedMemory (fd : Int) (shm : ShmArgs P) : Program P Unit := do
  let contextInner : Option Nat ← core (.getBnContext fd)
  match contextInner with
  | none => pure ()
  | some c =>
    teecReleaseSharedMemoryInner c shm
    let _ ← putBnContext (some c)

end SharedMemory

end TeeClient.Vendor.Api
