import Mathlib.Tactic
import TeeClient.Daemon.Descriptors
import TeeClient.Vendor.ApiLaws

/-! The requests of `cadaemon` as programs over the critical sections of `World`: the stub
(`cadaemon_stub.cpp`), which takes a message apart, and the service
(`cadaemon_service.cpp`).  `pointer` says which address a number in a message names, and
`memory` what the daemon's memory holds at a number. -/

namespace TeeClient.Daemon.Service

open Vendor Vendor.Api Stub
open Resumption (Prog)

/-- What is written into the reply.  A session, an operation or a shared memory is copied
with its pointers cleared. -/
inductive ReplyItem
  | uint32 (n : U32)
  | result (ret : TeecResult)
  | contextFd (fd : Int)
  | bool (b : Bool)
  | session (sessionId : U32) (opsCnt : Nat) (serviceId : BitVec 128)
  | operation (op : Operation Addr)
  | sharedMem (size flags : U32) (opsCnt : Nat) (isAllocated : Bool)
  | fileDescriptor (fd : Int)

abbrev Reply := List ReplyItem

structure ShmData where
  buffer : BitVec 64
  size : U32
  flags : U32
  opsCnt : U32
  isAllocated : Bool

section Replies

def writeItems : List ReplyItem → Program Addr (Bool × Reply)
  | [] => pure (true, [])
  | item :: items => do
    let written : Bool ← core .writeParcel
    if written then
      let (writeRet, reply) ← writeItems items
      pure (writeRet, item :: reply)
    else pure (false, [])

def retOperation (op : Operation Addr) : Operation Addr :=
  { op with params := fun i =>
      if (op.paramType i).isTempMem || (op.paramType i).isPartialMem then clearPtr (op.params i)
      else op.params i }

def writeOperation (operation : Option (Operation Addr)) : Program Addr (Bool × Reply) :=
  match operation with
  | none => writeItems [.bool false]
  | some op => writeItems [.bool true, .operation (retOperation op)]

/-- `WriteSession`, which copies the session after its first field is written. -/
def writeSession (c session : Nat) (serviceId : BitVec 128) : Program Addr (Bool × Reply) := do
  let (writeRet, reply) ← writeItems [.bool true]
  if writeRet then
    let retSession : Vendor.Session ← obj (.readSession c session)
    let (writeRet, rest) ← writeItems [.session retSession.sessionId retSession.opsCnt serviceId]
    pure (writeRet, reply ++ rest)
  else pure (false, reply)

def recOpenReply (returnOrigin : U32) (ret : TeecResult) (c session : Nat) (serviceId : BitVec 128)
    (operation : Option (Operation Addr)) : Program Addr (Bool × Reply) := do
  let (writeRet, reply) ← writeItems [.uint32 returnOrigin, .result ret]
  if writeRet = true ∧ ret = .success then
    let (writeRet, sent) ← writeSession c session serviceId
    if writeRet then
      let (writeRet, rest) ← writeOperation operation
      pure (writeRet, reply ++ sent ++ rest)
    else pure (false, reply ++ sent)
  else pure (false, reply)

def written (writeRet : Bool) : TeecResult := if writeRet then .success else .fail

end Replies

section Contexts

variable (identity : CallerIdentity)

def putBnContextAndReleaseFd (pid : Int) (outContext : Option Nat) : Program Addr Unit :=
  match outContext with
  | none => pure ()
  | some c => do
    let contextFd : Int ← core (.readContextFd c)
    core .lockProcData
    let cleared ← putBnContext (some c)
    if cleared then core (.releaseProcData pid contextFd) else pure ()
    core .unlockProcData

def callFinalizeContext (pid : Int) (fd : Int) : Program Addr TeecResult := do
  let outContext : Option Nat ← core (.findAndRemoveBnContext fd)
  match outContext with
  | none => pure .fail
  | some c =>
    putBnContextAndReleaseFd pid (some c)
    pure .success

def releaseContext (pid : Int) (c : Nat) : Program Addr Unit := do
  putBnContextAndReleaseFd pid (some c)
  let fd : Int ← core (.readContextFd c)
  let _ ← callFinalizeContext pid fd

def recordContext (c : Nat) : Program Addr (TeecResult × Reply) := do
  core (.setCallFromService c)
  let recorded : Bool ← core (.setContextToProcData identity c)
  if recorded then
    let (writeRet, reply) ← writeItems [.result .success]
    if writeRet then
      let fd : Int ← core (.readContextFd c)
      let (writeRet, rest) ← writeItems [.contextFd fd]
      if writeRet then
        putBnContextAndReleaseFd identity.pid (some c)
        pure (.success, reply ++ rest)
      else
        releaseContext identity.pid c
        pure (.fail, reply ++ rest)
    else
      releaseContext identity.pid c
      pure (.fail, reply)
  else
    releaseContext identity.pid c
    pure (.fail, [])

def initializeContext : Program Addr (TeecResult × Reply) := do
  let contextInner : Option Nat ← core (.mallocContext identity)
  let caInfo : Bool ← core .outcome
  match contextInner with
  | none => pure (.fail, [])
  | some c =>
    -- `InitCaAuthInfo` needs the memory of `caInfo`
    let authInfo : Bool ← if caInfo then core .outcome else pure false
    if authInfo then
      let ret ← teecInitializeContextInner false c
      if ret = .success then recordContext identity c
      else
        core (.freeContext c)
        pure (ret, [])
    else
      core (.freeContext c)
      pure (.fail, [])

def finalizeContext (fd : Int) : Program Addr TeecResult := do
  let valid : Bool ← core (.isValidContext fd identity)
  if valid then callFinalizeContext identity.pid fd else pure .fail

end Contexts

section Sessions

variable (memory : BitVec 64 → SharedMemory Addr) (identity : CallerIdentity)

def callGetBnContext (fd : Int) : Program Addr (Except TeecResult (Nat × Nat)) := do
  let valid : Bool ← core (.isValidContext fd identity)
  if valid then
    let tempContext : Option Nat ← core (.getBnContext fd)
    match tempContext with
    | none => pure (.error .errorBadParameters)
    | some c =>
      let tempSession : Option Nat ← obj (.mallocSession c)
      match tempSession with
      | none =>
        putBnContextAndReleaseFd identity.pid (some c)
        pure (.error .fail)
      | some session => pure (.ok (c, session))
  else pure (.error .fail)

def callGetBnSession (fd : Int) (sessionId : U32) :
    Program Addr (Except TeecResult (Nat × Nat)) := do
  let valid : Bool ← core (.isValidContext fd identity)
  if valid then
    let tmpContext : Option Nat ← core (.getBnContext fd)
    match tmpContext with
    | none => pure (.error .errorBadParameters)
    | some c =>
      let tmpSession : Option Nat ← obj (.getBnSession c sessionId)
      match tmpSession with
      | none =>
        putBnContextAndReleaseFd identity.pid (some c)
        pure (.error .errorBadParameters)
      | some session => pure (.ok (c, session))
  else pure (.error .fail)

/-- `GetTeecOptMem` for the context `c`; a missing operation is left alone. -/
def decode (c : Nat) (operation : Option (Operation Addr)) (optMemSize : U32)
    (optMem : Option Ashmem) : Program Addr (TeecResult × Option (Operation Addr) × DecodePara) :=
  match operation with
  | none => pure (.success, none, .zeroed)
  | some op => do
    let (ret, st) ← getTeecOptMem (fun shmOffset => obj (.getBnShmByOffset c shmOffset)) op
      optMemSize (optMem.bind (·.data))
    pure (ret, some st.operation, st.para)

def putAllocShrMem (c : Nat) (para : DecodePara) : Program Addr Unit :=
  Prog.each (putBnShrMem c) (paramIndices.filterMap fun i => (para.shmInner i).map (·.id))

def openSessionError (returnOrigin : U32) (ret : TeecResult) (reply : Reply) :
    Program Addr (TeecResult × Reply) := do
  let (writeRet, rest) ← writeItems [.uint32 returnOrigin, .result ret]
  pure (written writeRet, reply ++ rest)

def openSession (fd : Int) (destination : BitVec 128) (connectionMethod : U32)
    (operation : Option (Operation Addr)) (optMemSize : U32) (optMem : Option Ashmem) :
    Program Addr (TeecResult × Reply) := do
  match ← callGetBnContext identity fd with
  | .error ret => openSessionError originApi ret []
  | .ok (c, session) =>
    let (ret, operation, para) ← decode c operation optMemSize optMem
    if ret = .success then
      let addTidData : Bool ← core .addTidData
      if addTidData then
        let result ← teecOpenSessionInner (parentAt memory para) c session connectionMethod false
          operation
        putAllocShrMem c para
        putBnContextAndReleaseFd identity.pid (some c)
        let (writeRet, reply) ← recOpenReply result.returnOrigin result.ret c session destination
          (afterInner result)
        if writeRet then
          putBnSession c session
          pure (.success, reply)
        else
          obj (.freeSession c session)
          openSessionError result.returnOrigin result.ret reply
      else
        obj (.freeSession c session)
        openSessionError originApi .fail []
    else
      obj (.freeSession c session)
      openSessionError originApi ret []

def invokeCommandEnd (returnOrigin : U32) (ret : TeecResult) (operation : Option (Operation Addr)) :
    Program Addr (TeecResult × Reply) := do
  let (writeRet, reply) ← writeItems [.uint32 returnOrigin, .result ret]
  if writeRet then
    let (writeRet, rest) ← writeOperation operation
    pure (written writeRet, reply ++ rest)
  else pure (.fail, reply)

def invokeCommand (fd : Int) (sessionId : U32) (operation : Option (Operation Addr))
    (optMemSize : U32) (optMem : Option Ashmem) : Program Addr (TeecResult × Reply) := do
  match ← callGetBnSession identity fd sessionId with
  | .error ret => invokeCommandEnd originApi ret operation
  | .ok (c, session) =>
    let (ret, operation, para) ← decode c operation optMemSize optMem
    if ret = .success then
      let addTidData : Bool ← core .addTidData
      if addTidData then
        let result ← teecInvokeCommandInner (parentAt memory para) c session operation
        putAllocShrMem c para
        putBnSession c session
        putBnContextAndReleaseFd identity.pid (some c)
        invokeCommandEnd result.returnOrigin result.ret (afterInner result)
      else
        putBnSession c session
        putBnContextAndReleaseFd identity.pid (some c)
        -- `ret` is still what `GetTeecOptMem` gave
        invokeCommandEnd originApi ret operation
    else
      putBnSession c session
      putBnContextAndReleaseFd identity.pid (some c)
      invokeCommandEnd originApi ret operation

def closeSession (fd : Int) (sessionId : U32) : Program Addr TeecResult := do
  let valid : Bool ← core (.isValidContext fd identity)
  if valid then
    let outContext : Option Nat ← core (.getBnContext fd)
    match outContext with
    | none => pure .fail
    | some c =>
      let outSession : Option Nat ← obj (.findAndRemoveSession c sessionId)
      match outSession with
      | none =>
        putBnContextAndReleaseFd identity.pid (some c)
        pure .fail
      | some session =>
        let addTidData : Bool ← core .addTidData
        if addTidData then
          let _ ← teecCloseSessionInner session c
          putBnSession c session
          putBnContextAndReleaseFd identity.pid (some c)
          pure .success
        else pure .fail
  else pure .fail

end Sessions

section SharedMemories

variable (pointer : BitVec 64 → Addr) (identity : CallerIdentity)

def shmArgs (sharedMem : ShmData) (offset : U32) : ShmArgs Addr where
  buffer := pointer sharedMem.buffer
  size := sharedMem.size
  flags := sharedMem.flags
  isAllocated := sharedMem.isAllocated
  offset

def shmItem (sharedMem : ShmData) (outShm : Option (Daemon.SharedMemoryInner)) : ReplyItem :=
  .sharedMem sharedMem.size sharedMem.flags (outShm.elim 0 (·.opsCnt))
    (outShm.elim false (·.isAllocated))

def shmError (ret : TeecResult) : Program Addr (TeecResult × Reply) := do
  let (writeRet, reply) ← writeItems [.result ret]
  pure (written writeRet, reply)

def registerSharedMemoryReply (c outShm : Nat) (sharedMem : ShmData) :
    Program Addr (TeecResult × Reply) := do
  putBnShrMem c outShm
  putBnContextAndReleaseFd identity.pid (some c)
  let shm : Option (Daemon.SharedMemoryInner) ← obj (.readShm c outShm)
  let (writeRet, reply) ← writeItems [.result .success, shmItem sharedMem shm]
  if writeRet then
    let shm : Option (Daemon.SharedMemoryInner) ← obj (.readShm c outShm)
    let (writeRet, rest) ← writeItems [.uint32 (shm.elim 0 (·.offset))]
    pure (written writeRet, reply ++ rest)
  else pure (.fail, reply)

def registerSharedMemory (fd : Int) (sharedMem : ShmData) : Program Addr (TeecResult × Reply) := do
  let valid : Bool ← core (.isValidContext fd identity)
  if valid then
    let outContext : Option Nat ← core (.getBnContext fd)
    match outContext with
    | none => shmError .errorBadParameters
    | some c =>
      let mallocInner : Bool ← core .outcome
      if mallocInner then
        let outShm : Nat ← obj (.mallocShm c)
        let ret ← teecRegisterSharedMemoryInner c outShm (shmArgs pointer sharedMem 0)
        if ret = .success then registerSharedMemoryReply identity c outShm sharedMem
        else
          obj (.freeShm c outShm)
          putBnContextAndReleaseFd identity.pid (some c)
          shmError ret
      else shmError .fail
  else shmError .fail

def allocateSharedMemory (fd : Int) (sharedMem : ShmData) : Program Addr (TeecResult × Reply) := do
  let valid : Bool ← core (.isValidContext fd identity)
  if valid then
    let outContext : Option Nat ← core (.getBnContext fd)
    match outContext with
    | none => shmError .errorBadParameters
    | some c =>
      let mallocInner : Bool ← core .outcome
      if mallocInner then
        let outShm : Nat ← obj (.mallocShm c)
        let ret ← teecAllocateSharedMemoryInner c outShm (shmArgs pointer sharedMem 0)
        if ret = .success then
          let shm : Option (Daemon.SharedMemoryInner) ← obj (.readShm c outShm)
          let fd : Int ← core (.readContextFd c)
          -- `RecAllocReply`
          let (writeRet, reply) ← writeItems [.result .success, shmItem sharedMem shm,
            .uint32 (shm.elim 0 (·.offset)), .fileDescriptor fd]
          putBnShrMem c outShm
          putBnContextAndReleaseFd identity.pid (some c)
          if writeRet then pure (.success, reply)
          else
            obj (.unlinkShm c outShm)
            putBnShrMem c outShm
            pure (.fail, reply)
        else
          obj (.freeShm c outShm)
          putBnContextAndReleaseFd identity.pid (some c)
          shmError ret
      else
        putBnContextAndReleaseFd identity.pid (some c)
        shmError .fail
  else shmError .fail

def releaseSharedMemory (fd : Int) (sharedMem : ShmData) (shmOffset : U32) :
    Program Addr TeecResult := do
  let valid : Bool ← core (.isValidContext fd identity)
  if valid then
    let outContext : Option Nat ← core (.getBnContext fd)
    match outContext with
    | none => pure .errorBadParameters
    | some c =>
      teecReleaseSharedMemoryInner c (shmArgs pointer sharedMem shmOffset)
      putBnContextAndReleaseFd identity.pid (some c)
      pure .success
  else pure .errorBadParameters

end SharedMemories

section Others

/-- `LoadSecFile`, with `GetImgLen`, `malloc` and `fread` as one outcome. -/
def loadSecFile (tzFd : Int) : Program Addr Int :=
  if tzFd < 0 then pure (-1)
  else do
    let read : Bool ← core .outcome
    if read then
      let reply : IoctlReply ← core (.ioctl tzFd)
      pure reply.ret
    else pure (-1)

def sendSecfile (path : Option String) (fd : Int) : Program Addr (TeecResult × Reply) :=
  match path with
  | none => pure (.errorBadParameters, [])
  | some _ => do
    let ret ← loadSecFile fd
    let teecRet : TeecResult := if ret < 0 then .errorTrustedAppLoadError else .success
    let (writeRet, reply) ← writeItems [.result teecRet]
    pure (written writeRet, reply)

def setCallBack (pid : Int) : Program Addr Bool := core (.addClient pid)

def cleanContext (fd : Int) : Program Addr Unit := do
  let outContext : Option Nat ← core (.findAndRemoveBnContext fd)
  let _ ← putBnContext outContext

def processCaDied (pid : Int) : Program Addr Unit := do
  let outProcData : Option DaemonProcdata ← core (.takeProcData pid)
  match outProcData with
  | none => pure ()
  | some procData => Prog.each cleanContext (procData.cxtFd.filter (· ≠ -1))

def onRemoteDied (pid : Int) : Program Addr Unit := do
  let clients : Nat ← core (.lockClients pid)
  Prog.each (fun _ => do
    processCaDied pid
    core (.eraseClient pid)) (List.replicate clients ())
  core .unlockClients

end Others

section Stub

inductive IpcMessage
  | initContext (interfaceToken : Bool) (name : Option (Option String))
  | finalContext (interfaceToken : Bool) (context : Option CInt)
  | openSession (data : OpenData)
  | closeSession (interfaceToken : Bool) (context : Option CInt) (session : Option U32)
  | invokeCommand (data : InvokeData)
  | registerMem (interfaceToken : Bool) (context : Option CInt) (sharedMem : Option ShmData)
  | allocMem (interfaceToken : Bool) (context : Option CInt) (sharedMem : Option ShmData)
  | releaseMem (interfaceToken : Bool) (context : Option CInt) (sharedMem : Option ShmData)
      (shmOffset : Option U32)
  | setCallBack (interfaceToken : Bool) (notify : Bool)
  | sendSecFile (data : SecFileData)
  | getTeeVersion

/-- The operation that the service is called with: `none` inside when the message has none. -/
def passedOperation (data : OperationData) : Option (Option (Operation Addr)) :=
  match data.opFlag with
  | none => none
  | some false => some none
  | some true => data.decoded.map some

def stubResult (ret : TeecResult) : StubResult :=
  if ret = .success then .errNone else .errUnknownReason

variable (stack : Operation Addr) (memory : BitVec 64 → SharedMemory Addr)
variable (pointer : BitVec 64 → Addr) (identity : CallerIdentity)

/-- `CloseDupIonFd` of a message without an operation: the local was never written, and its slots
are what lay on the stack.  The descriptors that come with a message are no context's. -/
def closeDupIonFd (opFlag : Option Bool) : Program Addr Unit :=
  if opFlag = some false then
    Prog.each (fun fd => forget (core (.closeDupFd fd.toInt))) (ionShareFds stack paramIndices)
  else pure ()

def openSessionRecvProc (data : OpenData) : Program Addr (StubResult × Reply) :=
  if data.interfaceToken then
    match data.context, data.taPath, data.uuid, data.connMethod with
    | some context, some _, some uuid, some connMethod =>
      if ReadsFd data.fdFlag data.fd then
        match passedOperation data.toOperationData with
        | none => pure (.errUnknownObject, [])
        | some operation =>
          match data.mapped with
          | none => do
            closeDupIonFd stack data.opFlag
            pure (.errUnknownObject, [])
          | some (optMemSize, optMem) => do
            let (ret, reply) ← openSession memory identity context.toInt uuid connMethod operation
              optMemSize optMem
            closeDupIonFd stack data.opFlag
            pure (.service ret, reply)
      else pure (.errUnknownObject, [])
    | _, _, _, _ => pure (.errUnknownObject, [])
  else pure (.minusOne, [])

def invokeCommandRecvProc (data : InvokeData) : Program Addr (StubResult × Reply) :=
  if data.interfaceToken then
    match data.context, data.session, data.commandID with
    | some context, some session, some _ =>
      match passedOperation data.toOperationData with
      | none => pure (.errUnknownObject, [])
      | some operation =>
        match data.mapped with
        | none => do
          closeDupIonFd stack data.opFlag
          pure (.errUnknownObject, [])
        | some (optMemSize, optMem) => do
          let (ret, reply) ← invokeCommand memory identity context.toInt session operation
            optMemSize optMem
          closeDupIonFd stack data.opFlag
          pure (.service ret, reply)
    | _, _, _ => pure (.errUnknownObject, [])
  else pure (.minusOne, [])

def sendSecFileRecvProc (data : SecFileData) : Program Addr (StubResult × Reply) :=
  if data.interfaceToken then
    match data.path with
    | none => pure (.errUnknownObject, [])
    | some path =>
      if data.fdFlag = some true ∧ 0 ≤ data.fd.toInt then
        match data.context, data.session with
        | some context, some _ => do
          let fdopen : Bool ← core .outcome
          if fdopen then
            let (_, reply) ← sendSecfile path context.toInt
            pure (.errNone, reply)
          else pure (.errInvalidData, [])
        | _, _ => pure (.errUnknownObject, [])
      else pure (.errUnknownObject, [])
  else pure (.minusOne, [])

def shmRecvProc (interfaceToken : Bool) (context : Option CInt) (sharedMem : Option ShmData)
    (serve : Int → ShmData → Program Addr (StubResult × Reply)) :
    Program Addr (StubResult × Reply) :=
  if interfaceToken then
    match context, sharedMem with
    | some context, some sharedMem => serve context.toInt sharedMem
    | _, _ => pure (.errUnknownObject, [])
  else pure (.minusOne, [])

/-- `OnRemoteRequest` for the codes of `CadaemonOperationInterfaceCode`; `stack` is what a local
`operation` holds before anything is written to it. -/
def onRemoteRequest (teeVersion : U32) : IpcMessage → Program Addr (StubResult × Reply)
  | .initContext interfaceToken name =>
    if interfaceToken then
      match name with
      | none => pure (.errUnknownObject, [])
      | some _ => do
        let (ret, reply) ← initializeContext identity
        pure (stubResult ret, reply)
    else pure (.errUnknownReason, [])
  | .finalContext interfaceToken context =>
    if interfaceToken then
      match context with
      | none => pure (.errUnknownObject, [])
      | some context => do
        let ret ← finalizeContext identity context.toInt
        pure (stubResult ret, [])
    else pure (.minusOne, [])
  | .openSession data => openSessionRecvProc stack memory identity data
  | .closeSession interfaceToken context session =>
    if interfaceToken then
      match context, session with
      | some context, some session => do
        let ret ← closeSession identity context.toInt session
        pure (stubResult ret, [])
      | _, _ => pure (.errUnknownObject, [])
    else pure (.minusOne, [])
  | .invokeCommand data => invokeCommandRecvProc stack memory identity data
  | .registerMem interfaceToken context sharedMem =>
    shmRecvProc interfaceToken context sharedMem fun fd sharedMem => do
      let (ret, reply) ← registerSharedMemory pointer identity fd sharedMem
      pure (stubResult ret, reply)
  | .allocMem interfaceToken context sharedMem =>
    shmRecvProc interfaceToken context sharedMem fun fd sharedMem => do
      let (ret, reply) ← allocateSharedMemory pointer identity fd sharedMem
      pure (stubResult ret, reply)
  | .releaseMem interfaceToken context sharedMem shmOffset =>
    shmRecvProc interfaceToken context sharedMem fun fd sharedMem =>
      match shmOffset with
      | none => pure (.errUnknownObject, [])
      | some shmOffset => do
        let _ ← releaseSharedMemory pointer identity fd sharedMem shmOffset
        pure (.errNone, [])
  | .setCallBack interfaceToken notify =>
    if interfaceToken then
      if notify then do
        let added ← setCallBack identity.pid
        pure (if added then .errNone else .errUnknownReason, [])
      else pure (.errNone, [])
    else pure (.minusOne, [])
  | .sendSecFile data => sendSecFileRecvProc data
  | .getTeeVersion => do
    let (_, reply) ← writeItems [.uint32 teeVersion]
    pure (.errNone, reply)

/-- The number of a driver descriptor that the message supplies. -/
def IpcMessage.contextFd : IpcMessage → Option Int
  | .finalContext _ context | .closeSession _ context _ | .registerMem _ context _
  | .allocMem _ context _ | .releaseMem _ context _ _ => context.map (·.toInt)
  | .openSession data => data.context.map (·.toInt)
  | .invokeCommand data => data.context.map (·.toInt)
  | .sendSecFile data => data.context.map (·.toInt)
  | .initContext _ _ | .setCallBack _ _ | .getTeeVersion => none

end Stub

section Tasks

/-- What the threads of the daemon work on: a request of a caller, or the notification that a
process has died. -/
inductive Task
  | request (identity : CallerIdentity) (message : IpcMessage)
  | caDied (pid : Int)

variable (stack : Operation Addr) (memory : BitVec 64 → SharedMemory Addr)
variable (pointer : BitVec 64 → Addr) (teeVersion : U32)

def Task.program : Task → Program Addr Unit
  | .request identity message =>
    forget (onRemoteRequest stack memory pointer identity teeVersion message)
  | .caDied pid => onRemoteDied pid

def noObjects : Objects Addr where
  session _ := { sessionId := 0, opsCnt := 0, home := 0, frees := 0, wasListed := false }
  nextSession := 0
  sessionList _ := []
  shm _ := .init
  shmFate _ _ := { frees := 0, wasListed := false }

def stackBytes (paramTypes word : U32) : Operation Addr where
  started := 0
  paramTypes
  params _ := { ptr := .raw 0, a := word, b := 0, size := 0, offset := 0 }
  cancelFlag := false

def noMemory (_ : BitVec 64) : SharedMemory Addr := DecodePara.zeroed.shm 0

def answer (ok : Bool) (fd : Int) : Env Addr where
  ok
  fd
  reply := noReply
  buffer := none

end Tasks

end TeeClient.Daemon.Service
