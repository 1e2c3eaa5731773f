import Mathlib.Tactic
import TeeClient.Daemon.HandOver
import TeeClient.Vendor.Api

/-! The descriptors that come with a request: how the stub reads them from the parcel,
what the service does with them, and where they are closed (`cadaemon_stub.cpp`, and
`OpenSession` of `cadaemon_service.cpp`).  The functions called on the way answer with
whatever `Answers` says. -/

namespace TeeClient.Daemon.Stub

open ByteMemory Vendor

abbrev CInt := BitVec 32

inductive Descriptor
  | file (fd : CInt)
  | ashmem
  deriving DecidableEq, Repr

/-- The descriptors that were read from the parcel and those that were closed. -/
structure Fds where
  received : List Descriptor
  closed : List Descriptor

abbrev Handling := StateM Fds

inductive StubResult
  | errNone
  | errInvalidData
  | errUnknownObject
  | errUnknownReason
  | minusOne
  | service (ret : TeecResult)
  deriving DecidableEq, Repr

/-- What `ReadAshmem` gives: whether it can be mapped, and what `ReadFromAshmem` gives. -/
structure Ashmem where
  maps : Bool
  data : Option Mem

/-- The operation in a parcel; a field that cannot be read is `none`, and `ionFds i` is what
`ReadFileDescriptor` gives at slot `i`. -/
structure OperationData where
  opFlag : Option Bool
  operation : Option RawOperation
  ionFds : Fin 4 → CInt
  optMemSize : Option U32
  optMem : Option Ashmem

structure OpenData extends OperationData where
  interfaceToken : Bool
  context : Option CInt
  taPath : Option (Option String)
  fdFlag : Option Bool
  fd : CInt
  uuid : Option (BitVec 128)
  connMethod : Option U32

structure InvokeData extends OperationData where
  interfaceToken : Bool
  context : Option CInt
  session : Option U32
  commandID : Option U32

structure SecFileData where
  interfaceToken : Bool
  path : Option (Option String)
  fdFlag : Option Bool
  fd : CInt
  context : Option CInt
  session : Option U32

/-- What is answered on the way.  `callGetBnContext` and `callGetBnSession` give the context
and the session, by their numbers; `inner` answers the actions of the call into the vendor
library. -/
structure Answers where
  callGetBnContext : Option (Nat × Nat)
  callGetBnSession : Option (Nat × Nat)
  fdopen : Bool
  getBnShmByOffset : U32 → Option SharedMemoryInner
  memory : BitVec 64 → SharedMemory Addr
  addTidData : Bool
  inner : Nat → (a : Act Addr) → Resp a
  writeReply : Bool
  writeError : Bool

section Parcel

def readFileDescriptor (fd : CInt) : Handling CInt := do
  if 0 ≤ fd.toInt then modify fun s => { s with received := s.received ++ [.file fd] }
  pure fd

def close (d : Descriptor) : Handling Unit :=
  modify fun s => { s with closed := s.closed ++ [d] }

def closeFd (fd : CInt) : Handling Unit :=
  if 0 ≤ fd.toInt then close (.file fd) else pure ()

def ionShareFds (op : Operation Addr) (is : List (Fin 4)) : List CInt :=
  is.filterMap fun i =>
    if op.paramType i = .ionInput ∧ 0 ≤ (op.params i).ionShareFd then some (op.params i).a else none

def closeDupIonFd (op : Operation Addr) : Handling Unit :=
  (ionShareFds op paramIndices).forM fun fd => close (.file fd)

def readParams (ionFds : Fin 4 → CInt) :
    List (Fin 4) → Operation Addr → Handling (Option (Operation Addr))
  | [], op => pure (some op)
  | i :: is, op =>
    if (op.paramType i).isTempMem || (op.paramType i).isPartialMem then
      readParams ionFds is (op.setParam i (clearPtr (op.params i)))
    else if op.paramType i = .ionInput then do
      let fd ← readFileDescriptor (ionFds i)
      let op := op.setParam i (setIonShareFd (op.params i) fd.toInt)
      if fd.toInt < 0 then
        closeDupIonFd op
        pure none
      else readParams ionFds is op
    else readParams ionFds is op

/-- `GetOperationFromData`: `opFlag` and the operation, of which the caller gives the bytes on
its stack. -/
def getOperationFromData (stack : Operation Addr) (data : OperationData) :
    Handling (Option (Bool × Operation Addr)) :=
  match data.opFlag with
  | none => pure none
  | some false => pure (some (false, stack))
  | some true =>
    match data.operation with
    | none => pure none
    | some wire => do
      let op ← readParams data.ionFds paramIndices (setInvalidIonFd (wire.view .raw))
      pure (op.map (true, ·))

def readFd (fdFlag : Option Bool) (fd : CInt) : Handling (Bool × CInt) :=
  match fdFlag with
  | none => pure (false, -1)
  | some false => pure (true, -1)
  | some true => do
    let fd ← readFileDescriptor fd
    pure (decide (0 ≤ fd.toInt), fd)

def clearAsmMem (optMem : Option Ashmem) : Handling Unit :=
  match optMem with
  | none => pure ()
  | some _ => close .ashmem

/-- `GetOptMemFromData`: the size, unless it fails, and the memory it leaves in `optMem`. -/
def getOptMemFromData (data : OperationData) : Handling (Option U32 × Option Ashmem) :=
  match data.optMemSize with
  | none => pure (none, none)
  | some optMemSize =>
    if optMemSize = 0 then pure (some 0, none)
    else
      match data.optMem with
      | none => pure (none, none)
      | some optMem => do
        modify fun s => { s with received := s.received ++ [.ashmem] }
        pure (if optMem.maps then some optMemSize else none, some optMem)

def readOpenData (data : OpenData) : Handling (Option (CInt × U32)) := do
  let (retTmp, fd) ← readFd data.fdFlag data.fd
  match retTmp, data.uuid, data.connMethod with
  | true, some _, some connMethod => pure (some (fd, connMethod))
  | _, _, _ =>
    closeFd fd
    pure none

end Parcel

section Contents

def OperationData.decoded (data : OperationData) : Option (Operation Addr) :=
  match data.opFlag, data.operation with
  | some true, some wire => Daemon.getOperationFromData (fun i => (data.ionFds i).toInt) wire
  | _, _ => none

def OperationData.mapped (data : OperationData) : Option (U32 × Option Ashmem) :=
  match data.optMemSize with
  | none => none
  | some optMemSize =>
    if optMemSize = 0 then some (0, none)
    else
      match data.optMem with
      | none => none
      | some optMem => if optMem.maps then some (optMemSize, some optMem) else none

def ReadsFd (fdFlag : Option Bool) (fd : CInt) : Prop :=
  fdFlag = some false ∨ fdFlag = some true ∧ 0 ≤ fd.toInt

def OpenData.Opens (data : OpenData) : Prop :=
  ReadsFd data.fdFlag data.fd ∧ data.uuid.isSome ∧ data.connMethod.isSome

instance (fdFlag : Option Bool) (fd : CInt) : Decidable (ReadsFd fdFlag fd) :=
  inferInstanceAs (Decidable (_ ∨ _))

end Contents

section Service

variable (answers : Answers)

def decodeOperation (operation : Option (Operation Addr)) (optMemSize : U32)
    (optMem : Option Ashmem) : TeecResult × Option (Operation Addr) × DecodePara :=
  match operation with
  | none => (.success, none, .zeroed)
  | some op =>
    let (ret, st) := getTeecOptMem (m := Id) answers.getBnShmByOffset op optMemSize
      (optMem.bind (·.data))
    (ret, some st.operation, st.para)

def afterInner (result : Api.InnerResult Addr) : Option (Operation Addr) :=
  match result.outputs with
  | none => result.operation
  | some outputs => result.operation.map (driverWrites outputs)

/-- `CloseTaFile`: `fclose` closes the descriptor under the file. -/
def closeTaFile (taFp : Option CInt) (fd : CInt) : Handling CInt :=
  match taFp with
  | none => pure fd
  | some file => do
    close (.file file)
    pure (-1)

/-- `CaDaemonService::OpenSession`: the result, and what it leaves in `fd` and `operation`. -/
def openSession (fd : CInt) (connectionMethod : U32) (operation : Option (Operation Addr))
    (optMemSize : U32) (optMem : Option Ashmem) :
    Handling (TeecResult × CInt × Option (Operation Addr)) :=
  let failed : TeecResult := if answers.writeError then .success else .fail
  match answers.callGetBnContext with
  | none => pure (failed, fd, operation)
  | some (c, session) => do
    let taFp := if 0 ≤ fd.toInt ∧ answers.fdopen then some fd else none
    let (ret, operation, para) := decodeOperation answers operation optMemSize optMem
    if ret = .success ∧ answers.addTidData then
      let result := (Api.teecOpenSessionInner (parentAt answers.memory para) c session
        connectionMethod false operation).eval answers.inner 0
      let fd ← closeTaFile taFp fd
      if result.ret = .success ∧ answers.writeReply then pure (.success, fd, afterInner result)
      else pure (failed, fd, afterInner result)
    else
      let fd ← closeTaFile taFp fd
      pure (failed, fd, operation)

def invokeCommand (operation : Option (Operation Addr)) (optMemSize : U32)
    (optMem : Option Ashmem) : TeecResult × Option (Operation Addr) :=
  let written : TeecResult := if answers.writeReply then .success else .fail
  match answers.callGetBnSession with
  | none => (written, operation)
  | some (c, session) =>
    let (ret, operation, para) := decodeOperation answers operation optMemSize optMem
    if ret = .success ∧ answers.addTidData then
      let result := (Api.teecInvokeCommandInner (parentAt answers.memory para) c session
        operation).eval answers.inner 0
      (written, afterInner result)
    else (written, operation)

end Service

section RecvProc

variable (stack : Operation Addr) (answers : Answers)

def closeOpenSession (optMem : Option Ashmem) (operation : Operation Addr) (fd : CInt) :
    Handling Unit := do
  clearAsmMem optMem
  closeDupIonFd operation
  closeFd fd

def serveOpenSession (data : OpenData) (fd : CInt) (connMethod : U32) (opFlag : Bool)
    (operation : Operation Addr) : Handling StubResult := do
  match ← getOptMemFromData data.toOperationData with
  | (none, optMem) =>
    closeOpenSession optMem operation fd
    pure .errUnknownObject
  | (some optMemSize, optMem) =>
    let passed := if opFlag then some operation else none
    let (ret, fd, operation') ← openSession answers fd connMethod passed optMemSize optMem
    closeOpenSession optMem (operation'.getD operation) fd
    pure (.service ret)

/-- `OpenSessionRecvProc`; `stack` is what `operation` holds before anything is written to it. -/
def openSessionRecvProc (data : OpenData) : Handling StubResult :=
  if data.interfaceToken then
    match data.context, data.taPath with
    | some _, some _ => do
      match ← readOpenData data with
      | none => pure .errUnknownObject
      | some (fd, connMethod) =>
        match ← getOperationFromData stack data.toOperationData with
        | none =>
          closeFd fd
          pure .errUnknownObject
        | some (opFlag, operation) =>
          serveOpenSession answers data fd connMethod opFlag operation
    | _, _ => pure .errUnknownObject
  else pure .minusOne

def serveInvokeCommand (data : InvokeData) (opFlag : Bool) (operation : Operation Addr) :
    Handling StubResult := do
  match ← getOptMemFromData data.toOperationData with
  | (none, optMem) =>
    clearAsmMem optMem
    closeDupIonFd operation
    pure .errUnknownObject
  | (some optMemSize, optMem) =>
    let passed := if opFlag then some operation else none
    let (ret, operation') := invokeCommand answers passed optMemSize optMem
    clearAsmMem optMem
    closeDupIonFd (operation'.getD operation)
    pure (.service ret)

def invokeCommandRecvProc (data : InvokeData) : Handling StubResult :=
  if data.interfaceToken then
    match data.context, data.session, data.commandID with
    | some _, some _, some _ => do
      match ← getOperationFromData stack data.toOperationData with
      | none => pure .errUnknownObject
      | some (opFlag, operation) => serveInvokeCommand answers data opFlag operation
    | _, _, _ => pure .errUnknownObject
  else pure .minusOne

def sendSecFileRecvProc (data : SecFileData) : Handling StubResult :=
  if data.interfaceToken then
    match data.path with
    | none => pure .errUnknownObject
    | some _ => do
      let (_, fd) ← readFd data.fdFlag data.fd
      if fd.toInt < 0 then pure .errUnknownObject
      else
        match data.context, data.session with
        | some _, some _ =>
          if answers.fdopen then
            -- within `fclose` the descriptor is closed
            close (.file fd)
            pure .errNone
          else
            close (.file fd)
            pure .errInvalidData
        | _, _ =>
          close (.file fd)
          pure .errUnknownObject
  else pure .minusOne

inductive Message
  | openSession (data : OpenData)
  | invokeCommand (data : InvokeData)
  | sendSecFile (data : SecFileData)

def recvProc : Message → Handling StubResult
  | .openSession data => openSessionRecvProc stack answers data
  | .invokeCommand data => invokeCommandRecvProc stack answers data
  | .sendSecFile data => sendSecFileRecvProc answers data

end RecvProc

end TeeClient.Daemon.Stub
