import Mathlib.Data.List.TakeWhile
import Mathlib.Tactic
import TeeClient.Daemon.OperationLaws
import TeeClient.Lib.Parcel

/-! The requests that carry a string from `libteec` (`tee_client.cpp`) to the daemon
(`cadaemon_stub.cpp`): how the client writes them into a `MessageParcel`, and how the daemon
reads them. -/

namespace TeeClient.Marshal

open Parcels

section Values

structure CStr where
  text : List Byte
  noNul : 0 ∉ text
  deriving DecidableEq

def pathMax : Nat := 4096

def CStr.empty : CStr := ⟨[], List.not_mem_nil⟩

def cStr (s : List Byte) : CStr where
  text := s.takeWhile (· ≠ 0)
  noNul h := by simpa using List.mem_takeWhile_imp h

def CStr.strnlen (s : CStr) (maxLen : Nat) : Nat := min s.text.length maxLen

theorem cStr_text (s : CStr) : cStr s.text = s := by
  have h : s.text.takeWhile (· ≠ 0) = s.text := by
    rw [List.takeWhile_eq_self_iff]
    intro b hb
    have hne : b ≠ 0 := by
      rintro rfl
      exact s.noNul hb
    simpa using hne
  cases s with
  | mk text noNul =>
    simp only [cStr, CStr.mk.injEq]
    exact h

/-- `TEEC_Context`, as far as the daemon reads it; `taPath` is a pointer of the client. -/
structure TeecContext where
  fd : Int
  taPath : BitVec 64
  deriving DecidableEq

structure TeecSession where
  sessionId : U32
  serviceId : BitVec 128
  opsCnt : U32
  deriving DecidableEq

/-- The items of a parcel.  A buffer is told by what it holds, an anonymous shared memory is
read and mapped at once. -/
inductive Kind
  | interfaceToken
  | uint32
  | string
  | bool
  | fileDescriptor
  | ashmem
  | context
  | uuid
  | operation
  | session
  deriving DecidableEq

abbrev Kind.Val : Kind → Type
  | .interfaceToken => List Char
  | .uint32 => U32
  | .string => List Byte
  | .bool => Bool
  | .fileDescriptor => Int
  | .ashmem => Nat
  | .context => TeecContext
  | .uuid => BitVec 128
  | .operation => RawOperation
  | .session => TeecSession

/-- Descriptors arrive under the numbers of the process that receives them. -/
def deliver (received : Int → Int) : (k : Kind) → k.Val → k.Val
  | .fileDescriptor, fd => received fd
  | .interfaceToken, t => t
  | .uint32, n => n
  | .string, s => s
  | .bool, b => b
  | .ashmem, a => a
  | .context, c => c
  | .uuid, u => u
  | .operation, op => op
  | .session, s => s

abbrev MessageParcel (P : Type) := Parcel P Kind Kind.Val

def interfaceToken : List Char := "ohos.tee_client.accessToken".toList

end Values

section Client

variable {P : Type} (m : MessageParcel P)

def writeChar (srcStr : Option CStr) : StateT P Option Unit :=
  match srcStr with
  | none => m.write .uint32 0
  | some srcStr =>
    if srcStr.strnlen pathMax = pathMax then failure
    else do
      m.write .uint32 (BitVec.ofNat 32 srcStr.text.length)
      m.write .string srcStr.text

def writeToken : StateT P Option Unit :=
  fun p => some ((m.write .interfaceToken interfaceToken p).getD ((), p))

/-- `context->ta_path` -/
def taPathOf (mem : BitVec 64 → CStr) (context : TeecContext) : Option CStr :=
  if context.taPath = 0 then none else some (mem context.taPath)

def writeFd (fd : Int) : StateT P Option Unit :=
  if fd < 0 then m.write .bool false
  else do
    m.write .bool true
    m.write .fileDescriptor fd

def writeOpenData (mem : BitVec 64 → CStr) (context : TeecContext) (fd : Int)
    (destination : BitVec 128) (connectionMethod : U32) : StateT P Option Unit := do
  writeToken m
  m.write .context context
  writeChar m (taPathOf mem context)
  writeFd m fd
  m.write .uuid destination
  m.write .uint32 connectionMethod

def writeOperation (operation : Option RawOperation) : StateT P Option Unit :=
  match operation with
  | none => m.write .bool false
  | some operation => do
    m.write .bool true
    m.write .operation operation

def ionShareFd (operation : RawOperation) (i : Fin 4) : Int :=
  ((operation.params i).view (P := BitVec 64) id).ionShareFd

def writeIonFds (operation : RawOperation) : List (Fin 4) → StateT P Option Unit
  | [] => pure ()
  | i :: is => do
    if operation.paramType i = .ionInput then
      m.write .fileDescriptor (ionShareFd operation i)
    else pure ()
    writeIonFds operation is

def writeIonFd (operation : Option RawOperation) : StateT P Option Unit :=
  match operation with
  | none => pure ()
  | some operation => writeIonFds m operation paramIndices

/-- A request with a string, as the client makes it.  `mem` reads the strings of the client,
`optMemSize` is bounded by `GetOptMemSize`. -/
inductive Request
  | initializeContext (name : Option CStr)
  | openSession (mem : BitVec 64 → CStr) (context : TeecContext) (fd : Int)
      (destination : BitVec 128) (connectionMethod : U32) (operation : Option RawOperation)
      (optMemSize : U32) (optMem : Nat)
  | sendSecfile (path : CStr) (fd : Int) (context : TeecContext) (session : TeecSession)

def Request.write : Request → StateT P Option Unit
  | .initializeContext name => do
    writeToken m
    writeChar m name
  | .openSession mem context fd destination connectionMethod operation optMemSize optMem => do
    writeOpenData m mem context fd destination connectionMethod
    writeOperation m operation
    writeIonFd m operation
    m.write .uint32 optMemSize
    if 0 < optMemSize then m.write .ashmem optMem else pure ()
  | .sendSecfile path fd context session => do
    writeToken m
    writeChar m (some path)
    m.write .bool true
    m.write .fileDescriptor fd
    m.write .context context
    m.write .session session

end Client

section Daemon

variable {P : Type} (m : MessageParcel P)

def getChar : StateT P Option (Option CStr) := do
  let strLen : U32 ← m.read .uint32
  if 0 < strLen then
    let tempStr ← m.read .string
    let str := cStr tempStr
    if str.strnlen pathMax = pathMax ∨ strLen.toNat ≠ str.strnlen pathMax then failure
    else pure (some str)
  else pure none

def enforceInterfaceToken : StateT P Option Unit := do
  let token ← m.read .interfaceToken
  guard (token = interfaceToken)

def readFd : StateT P Option Int := do
  if ← m.read .bool then
    let fd : Int ← m.read .fileDescriptor
    if fd < 0 then failure else pure fd
  else pure (-1)

def readParams : List (Fin 4) → Operation Daemon.Addr → StateT P Option (Operation Daemon.Addr)
  | [], op => pure op
  | i :: is, op => do
    let ionFd ← if op.paramType i = .ionInput then m.read .fileDescriptor else pure (-1)
    match Daemon.clearParam (fun _ => ionFd) op i with
    | some p => readParams is (op.setParam i p)
    | none => failure

/-- `GetOperationFromData` -/
def readOperation : StateT P Option (Option (Operation Daemon.Addr)) := do
  if ← m.read .bool then
    let tempOp ← m.read .operation
    let op ← readParams m paramIndices (Daemon.setInvalidIonFd (tempOp.view .raw))
    pure (some op)
  else pure none

/-- `GetOptMemFromData` -/
def readOptMem : StateT P Option (U32 × Option Nat) := do
  let optMemSize : U32 ← m.read .uint32
  if 0 < optMemSize then
    let optMem ← m.read .ashmem
    pure (optMemSize, some optMem)
  else pure (optMemSize, none)

/-- `context.ta_path` in the daemon: the pointer that was sent, or its own copy. -/
inductive TaPath
  | sent (pointer : BitVec 64)
  | copied (text : CStr)
  deriving DecidableEq

inductive Received
  | initializeContext (name : Option CStr)
  | openSession (contextFd : Int) (contextTaPath : TaPath) (taPath : Option CStr) (fd : Int)
      (uuid : BitVec 128) (connMethod : U32) (operation : Option (Operation Daemon.Addr))
      (optMemSize : U32) (optMem : Option Nat)
  | sendSecfile (path : Option CStr) (fd : Int) (context : TeecContext) (session : TeecSession)
  deriving DecidableEq

def initContextRecvProc : StateT P Option Received := do
  enforceInterfaceToken m
  let name ← getChar m
  pure (.initializeContext name)

def openSessionRecvProc : StateT P Option Received := do
  enforceInterfaceToken m
  let context ← m.read .context
  let taPath ← getChar m
  let contextTaPath := taPath.elim (.sent context.taPath) .copied
  let fd ← readFd m
  let uuid ← m.read .uuid
  let connMethod ← m.read .uint32
  let operation ← readOperation m
  let (optMemSize, optMem) ← readOptMem m
  pure (.openSession context.fd contextTaPath taPath fd uuid connMethod operation optMemSize optMem)

def sendSecFileRecvProc : StateT P Option Received := do
  enforceInterfaceToken m
  let path ← getChar m
  let fd ← readFd m
  if fd < 0 then failure
  else
    let context ← m.read .context
    let session ← m.read .session
    pure (.sendSecfile path fd context session)

def Request.recvProc : Request → StateT P Option Received
  | .initializeContext .. => initContextRecvProc m
  | .openSession .. => openSessionRecvProc m
  | .sendSecfile .. => sendSecFileRecvProc m

end Daemon

end TeeClient.Marshal
