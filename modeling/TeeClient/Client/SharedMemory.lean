import Mathlib.Tactic
import TeeClient.Client.Operation
import TeeClient.Vendor.SharedMemory

/-! `libteec`'s side of shared memory: `mShareMem`, the calls of `tee_client.cpp` that
change it and the requests that they send.  `send` is what `cadaemon` makes of a request;
null pointers, which every call turns away at once, are left out. -/

namespace TeeClient.Client

structure CaSharedMemory extends SharedMemory Nat where
  context : Option Nat
  deriving DecidableEq

/-- The `fd` of every `TEEC_Context` of the client application, its `TEEC_SharedMemory`
structures, and `mShareMem`. -/
structure Ca where
  contextFd : Nat → Int
  sharedMem : Nat → CaSharedMemory
  mShareMem : List ShareMem

/-- What `cadaemon` writes behind `TEEC_SUCCESS` for a new block. -/
structure ShmReply where
  opsCnt : U32
  isAllocated : Bool
  offset : U32

/-- What the kernel gives the client application for a block: the descriptor in the reply, and
the address of the mapping. -/
structure MapOutcome where
  readFd : Bool
  mapped : Option Nat

def checkSharedMemoryFLag (flag : U32) : Bool := Vendor.sharedMemoryFlags flag

namespace Ca

def setShm (ca : Ca) (shm : Nat) (sharedMem : CaSharedMemory) : Ca :=
  { ca with sharedMem := Function.update ca.sharedMem shm sharedMem }

def setFd (ca : Ca) (context : Nat) (fd : Int) : Ca :=
  { ca with contextFd := Function.update ca.contextFd context fd }

end Ca

section Contexts

variable {δ : Type}

def freeAllShareMemoryInContext (fd : Int) (mShareMem : List ShareMem) : List ShareMem :=
  mShareMem.filter fun vec =>
    ¬ (vec.fd = fd ∧ vec.buffer ≠ 0 ∧ vec.buffer ≠ zeroSizePtr ∧ vec.size ≠ 0)

def initializeContext (reply : Option Int) (context : Nat) (ca : Ca) : Ca :=
  match reply with
  | none => ca
  | some fd => ca.setFd context fd

def finalizeContext (send : Int → δ → δ) (context : Nat) (ca : Ca) (d : δ) : Ca × δ :=
  let fd := ca.contextFd context
  let ca := { ca with mShareMem := freeAllShareMemoryInContext fd ca.mShareMem }
  (ca.setFd context (-1), send fd d)

end Contexts

section SharedMemories

variable {δ : Type}

def formatSharedMemory (reply : ShmReply) (sharedMem : CaSharedMemory) : CaSharedMemory :=
  { sharedMem with opsCnt := reply.opsCnt, isAllocated := reply.isAllocated }

def registerSharedMemory (send : Int → SharedMemory Nat → δ → Except TeecResult ShmReply × δ)
    (context shm : Nat) (ca : Ca) (d : δ) : TeecResult × Ca × δ :=
  let sharedMem := { ca.sharedMem shm with context := some context }
  if sharedMem.buffer = 0 ∨ checkSharedMemoryFLag sharedMem.flags = false then
    (.errorBadParameters, ca.setShm shm sharedMem, d)
  else
    match send (ca.contextFd context) sharedMem.toSharedMemory d with
    | (.error ret, d) => (ret, ca.setShm shm sharedMem, d)
    | (.ok reply, d) => (.success, ca.setShm shm (formatSharedMemory reply sharedMem), d)

def mapSharedMemory (mapped : Option Nat) (sharedMem : CaSharedMemory) :
    TeecResult × CaSharedMemory :=
  if sharedMem.size ≠ 0 then
    match mapped with
    | some buffer => (.success, { sharedMem with buffer })
    | none => (.errorOutOfMemory, { sharedMem with buffer := 0 })
  else (.success, { sharedMem with buffer := zeroSizePtr })

def addShareMem (buffer : Nat) (offset size : U32) (fd : Int) (mShareMem : List ShareMem) :
    List ShareMem :=
  let shareMem : ShareMem := { offset, buffer, size, fd }
  mShareMem ++ [shareMem]

def procAllocateSharedMemory (out : MapOutcome) (reply : Except TeecResult ShmReply)
    (context shm : Nat) (sharedMem : CaSharedMemory) (ca : Ca) : TeecResult × Ca :=
  match reply with
  | .error ret => (ret, ca.setShm shm sharedMem)
  | .ok reply =>
    let sharedMem := formatSharedMemory reply sharedMem
    if out.readFd then
      match mapSharedMemory out.mapped sharedMem with
      | (.success, sharedMem) =>
        let mShareMem := addShareMem sharedMem.buffer reply.offset sharedMem.size
          (ca.contextFd context) ca.mShareMem
        (.success, { ca.setShm shm sharedMem with mShareMem })
      | (ret, sharedMem) => (ret, ca.setShm shm sharedMem)
    else (.fail, ca.setShm shm sharedMem)

def allocateSharedMemory (send : Int → SharedMemory Nat → δ → Except TeecResult ShmReply × δ)
    (out : MapOutcome) (context shm : Nat) (ca : Ca) (d : δ) : TeecResult × Ca × δ :=
  let sharedMem := { ca.sharedMem shm with context := some context }
  if checkSharedMemoryFLag sharedMem.flags then
    let (reply, d) := send (ca.contextFd context) sharedMem.toSharedMemory d
    let (ret, ca) := procAllocateSharedMemory out reply context shm sharedMem ca
    (ret, ca, d)
  else (.errorBadParameters, ca.setShm shm sharedMem, d)

def freeShareMem (sharedMem : CaSharedMemory) (mShareMem : List ShareMem) :
    TeecResult × CaSharedMemory × List ShareMem :=
  if mShareMem.any (·.buffer = sharedMem.buffer) then
    let mShareMem := mShareMem.eraseP (·.buffer = sharedMem.buffer)
    if sharedMem.buffer ≠ 0 ∧ sharedMem.size ≠ 0 then
      (.success, { sharedMem with buffer := 0, size := 0 }, mShareMem)
    else (.success, sharedMem, mShareMem)
  else (.fail, sharedMem, mShareMem)

/-- `ReleaseSharedMemory` up to its request: the offset that goes into the request, the
structure and `mShareMem`. -/
def releaseShareMem (sharedMem : CaSharedMemory) (mShareMem : List ShareMem) :
    U32 × CaSharedMemory × List ShareMem :=
  if sharedMem.buffer ≠ 0 then
    let shmOffset := findShareMemOffset mShareMem sharedMem.buffer
    if sharedMem.isAllocated then
      let (_, sharedMem, mShareMem) := freeShareMem sharedMem mShareMem
      (shmOffset, sharedMem, mShareMem)
    else (shmOffset, sharedMem, mShareMem)
  else (uint32Max, sharedMem, mShareMem)

def releaseSharedMemory (send : Int → SharedMemory Nat → U32 → δ → δ) (shm : Nat) (ca : Ca)
    (d : δ) : Ca × δ :=
  match (ca.sharedMem shm).context with
  | none => (ca, d)
  | some context =>
    let (shmOffset, sharedMem, mShareMem) := releaseShareMem (ca.sharedMem shm) ca.mShareMem
    let d := send (ca.contextFd context) sharedMem.toSharedMemory shmOffset d
    let released := { sharedMem with
      buffer := 0, size := 0, flags := 0, opsCnt := 0, context := none }
    ({ ca.setShm shm released with mShareMem }, d)

end SharedMemories

end TeeClient.Client
