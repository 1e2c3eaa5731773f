import Mathlib.Tactic
import TeeClient.Types
import TeeClient.Lib.Memory

/-! `libteec`'s side of an operation: `TEEC_CheckOperation`, the size of the payload
(`GetOptMemSize`) and the payload itself (`TeecOptEncode`).  Pointers of the client
application are numbers, `mem` is its memory, and `shm` reads the `TEEC_SharedMemory`
at a pointer. -/

namespace TeeClient.Client

open ByteMemory

structure ShareMem where
  offset : U32
  buffer : Nat
  size : U32
  fd : Int
  deriving DecidableEq, Repr

structure CaState where
  mem : Mem
  shm : Nat → SharedMemory Nat
  mShareMem : List ShareMem

def teecCheckTmpRef (tmpref : Parameter Nat) : TeecResult := checkTmpRef tmpref

section Check

variable (shm : Nat → SharedMemory Nat)

def teecCheckMemRef (memref : Parameter Nat) (paramType : ParamType) : TeecResult :=
  let parent := shm memref.ptr
  if memref.ptr = 0 ∨ parent.buffer = 0 then .errorBadParameters
  else if flagsAllow paramType parent.flags = false then .errorBadParameters
  else if isPartialRange paramType ∧
      (uint32Max - memref.offset < memref.size ∨ parent.size < memref.offset + memref.size) then
    .errorBadParameters
  else .success

def teecCheckParam (op : Operation Nat) (i : Fin 4) : TeecResult :=
  let paramType := op.paramType i
  if paramType.isTempMem then teecCheckTmpRef (op.params i)
  else if paramType.isPartialMem then teecCheckMemRef shm (op.params i) paramType
  else if paramType.isValueMem then .success
  else if paramType = .none then .success
  else if paramType = .ionInput then .success
  else .errorBadParameters

def teecCheckParams (op : Operation Nat) : List (Fin 4) → TeecResult
  | [] => .success
  | i :: is =>
    match teecCheckParam shm op i with
    | .success => teecCheckParams op is
    | e => e

def teecCheckOperation (operation : Option (Operation Nat)) : TeecResult :=
  match operation with
  | none => .success
  | some op =>
    if op.started = 0 then .errorNotImplemented
    else teecCheckParams shm op paramIndices

end Check

def findShareMemOffset (mShareMem : List ShareMem) (buffer : Nat) : U32 :=
  match mShareMem.find? fun e => e.buffer = buffer with
  | some e => e.offset
  | none => uint32Max

def isOverFlow (num1 num2 : U32) : Bool := uint32Max - num1 < num2

def shmRecordSize : U32 := 4 * 4 + 1 * 1

def paramSizeLimit : Nat := 0x400000 + 0x100

section Size

variable (shm : Nat → SharedMemory Nat)

def referencedSize (op : Operation Nat) (i : Fin 4) : U32 :=
  if op.paramType i = .memrefWhole then (shm (op.params i).ptr).size else (op.params i).size

/-- `optMemSize` is a `size_t` that `IsOverFlow` narrows to 32 bits. -/
def getPartialMemSize (op : Operation Nat) (optMemSize : Nat) (i : Fin 4) :
    Except TeecResult U32 :=
  let cSize := referencedSize shm op i
  if isOverFlow cSize shmRecordSize then .error .errorBadParameters
  else if isOverFlow (BitVec.ofNat 32 optMemSize) (cSize + shmRecordSize) then
    .error .errorBadParameters
  else .ok (cSize + shmRecordSize)

def addParamSizes (op : Operation Nat) : List (Fin 4) → Nat → Except TeecResult Nat
  | [], optMemSize => .ok optMemSize
  | i :: is, optMemSize =>
    if (op.paramType i).isTempMem then
      let cSize := (op.params i).size
      if isOverFlow (BitVec.ofNat 32 optMemSize) cSize then .error .errorBadParameters
      else addParamSizes op is (optMemSize + cSize.toNat)
    else if (op.paramType i).isPartialMem then do
      let cSize ← getPartialMemSize shm op optMemSize i
      addParamSizes op is (optMemSize + cSize.toNat)
    else addParamSizes op is optMemSize

def getOptMemSize (operation : Option (Operation Nat)) : Except TeecResult Nat :=
  match operation with
  | none => .ok 0
  | some op => do
    let optMemSize ← addParamSizes shm op paramIndices 0
    if paramSizeLimit < optMemSize then .error .errorBadParameters else .ok optMemSize

end Size

structure Ashmem where
  size : Nat
  data : Mem

def Ashmem.writeToAshmem (optMem : Ashmem) (bytes : List Byte) (offset : Nat) : Option Ashmem :=
  if offset + bytes.length ≤ optMem.size then
    some { optMem with data := write optMem.data offset bytes }
  else none

structure EncodeState where
  optMem : Ashmem
  sizeLeft : Nat

/-- Every write of the encoder goes to `GetAshmemSize() - sizeLeft`. -/
def EncodeState.append (st : EncodeState) (bytes : List Byte) : Except TeecResult EncodeState :=
  match st.optMem.writeToAshmem bytes (st.optMem.size - st.sizeLeft) with
  | some optMem => .ok { optMem, sizeLeft := st.sizeLeft - bytes.length }
  | none => .error .fail

def teecOptEncodeTempMem (mem : Mem) (param : Parameter Nat) (st : EncodeState) :
    Except TeecResult EncodeState :=
  if st.sizeLeft < param.size.toNat then .error .fail
  else if param.ptr = 0 then .ok st
  else st.append (read mem param.ptr param.size.toNat)

def boolByte (b : Bool) : Byte := if b then 1 else 0

def covertEncodePtr (mShareMem : List ShareMem) (shm : SharedMemory Nat) (st : EncodeState) :
    Except TeecResult EncodeState := do
  let st ← st.append [boolByte shm.isAllocated]
  let st ← st.append (wordBytes shm.flags)
  let st ← st.append (wordBytes shm.opsCnt)
  let st ← st.append (wordBytes (findShareMemOffset mShareMem shm.buffer))
  st.append (wordBytes shm.size)

/-- `buffer`, moved by `memref.offset` unless the whole parent is meant -/
def referencedAddr (shm : Nat → SharedMemory Nat) (op : Operation Nat) (i : Fin 4) : Nat :=
  (shm (op.params i).ptr).buffer +
    if op.paramType i = .memrefWhole then 0 else (op.params i).offset.toNat

def teecOptEncodePartialMem (ca : CaState) (op : Operation Nat) (i : Fin 4) (st : EncodeState) :
    Except TeecResult EncodeState :=
  let shm := ca.shm (op.params i).ptr
  if (op.params i).ptr = 0 ∨ shm.buffer = 0 then .error .errorBadParameters
  else if st.sizeLeft < shmRecordSize.toNat then .error .fail
  else do
    let st ← covertEncodePtr ca.mShareMem shm st
    let cSize := (referencedSize ca.shm op i).toNat
    if st.sizeLeft < cSize then .error .fail
    else if shm.isAllocated then .ok { st with sizeLeft := st.sizeLeft - cSize }
    else if st.sizeLeft = 0 ∨ cSize = 0 then .ok { st with sizeLeft := st.sizeLeft - cSize }
    else st.append (read ca.mem (referencedAddr ca.shm op i) cSize)

def teecOptEncodeParam (ca : CaState) (op : Operation Nat) (i : Fin 4) (st : EncodeState) :
    Except TeecResult EncodeState :=
  if (op.paramType i).isTempMem then teecOptEncodeTempMem ca.mem (op.params i) st
  else if (op.paramType i).isPartialMem then teecOptEncodePartialMem ca op i st
  else .ok st

def teecOptEncodeParams (ca : CaState) (op : Operation Nat) :
    List (Fin 4) → EncodeState → Except TeecResult EncodeState
  | [], st => .ok st
  | i :: is, st => do
    let st ← teecOptEncodeParam ca op i st
    teecOptEncodeParams ca op is st

def teecOptEncode (ca : CaState) (op : Operation Nat) (optMem : Ashmem) (dataSize : Nat) :
    Except TeecResult EncodeState :=
  teecOptEncodeParams ca op paramIndices { optMem, sizeLeft := dataSize }

def createAshmem (size : Nat) : Ashmem := { size, data := fun _ => 0 }

/-- Without a payload there is no shared memory and nothing is encoded. -/
def copyTeecOptMem (ca : CaState) (operation : Option (Operation Nat)) (optMemSize : Nat) :
    Except TeecResult (Option Ashmem) :=
  match operation with
  | none => .ok none
  | some op =>
    if optMemSize = 0 then .ok none
    else
      match teecOptEncode ca op (createAshmem optMemSize) optMemSize with
      | .ok st => .ok (some st.optMem)
      | .error _ => .error .fail

end TeeClient.Client
