import Mathlib.Tactic
import TeeClient.Client.Operation
import TeeClient.Lib.Securec

/-! `libteec`'s `TeecOptDecode`: how the reply's operation and the payload, as the
daemon left them, are copied back into the client application. -/

namespace TeeClient.Client

open ByteMemory Securec

/-- The memory and the operation of the client application, and the two running
variables of the walk: the payload offset `ptr` stands at and `sizeLeft`. -/
structure ReplyState where
  mem : Mem
  operation : Operation Nat
  offset : Nat
  sizeLeft : Nat

namespace ReplyState

def setSize (st : ReplyState) (i : Fin 4) (size : U32) : ReplyState :=
  { st with operation := st.operation.setParam i { st.operation.params i with size } }

def advance (st : ReplyState) (size : Nat) : ReplyState :=
  { st with offset := st.offset + size, sizeLeft := st.sizeLeft - size }

end ReplyState

section Decode

variable (shm : Nat → SharedMemory Nat) (inOpt : Operation Nat) (data : Mem)

def teecOptDecodePartialMem (i : Fin 4) (st : ReplyState) : Except TeecResult ReplyState :=
  let param := st.operation.params i
  let parent := shm param.ptr
  let cSize := referencedSize shm st.operation i
  let tSize := (inOpt.params i).size
  if isOverFlow cSize shmRecordSize ∨ st.sizeLeft < (cSize + shmRecordSize).toNat then .error .fail
  else
    let st := st.advance shmRecordSize.toNat
    if st.operation.paramType i = .memrefPartialInput then .ok (st.advance cSize.toNat)
    else if parent.buffer = 0 then .ok ((st.setSize i tSize).advance cSize.toNat)
    else if cSize = 0 ∧ tSize = 0 then .ok ((st.setSize i tSize).advance cSize.toNat)
    else if parent.isAllocated then .ok ((st.setSize i tSize).advance cSize.toNat)
    else if cSize < tSize then .ok ((st.setSize i tSize).advance cSize.toNat)
    else
      -- `memref.offset` is added for a whole parent too
      let (ok, mem) := memcpyS st.mem (parent.buffer + param.offset.toNat) cSize.toNat
        (read data st.offset tSize.toNat)
      if ok then .ok (({ st with mem }.setSize i tSize).advance cSize.toNat) else .error .fail

def teecOptDecodeTempMem (i : Fin 4) (st : ReplyState) : Except TeecResult ReplyState :=
  let param := st.operation.params i
  let tSize := (inOpt.params i).size
  if st.sizeLeft < param.size.toNat then .error .fail
  else if st.operation.paramType i = .memrefTempInput then .ok (st.advance param.size.toNat)
  else if param.ptr = 0 then .ok ((st.advance param.size.toNat).setSize i tSize)
  else if param.size < tSize then .ok ((st.advance param.size.toNat).setSize i tSize)
  else if st.sizeLeft < tSize.toNat then .error .fail
  else
    let (ok, mem) := memcpyS st.mem param.ptr param.size.toNat (read data st.offset tSize.toNat)
    if ok then .ok (({ st with mem }.advance param.size.toNat).setSize i tSize) else .error .fail

def setValue (i : Fin 4) (st : ReplyState) : ReplyState :=
  let value := { st.operation.params i with a := (inOpt.params i).a, b := (inOpt.params i).b }
  { st with operation := st.operation.setParam i value }

end Decode

section Run

variable (shm : Nat → SharedMemory Nat) (inOpt : Operation Nat) (data : Option Mem)

def teecOptDecodeParam (i : Fin 4) (st : ReplyState) : Except TeecResult ReplyState :=
  let paramType := st.operation.paramType i
  if paramType.isTempMem then
    match data with
    | none => .ok st
    | some data => teecOptDecodeTempMem inOpt data i st
  else if paramType.isPartialMem then
    match data with
    | none => .error .errorBadParameters
    | some data => teecOptDecodePartialMem shm inOpt data i st
  else if paramType.isValueMem then .ok (setValue inOpt i st)
  else .ok st

def teecOptDecodeParams : List (Fin 4) → ReplyState → Except TeecResult ReplyState
  | [], st => .ok st
  | i :: is, st => do
    let st ← teecOptDecodeParam shm inOpt data i st
    teecOptDecodeParams is st

def teecOptDecode (mem : Mem) (operation : Operation Nat) (dataSize : Nat) :
    Except TeecResult (Mem × Operation Nat) := do
  let st ← teecOptDecodeParams shm inOpt data paramIndices
    { mem, operation, offset := 0, sizeLeft := dataSize }
  .ok (st.mem, st.operation)

end Run

end TeeClient.Client
