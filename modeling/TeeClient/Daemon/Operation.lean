import Mathlib.Tactic
import TeeClient.Types
import TeeClient.Lib.Memory
import TeeClient.Vendor.SharedMemory

/-! `cadaemon`'s side of an operation: what the stub makes of the bytes in a parcel
(`GetOperationFromData`) and how `GetTeecOptMem` replaces the caller's pointers.
An address keeps where it comes from, so that the numbers a caller chose stay
apart from the memory the daemon owns. -/

namespace TeeClient.Daemon

open ByteMemory

/-- Memory that the daemon itself set up: the mapped payload of the request, the
mapping of a shared-memory block, or an entry of `DecodePara::shm`. -/
inductive Region
  | payload
  | block (shmInner : Nat)
  | parent (slot : Fin 4)
  deriving DecidableEq, Repr

inductive Addr
  | raw (word : BitVec 64)
  | within (region : Region) (offset : Nat)
  deriving DecidableEq, Repr

namespace Addr

instance : Zero Addr := ⟨.raw 0⟩

instance : OfNat Addr 16 := ⟨.raw 16⟩

instance : NeZero (16 : Addr) := ⟨by decide⟩

def add : Addr → Nat → Addr
  | .raw w, n => .raw (w + BitVec.ofNat 64 n)
  | .within r k, n => .within r (k + n)

instance : HAdd Addr Nat Addr := ⟨add⟩

@[simp] theorem within_add (r : Region) (k n : Nat) :
    Addr.within r k + n = .within r (k + n) := rfl

@[simp] theorem raw_add (w : BitVec 64) (n : Nat) :
    Addr.raw w + n = .raw (w + BitVec.ofNat 64 n) := rfl

@[simp] theorem add_zero (p : Addr) : p + 0 = p := by
  cases p <;> simp

theorem zero_def : (0 : Addr) = .raw 0 := rfl

@[simp] theorem within_ne_zero (r : Region) (k : Nat) : Addr.within r k ≠ 0 := nofun

end Addr

section Stub

def clearPtr (p : Parameter Addr) : Parameter Addr := { p with ptr := 0, a := 0, b := 0 }

def setIonShareFd (p : Parameter Addr) (fd : Int) : Parameter Addr :=
  { p with a := BitVec.ofInt 32 fd, ptr := .raw (p.b ++ BitVec.ofInt 32 fd) }

def setInvalidIonFd (op : Operation Addr) : Operation Addr :=
  { op with params := fun i =>
      if op.paramType i = .ionInput then setIonShareFd (op.params i) (-1) else op.params i }

/-- One round of the loop of `GetOperationFromData`: the slot afterwards, or `none`
when no descriptor could be read for it. -/
def clearParam (ionFds : Fin 4 → Int) (op : Operation Addr) (i : Fin 4) :
    Option (Parameter Addr) :=
  let paramType := op.paramType i
  if paramType.isTempMem then some (clearPtr (op.params i))
  else if paramType.isPartialMem then some (clearPtr (op.params i))
  else if paramType = .ionInput then
    if ionFds i < 0 then none
    else some (setIonShareFd (op.params i) (ionFds i))
  else some (op.params i)

def clearParams (ionFds : Fin 4 → Int) : List (Fin 4) → Operation Addr → Option (Operation Addr)
  | [], op => some op
  | i :: is, op =>
    match clearParam ionFds op i with
    | some p => clearParams ionFds is (op.setParam i p)
    | none => none

/-- `GetOperationFromData` of the bytes `wire`; `ionFds i` is what
`ReadFileDescriptor` gives at slot `i`. -/
def getOperationFromData (ionFds : Fin 4 → Int) (wire : RawOperation) :
    Option (Operation Addr) :=
  clearParams ionFds paramIndices (setInvalidIonFd (wire.view .raw))

end Stub

def structSize : U32 := 4 * 4 + 1 * 1

def checkSizeStatus (shmInfoOffset refSize totalSize memSize : U32) : Bool :=
  shmInfoOffset + refSize < shmInfoOffset || shmInfoOffset + refSize < refSize ||
    totalSize < shmInfoOffset + refSize || memSize < refSize

/-- The record in front of a registered reference, as `CopyToShareMemory` reads it,
with the offset it returns beside the block. -/
def copyToShareMemory (data : Mem) (shmInfoOffset : Nat) : SharedMemory Addr × U32 :=
  ({ buffer := 0
     isAllocated := data shmInfoOffset ≠ 0
     flags := wordAt data (shmInfoOffset + 1)
     opsCnt := wordAt data (shmInfoOffset + 5)
     size := wordAt data (shmInfoOffset + 13) },
   wordAt data (shmInfoOffset + 9))

abbrev recordAt (data : Mem) (k : Nat) : SharedMemory Addr := (copyToShareMemory data k).1

abbrev recordOffset (data : Mem) (k : Nat) : U32 := (copyToShareMemory data k).2

/-- `refSize` of a registered reference: the bytes it claims behind its record. -/
def refSize (data : Mem) (op : Operation Addr) (k : Nat) (i : Fin 4) : U32 :=
  if op.paramType i = .memrefWhole then (recordAt data k).size else (op.params i).size

abbrev SharedMemoryInner := Vendor.SharedMemoryInner Addr

structure DecodePara where
  shm : Fin 4 → SharedMemory Addr
  shmInner : Fin 4 → Option SharedMemoryInner

def DecodePara.zeroed : DecodePara where
  shm _ := { buffer := 0, size := 0, flags := 0, opsCnt := 0, isAllocated := false }
  shmInner _ := none

namespace DecodePara

def setShm (para : DecodePara) (i : Fin 4) (shm : SharedMemory Addr) : DecodePara :=
  { para with shm := Function.update para.shm i shm }

def setShmInner (para : DecodePara) (i : Fin 4) (shmInner : SharedMemoryInner) : DecodePara :=
  { para with shmInner := Function.update para.shmInner i (some shmInner) }

end DecodePara

structure DecodeState where
  operation : Operation Addr
  para : DecodePara
  shmInfoOffset : U32
  sizeLeft : U32

section Decode

variable {m : Type → Type} [Monad m]
variable (getBnShmByOffset : U32 → m (Option SharedMemoryInner))

def DecodeState.advance (st : DecodeState) (i : Fin 4) (param : Parameter Addr)
    (para : DecodePara) (shmInfoOffset memSize refSize : U32) : DecodeState :=
  { operation := st.operation.setParam i { param with ptr := .within (.parent i) 0 }
    para
    shmInfoOffset := shmInfoOffset + refSize
    sizeLeft := memSize - refSize }

def teecOptDecodePartialMem (data : Mem) (totalSize : U32) (i : Fin 4) (st : DecodeState) :
    m (TeecResult × DecodeState) :=
  if checkSizeStatus st.shmInfoOffset structSize totalSize st.sizeLeft then pure (.fail, st)
  else
    let shareMemBuf := recordAt data st.shmInfoOffset.toNat
    let shmOffset := recordOffset data st.shmInfoOffset.toNat
    let para := st.para.setShm i shareMemBuf
    let memSize := st.sizeLeft - structSize
    let shmInfoOffset := st.shmInfoOffset + structSize
    let params := st.operation.params i
    let refSize := refSize data st.operation st.shmInfoOffset.toNat i
    if checkSizeStatus shmInfoOffset refSize totalSize memSize then
      pure (.fail, { st with para })
    else if shareMemBuf.isAllocated then do
      match ← getBnShmByOffset shmOffset with
      | some shmTemp =>
        -- the reference taken on a block without a buffer stays taken
        if shmTemp.buffer = 0 then pure (.errorBadParameters, { st with para })
        else
          let para := (para.setShm i { shareMemBuf with buffer := shmTemp.buffer }).setShmInner i
            shmTemp
          pure (.success, st.advance i params para shmInfoOffset memSize refSize)
      | none => pure (.errorBadParameters, { st with para })
    else
      let para := para.setShm i
        { shareMemBuf with buffer := .within .payload shmInfoOffset.toNat }
      pure (.success, st.advance i { params with offset := 0 } para shmInfoOffset memSize refSize)

def teecOptDecodeTempMem (totalSize : U32) (i : Fin 4) (st : DecodeState) :
    TeecResult × DecodeState :=
  let refSize := (st.operation.params i).size
  if checkSizeStatus st.shmInfoOffset refSize totalSize st.sizeLeft then (.fail, st)
  else
    let operation := if refSize = 0 then st.operation
      else st.operation.setParam i { st.operation.params i with
        ptr := .within .payload st.shmInfoOffset.toNat }
    (.success, { st with
      operation, shmInfoOffset := st.shmInfoOffset + refSize, sizeLeft := st.sizeLeft - refSize })

def decodeParam (data : Mem) (totalSize : U32) (i : Fin 4) (st : DecodeState) :
    m (TeecResult × DecodeState) :=
  if (st.operation.paramType i).isTempMem then pure (teecOptDecodeTempMem totalSize i st)
  else if (st.operation.paramType i).isPartialMem then
    teecOptDecodePartialMem getBnShmByOffset data totalSize i st
  else pure (.success, st)

def decodeParams (data : Mem) (totalSize : U32) :
    List (Fin 4) → DecodeState → m (TeecResult × DecodeState)
  | [], st => pure (.success, st)
  | i :: is, st => do
    match ← decodeParam getBnShmByOffset data totalSize i st with
    | (.success, st) => decodeParams data totalSize is st
    | (e, st) => pure (e, st)

/-- `GetTeecOptMem`.  `optMem` is what `ReadFromAshmem` gives for the whole payload. -/
def getTeecOptMem (operation : Operation Addr) (optMemSize : U32) (optMem : Option Mem) :
    m (TeecResult × DecodeState) :=
  let st := { operation, para := .zeroed, shmInfoOffset := 0, sizeLeft := optMemSize }
  if optMemSize = 0 then pure (.success, st)
  else
    match optMem with
    | none => pure (.errorBadParameters, st)
    | some data => decodeParams getBnShmByOffset data optMemSize paramIndices st

end Decode

def findShmByOffset (shrdMemList : List SharedMemoryInner) (shmOffset : U32) :
    Option SharedMemoryInner :=
  shrdMemList.find? fun shm => shm.offset = shmOffset

end TeeClient.Daemon
