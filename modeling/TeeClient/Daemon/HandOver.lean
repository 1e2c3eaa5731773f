import Mathlib.Tactic
import TeeClient.Daemon.Operation
import TeeClient.Vendor.Operation
import TeeClient.Vendor.World

/-! An `OpenSession` or `InvokeCommand` request from the parcel to the driver: the
stub, `GetTeecOptMem`, and then `TEEC_CheckOperation` and `TEEC_EncodeParam` of the
vendor library that the daemon links. -/

namespace TeeClient.Daemon

open ByteMemory

inductive RequestKind
  | openSession (connectionMethod : U32)
  | invokeCommand
  deriving DecidableEq

def teecLoginIdentify : U32 := 0x7

/-- What a parcel carries, as far as it decides about memory: the bytes of the
operation (`none` when its flag is false), what `ReadFileDescriptor` gives at each
slot, and the payload as `ReadFromAshmem` gives it. -/
structure Request where
  kind : RequestKind
  wire : Option RawOperation
  ionFds : Fin 4 → Int
  optMemSize : U32
  optMem : Option Mem

/-- The `TEEC_SharedMemory` behind `memref.parent`: an entry of `DecodePara::shm`, or
whatever the daemon's memory holds at a number. -/
def parentAt (mem : BitVec 64 → SharedMemory Addr) (para : DecodePara) : Addr → SharedMemory Addr
  | .raw w => mem w
  | .within (.parent i) _ => para.shm i
  | .within _ _ => DecodePara.zeroed.shm 0

def checkSharedBufferExist (shrdMemList : List SharedMemoryInner) (buffer : Addr) : Bool :=
  shrdMemList.any (·.buffer = buffer)

def innerOperation (kind : RequestKind) (op : Operation Addr) : Operation Addr :=
  match kind with
  | .openSession _ => op.maskIdentParams
  | .invokeCommand => op

inductive HandOver
  | malformed
  | refused (ret : TeecResult)
  | passed (cli : Vendor.ClientParams Addr) (para : DecodePara)

def noParams : Vendor.ClientParams Addr where
  params _ := .zeroed
  paramTypes := 0

def checkAndEncode (mem : BitVec 64 → SharedMemory Addr) (shrdMemList : List SharedMemoryInner)
    (kind : RequestKind) (st : DecodeState) : HandOver :=
  let op := innerOperation kind st.operation
  let shm := parentAt mem st.para
  match Vendor.teecCheckOperation (m := Id) shm (checkSharedBufferExist shrdMemList) (some op) with
  | .success => .passed (Vendor.teecEncodeParam shm op).1 st.para
  | e => .refused e

def loginSupported : RequestKind → Bool
  | .openSession connectionMethod => connectionMethod = teecLoginIdentify
  | .invokeCommand => true

/-- `GetTeecOptMem` and the inner call, for the operation the stub has read. -/
def handOverOperation (mem : BitVec 64 → SharedMemory Addr) (shrdMemList : List SharedMemoryInner)
    (r : Request) (op : Operation Addr) : HandOver :=
  match getTeecOptMem (m := Id) (findShmByOffset shrdMemList) op r.optMemSize r.optMem with
  | (.success, st) =>
    if loginSupported r.kind then checkAndEncode mem shrdMemList r.kind st
    else .refused .errorBadParameters
  | (e, _) => .refused e

def handOver (mem : BitVec 64 → SharedMemory Addr) (shrdMemList : List SharedMemoryInner)
    (r : Request) : HandOver :=
  match r.wire with
  | none => if loginSupported r.kind then .passed noParams .zeroed else .refused .errorBadParameters
  | some wire =>
    match getOperationFromData r.ionFds wire with
    | none => .malformed
    | some op => handOverOperation mem shrdMemList r op

section Driver

/-- What the driver writes behind the addresses it has for a slot: the words of a value, or
the size of a memory reference. -/
def driverWrite (paramType : ParamType) (out : Vendor.SlotOutput) (p : Parameter Addr) :
    Parameter Addr :=
  match paramType with
  | .valueOutput | .valueInout => { p with a := out.a, b := out.b, ptr := .raw (out.b ++ out.a) }
  | .memrefTempInput | .memrefTempOutput | .memrefTempInout | .memrefSharedInout | .memrefWhole
  | .memrefPartialInput | .memrefPartialOutput | .memrefPartialInout => { p with size := out.size }
  | _ => p

def driverWrites (outputs : Fin 4 → Vendor.SlotOutput) (op : Operation Addr) : Operation Addr :=
  { op with params := fun i => driverWrite (op.paramType i) (outputs i) (op.params i) }

end Driver

def inUse (kind : RequestKind) (i : Fin 4) : Prop :=
  match kind with
  | .openSession _ => i.val < 2
  | .invokeCommand => True

instance (kind : RequestKind) (i : Fin 4) : Decidable (inUse kind i) :=
  match kind with
  | .openSession _ => inferInstanceAs (Decidable (i.val < 2))
  | .invokeCommand => inferInstanceAs (Decidable True)

end TeeClient.Daemon
