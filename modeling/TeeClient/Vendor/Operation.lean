import Mathlib.Tactic
import TeeClient.Types

/-! `libteec_vendor`'s view of a `TEEC_Operation`: the validation done by
`TEEC_CheckOperation` and the `TC_NS_ClientContext` that `TEEC_Encode` hands to the
driver.  Pointers are an arbitrary type `P`; the `TEEC_SharedMemory` a pointer
leads to is read through `shm`, and the list search of `CheckSharedBufferExist`
runs in an arbitrary monad, because it takes a lock of its own. -/

namespace TeeClient.Vendor

variable {P : Type} [DecidableEq P] [Zero P]

def teecCheckTmpRef (tmpref : Parameter P) : TeecResult := checkTmpRef tmpref

section Check

variable {m : Type → Type} [Monad m]
variable (shm : P → SharedMemory P) (checkSharedBufferExist : P → m Bool)

def teecCheckMemRef (memref : Parameter P) (paramType : ParamType) : m TeecResult :=
  let parent := shm memref.ptr
  if memref.ptr = 0 ∨ parent.buffer = 0 then pure .errorBadParameters
  else if parent.size = 0 then pure .errorBadParameters
  else if flagsAllow paramType parent.flags = false then pure .errorBadParameters
  else if isPartialRange paramType ∧
      (parent.size < memref.size ∨ parent.size - memref.size < memref.offset) then
    pure .errorBadParameters
  else if parent.isAllocated then do
    if ← checkSharedBufferExist parent.buffer then pure .success
    else pure .errorBadParameters
  else pure .success

def teecCheckParam (op : Operation P) (i : Fin 4) : m TeecResult :=
  let paramType := op.paramType i
  let param := op.params i
  if paramType.isTempMem then pure (teecCheckTmpRef param)
  else if paramType.isPartialMem then teecCheckMemRef shm checkSharedBufferExist param paramType
  else if paramType.isValueMem then pure .success
  else if paramType = .ionInput ∨ paramType = .ionSglistInput then
    if param.ionShareFd < 0 ∨ param.ionSize = 0 then pure .errorBadParameters
    else pure .success
  else if paramType = .none ∨ paramType = .memrefSharedInout then pure .success
  else pure .errorBadParameters

def firstFailure (check : Fin 4 → m TeecResult) : List (Fin 4) → m TeecResult
  | [] => pure .success
  | i :: is => do
    match ← check i with
    | .success => firstFailure check is
    | e => pure e

def teecCheckOperation (operation : Option (Operation P)) : m TeecResult :=
  match operation with
  | none => pure .success
  | some op =>
    if op.started = 0 then pure .errorNotImplemented
    else firstFailure (teecCheckParam shm checkSharedBufferExist op) paramIndices

end Check

section FirstFailure

variable {check : Fin 4 → TeecResult} {i : Fin 4} {is : List (Fin 4)}

theorem firstFailure_of_success (h : check i = .success) :
    firstFailure (m := Id) check (i :: is) = firstFailure (m := Id) check is := by
  rw [firstFailure, h]
  rfl

theorem firstFailure_of_failure (h : check i ≠ .success) :
    firstFailure (m := Id) check (i :: is) = check i := by
  rw [firstFailure]
  cases hi : check i
  case success => exact absurd hi h
  all_goals rfl

theorem firstFailure_eq_success :
    firstFailure (m := Id) check is = .success ↔ ∀ i ∈ is, check i = .success := by
  induction is with
  | nil => exact ⟨fun _ i hi => absurd hi List.not_mem_nil, fun _ => rfl⟩
  | cons i is ih =>
    rw [List.forall_mem_cons, ← ih]
    by_cases h : check i = .success
    · rw [firstFailure_of_success h]
      exact (and_iff_right h).symm
    · rw [firstFailure_of_failure h]
      exact iff_of_false h fun hc => h hc.1

theorem firstFailure_eq_of_failure {e : TeecResult} (hcheck : ∀ i, check i ≠ .success → check i = e)
    (h : firstFailure (m := Id) check is ≠ .success) : firstFailure (m := Id) check is = e := by
  induction is with
  | nil => exact absurd rfl h
  | cons i is ih =>
    by_cases hi : check i = .success
    · rw [firstFailure_of_success hi] at h ⊢
      exact ih h
    · rw [firstFailure_of_failure hi]
      exact hcheck i hi

end FirstFailure

theorem teecCheckOperation_eq_success {shm : P → SharedMemory P} {exist : P → Bool}
    {op : Operation P} :
    teecCheckOperation (m := Id) shm exist (some op) = .success ↔
      op.started ≠ 0 ∧ ∀ i, teecCheckParam (m := Id) shm exist op i = .success := by
  simp only [teecCheckOperation]
  by_cases hs : op.started = 0
  · rw [if_pos hs]
    exact ⟨(fun h => by cases h), fun h => absurd hs h.1⟩
  · rw [if_neg hs, firstFailure_eq_success]
    exact ⟨fun h => ⟨hs, fun i => h i (mem_paramIndices i)⟩, fun h i _ => h.2 i⟩

theorem teecCheckParam_of_none {shm : P → SharedMemory P} {exist : P → Bool} {op : Operation P}
    {i : Fin 4} (h : op.paramType i = .none) :
    teecCheckParam (m := Id) shm exist op i = .success := by
  simp only [teecCheckParam, h, ParamType.isTempMem, ParamType.isPartialMem, ParamType.isValueMem,
    Bool.false_eq_true, if_false, reduceCtorEq, or_self, true_or, if_true]
  rfl

theorem teecCheckMemRef_eq_success {shm : P → SharedMemory P} {exist : P → Bool}
    {memref : Parameter P} {t : ParamType} :
    teecCheckMemRef (m := Id) shm exist memref t = .success ↔
      memref.ptr ≠ 0 ∧ (shm memref.ptr).buffer ≠ 0 ∧ (shm memref.ptr).size ≠ 0 ∧
      flagsAllow t (shm memref.ptr).flags ∧
      (isPartialRange t →
        memref.offset.toNat + memref.size.toNat ≤ (shm memref.ptr).size.toNat) ∧
      ((shm memref.ptr).isAllocated → exist (shm memref.ptr).buffer = true) := by
  have range : ((shm memref.ptr).size < memref.size ∨
      (shm memref.ptr).size - memref.size < memref.offset) ↔
      ¬ memref.offset.toNat + memref.size.toNat ≤ (shm memref.ptr).size.toNat := by
    simp only [BitVec.lt_def, BitVec.toNat_sub]
    omega
  change (if _ then _ else if _ then _ else if _ then _ else if _ then _ else
    if (shm memref.ptr).isAllocated then
      (if exist (shm memref.ptr).buffer = true then TeecResult.success
        else .errorBadParameters)
    else .success) = .success ↔ _
  split_ifs with null zero flags exceeds alloc found
  · exact ⟨(fun h => by cases h), fun h => absurd null (not_or.mpr ⟨h.1, h.2.1⟩)⟩
  · exact ⟨(fun h => by cases h), fun h => absurd zero h.2.2.1⟩
  · exact ⟨(fun h => by cases h), fun h => absurd h.2.2.2.1 (Bool.eq_false_iff.mp flags)⟩
  · exact ⟨(fun h => by cases h), fun h =>
      absurd (h.2.2.2.2.1 exceeds.1) (range.mp exceeds.2)⟩
  all_goals
    rw [not_or] at null
    rw [Bool.not_eq_false] at flags
    rw [not_and, range, not_not] at exceeds
  · exact ⟨fun _ => ⟨null.1, null.2, zero, flags, exceeds, fun _ => found⟩, fun _ => rfl⟩
  · exact ⟨(fun h => by cases h), fun h => absurd (h.2.2.2.2.2 alloc) found⟩
  · exact ⟨fun _ => ⟨null.1, null.2, zero, flags, exceeds, fun h => absurd h alloc⟩, fun _ => rfl⟩

/-- The memory a `TC_NS_ClientParam` describes to the driver.  The two 32-bit
halves of an address are one `P` here, and the words behind `size_addr`, `a_addr`
and `b_addr` are shown by value. -/
inductive ClientParam (P : Type)
  | zeroed
  | memref (buffer : P) (offset size : U32)
  | value (a b : U32)
  deriving DecidableEq, Repr

def translateParamType (flag : U32) : ParamType :=
  if flag = memInput then .memrefPartialInput
  else if flag = memOutput then .memrefPartialOutput
  else if flag = memInout then .memrefPartialInout
  else .memrefPartialInout

section Encode

variable [HAdd P Nat P] (shm : P → SharedMemory P)

def teecEncodeTempParam (tempRef : Parameter P) : ClientParam P :=
  .memref tempRef.ptr 0 tempRef.size

/-- `TEEC_EncodePartialParam` writes the size of a whole parent back into the
reference before it passes the address of that size on. -/
def teecEncodePartialParam (paramType : ParamType) (memRef : Parameter P) :
    ClientParam P × Parameter P :=
  let parent := shm memRef.ptr
  let offset := if paramType = .memrefWhole then 0 else memRef.offset
  let size := if paramType = .memrefWhole then parent.size else memRef.size
  if parent.isAllocated then
    (.memref parent.buffer offset size, { memRef with size })
  else
    (.memref (parent.buffer + memRef.offset.toNat) 0 size, { memRef with size })

def teecEncodeValueParam (val : Parameter P) : ClientParam P := .value val.a val.b

def teecEncodeIonParam (ionRef : Parameter P) : ClientParam P := .value ionRef.a ionRef.b

/-- `(uint32_t)TEEC_MEMREF_PARTIAL_INPUT - (uint32_t)TEEC_MEMREF_TEMP_INPUT` -/
def partialTempDiff : U32 :=
  ParamType.memrefPartialInput.code - ParamType.memrefTempInput.code

def driverMemrefType (paramType : ParamType) (parent : SharedMemory P) : U32 :=
  let code := if paramType = .memrefWhole then (translateParamType parent.flags).code
    else paramType.code
  if parent.isAllocated then code else code - partialTempDiff

/-- One round of the loop of `TEEC_EncodeParam`: what the driver gets for the slot,
the slot afterwards and its type word. -/
def teecEncodeSlot (op : Operation P) (i : Fin 4) : ClientParam P × Parameter P × U32 :=
  let paramType := op.paramType i
  let param := op.params i
  if paramType.isTempMem then (teecEncodeTempParam param, param, paramType.code)
  else if paramType.isPartialMem || paramType.isSharedMem then
    let (cli, memRef) := teecEncodePartialParam shm paramType param
    (cli, memRef, driverMemrefType paramType (shm param.ptr))
  else if paramType.isValueMem then (teecEncodeValueParam param, param, paramType.code)
  else if paramType = .ionInput ∨ paramType = .ionSglistInput then
    (teecEncodeIonParam param, param, paramType.code)
  else (.zeroed, param, paramType.code)

omit [DecidableEq P] [Zero P] in
theorem teecEncodeSlot_of_none {op : Operation P} {i : Fin 4} (h : op.paramType i = .none) :
    teecEncodeSlot shm op i = (.zeroed, op.params i, ParamType.none.code) := by
  simp [teecEncodeSlot, h, ParamType.isTempMem, ParamType.isPartialMem, ParamType.isSharedMem,
    ParamType.isValueMem]

structure ClientParams (P : Type) where
  params : Fin 4 → ClientParam P
  paramTypes : U32

def teecEncodeParam (op : Operation P) : ClientParams P × Operation P :=
  ({ params := fun i => (teecEncodeSlot shm op i).1
     paramTypes := paramTypes (teecEncodeSlot shm op 0).2.2 (teecEncodeSlot shm op 1).2.2
       (teecEncodeSlot shm op 2).2.2 (teecEncodeSlot shm op 3).2.2 },
   { op with params := fun i => (teecEncodeSlot shm op i).2.1 })

end Encode

end TeeClient.Vendor
