import Mathlib.Tactic
import TeeClient.Vendor.Operation

/-! Where the memory lies that `TEEC_EncodeParam` describes to the driver, for the
operations `TEEC_CheckOperation` accepts.  Addresses are exact integers here. -/

namespace TeeClient.Vendor

/-- The buffer a memory slot refers to: `[buffer, buffer + size)` of a temporary
reference, or of the parent of a registered one. -/
def referenced (shm : Nat → SharedMemory Nat) (op : Operation Nat) (i : Fin 4) :
    Option (Nat × Nat) :=
  let param := op.params i
  if (op.paramType i).isTempMem then some (param.ptr, param.size.toNat)
  else if (op.paramType i).isPartialMem || (op.paramType i).isSharedMem then
    some ((shm param.ptr).buffer, (shm param.ptr).size.toNat)
  else none

def ClientParam.Within (base len : Nat) : ClientParam Nat → Prop
  | .memref buffer offset size =>
    base ≤ buffer + offset.toNat ∧ buffer + offset.toNat + size.toNat ≤ base + len
  | _ => False

def EncodedInReferenced (shm : Nat → SharedMemory Nat) (op : Operation Nat) (i : Fin 4) : Prop :=
  ∀ base len, referenced shm op i = some (base, len) →
    ((teecEncodeParam shm op).1.params i).Within base len

/-- The two cases `TEEC_CheckMemRef` does not look at: a whole registered parent is
described without an inner offset, and the range of a `MEMREF_SHARED_INOUT` slot
fits its parent. -/
def UncheckedFits (shm : Nat → SharedMemory Nat) (op : Operation Nat) (i : Fin 4) : Prop :=
  let param := op.params i
  let parent := shm param.ptr
  (op.paramType i = .memrefWhole → parent.isAllocated = false → param.offset = 0) ∧
  (op.paramType i = .memrefSharedInout →
    param.offset.toNat + param.size.toNat ≤ parent.size.toNat)

instance (shm : Nat → SharedMemory Nat) (op : Operation Nat) (i : Fin 4) :
    Decidable (UncheckedFits shm op i) :=
  inferInstanceAs (Decidable (_ ∧ _))

variable {shm : Nat → SharedMemory Nat} {exist : Nat → Bool} {op : Operation Nat} {i : Fin 4}

theorem encodedInReferenced_of_temp (ht : (op.paramType i).isTempMem) :
    EncodedInReferenced shm op i := by
  intro base len href
  simp only [referenced, ht, if_true, Option.some.injEq, Prod.mk.injEq] at href
  obtain ⟨rfl, rfl⟩ := href
  simp [teecEncodeParam, teecEncodeSlot, ht, teecEncodeTempParam, ClientParam.Within]

/-- For a registered reference, containment is a fact about the size and the two
offsets that `TEEC_EncodePartialParam` adds up. -/
theorem encodedInReferenced_memref_iff (htemp : (op.paramType i).isTempMem = false)
    (hmem : ((op.paramType i).isPartialMem || (op.paramType i).isSharedMem) = true) :
    EncodedInReferenced shm op i ↔
      (if op.paramType i = .memrefWhole ∧ (shm (op.params i).ptr).isAllocated then 0
        else (op.params i).offset.toNat) +
      (if op.paramType i = .memrefWhole then (shm (op.params i).ptr).size.toNat
        else (op.params i).size.toNat) ≤ (shm (op.params i).ptr).size.toNat := by
  simp only [EncodedInReferenced, referenced, htemp, hmem, teecEncodeParam, teecEncodeSlot,
    teecEncodePartialParam, Bool.false_eq_true, if_false, if_true, Option.some.injEq,
    Prod.mk.injEq, and_imp]
  by_cases hw : op.paramType i = .memrefWhole <;>
    cases ha : (shm (op.params i).ptr).isAllocated <;>
    simp [hw, ClientParam.Within] <;> omega

theorem encodedInReferenced_iff (h : teecCheckParam (m := Id) shm exist op i = .success) :
    EncodedInReferenced shm op i ↔ UncheckedFits shm op i := by
  cases ht : op.paramType i
  case memrefTempInput | memrefTempOutput | memrefTempInout =>
    exact iff_of_true (encodedInReferenced_of_temp (by rw [ht]; rfl)) (by simp [UncheckedFits, ht])
  case memrefPartialInput | memrefPartialOutput | memrefPartialInout =>
    have hc : teecCheckMemRef (m := Id) shm exist (op.params i) (op.paramType i) = .success := by
      simpa [teecCheckParam, ht, ParamType.isTempMem, ParamType.isPartialMem] using h
    have hrange := (teecCheckMemRef_eq_success.mp hc).2.2.2.2.1 (by rw [ht]; rfl)
    rw [encodedInReferenced_memref_iff (by rw [ht]; rfl) (by rw [ht]; rfl)]
    simp [UncheckedFits, ht, hrange]
  case memrefWhole =>
    rw [encodedInReferenced_memref_iff (by rw [ht]; rfl) (by rw [ht]; rfl)]
    cases ha : (shm (op.params i).ptr).isAllocated <;>
      simp [UncheckedFits, ht, ha, BitVec.toNat_eq]
  case memrefSharedInout =>
    rw [encodedInReferenced_memref_iff (by rw [ht]; rfl) (by rw [ht]; rfl)]
    simp [UncheckedFits, ht]
  all_goals
    refine iff_of_true (fun base len href => ?_) (by simp [UncheckedFits, ht])
    simp [referenced, ht, ParamType.isTempMem, ParamType.isPartialMem, ParamType.isSharedMem]
      at href

/-- An accepted operation is described inside the buffers it refers to exactly when
the two unchecked cases fit. -/
theorem teecEncodeParam_within_iff (shm : Nat → SharedMemory Nat) (exist : Nat → Bool)
    (op : Operation Nat)
    (accepted : teecCheckOperation (m := Id) shm exist (some op) = .success) :
    (∀ i, EncodedInReferenced shm op i) ↔ ∀ i, UncheckedFits shm op i := by
  have slots := (teecCheckOperation_eq_success.mp accepted).2
  exact forall_congr' fun i => encodedInReferenced_iff (slots i)

def registeredParent : SharedMemory Nat :=
  { buffer := 0x1000, size := 0x100, flags := memInout, opsCnt := 1, isAllocated := false }

def oneMemref (t : ParamType) (offset size : U32) : Operation Nat where
  started := 1
  paramTypes := paramTypes t.code 0 0 0
  params := fun _ => { ptr := 8, a := 0, b := 0, size, offset }
  cancelFlag := false

theorem teecEncodeParam_within_partial :
    teecCheckOperation (m := Id) (fun _ => registeredParent) (fun _ => false)
      (some (oneMemref .memrefPartialInout 0x40 0x80)) = .success ∧
    ∀ i, EncodedInReferenced (fun _ => registeredParent)
      (oneMemref .memrefPartialInout 0x40 0x80) i :=
  ⟨rfl, (teecEncodeParam_within_iff _ (fun _ => false) _ rfl).mpr (by decide)⟩

/-- A whole registered parent with `memref.offset = 16`: the 256 bytes described to
the driver end 16 bytes behind the parent. -/
theorem teecEncodeParam_whole_escapes :
    teecCheckOperation (m := Id) (fun _ => registeredParent) (fun _ => false)
      (some (oneMemref .memrefWhole 0x10 0)) = .success ∧
    ¬ EncodedInReferenced (fun _ => registeredParent) (oneMemref .memrefWhole 0x10 0) 0 := by
  refine ⟨rfl, fun h => ?_⟩
  have := (h 0x1000 0x100 (by decide)).2
  revert this
  decide

end TeeClient.Vendor
