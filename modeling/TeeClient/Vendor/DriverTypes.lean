import Mathlib.Tactic
import TeeClient.Vendor.Operation

/-! The parameter types that `TEEC_EncodeParam` shows the driver: what kind of parameter
they denote and in which directions it goes. -/

namespace TeeClient

namespace ParamType

inductive Kind
  | none | value | ion | memory | reserved
  deriving DecidableEq, Repr

def kind : ParamType → Kind
  | .none => .none
  | .valueInput | .valueOutput | .valueInout => .value
  | .ionInput | .ionSglistInput => .ion
  | .memrefTempInput | .memrefTempOutput | .memrefTempInout | .memrefSharedInout | .memrefWhole
  | .memrefPartialInput | .memrefPartialOutput | .memrefPartialInout => .memory
  | .reserved4 | .reservedB => .reserved

def isInput : ParamType → Bool
  | .valueInput | .valueInout | .memrefTempInput | .memrefTempInout | .ionInput | .ionSglistInput
  | .memrefSharedInout | .memrefWhole | .memrefPartialInput | .memrefPartialInout => true
  | _ => false

def isOutput : ParamType → Bool
  | .valueOutput | .valueInout | .memrefTempOutput | .memrefTempInout | .memrefSharedInout
  | .memrefWhole | .memrefPartialOutput | .memrefPartialInout => true
  | _ => false

def temporary : ParamType → ParamType
  | .memrefPartialInput => .memrefTempInput
  | .memrefPartialOutput => .memrefTempOutput
  | .memrefPartialInout => .memrefTempInout
  | t => t

end ParamType

def flagsInput (flags : U32) : Bool := flags &&& memInput ≠ 0 || flags &&& memSharedInout ≠ 0

def flagsOutput (flags : U32) : Bool := flags &&& memOutput ≠ 0 || flags &&& memSharedInout ≠ 0

namespace Vendor

variable {P : Type} [HAdd P Nat P] (shm : P → SharedMemory P) (op : Operation P) (i : Fin 4)

def driverType : ParamType := paramTypeGet (teecEncodeParam shm op).1.paramTypes i

def ReferenceType (parent : SharedMemory P) (t d : ParamType) : Prop :=
  match t with
  | .memrefPartialInput | .memrefPartialOutput | .memrefPartialInout =>
    d = if parent.isAllocated then t else t.temporary
  | .memrefWhole =>
    (if parent.isAllocated then isPartialRange d = true else d.isTempMem = true) ∧
      d.isInput = flagsInput parent.flags ∧ d.isOutput = flagsOutput parent.flags
  | t => d = t

def hasParent (t : ParamType) : Bool := t.isPartialMem || t.isSharedMem

/-- The driver is shown the slot as what it is, with no more directions than the caller
and the parent allow, whatever the other slots are. -/
structure DriverTypeOk : Prop where
  type : ReferenceType (shm (op.params i).ptr) (op.paramType i) (driverType shm op i)
  kind : (driverType shm op i).kind = (op.paramType i).kind
  input : (driverType shm op i).isInput = true → (op.paramType i).isInput = true ∧
    (hasParent (op.paramType i) = true → flagsInput (shm (op.params i).ptr).flags = true)
  output : (driverType shm op i).isOutput = true → (op.paramType i).isOutput = true ∧
    (hasParent (op.paramType i) = true → flagsOutput (shm (op.params i).ptr).flags = true)
  alone : ∀ op' : Operation P, op'.paramType i = op.paramType i → op'.params i = op.params i →
    driverType shm op' i = driverType shm op i

/-- A `MEMREF_SHARED_INOUT` slot has an allocated parent that goes both ways, and the flags
of a whole parent are one direction alone or both. -/
def FlagsFit : Prop :=
  let parent := shm (op.params i).ptr
  let bothWays := flagsInput parent.flags = true ∧ flagsOutput parent.flags = true
  (op.paramType i = .memrefSharedInout → parent.isAllocated = true ∧ bothWays) ∧
  (op.paramType i = .memrefWhole → parent.flags = memInput ∨ parent.flags = memOutput ∨ bothWays)

omit [HAdd P Nat P] in
instance : Decidable (FlagsFit shm op i) := inferInstanceAs (Decidable (_ ∧ _))

section Translation

def driverParamType (t : ParamType) (parent : SharedMemory P) : ParamType :=
  if hasParent t then
    let u := if t = .memrefWhole then translateParamType parent.flags else t
    if parent.isAllocated then u else .ofCode (u.code - partialTempDiff)
  else t

omit [HAdd P Nat P] in
theorem translateParamType_cases (flags : U32) :
    flags = memInput ∧ translateParamType flags = .memrefPartialInput ∨
    flags = memOutput ∧ translateParamType flags = .memrefPartialOutput ∨
    flags ≠ memInput ∧ flags ≠ memOutput ∧ translateParamType flags = .memrefPartialInout := by
  simp only [translateParamType]
  split_ifs with h1 h2 h3
  · exact .inl ⟨h1, rfl⟩
  · exact .inr (.inl ⟨h2, rfl⟩)
  · exact .inr (.inr ⟨h1, h2, rfl⟩)
  · exact .inr (.inr ⟨h1, h2, rfl⟩)

omit [HAdd P Nat P] in
theorem driverParamType_whole (parent : SharedMemory P) :
    driverParamType .memrefWhole parent = if parent.isAllocated then translateParamType parent.flags
      else (translateParamType parent.flags).temporary := by
  obtain ⟨-, h⟩ | ⟨-, h⟩ | ⟨-, -, h⟩ := translateParamType_cases parent.flags <;>
    cases ha : parent.isAllocated <;>
    simp [driverParamType, hasParent, ParamType.isPartialMem, h, ha] <;> rfl

omit [HAdd P Nat P] in
theorem isPartialRange_cases {t : ParamType} (h : isPartialRange t = true) :
    t = .memrefPartialInput ∨ t = .memrefPartialOutput ∨ t = .memrefPartialInout := by
  cases t <;> simp_all [isPartialRange]

omit [HAdd P Nat P] in
theorem driverParamType_of_isPartial {t : ParamType} (ht : isPartialRange t = true)
    (parent : SharedMemory P) :
    driverParamType t parent = if parent.isAllocated then t else t.temporary := by
  obtain rfl | rfl | rfl := isPartialRange_cases ht
  all_goals
    cases ha : parent.isAllocated <;> simp [driverParamType, hasParent, ParamType.isPartialMem, ha]
    rfl

theorem teecEncodeSlot_code :
    (teecEncodeSlot shm op i).2.2 =
      (driverParamType (op.paramType i) (shm (op.params i).ptr)).code := by
  have hwhole := translateParamType_cases (shm (op.params i).ptr).flags
  cases ht : op.paramType i
  case memrefWhole =>
    cases ha : (shm (op.params i).ptr).isAllocated <;>
      rcases hwhole with ⟨-, h⟩ | ⟨-, h⟩ | ⟨-, -, h⟩ <;>
      simp [teecEncodeSlot, ht, driverParamType, hasParent, driverMemrefType, ha, h] <;> rfl
  case memrefPartialInput | memrefPartialOutput | memrefPartialInout | memrefSharedInout =>
    cases ha : (shm (op.params i).ptr).isAllocated <;>
      simp [teecEncodeSlot, ht, driverParamType, hasParent, driverMemrefType, ha,
        ParamType.isTempMem, ParamType.isPartialMem, ParamType.isSharedMem]
    rfl
  all_goals
    simp [teecEncodeSlot, ht, driverParamType, hasParent, ParamType.isTempMem,
      ParamType.isPartialMem, ParamType.isSharedMem, ParamType.isValueMem]

theorem driverType_eq :
    driverType shm op i = driverParamType (op.paramType i) (shm (op.params i).ptr) := by
  have h := paramTypeGet_paramTypes
    (fun j => driverParamType (op.paramType j) (shm (op.params j).ptr)) i
  simpa only [driverType, teecEncodeParam, teecEncodeSlot_code] using h

end Translation

section Accepted

variable {shm op i}

theorem driverTypeOk_alone (op' : Operation P) (ht : op'.paramType i = op.paramType i)
    (hp : op'.params i = op.params i) : driverType shm op' i = driverType shm op i := by
  rw [driverType_eq, driverType_eq, ht, hp]

theorem translateParamType_directions (flags : U32) :
    (flags = memInput ∨ flags = memOutput ∨ flagsInput flags = true ∧ flagsOutput flags = true) ↔
      (translateParamType flags).isInput = flagsInput flags ∧
      (translateParamType flags).isOutput = flagsOutput flags := by
  obtain ⟨rfl, h⟩ | ⟨rfl, h⟩ | ⟨hin, hout, h⟩ := translateParamType_cases flags
  · rw [h]
    decide
  · rw [h]
    decide
  · rw [h]
    constructor
    · rintro (hf | hf | ⟨h1, h2⟩)
      · exact absurd hf hin
      · exact absurd hf hout
      · exact ⟨h1.symm, h2.symm⟩
    · rintro ⟨h1, h2⟩
      exact .inr (.inr ⟨h1.symm, h2.symm⟩)

theorem driverTypeOk_whole (ht : op.paramType i = .memrefWhole) :
    DriverTypeOk shm op i ↔ FlagsFit shm op i := by
  have htype := (driverType_eq shm op i).trans (ht ▸ driverParamType_whole _)
  have hfits : FlagsFit shm op i ↔ _ :=
    (show FlagsFit shm op i ↔ _ by simp [FlagsFit, ht]).trans
      (translateParamType_directions (shm (op.params i).ptr).flags)
  rw [hfits]
  have hdirs : (driverType shm op i).isInput =
        (translateParamType (shm (op.params i).ptr).flags).isInput ∧
      (driverType shm op i).isOutput =
        (translateParamType (shm (op.params i).ptr).flags).isOutput := by
    rw [htype]
    obtain ⟨-, h⟩ | ⟨-, h⟩ | ⟨-, -, h⟩ := translateParamType_cases (shm (op.params i).ptr).flags <;>
      cases (shm (op.params i).ptr).isAllocated <;> rw [h] <;> exact ⟨rfl, rfl⟩
  constructor
  · intro h
    have htype := h.type
    rw [ht] at htype
    exact ⟨hdirs.1 ▸ htype.2.1, hdirs.2 ▸ htype.2.2⟩
  · rintro ⟨hin, hout⟩
    refine ⟨?_, ?_, fun h => ?_, fun h => ?_, driverTypeOk_alone⟩
    · rw [ht]
      refine ⟨?_, hdirs.1.trans hin, hdirs.2.trans hout⟩
      rw [htype]
      obtain ⟨-, h⟩ | ⟨-, h⟩ | ⟨-, -, h⟩ := translateParamType_cases (shm (op.params i).ptr).flags <;>
        cases (shm (op.params i).ptr).isAllocated <;> rw [h] <;> rfl
    · rw [htype, ht]
      obtain ⟨-, h⟩ | ⟨-, h⟩ | ⟨-, -, h⟩ := translateParamType_cases (shm (op.params i).ptr).flags <;>
        cases (shm (op.params i).ptr).isAllocated <;> rw [h] <;> rfl
    · rw [ht]
      exact ⟨rfl, fun _ => hin ▸ hdirs.1 ▸ h⟩
    · rw [ht]
      exact ⟨rfl, fun _ => hout ▸ hdirs.2 ▸ h⟩

theorem driverTypeOk_shared (ht : op.paramType i = .memrefSharedInout) :
    DriverTypeOk shm op i ↔ FlagsFit shm op i := by
  have htype := driverType_eq shm op i
  rw [ht] at htype
  have hfits : FlagsFit shm op i ↔ (shm (op.params i).ptr).isAllocated = true ∧
      flagsInput (shm (op.params i).ptr).flags = true ∧
      flagsOutput (shm (op.params i).ptr).flags = true := by simp [FlagsFit, ht]
  rw [hfits]
  cases ha : (shm (op.params i).ptr).isAllocated
  · -- the code 0xa becomes 0x2, `VALUE_OUTPUT`
    have hvalue : driverType shm op i = .valueOutput := by
      rw [htype]
      simp [driverParamType, hasParent, ParamType.isSharedMem, ha]
      rfl
    refine iff_of_false (fun h => ?_) (by simp)
    have hkind := h.kind
    rw [hvalue, ht] at hkind
    cases hkind
  · have hshared : driverType shm op i = .memrefSharedInout := by
      rw [htype]
      simp [driverParamType, hasParent, ParamType.isSharedMem, ha]
    constructor
    · intro h
      have hin := h.input
      have hout := h.output
      rw [hshared, ht] at hin hout
      exact ⟨rfl, (hin rfl).2 rfl, (hout rfl).2 rfl⟩
    · rintro ⟨-, hin, hout⟩
      refine ⟨?_, ?_, fun _ => ?_, fun _ => ?_, driverTypeOk_alone⟩
      · rw [hshared, ht]
        rfl
      · rw [hshared, ht]
      · rw [ht]
        exact ⟨rfl, fun _ => hin⟩
      · rw [ht]
        exact ⟨rfl, fun _ => hout⟩

theorem driverTypeOk_of_isPartial (ht : isPartialRange (op.paramType i) = true)
    (hflags : flagsAllow (op.paramType i) (shm (op.params i).ptr).flags = true) :
    DriverTypeOk shm op i := by
  have htype := (driverType_eq shm op i).trans (driverParamType_of_isPartial ht _)
  have hself : ReferenceType (shm (op.params i).ptr) (op.paramType i) (driverType shm op i) := by
    rw [htype]
    obtain hp | hp | hp := isPartialRange_cases ht <;> rw [hp] <;> rfl
  refine ⟨hself, ?_, ?_, ?_, driverTypeOk_alone⟩
  all_goals
    rw [htype]
    obtain hp | hp | hp := isPartialRange_cases ht
  all_goals
    rw [hp] at hflags ⊢
    cases (shm (op.params i).ptr).isAllocated <;>
      simp_all [ParamType.temporary, ParamType.kind, ParamType.isInput, ParamType.isOutput,
        flagsAllow, flagsInput, flagsOutput]

variable [DecidableEq P] [Zero P] {exist : P → Bool}

omit [HAdd P Nat P] in
theorem flagsAllow_of_accepted (h : teecCheckParam (m := Id) shm exist op i = .success)
    (ht : isPartialRange (op.paramType i) = true) :
    flagsAllow (op.paramType i) (shm (op.params i).ptr).flags = true := by
  have hmem : (op.paramType i).isTempMem = false ∧ (op.paramType i).isPartialMem = true := by
    cases hp : op.paramType i <;> simp_all [isPartialRange, ParamType.isTempMem,
      ParamType.isPartialMem]
  have hc : teecCheckMemRef (m := Id) shm exist (op.params i) (op.paramType i) = .success := by
    simpa [teecCheckParam, hmem] using h
  exact (teecCheckMemRef_eq_success.mp hc).2.2.2.1

theorem driverTypeOk_iff (h : teecCheckParam (m := Id) shm exist op i = .success) :
    DriverTypeOk shm op i ↔ FlagsFit shm op i := by
  cases ht : op.paramType i
  case memrefWhole => exact driverTypeOk_whole ht
  case memrefSharedInout => exact driverTypeOk_shared ht
  case memrefPartialInput | memrefPartialOutput | memrefPartialInout =>
    have hpartial : isPartialRange (op.paramType i) = true := by rw [ht]; rfl
    refine iff_of_true (driverTypeOk_of_isPartial hpartial (flagsAllow_of_accepted h hpartial)) ?_
    simp [FlagsFit, ht]
  all_goals
    have htype : driverType shm op i = op.paramType i := by
      rw [driverType_eq, ht]
      rfl
    refine iff_of_true ⟨?_, ?_, fun hin => ?_, fun hout => ?_, driverTypeOk_alone⟩
      (by simp [FlagsFit, ht])
    · rw [htype, ht]
      rfl
    · rw [htype]
    · rw [htype] at hin
      exact ⟨hin, by simp [ht, hasParent, ParamType.isPartialMem, ParamType.isSharedMem]⟩
    · rw [htype] at hout
      exact ⟨hout, by simp [ht, hasParent, ParamType.isPartialMem, ParamType.isSharedMem]⟩

/-- An accepted operation is shown to the driver as what it is exactly when the flags of
the parents that `TEEC_CheckOperation` does not look at fit. -/
theorem driverTypes_ok_iff (shm : P → SharedMemory P) (exist : P → Bool) (op : Operation P)
    (accepted : teecCheckOperation (m := Id) shm exist (some op) = .success) :
    (∀ i, DriverTypeOk shm op i) ↔ ∀ i, FlagsFit shm op i := by
  have slots := (teecCheckOperation_eq_success.mp accepted).2
  exact forall_congr' fun i => driverTypeOk_iff (slots i)

end Accepted

section Samples

def oneReference (t : ParamType) : Operation Nat where
  started := 1
  paramTypes := paramTypes t.code 0 0 0
  params := fun _ => { ptr := 8, a := 0, b := 0, size := 0x10, offset := 0 }
  cancelFlag := false

def parentWith (flags : U32) (isAllocated : Bool) : SharedMemory Nat :=
  { buffer := 0x1000, size := 0x100, flags, opsCnt := 1, isAllocated }

theorem driverTypes_ok_whole :
    teecCheckOperation (m := Id) (fun _ => parentWith memOutput false) (fun _ => false)
      (some (oneReference .memrefWhole)) = .success ∧
    ∀ i, DriverTypeOk (fun _ => parentWith memOutput false) (oneReference .memrefWhole) i :=
  ⟨rfl, (driverTypes_ok_iff _ (fun _ => false) _ rfl).mpr (by decide)⟩

/-- Shared memory on a registered parent is shown as an output value. -/
theorem driverTypes_shared_value :
    teecCheckOperation (m := Id) (fun _ => parentWith memInout false) (fun _ => false)
      (some (oneReference .memrefSharedInout)) = .success ∧
    driverType (fun _ => parentWith memInout false) (oneReference .memrefSharedInout) 0 =
      .valueOutput ∧
    ¬ ∀ i, DriverTypeOk (fun _ => parentWith memInout false) (oneReference .memrefSharedInout) i := by
  refine ⟨rfl, by decide, fun h => ?_⟩
  have hkind := (h 0).kind
  revert hkind
  decide

end Samples

end Vendor

end TeeClient
