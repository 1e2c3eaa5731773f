import Mathlib.Tactic
import TeeClient.Client.OperationLaws
import TeeClient.Vendor.Operation

/-! The two validators of an operation: `TEEC_CheckOperation` of `libteec_client` and
that of `libteec_vendor`. -/

namespace TeeClient.Validation

def isCommon (t : ParamType) : Bool :=
  t.isTempMem || t.isPartialMem || t.isValueMem || t == .none

def ParentsKnown (shm : Nat → SharedMemory Nat) (exist : Nat → Bool) (op : Operation Nat) : Prop :=
  ∀ i, (op.paramType i).isPartialMem → (op.params i).ptr ≠ 0 →
    (shm (op.params i).ptr).isAllocated → exist (shm (op.params i).ptr).buffer = true

/-- A temporary reference is null exactly when it is empty; a registered one has a parent
with a buffer and the flags of its direction, and a range inside of it. -/
def SlotOk (shm : Nat → SharedMemory Nat) (op : Operation Nat) (i : Fin 4) : Prop :=
  let param := op.params i
  let parent := shm param.ptr
  ((op.paramType i).isTempMem → (param.ptr = 0 ↔ param.size = 0)) ∧
  ((op.paramType i).isPartialMem → param.ptr ≠ 0 ∧ parent.buffer ≠ 0 ∧
    flagsAllow (op.paramType i) parent.flags ∧
    (isPartialRange (op.paramType i) →
      param.offset.toNat + param.size.toNat ≤ parent.size.toNat))

def ParentsNonempty (shm : Nat → SharedMemory Nat) (op : Operation Nat) : Prop :=
  ∀ i, (op.paramType i).isPartialMem → (shm (op.params i).ptr).size ≠ 0

variable {shm : Nat → SharedMemory Nat} {exist : Nat → Bool} {op : Operation Nat} {i : Fin 4}

section Slots

theorem client_slot_iff (ht : isCommon (op.paramType i)) :
    Client.teecCheckParam shm op i = .success ↔ SlotOk shm op i := by
  cases h : op.paramType i
  case memrefTempInput | memrefTempOutput | memrefTempInout =>
    simp [Client.teecCheckParam, SlotOk, h, ParamType.isTempMem, ParamType.isPartialMem,
      Client.teecCheckTmpRef, checkTmpRef_eq_success]
  case memrefPartialInput | memrefPartialOutput | memrefPartialInout | memrefWhole =>
    simp [Client.teecCheckParam, SlotOk, h, ParamType.isTempMem, ParamType.isPartialMem,
      Client.teecCheckMemRef_eq_success]
  case none | valueInput | valueOutput | valueInout =>
    simp [Client.teecCheckParam, SlotOk, h, ParamType.isTempMem, ParamType.isPartialMem,
      ParamType.isValueMem]
  all_goals
    simp [isCommon, h, ParamType.isTempMem, ParamType.isPartialMem, ParamType.isValueMem] at ht

theorem vendor_slot_iff (ht : isCommon (op.paramType i)) (hknown : ParentsKnown shm exist op) :
    Vendor.teecCheckParam (m := Id) shm exist op i = .success ↔
      SlotOk shm op i ∧
        ((op.paramType i).isPartialMem → (shm (op.params i).ptr).size ≠ 0) := by
  have hknown := hknown i
  cases h : op.paramType i
  case memrefTempInput | memrefTempOutput | memrefTempInout =>
    simp only [Vendor.teecCheckParam, SlotOk, h, ParamType.isTempMem, ParamType.isPartialMem,
      Bool.false_eq_true, if_true, false_implies, and_true, forall_const]
    exact checkTmpRef_eq_success
  case memrefPartialInput | memrefPartialOutput | memrefPartialInout | memrefWhole =>
    simp only [h, ParamType.isPartialMem, forall_const] at hknown
    simp only [Vendor.teecCheckParam, SlotOk, h, ParamType.isTempMem, ParamType.isPartialMem,
      Vendor.teecCheckMemRef_eq_success, Bool.false_eq_true, if_false, if_true, false_implies,
      true_and, forall_const]
    constructor
    · rintro ⟨hptr, hbuf, hsize, hflags, hrange, -⟩
      exact ⟨⟨hptr, hbuf, hflags, hrange⟩, hsize⟩
    · rintro ⟨⟨hptr, hbuf, hflags, hrange⟩, hsize⟩
      exact ⟨hptr, hbuf, hsize, hflags, hrange, hknown hptr⟩
  case none | valueInput | valueOutput | valueInout =>
    refine iff_of_true ?_ ?_
    · simp only [Vendor.teecCheckParam, h, ParamType.isTempMem, ParamType.isPartialMem,
        ParamType.isValueMem, Bool.false_eq_true, if_false, if_true, reduceCtorEq, or_self, true_or]
      rfl
    · simp [SlotOk, h, ParamType.isTempMem, ParamType.isPartialMem]
  all_goals
    simp [isCommon, h, ParamType.isTempMem, ParamType.isPartialMem, ParamType.isValueMem] at ht

theorem client_slot_failure (h : Client.teecCheckParam shm op i ≠ .success) :
    Client.teecCheckParam shm op i = .errorBadParameters := by
  simp only [Client.teecCheckParam, Client.teecCheckTmpRef, checkTmpRef,
    Client.teecCheckMemRef] at h ⊢
  split_ifs at h ⊢ <;> simp_all

theorem vendor_slot_failure (h : Vendor.teecCheckParam (m := Id) shm exist op i ≠ .success) :
    Vendor.teecCheckParam (m := Id) shm exist op i = .errorBadParameters := by
  simp only [Vendor.teecCheckParam, Vendor.teecCheckTmpRef, checkTmpRef,
    Vendor.teecCheckMemRef] at h ⊢
  have hpure (x : TeecResult) : (pure x : Id TeecResult) = x := rfl
  have hbind (x : Bool) (f : Bool → TeecResult) : ((x : Id Bool) >>= f : Id TeecResult) = f x := rfl
  simp only [hpure, hbind] at h ⊢
  split_ifs at h ⊢ <;> simp_all

end Slots

section Operations

theorem client_failure (hstarted : op.started ≠ 0)
    (h : Client.teecCheckOperation shm (some op) ≠ .success) :
    Client.teecCheckOperation shm (some op) = .errorBadParameters := by
  have hloop {is : List (Fin 4)} (h : Client.teecCheckParams shm op is ≠ .success) :
      Client.teecCheckParams shm op is = .errorBadParameters := by
    induction is with
    | nil => exact absurd rfl h
    | cons i is ih =>
      rw [Client.teecCheckParams] at h ⊢
      by_cases hi : Client.teecCheckParam shm op i = .success
      · rw [hi] at h ⊢
        exact ih h
      · rw [client_slot_failure hi]
  simp only [Client.teecCheckOperation, if_neg hstarted] at h ⊢
  exact hloop h

theorem vendor_failure (hstarted : op.started ≠ 0)
    (h : Vendor.teecCheckOperation (m := Id) shm exist (some op) ≠ .success) :
    Vendor.teecCheckOperation (m := Id) shm exist (some op) = .errorBadParameters := by
  simp only [Vendor.teecCheckOperation, if_neg hstarted] at h ⊢
  exact Vendor.firstFailure_eq_of_failure (fun i => vendor_slot_failure) h

theorem client_accepts_iff (htypes : ∀ i, isCommon (op.paramType i)) :
    Client.teecCheckOperation shm (some op) = .success ↔
      op.started ≠ 0 ∧ ∀ i, SlotOk shm op i := by
  rw [Client.teecCheckOperation_eq_success]
  exact and_congr_right fun _ => forall_congr' fun i => client_slot_iff (htypes i)

theorem vendor_accepts_iff (htypes : ∀ i, isCommon (op.paramType i))
    (hknown : ParentsKnown shm exist op) :
    Vendor.teecCheckOperation (m := Id) shm exist (some op) = .success ↔
      op.started ≠ 0 ∧ (∀ i, SlotOk shm op i) ∧ ParentsNonempty shm op := by
  rw [Vendor.teecCheckOperation_eq_success]
  refine and_congr_right fun _ => ?_
  rw [ParentsNonempty, ← forall_and]
  exact forall_congr' fun i => vendor_slot_iff (htypes i) hknown

/-- Both libraries give the same result unless an operation that is otherwise in order
refers to an empty parent, which only `libteec_vendor` refuses. -/
theorem teecCheckOperation_agree_iff (shm : Nat → SharedMemory Nat) (exist : Nat → Bool)
    (op : Operation Nat) (htypes : ∀ i, isCommon (op.paramType i))
    (hknown : ParentsKnown shm exist op) :
    Client.teecCheckOperation shm (some op) =
        Vendor.teecCheckOperation (m := Id) shm exist (some op) ↔
      op.started = 0 ∨ (∃ i, ¬ SlotOk shm op i) ∨ ParentsNonempty shm op := by
  by_cases hstarted : op.started = 0
  · refine iff_of_true ?_ (.inl hstarted)
    simp only [Client.teecCheckOperation, Vendor.teecCheckOperation, if_pos hstarted]
    rfl
  by_cases hslots : ∀ i, SlotOk shm op i
  · have hclient := (client_accepts_iff htypes).mpr ⟨hstarted, hslots⟩
    rw [hclient, eq_comm, vendor_accepts_iff htypes hknown]
    constructor
    · exact fun h => .inr (.inr h.2.2)
    · rintro (h | ⟨i, hi⟩ | hnonempty)
      · exact absurd h hstarted
      · exact absurd (hslots i) hi
      · exact ⟨hstarted, hslots, hnonempty⟩
  · refine iff_of_true ?_ (.inr (.inl (not_forall.mp hslots)))
    rw [client_failure hstarted fun h => hslots ((client_accepts_iff htypes).mp h).2,
      vendor_failure hstarted fun h => hslots ((vendor_accepts_iff htypes hknown).mp h).2.1]

def wholeParent : Operation Nat where
  started := 1
  paramTypes := paramTypes ParamType.memrefWhole.code 0 0 0
  params := fun _ => { ptr := 8, a := 0, b := 0, size := 0, offset := 0 }
  cancelFlag := false

def registered (size : U32) : SharedMemory Nat :=
  { buffer := 0x1000, size, flags := memInout, opsCnt := 0, isAllocated := false }

theorem teecCheckOperation_agree_registered :
    Client.teecCheckOperation (fun _ => registered 16) (some wholeParent) =
      Vendor.teecCheckOperation (m := Id) (fun _ => registered 16) (fun _ => false)
        (some wholeParent) := by
  refine (teecCheckOperation_agree_iff _ _ _ (by decide) ?_).mpr (.inr (.inr ?_))
  · exact fun i _ _ h => by cases h
  · exact fun i _ h => absurd h (by decide : (16 : U32) ≠ 0)

theorem teecCheckOperation_differ_empty :
    (∀ i, isCommon (wholeParent.paramType i)) ∧
    ParentsKnown (fun _ => registered 0) (fun _ => false) wholeParent ∧
    Client.teecCheckOperation (fun _ => registered 0) (some wholeParent) ≠
      Vendor.teecCheckOperation (m := Id) (fun _ => registered 0) (fun _ => false)
        (some wholeParent) := by
  refine ⟨by decide, fun i _ _ h => (by cases h), ?_⟩
  have hclient : Client.teecCheckOperation (fun _ => registered 0) (some wholeParent) =
      .success := by decide
  have hvendor : Vendor.teecCheckOperation (m := Id) (fun _ => registered 0) (fun _ => false)
      (some wholeParent) = .errorBadParameters := rfl
  rw [hclient, hvendor]
  decide

end Operations

end TeeClient.Validation
