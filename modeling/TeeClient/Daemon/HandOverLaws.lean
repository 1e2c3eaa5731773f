import Mathlib.Tactic
import TeeClient.Daemon.HandOver
import TeeClient.Daemon.OperationLaws

/-! What a request that reaches the driver has been through, slot by slot. -/

namespace TeeClient.Daemon

open ByteMemory

def clearedOp (ionFds : Fin 4 → Int) (wire : RawOperation) : Operation Addr :=
  { wire.view Addr.raw with params := clearedParam ionFds (wire.view Addr.raw) }

@[simp] theorem paramType_clearedOp (ionFds : Fin 4 → Int) (wire : RawOperation) (i : Fin 4) :
    (clearedOp ionFds wire).paramType i = wire.paramType i := rfl

section Passed

variable {mem : BitVec 64 → SharedMemory Addr} {shrdMemList : List SharedMemoryInner}
variable {r : Request} {wire : RawOperation} {cli : Vendor.ClientParams Addr} {para : DecodePara}

variable (mem shrdMemList) in
theorem handOver_of_wire (hw : r.wire = some wire)
    (hion : ∀ i, wire.paramType i = .ionInput → 0 ≤ r.ionFds i) :
    handOver mem shrdMemList r = handOverOperation mem shrdMemList r (clearedOp r.ionFds wire) := by
  have hop := getOperationFromData_eq_some.mpr ⟨hion, rfl⟩
  simp only [handOver, hw, hop]
  rfl

theorem ionFds_of_passed (hw : r.wire = some wire)
    (h : handOver mem shrdMemList r = .passed cli para) :
    ∀ i, wire.paramType i = .ionInput → 0 ≤ r.ionFds i := by
  simp only [handOver, hw] at h
  cases hop : getOperationFromData r.ionFds wire with
  | none => simp [hop] at h
  | some op => exact (getOperationFromData_eq_some.mp hop).1

def Decoded (shrdMemList : List SharedMemoryInner) (r : Request) (op : Operation Addr)
    (st : DecodeState) : Prop :=
  getTeecOptMem (m := Id) (findShmByOffset shrdMemList) op r.optMemSize r.optMem = (.success, st)

structure Passed (mem : BitVec 64 → SharedMemory Addr) (shrdMemList : List SharedMemoryInner)
    (r : Request) (op : Operation Addr) (st : DecodeState) : Prop where
  decoded : Decoded shrdMemList r op st
  login : loginSupported r.kind = true
  checked : Vendor.teecCheckOperation (m := Id) (parentAt mem st.para)
    (checkSharedBufferExist shrdMemList) (some (innerOperation r.kind st.operation)) = .success

theorem handOverOperation_eq_passed {op : Operation Addr} :
    handOverOperation mem shrdMemList r op = .passed cli para ↔
      ∃ st, Passed mem shrdMemList r op st ∧
        cli = (Vendor.teecEncodeParam (parentAt mem st.para)
          (innerOperation r.kind st.operation)).1 ∧ para = st.para := by
  simp only [handOverOperation]
  rcases hdec : getTeecOptMem (m := Id) (findShmByOffset shrdMemList) op r.optMemSize r.optMem
    with ⟨ret, st⟩
  cases ret
  case success =>
    by_cases hlogin : loginSupported r.kind = true
    · simp only [hlogin, if_true, checkAndEncode]
      cases hcheck : Vendor.teecCheckOperation (m := Id) (parentAt mem st.para)
        (checkSharedBufferExist shrdMemList) (some (innerOperation r.kind st.operation))
      case success =>
        constructor
        · intro h
          obtain ⟨rfl, rfl⟩ := HandOver.passed.inj h
          exact ⟨st, ⟨hdec, hlogin, hcheck⟩, rfl, rfl⟩
        · rintro ⟨st', hp, rfl, rfl⟩
          obtain rfl : st = st' := (Prod.mk.inj (hdec.symm.trans hp.decoded)).2
          rfl
      all_goals
        refine ⟨(fun h => by cases h), ?_⟩
        rintro ⟨st', hp, -, -⟩
        obtain rfl : st = st' := (Prod.mk.inj (hdec.symm.trans hp.decoded)).2
        exact absurd (hcheck.symm.trans hp.checked) (by simp)
    · constructor
      · intro h
        dsimp only at h
        rw [if_neg hlogin] at h
        cases h
      · rintro ⟨st', hp, -, -⟩
        exact absurd hp.login hlogin
  all_goals
    refine ⟨(fun h => by cases h), ?_⟩
    rintro ⟨st', hp, -, -⟩
    cases (Prod.mk.inj (hdec.symm.trans hp.decoded)).1

/-- What decoding has made of slot `i`: nothing without a payload, and else what its
round did at the payload offset where the walk met it. -/
theorem Decoded.slot {op : Operation Addr} {st : DecodeState} (h : Decoded shrdMemList r op st)
    (i : Fin 4) :
    (r.optMemSize = 0 ∧
      st.slot i = { param := op.params i, shm := DecodePara.zeroed.shm i, shmInner := none }) ∨
    ∃ data, r.optMemSize ≠ 0 ∧ r.optMem = some data ∧
      SlotDecoded (findShmByOffset shrdMemList) data op (startFrom data op paramIndices 0 i) i
        { param := op.params i, shm := DecodePara.zeroed.shm i, shmInner := none } (st.slot i) ∧
      startFrom data op paramIndices 0 i + slotLen data op (startFrom data op paramIndices 0 i) i ≤
        r.optMemSize.toNat := by
  have hdec := h
  simp only [Decoded, getTeecOptMem] at hdec
  by_cases hzero : r.optMemSize = 0
  · rw [if_pos hzero] at hdec
    obtain rfl := (Prod.mk.inj hdec).2
    exact .inl ⟨hzero, rfl⟩
  rw [if_neg hzero] at hdec
  cases hmem : r.optMem with
  | none =>
    rw [hmem] at hdec
    cases (Prod.mk.inj hdec).1
  | some data =>
    rw [hmem] at hdec
    have run := decodeRun_of_success (by decide) hdec (Nat.zero_le _)
    exact .inr ⟨data, hzero, rfl, run.slot i (mem_paramIndices i), run.fits i (mem_paramIndices i)⟩

theorem Decoded.paramTypes {op : Operation Addr} {st : DecodeState}
    (h : Decoded shrdMemList r op st) : st.operation.paramTypes = op.paramTypes := by
  have hdec := h
  simp only [Decoded, getTeecOptMem] at hdec
  by_cases hzero : r.optMemSize = 0
  · rw [if_pos hzero] at hdec
    obtain rfl := (Prod.mk.inj hdec).2
    rfl
  rw [if_neg hzero] at hdec
  cases hmem : r.optMem with
  | none =>
    rw [hmem] at hdec
    cases (Prod.mk.inj hdec).1
  | some data =>
    rw [hmem] at hdec
    exact (decodeRun_of_success (by decide) hdec (Nat.zero_le _)).paramTypes

theorem paramType_innerOperation {kind : RequestKind} {op : Operation Addr} {i : Fin 4} :
    (innerOperation kind op).paramType i = if inUse kind i then op.paramType i else .none := by
  cases kind with
  | openSession m => exact Operation.paramType_maskIdentParams op i
  | invokeCommand => exact (if_pos trivial).symm

theorem params_innerOperation {kind : RequestKind} {op : Operation Addr} :
    (innerOperation kind op).params = op.params := by
  cases kind <;> rfl

theorem Passed.checkedSlot {op : Operation Addr} {st : DecodeState}
    (h : Passed mem shrdMemList r op st) (i : Fin 4) :
    Vendor.teecCheckParam (m := Id) (parentAt mem st.para) (checkSharedBufferExist shrdMemList)
      (innerOperation r.kind st.operation) i = .success :=
  (Vendor.teecCheckOperation_eq_success.mp h.checked).2 i

theorem Passed.paramType_inner {op : Operation Addr} {st : DecodeState}
    (h : Passed mem shrdMemList r op st) (i : Fin 4) :
    (innerOperation r.kind st.operation).paramType i =
      if inUse r.kind i then op.paramType i else .none := by
  rw [paramType_innerOperation, Operation.paramType, h.decoded.paramTypes, Operation.paramType]

end Passed

end TeeClient.Daemon
