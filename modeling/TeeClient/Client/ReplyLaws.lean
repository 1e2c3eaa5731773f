import Mathlib.Tactic
import TeeClient.Client.Reply
import TeeClient.Client.OperationLaws

/-! What a reply is meant to write back, slot by slot, and when `TeecOptDecode` does
exactly that. -/

namespace TeeClient.Client

open ByteMemory Securec

/-- What a reply writes back for slot `i`, whose part of the payload starts at `k`
and whose registered bytes start at `addr`: the first `tSize` bytes of its own
payload where they fit the original size, and in any case the new size. -/
def writeBack (shm : Nat → SharedMemory Nat) (op inOpt : Operation Nat) (data : Mem) (addr k : Nat)
    (i : Fin 4) (s : Mem × Operation Nat) : Mem × Operation Nat :=
  let param := op.params i
  let tSize := (inOpt.params i).size
  match op.paramType i with
  | .memrefTempOutput | .memrefTempInout =>
    (if tSize ≤ param.size then write s.1 param.ptr (read data k tSize.toNat) else s.1,
      s.2.setParam i { param with size := tSize })
  | .memrefWhole | .memrefPartialOutput | .memrefPartialInout =>
    (if (shm param.ptr).isAllocated = false ∧ tSize ≤ referencedSize shm op i then
        write s.1 addr (read data (k + shmRecordSize.toNat) tSize.toNat) else s.1,
      s.2.setParam i { param with size := tSize })
  | .valueInput | .valueOutput | .valueInout =>
    (s.1, s.2.setParam i { param with a := (inOpt.params i).a, b := (inOpt.params i).b })
  | _ => s

def writeBacks (shm : Nat → SharedMemory Nat) (op inOpt : Operation Nat) (data : Mem)
    (addr : Fin 4 → Nat) : Nat → List (Fin 4) → Mem × Operation Nat → Mem × Operation Nat
  | _, [], s => s
  | k, i :: is, s =>
    writeBacks shm op inOpt data addr (k + paramSize shm op i) is
      (writeBack shm op inOpt data (addr i) k i s)

/-- The bytes of the client application that slot `i` lets the other side change. -/
def InOutputRange (shm : Nat → SharedMemory Nat) (op : Operation Nat) (i : Fin 4) (x : Nat) : Prop :=
  match op.paramType i with
  | .memrefTempOutput | .memrefTempInout =>
    (op.params i).ptr ≤ x ∧ x < (op.params i).ptr + (op.params i).size.toNat
  | .memrefWhole | .memrefPartialOutput | .memrefPartialInout =>
    referencedAddr shm op i ≤ x ∧ x < referencedAddr shm op i + (referencedSize shm op i).toNat
  | _ => False

/-- Decoding a reply is right for an operation that was encoded into `n` bytes when
every reply and payload is written back over the walk of the encoder, and no byte
outside the output ranges changes. -/
def DecodesReplies (ca : CaState) (op : Operation Nat) (n : Nat) : Prop :=
  (∃ enc, teecOptEncode ca op (createAshmem n) n = .ok enc ∧
    Encoded ca op enc.optMem.data 0 paramIndices) ∧
  ∀ (inOpt : Operation Nat) (data : Mem), ∃ s,
    teecOptDecode ca.shm inOpt (if n = 0 then none else some data) ca.mem op n = .ok s ∧
    s = writeBacks ca.shm op inOpt data (referencedAddr ca.shm op) 0 paramIndices (ca.mem, op) ∧
    ∀ x, (∀ i, ¬ InOutputRange ca.shm op i x) → s.1 x = ca.mem x

/-- No whole registered parent carries an inner offset, and a request without a
payload has no temporary output. -/
def ReplyAligned (ca : CaState) (op : Operation Nat) (n : Nat) : Prop :=
  (∀ i, op.paramType i = .memrefWhole → (ca.shm (op.params i).ptr).isAllocated = false →
    (ca.shm (op.params i).ptr).size ≠ 0 → (op.params i).offset = 0) ∧
  (n = 0 → ∀ i, op.paramType i ≠ .memrefTempOutput ∧ op.paramType i ≠ .memrefTempInout)

section Frame

variable {shm : Nat → SharedMemory Nat} {op inOpt : Operation Nat} {data : Mem} {i : Fin 4}

theorem writeBack_mem_of_not_inOutputRange {k x : Nat} {s : Mem × Operation Nat}
    (hx : ¬ InOutputRange shm op i x) :
    (writeBack shm op inOpt data (referencedAddr shm op i) k i s).1 x = s.1 x := by
  have outside {a size : Nat} {tSize : U32} {bytes : List Byte} (hb : bytes.length = tSize.toNat)
      (ht : tSize.toNat ≤ size) (h : ¬ (a ≤ x ∧ x < a + size)) : write s.1 a bytes x = s.1 x := by
    by_cases hlt : x < a
    · exact write_of_lt hlt
    · exact write_of_ge (by omega)
  cases ht : op.paramType i <;> simp only [writeBack, InOutputRange, ht] at hx ⊢
  case memrefTempOutput | memrefTempInout =>
    split_ifs with hfit
    · exact outside (length_read ..) (BitVec.le_def.mp hfit) hx
    · rfl
  case memrefWhole | memrefPartialOutput | memrefPartialInout =>
    split_ifs with hfit
    · exact outside (length_read ..) (BitVec.le_def.mp hfit.2) hx
    · rfl

theorem writeBacks_mem_of_not_inOutputRange {k x : Nat} {is : List (Fin 4)}
    {s : Mem × Operation Nat} (hx : ∀ i, ¬ InOutputRange shm op i x) :
    (writeBacks shm op inOpt data (referencedAddr shm op) k is s).1 x = s.1 x := by
  induction is generalizing k s with
  | nil => rfl
  | cons i is ih => rw [writeBacks, ih, writeBack_mem_of_not_inOutputRange (hx i)]

theorem writeBack_params_of_ne {addr k : Nat} {s : Mem × Operation Nat} {j : Fin 4} (hj : j ≠ i) :
    (writeBack shm op inOpt data addr k i s).2.params j = s.2.params j := by
  cases ht : op.paramType i <;> simp [writeBack, ht, hj]

theorem writeBack_paramTypes {addr k : Nat} {s : Mem × Operation Nat} :
    (writeBack shm op inOpt data addr k i s).2.paramTypes = s.2.paramTypes := by
  cases ht : op.paramType i <;> simp [writeBack, ht]

end Frame

section Step

variable {ca : CaState} {op inOpt : Operation Nat} {data : Mem} {i : Fin 4}

/-- Where `TeecOptDecodePartialMem` writes: the inner offset is always added. -/
def decodedAddr (shm : Nat → SharedMemory Nat) (op : Operation Nat) (i : Fin 4) : Nat :=
  (shm (op.params i).ptr).buffer + (op.params i).offset.toNat

variable {st : ReplyState}

def ReplyState.after (st : ReplyState) (s : Mem × Operation Nat) (size : Nat) : ReplyState where
  mem := s.1
  operation := s.2
  offset := st.offset + size
  sizeLeft := st.sizeLeft - size

/-- A buffer that the payload has room for is of a size that the library knows. -/
theorem memcpyS_read {mem : Mem} {dest destMax src count : Nat} (hpos : destMax ≠ 0)
    (hmax : destMax ≤ paramSizeLimit) (hcount : count ≤ destMax) :
    memcpyS mem dest destMax (read data src count) = (true, write mem dest (read data src count)) :=
  memcpyS_of_le (Nat.pos_of_ne_zero hpos) (hmax.trans (by decide)) (by rwa [length_read])

theorem teecOptDecodeTempMem_eq {shm : Nat → SharedMemory Nat} {addr : Nat}
    (htemp : (op.paramType i).isTempMem)
    (hnull : (op.params i).ptr = 0 ↔ (op.params i).size = 0)
    (htype : st.operation.paramType i = op.paramType i)
    (hparam : st.operation.params i = op.params i) (hleft : (op.params i).size.toNat ≤ st.sizeLeft)
    (hlimit : st.sizeLeft ≤ paramSizeLimit) :
    teecOptDecodeTempMem inOpt data i st =
      .ok (st.after (writeBack shm op inOpt data addr st.offset i (st.mem, st.operation))
        (op.params i).size.toNat) := by
  simp only [teecOptDecodeTempMem, htype, hparam]
  rw [if_neg (by omega)]
  cases ht : op.paramType i
  case memrefTempInput =>
    rw [if_pos rfl]
    simp [writeBack, ht, ReplyState.after, ReplyState.advance]
  case memrefTempOutput | memrefTempInout =>
    rw [if_neg (by simp)]
    by_cases hptr : (op.params i).ptr = 0
    · rw [if_pos hptr]
      have hzero := hnull.mp hptr
      have hwrite : (if (inOpt.params i).size ≤ (op.params i).size then
          write st.mem (op.params i).ptr (read data st.offset (inOpt.params i).size.toNat)
          else st.mem) = st.mem := by
        split_ifs with hfit
        · have : (inOpt.params i).size.toNat = 0 := by
            rw [hzero, BitVec.le_def] at hfit
            simpa using hfit
          simp [this]
        · rfl
      simp only [writeBack, ht, hwrite, ReplyState.after, ReplyState.advance, ReplyState.setSize,
        hparam]
    · rw [if_neg hptr]
      have hsize : (op.params i).size.toNat ≠ 0 := by
        rw [hnull, BitVec.toNat_eq] at hptr
        exact hptr
      by_cases hfit : (op.params i).size < (inOpt.params i).size
      · rw [if_pos hfit]
        rw [← BitVec.not_le] at hfit
        simp only [writeBack, ht, hfit, if_false, ReplyState.after, ReplyState.advance,
          ReplyState.setSize, hparam]
      · rw [if_neg hfit]
        rw [BitVec.not_lt] at hfit
        have hcount := BitVec.le_def.mp hfit
        rw [if_neg (by omega), memcpyS_read hsize (hleft.trans hlimit) hcount]
        simp only [writeBack, ht, hfit, if_true, ReplyState.after, ReplyState.advance,
          ReplyState.setSize, hparam]
  all_goals simp [ht, ParamType.isTempMem] at htemp

theorem teecOptDecodePartialMem_eq {shm : Nat → SharedMemory Nat}
    (hpart : (op.paramType i).isPartialMem) (hbuf : (shm (op.params i).ptr).buffer ≠ 0)
    (htype : st.operation.paramType i = op.paramType i)
    (hparam : st.operation.params i = op.params i)
    (hleft : shmRecordSize.toNat + (referencedSize shm op i).toNat ≤ st.sizeLeft)
    (hlimit : st.sizeLeft ≤ paramSizeLimit) :
    teecOptDecodePartialMem shm inOpt data i st =
      .ok (st.after (writeBack shm op inOpt data (decodedAddr shm op i) st.offset i
          (st.mem, st.operation)) (shmRecordSize.toNat + (referencedSize shm op i).toNat)) := by
  have hc : referencedSize shm st.operation i = referencedSize shm op i := by
    simp only [referencedSize, htype, hparam]
  rw [paramSizeLimit] at hlimit
  have hsum : (referencedSize shm op i).toNat + shmRecordSize.toNat < 4294967296 := by omega
  have hsize : (referencedSize shm op i + shmRecordSize).toNat =
      (referencedSize shm op i).toNat + shmRecordSize.toNat := by
    rw [BitVec.toNat_add, Nat.mod_eq_of_lt hsum]
  have hchecks : ¬ (isOverFlow (referencedSize shm op i) shmRecordSize = true ∨
      st.sizeLeft < (referencedSize shm op i + shmRecordSize).toNat) := by
    rw [not_or, Bool.not_eq_true, isOverFlow_eq_false, hsize]
    omega
  have hafter (m : Mem) : (({ st.advance shmRecordSize.toNat with mem := m }.setSize i
      (inOpt.params i).size).advance (referencedSize shm op i).toNat) =
      st.after (m, st.operation.setParam i { op.params i with size := (inOpt.params i).size })
        (shmRecordSize.toNat + (referencedSize shm op i).toNat) := by
    simp [ReplyState.advance, ReplyState.setSize, ReplyState.after, hparam, Nat.add_assoc,
      Nat.sub_sub]
  simp only [teecOptDecodePartialMem, hc, hparam]
  rw [if_neg hchecks]
  have htype' : (st.advance shmRecordSize.toNat).operation.paramType i = op.paramType i := htype
  rw [htype']
  cases ht : op.paramType i
  case memrefPartialInput =>
    rw [if_pos rfl]
    simp [writeBack, ht, ReplyState.after, ReplyState.advance, Nat.add_assoc, Nat.sub_sub]
  case memrefPartialOutput | memrefPartialInout | memrefWhole =>
    rw [if_neg (by simp), if_neg hbuf]
    simp only [writeBack, ht]
    by_cases hzero : referencedSize shm op i = 0 ∧ (inOpt.params i).size = 0
    · have hread : read data (st.offset + shmRecordSize.toNat) (inOpt.params i).size.toNat = [] := by
        rw [hzero.2]
        rfl
      rw [if_pos hzero, hread, write_nil, ite_self]
      exact congrArg _ (hafter st.mem)
    rw [if_neg hzero]
    by_cases halloc : (shm (op.params i).ptr).isAllocated = true
    · rw [if_pos halloc, if_neg (by simp [halloc])]
      exact congrArg _ (hafter st.mem)
    rw [if_neg halloc]
    by_cases hfit : referencedSize shm op i < (inOpt.params i).size
    · rw [if_pos hfit, if_neg fun h => BitVec.not_lt.mpr h.2 hfit]
      exact congrArg _ (hafter st.mem)
    · have hcount := BitVec.le_def.mp (BitVec.not_lt.mp hfit)
      have hmax : (referencedSize shm op i).toNat ≠ 0 := by
        intro h
        exact hzero ⟨BitVec.eq_of_toNat_eq (by simpa using h),
          BitVec.eq_of_toNat_eq (by simp; omega)⟩
      rw [if_neg hfit, memcpyS_read hmax (by rw [paramSizeLimit]; omega) hcount, if_pos rfl,
        if_pos ⟨Bool.not_eq_true _ ▸ halloc, BitVec.not_lt.mp hfit⟩]
      exact congrArg _ (hafter _)
  all_goals simp [ht, ParamType.isPartialMem] at hpart

theorem teecOptDecodeParam_eq (hcheck : teecCheckParam ca.shm op i = .success)
    (htype : st.operation.paramType i = op.paramType i)
    (hparam : st.operation.params i = op.params i)
    (hleft : paramSize ca.shm op i ≤ st.sizeLeft) (hlimit : st.sizeLeft ≤ paramSizeLimit) :
    teecOptDecodeParam ca.shm inOpt (some data) i st =
      .ok (st.after (writeBack ca.shm op inOpt data (decodedAddr ca.shm op i) st.offset i
        (st.mem, st.operation)) (paramSize ca.shm op i)) := by
  simp only [teecOptDecodeParam, paramSize, htype] at hleft ⊢
  by_cases htemp : (op.paramType i).isTempMem = true
  · rw [if_pos htemp] at hleft ⊢
    rw [if_pos htemp]
    simp only [teecCheckParam, htemp, if_true] at hcheck
    exact teecOptDecodeTempMem_eq htemp (checkTmpRef_eq_success.mp hcheck) htype hparam hleft
      hlimit
  rw [if_neg htemp] at hleft ⊢
  rw [if_neg htemp]
  by_cases hpart : (op.paramType i).isPartialMem = true
  · rw [if_pos hpart] at hleft ⊢
    rw [if_pos hpart]
    exact teecOptDecodePartialMem_eq hpart
      ((encodable_of_teecCheckParam hcheck).2 hpart).2 htype hparam hleft hlimit
  · rw [if_neg hpart, if_neg hpart]
    cases ht : op.paramType i <;>
      simp_all [writeBack, setValue, ReplyState.after, ParamType.isTempMem,
        ParamType.isPartialMem, ParamType.isValueMem]

theorem teecOptDecodeParams_eq {is : List (Fin 4)} (hnd : is.Nodup)
    (hcheck : ∀ i ∈ is, teecCheckParam ca.shm op i = .success)
    (hsame : ∀ i ∈ is, st.operation.params i = op.params i)
    (htypes : st.operation.paramTypes = op.paramTypes)
    (hleft : payloadSize ca.shm op is ≤ st.sizeLeft) (hlimit : st.sizeLeft ≤ paramSizeLimit) :
    teecOptDecodeParams ca.shm inOpt (some data) is st =
      .ok (st.after (writeBacks ca.shm op inOpt data (decodedAddr ca.shm op) st.offset is
        (st.mem, st.operation)) (payloadSize ca.shm op is)) := by
  induction is generalizing st with
  | nil => rfl
  | cons i is ih =>
    rw [List.nodup_cons] at hnd
    rw [payloadSize_cons] at hleft ⊢
    have htype : st.operation.paramType i = op.paramType i := by
      rw [Operation.paramType, htypes, Operation.paramType]
    rw [teecOptDecodeParams, teecOptDecodeParam_eq (hcheck i List.mem_cons_self) htype
      (hsame i List.mem_cons_self) (by omega) hlimit]
    refine (ih hnd.2 (fun j hj => hcheck j (List.mem_cons_of_mem _ hj)) (fun j hj => ?_)
      (writeBack_paramTypes.trans htypes) (by simp only [ReplyState.after]; omega)
      (by simp only [ReplyState.after]; omega)).trans ?_
    · have hji : j ≠ i := fun h => hnd.1 (h ▸ hj)
      exact (writeBack_params_of_ne hji).trans (hsame j (List.mem_cons_of_mem _ hj))
    · simp only [ReplyState.after, writeBacks, Nat.add_assoc, Nat.sub_sub]

theorem teecOptDecode_eq {n : Nat}
    (accepted : teecCheckOperation ca.shm (some op) = .success)
    (sized : getOptMemSize ca.shm (some op) = .ok n) :
    teecOptDecode ca.shm inOpt (some data) ca.mem op n =
      .ok (writeBacks ca.shm op inOpt data (decodedAddr ca.shm op) 0 paramIndices (ca.mem, op)) := by
  obtain ⟨hn, hlimit⟩ := getOptMemSize_eq_ok sized
  have hcheck := (teecCheckOperation_eq_success.mp accepted).2
  rw [teecOptDecode, teecOptDecodeParams_eq (by decide) (fun i _ => hcheck i) (fun _ _ => rfl) rfl
    hn.ge hlimit]
  rfl

variable (inOpt data) in
theorem teecOptDecodeParam_none (hzero : paramSize ca.shm op i = 0)
    (htype : st.operation.paramType i = op.paramType i)
    (hparam : st.operation.params i = op.params i) :
    ∃ st', teecOptDecodeParam ca.shm inOpt none i st = .ok st' ∧
      (∀ j, j ≠ i → st'.operation.params j = st.operation.params j) ∧
      st'.operation.paramTypes = st.operation.paramTypes ∧
      ((op.paramType i).isTempMem → st'.operation.params i = op.params i) ∧
      (op.paramType i ≠ .memrefTempOutput → op.paramType i ≠ .memrefTempInout →
        ∀ addr k, (st'.mem, st'.operation) =
          writeBack ca.shm op inOpt data addr k i (st.mem, st.operation)) := by
  simp only [paramSize] at hzero
  simp only [teecOptDecodeParam, htype, writeBack]
  cases ht : op.paramType i
  case memrefTempInput | memrefTempOutput | memrefTempInout =>
    exact ⟨st, rfl, fun _ _ => rfl, rfl, fun _ => hparam, by simp⟩
  case memrefWhole | memrefPartialInput | memrefPartialOutput | memrefPartialInout =>
    simp [ht, ParamType.isTempMem, ParamType.isPartialMem] at hzero
  case valueInput | valueOutput | valueInout =>
    refine ⟨setValue inOpt i st, rfl, fun j hj => by simp [setValue, hj], rfl, ?_, ?_⟩
    · simp [ParamType.isTempMem]
    · simp [setValue, hparam]
  all_goals exact ⟨st, rfl, fun _ _ => rfl, rfl, fun _ => hparam, by simp⟩

variable (inOpt data st) in
theorem teecOptDecodeParams_none {is : List (Fin 4)} (hnd : is.Nodup)
    (hzero : ∀ i ∈ is, paramSize ca.shm op i = 0)
    (hsame : ∀ i ∈ is, st.operation.params i = op.params i)
    (htypes : st.operation.paramTypes = op.paramTypes) :
    ∃ st', teecOptDecodeParams ca.shm inOpt none is st = .ok st' ∧
      (∀ j, j ∉ is → st'.operation.params j = st.operation.params j) ∧
      (∀ j ∈ is, (op.paramType j).isTempMem → st'.operation.params j = op.params j) ∧
      ((∀ j ∈ is, op.paramType j ≠ .memrefTempOutput ∧ op.paramType j ≠ .memrefTempInout) →
        ∀ addr k, (st'.mem, st'.operation) =
          writeBacks ca.shm op inOpt data addr k is (st.mem, st.operation)) := by
  induction is generalizing st with
  | nil => exact ⟨st, rfl, fun _ _ => rfl, nofun, fun _ _ _ => rfl⟩
  | cons i is ih =>
    rw [List.nodup_cons] at hnd
    have htype : st.operation.paramType i = op.paramType i := by
      rw [Operation.paramType, htypes, Operation.paramType]
    obtain ⟨mid, hmid, hframe, hmtypes, htemp, hback⟩ := teecOptDecodeParam_none
      inOpt data (hzero i List.mem_cons_self) htype
      (hsame i List.mem_cons_self)
    obtain ⟨st', hrun, hframe', htemp', hback'⟩ := ih mid hnd.2
      (fun j hj => hzero j (List.mem_cons_of_mem _ hj))
      (fun j hj => (hframe j fun h => hnd.1 (h ▸ hj)).trans (hsame j (List.mem_cons_of_mem _ hj)))
      (hmtypes.trans htypes)
    refine ⟨st', ?_, fun j hj => ?_, fun j hj ht => ?_, fun hnone addr k => ?_⟩
    · rw [teecOptDecodeParams, hmid]
      exact hrun
    · rw [List.mem_cons, not_or] at hj
      rw [hframe' j hj.2, hframe j hj.1]
    · rcases List.mem_cons.mp hj with rfl | hj
      · rw [hframe' j hnd.1, htemp ht]
      · exact htemp' j hj ht
    · obtain ⟨hout, hinout⟩ := hnone i List.mem_cons_self
      rw [writeBacks, ← hback hout hinout]
      exact hback' (fun j hj => hnone j (List.mem_cons_of_mem _ hj)) addr _

end Step

section Probe

variable {ca : CaState} {op : Operation Nat} {i : Fin 4}

def probe (i : Fin 4) : Operation Nat where
  started := 0
  paramTypes := 0
  params j := { ptr := 0, a := 0, b := 0, size := if j = i then 1 else 0, offset := 0 }
  cancelFlag := false

theorem writeBack_probe_of_ne {shm : Nat → SharedMemory Nat} {data : Mem} {addr k : Nat}
    {j : Fin 4} {s : Mem × Operation Nat} (hj : j ≠ i) :
    (writeBack shm op (probe i) data addr k j s).1 = s.1 := by
  cases ht : op.paramType j <;> simp [writeBack, ht, probe, hj]

theorem writeBacks_probe_of_notMem {shm : Nat → SharedMemory Nat} {data : Mem} {addr : Fin 4 → Nat}
    {k : Nat} {is : List (Fin 4)} {s : Mem × Operation Nat} (hi : i ∉ is) :
    (writeBacks shm op (probe i) data addr k is s).1 = s.1 := by
  induction is generalizing k s with
  | nil => rfl
  | cons j is ih =>
    rw [List.mem_cons, not_or] at hi
    rw [writeBacks, ih hi.2, writeBack_probe_of_ne (Ne.symm hi.1)]

theorem writeBacks_probe {shm : Nat → SharedMemory Nat} {d : Byte} {addr : Fin 4 → Nat}
    (ht : op.paramType i = .memrefWhole) (halloc : (shm (op.params i).ptr).isAllocated = false)
    (hsize : (shm (op.params i).ptr).size ≠ 0) {k : Nat} {is : List (Fin 4)} (hnd : is.Nodup)
    (hi : i ∈ is) {s : Mem × Operation Nat} :
    (writeBacks shm op (probe i) (fun _ => d) addr k is s).1 = write s.1 (addr i) [d] := by
  induction is generalizing k s with
  | nil => simp at hi
  | cons j is ih =>
    rw [List.nodup_cons] at hnd
    by_cases hj : j = i
    · subst hj
      have hfit : (1 : U32) ≤ (shm (op.params j).ptr).size := by
        rw [BitVec.le_def]
        rw [ne_eq, BitVec.toNat_eq] at hsize
        change _ ≠ 0 at hsize
        change 1 ≤ _
        omega
      have hfit' : (1 : U32) ≤ referencedSize shm op j := by
        rwa [referencedSize, if_pos ht]
      rw [writeBacks, writeBacks_probe_of_notMem hnd.1]
      simp only [writeBack, ht, probe, if_true, halloc, hfit', and_self]
      rfl
    · rw [writeBacks, ih hnd.2 ((List.mem_cons.mp hi).resolve_left (Ne.symm hj)),
        writeBack_probe_of_ne hj]

end Probe

section Main

variable {ca : CaState} {op : Operation Nat} {n : Nat}

theorem writeBack_decodedAddr {shm : Nat → SharedMemory Nat} {inOpt : Operation Nat} {data : Mem}
    {i : Fin 4} {k : Nat} {s : Mem × Operation Nat}
    (h : op.paramType i = .memrefWhole → (shm (op.params i).ptr).isAllocated = false →
      (shm (op.params i).ptr).size ≠ 0 → (op.params i).offset = 0) :
    writeBack shm op inOpt data (decodedAddr shm op i) k i s =
      writeBack shm op inOpt data (referencedAddr shm op i) k i s := by
  by_cases hw : op.paramType i = .memrefWhole
  · by_cases hoff : (op.params i).offset = 0
    · simp [decodedAddr, referencedAddr, hw, hoff]
    · simp only [writeBack, hw]
      congr 1
      refine if_ctx_congr Iff.rfl (fun hfit => ?_) fun _ => rfl
      -- nothing is written when the parent is empty
      have hzero : (shm (op.params i).ptr).size = 0 :=
        not_not.mp fun hne => hoff (h hw hfit.1 hne)
      have hcount := BitVec.le_def.mp hfit.2
      rw [referencedSize, if_pos hw, hzero] at hcount
      have : (inOpt.params i).size.toNat = 0 := Nat.le_zero.mp hcount
      simp [this]
  · simp [decodedAddr, referencedAddr, hw]

theorem writeBacks_decodedAddr {shm : Nat → SharedMemory Nat} {inOpt : Operation Nat} {data : Mem}
    {is : List (Fin 4)} {k : Nat} {s : Mem × Operation Nat}
    (h : ∀ i, op.paramType i = .memrefWhole → (shm (op.params i).ptr).isAllocated = false →
      (shm (op.params i).ptr).size ≠ 0 → (op.params i).offset = 0) :
    writeBacks shm op inOpt data (decodedAddr shm op) k is s =
      writeBacks shm op inOpt data (referencedAddr shm op) k is s := by
  induction is generalizing k s with
  | nil => rfl
  | cons i is ih => rw [writeBacks, writeBacks, writeBack_decodedAddr (h i), ih]

theorem paramSize_eq_zero (sized : getOptMemSize ca.shm (some op) = .ok 0) (i : Fin 4) :
    paramSize ca.shm op i = 0 := by
  have hsum := List.sum_eq_zero_iff.mp (getOptMemSize_eq_ok sized).1.symm
  exact hsum _ (List.mem_map_of_mem (mem_paramIndices i))

theorem writeBacks_size {shm : Nat → SharedMemory Nat} {inOpt : Operation Nat} {data : Mem}
    {addr : Fin 4 → Nat} {i : Fin 4}
    (ht : op.paramType i = .memrefTempOutput ∨ op.paramType i = .memrefTempInout)
    {is : List (Fin 4)} (hnd : is.Nodup) {k : Nat} {s : Mem × Operation Nat}
    (h : i ∈ is ∨ (s.2.params i).size = (inOpt.params i).size) :
    ((writeBacks shm op inOpt data addr k is s).2.params i).size = (inOpt.params i).size := by
  induction is generalizing k s with
  | nil => exact h.resolve_left (by simp)
  | cons j is ih =>
    rw [List.nodup_cons] at hnd
    rw [writeBacks]
    apply ih hnd.2
    by_cases hj : i = j
    · subst hj
      right
      rcases ht with ht | ht <;> simp [writeBack, ht]
    · rcases h with h | h
      · exact .inl ((List.mem_cons.mp h).resolve_left hj)
      · exact .inr (by rw [writeBack_params_of_ne hj, h])

theorem decodesReplies_of_replyAligned
    (accepted : teecCheckOperation ca.shm (some op) = .success)
    (sized : getOptMemSize ca.shm (some op) = .ok n) (h : ReplyAligned ca op n) :
    DecodesReplies ca op n := by
  obtain ⟨enc, hrun, -, henc⟩ := teecOptEncode_spec (createAshmem n) accepted sized rfl
  refine ⟨⟨enc, hrun, henc⟩, fun inOpt data => ⟨_, ?_, rfl, fun x hx =>
    writeBacks_mem_of_not_inOutputRange hx⟩⟩
  by_cases hn : n = 0
  · subst hn
    obtain ⟨st, hst, -, -, hback⟩ := teecOptDecodeParams_none inOpt data
      { mem := ca.mem, operation := op, offset := 0, sizeLeft := 0 } (by decide : paramIndices.Nodup)
      (fun i _ => paramSize_eq_zero sized i) (fun _ _ => rfl) rfl
    rw [if_pos rfl, teecOptDecode, hst]
    exact congrArg _ (hback (fun i _ => h.2 rfl i) _ _)
  · rw [if_neg hn, teecOptDecode_eq accepted sized, writeBacks_decodedAddr h.1]

theorem replyAligned_of_decodesReplies
    (accepted : teecCheckOperation ca.shm (some op) = .success)
    (sized : getOptMemSize ca.shm (some op) = .ok n) (h : DecodesReplies ca op n) :
    ReplyAligned ca op n := by
  constructor
  · intro i ht halloc hsize
    by_contra hoff
    have hn : n ≠ 0 := by
      rintro rfl
      have hzero := paramSize_eq_zero sized i
      simp [paramSize, ht, ParamType.isTempMem, ParamType.isPartialMem] at hzero
    -- one returned byte, different from the one the parent starts with
    let d : Byte := ca.mem (ca.shm (op.params i).ptr).buffer + 1
    obtain ⟨s, hdec, hback, -⟩ := h.2 (probe i) fun _ => d
    rw [if_neg hn, teecOptDecode_eq accepted sized] at hdec
    have heq := congrArg Prod.fst ((Except.ok.inj hdec).trans hback)
    rw [writeBacks_probe ht halloc hsize (by decide) (mem_paramIndices i),
      writeBacks_probe ht halloc hsize (by decide) (mem_paramIndices i)] at heq
    have hpos : (op.params i).offset.toNat ≠ 0 := by
      rw [BitVec.toNat_eq] at hoff
      exact hoff
    have hbyte := congrFun heq (ca.shm (op.params i).ptr).buffer
    have hcode : write ca.mem (decodedAddr ca.shm op i) [d] (ca.shm (op.params i).ptr).buffer =
        ca.mem (ca.shm (op.params i).ptr).buffer :=
      write_of_lt (by simp only [decodedAddr]; omega)
    have hspec : write ca.mem (referencedAddr ca.shm op i) [d] (ca.shm (op.params i).ptr).buffer =
        d := by
      rw [referencedAddr, if_pos ht]
      exact write_of_mem (i := 0) (by simp)
    rw [hcode, hspec] at hbyte
    exact absurd hbyte (by simp [d])
  · rintro rfl i
    rw [← not_or]
    intro ht
    obtain ⟨s, hdec, hback, -⟩ := h.2 (probe i) fun _ => 0
    obtain ⟨st, hst, -, htemp, -⟩ := teecOptDecodeParams_none (probe i)
      (fun _ => 0) { mem := ca.mem, operation := op, offset := 0, sizeLeft := 0 }
      (by decide : paramIndices.Nodup)
      (fun i _ => paramSize_eq_zero sized i) (fun _ _ => rfl) rfl
    rw [if_pos rfl, teecOptDecode, hst] at hdec
    have hop : st.operation = s.2 := congrArg Prod.snd (Except.ok.inj hdec)
    have htempMem : (op.paramType i).isTempMem := by
      rcases ht with ht | ht <;> rw [ht] <;> rfl
    have hkept := htemp i (mem_paramIndices i) htempMem
    have hnew := @writeBacks_size op ca.shm (probe i) (fun _ => 0)
      (referencedAddr ca.shm op) i ht paramIndices (by decide) 0 (ca.mem, op)
      (.inl (mem_paramIndices i))
    rw [← hback, ← hop, hkept] at hnew
    have hzero := paramSize_eq_zero sized i
    rw [paramSize, if_pos htempMem, hnew] at hzero
    simp [probe] at hzero

/-- Exactly when replies to an encoded operation are decoded as they should be. -/
theorem decodesReplies_iff (ca : CaState) (op : Operation Nat) (n : Nat)
    (accepted : teecCheckOperation ca.shm (some op) = .success)
    (sized : getOptMemSize ca.shm (some op) = .ok n) :
    DecodesReplies ca op n ↔ ReplyAligned ca op n :=
  ⟨replyAligned_of_decodesReplies accepted sized, decodesReplies_of_replyAligned accepted sized⟩

def registeredCa : CaState where
  mem x := BitVec.ofNat 8 x
  shm _ := { buffer := 0x300, size := 16, flags := memInout, opsCnt := 1, isAllocated := false }
  mShareMem := []

def wholeOp (offset : U32) : Operation Nat where
  started := 1
  paramTypes := paramTypes ParamType.memrefWhole.code ParamType.memrefTempOutput.code 0 0
  params := ![{ ptr := 0x200, a := 0, b := 0, size := 0, offset },
    { ptr := 0, a := 0, b := 0, size := 0, offset := 0 },
    { ptr := 0, a := 0, b := 0, size := 0, offset := 0 },
    { ptr := 0, a := 0, b := 0, size := 0, offset := 0 }]
  cancelFlag := false

theorem decodesReplies_whole :
    teecCheckOperation registeredCa.shm (some (wholeOp 0)) = .success ∧
    getOptMemSize registeredCa.shm (some (wholeOp 0)) = .ok 33 ∧
    DecodesReplies registeredCa (wholeOp 0) 33 := by
  refine ⟨rfl, rfl, (decodesReplies_iff registeredCa (wholeOp 0) 33 rfl rfl).mpr ⟨?_, nofun⟩⟩
  intro i
  fin_cases i <;> simp [wholeOp, Operation.paramType, paramTypeGet, paramTypes, ParamType.code,
    ParamType.ofCode]

/-- With an inner offset of 4, the 16 returned bytes end four bytes behind the parent. -/
theorem decodesReplies_whole_escapes :
    teecCheckOperation registeredCa.shm (some (wholeOp 4)) = .success ∧
    getOptMemSize registeredCa.shm (some (wholeOp 4)) = .ok 33 ∧
    (∃ s, teecOptDecode registeredCa.shm
        { wholeOp 4 with params := fun _ => { ptr := 0, a := 0, b := 0, size := 16, offset := 0 } }
        (some fun _ => 0xAA) registeredCa.mem (wholeOp 4) 33 = .ok s ∧
      s.1 0x313 = 0xAA ∧ registeredCa.mem 0x313 = 0x13) ∧
    ¬ DecodesReplies registeredCa (wholeOp 4) 33 := by
  refine ⟨rfl, rfl, ⟨_, rfl, rfl, rfl⟩, fun h => ?_⟩
  have aligned := (replyAligned_of_decodesReplies rfl rfl h).1 0 rfl rfl (by decide)
  exact absurd aligned (by decide)

end Main

end TeeClient.Client
