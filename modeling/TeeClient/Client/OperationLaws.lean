import Mathlib.Tactic
import TeeClient.Client.Operation

/-! The payload that `TeecOptEncode` writes, slot by slot: how long it is, where each
parameter starts and which bytes stand there. -/

namespace TeeClient.Client

open ByteMemory

def paramSize (shm : Nat → SharedMemory Nat) (op : Operation Nat) (i : Fin 4) : Nat :=
  if (op.paramType i).isTempMem then (op.params i).size.toNat
  else if (op.paramType i).isPartialMem then
    shmRecordSize.toNat + (referencedSize shm op i).toNat
  else 0

def payloadSize (shm : Nat → SharedMemory Nat) (op : Operation Nat) (is : List (Fin 4)) : Nat :=
  (is.map (paramSize shm op)).sum

@[simp] theorem payloadSize_nil (shm : Nat → SharedMemory Nat) (op : Operation Nat) :
    payloadSize shm op [] = 0 := rfl

@[simp] theorem payloadSize_cons (shm : Nat → SharedMemory Nat) (op : Operation Nat) (i : Fin 4)
    (is : List (Fin 4)) :
    payloadSize shm op (i :: is) = paramSize shm op i + payloadSize shm op is := rfl

@[simp] theorem toNat_shmRecordSize : shmRecordSize.toNat = 17 := rfl

theorem isOverFlow_eq_false {a b : U32} :
    isOverFlow a b = false ↔ a.toNat + b.toNat < 4294967296 := by
  rw [isOverFlow, decide_eq_false_iff_not, uint32Max_sub_lt, Nat.not_le]

theorem isOverFlow_ofNat {n : Nat} {c : U32} (hn : n < 4294967296)
    (h : isOverFlow (BitVec.ofNat 32 n) c = false) : n + c.toNat < 4294967296 := by
  rwa [isOverFlow_eq_false, BitVec.toNat_ofNat, Nat.mod_eq_of_lt hn] at h

theorem bind_eq_ok {ε α β : Type} {x : Except ε α} {f : α → Except ε β} {b : β} :
    (x >>= f) = .ok b ↔ ∃ a, x = .ok a ∧ f a = .ok b := by
  cases x <;> simp [bind, Except.bind]

section Size

variable {shm : Nat → SharedMemory Nat} {op : Operation Nat}

theorem getPartialMemSize_eq_ok {n : Nat} {i : Fin 4} {c : U32} (hn : n < 4294967296)
    (h : getPartialMemSize shm op n i = .ok c) :
    c.toNat = shmRecordSize.toNat + (referencedSize shm op i).toNat ∧ n + c.toNat < 4294967296 := by
  simp only [getPartialMemSize] at h
  split_ifs at h with hrec htotal
  obtain rfl := Except.ok.inj h
  rw [Bool.not_eq_true] at hrec htotal
  refine ⟨?_, isOverFlow_ofNat hn htotal⟩
  rw [BitVec.toNat_add, Nat.mod_eq_of_lt (isOverFlow_eq_false.mp hrec), Nat.add_comm]

theorem addParamSizes_eq_ok {is : List (Fin 4)} {k n : Nat} (hk : k < 4294967296)
    (h : addParamSizes shm op is k = .ok n) : n = k + payloadSize shm op is := by
  induction is generalizing k with
  | nil => simpa [addParamSizes, eq_comm] using h
  | cons i is ih =>
    simp only [addParamSizes] at h
    split_ifs at h with htemp hover hpart
    · rw [Bool.not_eq_true] at hover
      rw [ih (isOverFlow_ofNat hk hover) h, payloadSize_cons, paramSize, if_pos htemp,
        Nat.add_assoc]
    · obtain ⟨c, hp, h⟩ := bind_eq_ok.mp h
      obtain ⟨hc, hfit⟩ := getPartialMemSize_eq_ok hk hp
      rw [ih hfit h, payloadSize_cons, paramSize, if_neg htemp, if_pos hpart, hc,
        Nat.add_assoc]
    · rw [ih hk h, payloadSize_cons, paramSize, if_neg htemp, if_neg hpart, Nat.zero_add]

theorem getOptMemSize_eq_ok {n : Nat} (h : getOptMemSize shm (some op) = .ok n) :
    n = payloadSize shm op paramIndices ∧ n ≤ paramSizeLimit := by
  simp only [getOptMemSize] at h
  obtain ⟨k, hs, h⟩ := bind_eq_ok.mp h
  split_ifs at h with hlimit
  obtain rfl := Except.ok.inj h
  exact ⟨by simpa using addParamSizes_eq_ok (by decide) hs, by omega⟩

end Size

section Check

variable {shm : Nat → SharedMemory Nat} {op : Operation Nat}

theorem teecCheckParams_eq_success {is : List (Fin 4)} :
    teecCheckParams shm op is = .success ↔ ∀ i ∈ is, teecCheckParam shm op i = .success := by
  induction is with
  | nil => simp [teecCheckParams]
  | cons i is ih =>
    rw [List.forall_mem_cons, ← ih, teecCheckParams]
    cases teecCheckParam shm op i <;> simp

theorem teecCheckOperation_eq_success :
    teecCheckOperation shm (some op) = .success ↔
      op.started ≠ 0 ∧ ∀ i, teecCheckParam shm op i = .success := by
  simp only [teecCheckOperation]
  by_cases hs : op.started = 0
  · rw [if_pos hs]
    exact ⟨(fun h => by cases h), fun h => absurd hs h.1⟩
  · rw [if_neg hs, teecCheckParams_eq_success]
    exact ⟨fun h => ⟨hs, fun i => h i (mem_paramIndices i)⟩, fun h i _ => h.2 i⟩

theorem teecCheckMemRef_eq_success {memref : Parameter Nat} {t : ParamType} :
    teecCheckMemRef shm memref t = .success ↔
      memref.ptr ≠ 0 ∧ (shm memref.ptr).buffer ≠ 0 ∧ flagsAllow t (shm memref.ptr).flags ∧
      (isPartialRange t →
        memref.offset.toNat + memref.size.toNat ≤ (shm memref.ptr).size.toNat) := by
  have range : (uint32Max - memref.offset < memref.size ∨
      (shm memref.ptr).size < memref.offset + memref.size) ↔
      ¬ memref.offset.toNat + memref.size.toNat ≤ (shm memref.ptr).size.toNat := by
    rw [uint32Max_sub_lt, BitVec.lt_def, BitVec.toNat_add]
    omega
  simp only [teecCheckMemRef, range]
  split_ifs with null flags exceeds
  · exact ⟨(fun h => by cases h), fun h => absurd null (not_or.mpr ⟨h.1, h.2.1⟩)⟩
  · exact ⟨(fun h => by cases h), fun h => absurd h.2.2.1 (Bool.eq_false_iff.mp flags)⟩
  · exact ⟨(fun h => by cases h), fun h => absurd (h.2.2.2 exceeds.1) exceeds.2⟩
  · rw [not_or] at null
    rw [Bool.not_eq_false] at flags
    rw [not_and, not_not] at exceeds
    exact ⟨fun _ => ⟨null.1, null.2, flags, exceeds⟩, fun _ => rfl⟩

/-- What the encoder relies on: an empty temporary reference is null, and the parent
of a registered one can be read. -/
def Encodable (shm : Nat → SharedMemory Nat) (op : Operation Nat) (i : Fin 4) : Prop :=
  ((op.paramType i).isTempMem → (op.params i).ptr = 0 → (op.params i).size = 0) ∧
  ((op.paramType i).isPartialMem →
    (op.params i).ptr ≠ 0 ∧ (shm (op.params i).ptr).buffer ≠ 0)

theorem encodable_of_teecCheckParam {i : Fin 4} (h : teecCheckParam shm op i = .success) :
    Encodable shm op i := by
  simp only [teecCheckParam] at h
  constructor
  · intro ht
    rw [if_pos ht] at h
    exact (checkTmpRef_eq_success.mp h).mp
  · intro hp
    have ht : (op.paramType i).isTempMem = false := by
      cases hi : op.paramType i <;> simp_all [ParamType.isTempMem, ParamType.isPartialMem]
    simp only [ht, hp, Bool.false_eq_true, if_false, if_true] at h
    obtain ⟨hptr, hbuf, -⟩ := teecCheckMemRef_eq_success.mp h
    exact ⟨hptr, hbuf⟩

end Check

section Encode

variable (ca : CaState) (op : Operation Nat)

def recordBytes (shm : SharedMemory Nat) : List Byte :=
  [boolByte shm.isAllocated] ++ wordBytes shm.flags ++ wordBytes shm.opsCnt ++
    wordBytes (findShareMemOffset ca.mShareMem shm.buffer) ++ wordBytes shm.size

@[simp] theorem length_recordBytes (shm : SharedMemory Nat) :
    (recordBytes ca shm).length = 17 := by
  simp [recordBytes]

/-- What the encoder writes for a slot.  Behind the record of an allocated parent
the payload is left as it is. -/
def paramBytes (i : Fin 4) : List Byte :=
  if (op.paramType i).isTempMem then read ca.mem (op.params i).ptr (op.params i).size.toNat
  else if (op.paramType i).isPartialMem then
    recordBytes ca (ca.shm (op.params i).ptr) ++
      if (ca.shm (op.params i).ptr).isAllocated then []
      else read ca.mem (referencedAddr ca.shm op i) (referencedSize ca.shm op i).toNat
  else []

theorem length_paramBytes_le (i : Fin 4) :
    (paramBytes ca op i).length ≤ paramSize ca.shm op i := by
  simp only [paramBytes, paramSize]
  split_ifs <;> simp

/-- Every slot's bytes stand where the walk that starts at `k` gets to it. -/
def Encoded (data : Mem) : Nat → List (Fin 4) → Prop
  | _, [] => True
  | k, i :: is =>
    read data k (paramBytes ca op i).length = paramBytes ca op i ∧
      Encoded data (k + paramSize ca.shm op i) is

variable {ca op}

def EncodeState.advance (st : EncodeState) (bytes : List Byte) (size : Nat) : EncodeState where
  optMem := { st.optMem with data := write st.optMem.data (st.optMem.size - st.sizeLeft) bytes }
  sizeLeft := st.sizeLeft - size

theorem EncodeState.append_eq {st : EncodeState} (bytes : List Byte)
    (hleft : bytes.length ≤ st.sizeLeft) (hsize : st.sizeLeft ≤ st.optMem.size) :
    st.append bytes = .ok (st.advance bytes bytes.length) := by
  have hfit : st.optMem.size - st.sizeLeft + bytes.length ≤ st.optMem.size := by omega
  simp [append, Ashmem.writeToAshmem, hfit, advance]

theorem EncodeState.append_advance {st : EncodeState} (bs cs : List Byte)
    (hleft : (bs ++ cs).length ≤ st.sizeLeft) (hsize : st.sizeLeft ≤ st.optMem.size) :
    (st.advance bs bs.length).append cs = .ok (st.advance (bs ++ cs) (bs ++ cs).length) := by
  rw [List.length_append] at hleft
  rw [append_eq _ (by simp only [advance]; omega) (by simp only [advance]; omega)]
  have hpos : st.optMem.size - (st.sizeLeft - bs.length) =
      st.optMem.size - st.sizeLeft + bs.length := by omega
  simp [advance, write_append, hpos, Nat.sub_sub]

theorem covertEncodePtr_eq {st : EncodeState} (shm : SharedMemory Nat)
    (hleft : 17 ≤ st.sizeLeft) (hsize : st.sizeLeft ≤ st.optMem.size) :
    covertEncodePtr ca.mShareMem shm st = .ok (st.advance (recordBytes ca shm) 17) := by
  have ok_bind {st : EncodeState} {f : EncodeState → Except TeecResult EncodeState} :
      ((Except.ok st : Except TeecResult EncodeState) >>= f) = f st := rfl
  simp only [covertEncodePtr, recordBytes]
  rw [EncodeState.append_eq _ (by simp; omega) hsize, ok_bind]
  iterate 3 rw [EncodeState.append_advance _ _ (by simp; omega) hsize, ok_bind]
  rw [EncodeState.append_advance _ _ (by simp; omega) hsize]
  rfl

theorem teecOptEncodeParam_eq {st : EncodeState} {i : Fin 4} (he : Encodable ca.shm op i)
    (hleft : paramSize ca.shm op i ≤ st.sizeLeft) (hsize : st.sizeLeft ≤ st.optMem.size) :
    teecOptEncodeParam ca op i st =
      .ok (st.advance (paramBytes ca op i) (paramSize ca.shm op i)) := by
  simp only [teecOptEncodeParam, paramBytes, paramSize] at hleft ⊢
  split_ifs at hleft ⊢ with htemp hpart halloc
  · rw [teecOptEncodeTempMem, if_neg (by omega)]
    split_ifs with hnull
    · have hzero : (op.params i).size.toNat = 0 := by rw [he.1 htemp hnull]; rfl
      simp [hzero, EncodeState.advance]
    · simpa using EncodeState.append_eq (read ca.mem (op.params i).ptr _)
        (by simpa using hleft) hsize
  · rw [toNat_shmRecordSize] at hleft ⊢
    rw [teecOptEncodePartialMem, if_neg (by simp [he.2 hpart]), if_neg (by simp; omega),
      covertEncodePtr_eq _ (by omega) hsize]
    change (if st.sizeLeft - 17 < _ then _ else _) = _
    rw [if_neg (by omega), if_pos halloc]
    simp [EncodeState.advance, Nat.sub_sub]
  · rw [toNat_shmRecordSize] at hleft ⊢
    rw [teecOptEncodePartialMem, if_neg (by simp [he.2 hpart]), if_neg (by simp; omega),
      covertEncodePtr_eq _ (by omega) hsize]
    change (if st.sizeLeft - 17 < _ then _ else _) = _
    rw [if_neg (by omega), if_neg halloc]
    have hlen := length_recordBytes ca (ca.shm (op.params i).ptr)
    split_ifs with hzero
    · have hz : (referencedSize ca.shm op i).toNat = 0 := by
        rcases hzero with hzero | hzero
        · simp only [EncodeState.advance] at hzero
          omega
        · exact hzero
      simp [hz, EncodeState.advance]
    · have := EncodeState.append_advance (recordBytes ca (ca.shm (op.params i).ptr))
        (read ca.mem (referencedAddr ca.shm op i) (referencedSize ca.shm op i).toNat)
        (by simpa using hleft) hsize
      simpa using this
  · simp [EncodeState.advance]

/-- A whole run of the encoder: nothing in front of its first byte changes, and every
slot's bytes stand at its place. -/
theorem teecOptEncodeParams_spec {is : List (Fin 4)} (st : EncodeState)
    (he : ∀ i ∈ is, Encodable ca.shm op i) (hleft : payloadSize ca.shm op is ≤ st.sizeLeft)
    (hsize : st.sizeLeft ≤ st.optMem.size) :
    ∃ st', teecOptEncodeParams ca op is st = .ok st' ∧
      st'.sizeLeft = st.sizeLeft - payloadSize ca.shm op is ∧
      (∀ x, x < st.optMem.size - st.sizeLeft → st'.optMem.data x = st.optMem.data x) ∧
      Encoded ca op st'.optMem.data (st.optMem.size - st.sizeLeft) is := by
  induction is generalizing st with
  | nil => exact ⟨st, rfl, by simp, fun _ _ => rfl, trivial⟩
  | cons i is ih =>
    rw [payloadSize_cons] at hleft ⊢
    have hlen := length_paramBytes_le ca op i
    have hstep := teecOptEncodeParam_eq (he i List.mem_cons_self) (by omega) hsize
    have hstart : st.optMem.size - (st.sizeLeft - paramSize ca.shm op i) =
        st.optMem.size - st.sizeLeft + paramSize ca.shm op i := by omega
    obtain ⟨st', hrun, hleft', hframe, henc⟩ :=
      ih (st.advance (paramBytes ca op i) (paramSize ca.shm op i))
        (fun j hj => he j (List.mem_cons_of_mem _ hj))
        (by simp only [EncodeState.advance]; omega) (by simp only [EncodeState.advance]; omega)
    simp only [EncodeState.advance, hstart] at hframe henc hleft'
    refine ⟨st', ?_, by omega, fun x hx => ?_, ?_, henc⟩
    · rw [teecOptEncodeParams, hstep]
      exact hrun
    · rw [hframe x (by omega), write_of_lt hx]
    · rw [read_congr fun x _ hx => hframe x (by omega)]
      exact read_write_self _ _ _

/-- An accepted operation is encoded, and its payload has exactly the size that was
reserved for it. -/
theorem teecOptEncode_spec {n : Nat} (optMem : Ashmem)
    (hcheck : teecCheckOperation ca.shm (some op) = .success)
    (hsize : getOptMemSize ca.shm (some op) = .ok n) (hmem : optMem.size = n) :
    ∃ st, teecOptEncode ca op optMem n = .ok st ∧ st.sizeLeft = 0 ∧
      Encoded ca op st.optMem.data 0 paramIndices := by
  obtain ⟨rfl, -⟩ := getOptMemSize_eq_ok hsize
  have he i (_ : i ∈ paramIndices) : Encodable ca.shm op i :=
    encodable_of_teecCheckParam ((teecCheckOperation_eq_success.mp hcheck).2 i)
  obtain ⟨st, hrun, hleft, -, henc⟩ := teecOptEncodeParams_spec
    { optMem, sizeLeft := payloadSize ca.shm op paramIndices } he le_rfl hmem.ge
  exact ⟨st, hrun, by simpa using hleft, by simpa [hmem] using henc⟩

end Encode

end TeeClient.Client
