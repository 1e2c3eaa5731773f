import Mathlib.Tactic
import TeeClient.Client.OperationLaws
import TeeClient.Daemon.OperationLaws

/-! The request between `libteec` and `cadaemon`: what `TeecOptEncode` writes is what
`GetTeecOptMem` reads, for every operation that the client sends. -/

namespace TeeClient.RoundTrip

open ByteMemory
open Client (CaState paramSize paramBytes payloadSize recordBytes)
open Daemon (Addr SharedMemoryInner Slot DecodeState)

abbrev clientOp (wire : RawOperation) : Operation Nat := wire.view BitVec.toNat

def payloadBytes (data : Mem) (addr : Addr) (n : Nat) : Option (List Byte) :=
  match addr with
  | .within .payload k => some (read data k n)
  | _ => if n = 0 then some [] else none

/-- The daemon's list holds a block for every allocated parent, at the offset that
the client recorded for the parent's buffer. -/
structure Mirrors (ca : CaState) (op : Operation Nat) (shrdMemList : List SharedMemoryInner) :
    Prop where
  buffers : ca.mShareMem.Pairwise (·.buffer ≠ ·.buffer)
  held : ∀ i, (op.paramType i).isPartialMem → (ca.shm (op.params i).ptr).isAllocated →
    ∃ e ∈ ca.mShareMem, e.buffer = (ca.shm (op.params i).ptr).buffer ∧
      ∃ b ∈ shrdMemList, b.offset = e.offset
  mapped : ∀ b ∈ shrdMemList, b.buffer ≠ 0

/-- The daemon's slot `s` is what the client meant by slot `i` of `op`. -/
def Received (ca : CaState) (op : Operation Nat) (shrdMemList : List SharedMemoryInner)
    (data : Mem) (i : Fin 4) (s : Slot) : Prop :=
  let param := op.params i
  let parent := ca.shm param.ptr
  if (op.paramType i).isTempMem then
    s.param.size = param.size ∧
      payloadBytes data s.param.ptr param.size.toNat = some (read ca.mem param.ptr param.size.toNat)
  else if (op.paramType i).isPartialMem then
    s.param.ptr = .within (.parent i) 0 ∧ s.param.size = param.size ∧
    s.shm.size = parent.size ∧ s.shm.flags = parent.flags ∧
    s.shm.isAllocated = parent.isAllocated ∧
    if parent.isAllocated then
      s.param.offset = param.offset ∧
      ∃ e ∈ ca.mShareMem, e.buffer = parent.buffer ∧
        ∃ b ∈ shrdMemList, b.offset = e.offset ∧ s.shmInner = some b ∧ s.shm.buffer = b.buffer
    else
      s.param.offset = 0 ∧
      payloadBytes data s.shm.buffer (Client.referencedSize ca.shm op i).toNat =
        some (read ca.mem (Client.referencedAddr ca.shm op i)
          (Client.referencedSize ca.shm op i).toNat)
  else if (op.paramType i).isValueMem then s.param.a = param.a ∧ s.param.b = param.b
  else True

section Record

variable {ca : CaState} {parent : SharedMemory Nat} {data : Mem} {k : Nat}

theorem copyToShareMemory_recordBytes (h : read data k 17 = recordBytes ca parent) :
    Daemon.copyToShareMemory data k =
      ({ buffer := 0, size := parent.size, flags := parent.flags, opsCnt := parent.opsCnt,
         isAllocated := parent.isAllocated },
       Client.findShareMemOffset ca.mShareMem parent.buffer) := by
  have field (pre mid post : List Byte) (hb : recordBytes ca parent = pre ++ mid ++ post) :
      read data (k + pre.length) mid.length = mid := by
    apply read_infix pre mid post
    rw [← hb, Client.length_recordBytes, h]
  have halloc : data k = Client.boolByte parent.isAllocated := by
    have := field [] [Client.boolByte parent.isAllocated]
      (wordBytes parent.flags ++ wordBytes parent.opsCnt ++
        wordBytes (Client.findShareMemOffset ca.mShareMem parent.buffer) ++
        wordBytes parent.size) (by simp [recordBytes])
    simpa [ByteMemory.read] using this
  have hflags := wordAt_of_read (field [Client.boolByte parent.isAllocated]
    (wordBytes parent.flags)
    (wordBytes parent.opsCnt ++
        wordBytes (Client.findShareMemOffset ca.mShareMem parent.buffer) ++
        wordBytes parent.size) (by simp [recordBytes]))
  have hops := wordAt_of_read (field
    ([Client.boolByte parent.isAllocated] ++ wordBytes parent.flags)
    (wordBytes parent.opsCnt)
    (wordBytes (Client.findShareMemOffset ca.mShareMem parent.buffer) ++
        wordBytes parent.size) (by simp [recordBytes]))
  have hoffset := wordAt_of_read (field
    ([Client.boolByte parent.isAllocated] ++ wordBytes parent.flags ++
      wordBytes parent.opsCnt)
    (wordBytes (Client.findShareMemOffset ca.mShareMem parent.buffer))
    (wordBytes parent.size) (by simp [recordBytes]))
  have hsize := wordAt_of_read (field
    ([Client.boolByte parent.isAllocated] ++ wordBytes parent.flags ++
      wordBytes parent.opsCnt ++
      wordBytes (Client.findShareMemOffset ca.mShareMem parent.buffer))
    (wordBytes parent.size) [] (by simp [recordBytes]))
  simp only [List.length_append, List.length_cons, List.length_nil, length_wordBytes] at *
  have hbool : decide (data k ≠ 0) = parent.isAllocated := by
    rw [halloc]
    cases parent.isAllocated <;> rfl
  simp only [Daemon.copyToShareMemory, hflags, hops, hoffset, hsize, hbool]

end Record

section Slots

variable {ca : CaState} {c : Operation Nat} {op : Operation Addr} {i : Fin 4}
variable {data : Mem} {k : Nat} {shrdMemList : List SharedMemoryInner}

/-- Slot `i` of the daemon's operation before its round: the client's slot, without
pointers. -/
structure Untouched (c : Operation Nat) (op : Operation Addr) (i : Fin 4) : Prop where
  paramType : op.paramType i = c.paramType i
  size : (op.params i).size = (c.params i).size
  offset : (op.params i).offset = (c.params i).offset
  ptr : (c.paramType i).isTempMem → (op.params i).ptr = 0
  value : (c.paramType i).isValueMem →
    (op.params i).a = (c.params i).a ∧ (op.params i).b = (c.params i).b

theorem paramBytes_of_isPartialMem (hpart : (c.paramType i).isPartialMem) :
    paramBytes ca c i = recordBytes ca (ca.shm (c.params i).ptr) ++
      if (ca.shm (c.params i).ptr).isAllocated then []
      else read ca.mem (Client.referencedAddr ca.shm c i)
        (Client.referencedSize ca.shm c i).toNat := by
  simp [paramBytes, ParamType.isTempMem_of_isPartialMem hpart, hpart]

theorem copyToShareMemory_encoded (hpart : (c.paramType i).isPartialMem)
    (h : read data k (paramBytes ca c i).length = paramBytes ca c i) :
    Daemon.copyToShareMemory data k =
      ({ buffer := 0, size := (ca.shm (c.params i).ptr).size,
         flags := (ca.shm (c.params i).ptr).flags, opsCnt := (ca.shm (c.params i).ptr).opsCnt,
         isAllocated := (ca.shm (c.params i).ptr).isAllocated },
       Client.findShareMemOffset ca.mShareMem (ca.shm (c.params i).ptr).buffer) := by
  apply copyToShareMemory_recordBytes
  rw [paramBytes_of_isPartialMem hpart] at h
  simpa using read_infix [] (recordBytes ca (ca.shm (c.params i).ptr)) _ h

theorem slotLen_eq_paramSize (hu : Untouched c op i)
    (h : read data k (paramBytes ca c i).length = paramBytes ca c i) :
    Daemon.slotLen data op k i = paramSize ca.shm c i := by
  by_cases hpart : (c.paramType i).isPartialMem = true
  · simp only [Daemon.slotLen, paramSize, hu.paramType, hu.size,
      ParamType.isTempMem_of_isPartialMem hpart, hpart, if_true, Bool.false_eq_true, if_false,
      Daemon.refSize, Daemon.recordAt, copyToShareMemory_encoded hpart h,
      Client.referencedSize, Client.toNat_shmRecordSize]
  · simp [Daemon.slotLen, paramSize, hu.paramType, hu.size, hpart]

theorem findShareMemOffset_of_mem {mShareMem : List Client.ShareMem} {e : Client.ShareMem}
    (hd : mShareMem.Pairwise (·.buffer ≠ ·.buffer)) (he : e ∈ mShareMem) :
    Client.findShareMemOffset mShareMem e.buffer = e.offset := by
  have hfind : mShareMem.find? (fun x => x.buffer = e.buffer) = some e := by
    induction mShareMem with
    | nil => simp at he
    | cons x xs ih =>
      rw [List.pairwise_cons] at hd
      rcases List.mem_cons.mp he with rfl | he
      · simp
      · rw [List.find?_cons_of_neg (by simpa using hd.1 e he)]
        exact ih hd.2 he
  rw [Client.findShareMemOffset, hfind]

theorem findShmByOffset_of_mem {l : List SharedMemoryInner} {b : SharedMemoryInner} (hb : b ∈ l) :
    ∃ b' ∈ l, Daemon.findShmByOffset l b.offset = some b' ∧ b'.offset = b.offset := by
  cases hf : Daemon.findShmByOffset l b.offset with
  | none => simpa using List.find?_eq_none.mp hf b hb
  | some b' =>
    exact ⟨b', List.mem_of_find?_eq_some hf, rfl, by simpa using List.find?_some hf⟩

theorem look_encoded (hm : Mirrors ca c shrdMemList) (hpart : (c.paramType i).isPartialMem)
    (h : read data k (paramBytes ca c i).length = paramBytes ca c i)
    (halloc : (ca.shm (c.params i).ptr).isAllocated) :
    ∃ e ∈ ca.mShareMem, e.buffer = (ca.shm (c.params i).ptr).buffer ∧
      ∃ b ∈ shrdMemList, b.offset = e.offset ∧ b.buffer ≠ 0 ∧
        Daemon.findShmByOffset shrdMemList (Daemon.recordOffset data k) = some b := by
  obtain ⟨e, he, hbuf, b, hb, hoff⟩ := hm.held i hpart halloc
  obtain ⟨b', hb', hfind, hoff'⟩ := findShmByOffset_of_mem hb
  refine ⟨e, he, hbuf, b', hb', hoff'.trans hoff, hm.mapped b' hb', ?_⟩
  have hrec : Daemon.recordOffset data k = b.offset := by
    rw [Daemon.recordOffset, copyToShareMemory_encoded hpart h, hoff, ← hbuf]
    exact findShareMemOffset_of_mem hm.buffers he
  rw [hrec, hfind]

theorem read_encoded_registered (hpart : (c.paramType i).isPartialMem)
    (h : read data k (paramBytes ca c i).length = paramBytes ca c i)
    (halloc : ¬ (ca.shm (c.params i).ptr).isAllocated = true) :
    read data (k + 17) (Client.referencedSize ca.shm c i).toNat =
      read ca.mem (Client.referencedAddr ca.shm c i) (Client.referencedSize ca.shm c i).toNat := by
  rw [paramBytes_of_isPartialMem hpart, if_neg halloc] at h
  have hbytes := read_infix (a := k) (recordBytes ca (ca.shm (c.params i).ptr))
    (read ca.mem (Client.referencedAddr ca.shm c i) (Client.referencedSize ca.shm c i).toNat)
    [] (by simpa using h)
  simpa using hbytes

theorem received_of_slotDecoded (hm : Mirrors ca c shrdMemList) (hu : Untouched c op i)
    (h : read data k (paramBytes ca c i).length = paramBytes ca c i)
    {before after : Slot} (hb : before.param = op.params i)
    (hd : Daemon.SlotDecoded (Daemon.findShmByOffset shrdMemList) data op k i before after) :
    Received ca c shrdMemList data i after := by
  simp only [Daemon.SlotDecoded, hu.paramType] at hd
  simp only [Received]
  by_cases htemp : (c.paramType i).isTempMem = true
  · rw [if_pos htemp] at hd ⊢
    simp only [paramBytes, htemp, if_true, length_read] at h
    subst hd
    by_cases hzero : (op.params i).size = 0
    · rw [if_pos hzero]
      rw [hu.size] at hzero
      exact ⟨hu.size, by simp [hu.ptr htemp, hzero, payloadBytes, Daemon.Addr.zero_def]⟩
    · rw [if_neg hzero]
      exact ⟨hu.size, by simp [payloadBytes, h]⟩
  rw [if_neg htemp] at hd ⊢
  by_cases hpart : (c.paramType i).isPartialMem = true
  · rw [if_pos hpart] at hd ⊢
    simp only [Daemon.recordAt, copyToShareMemory_encoded hpart h] at hd
    by_cases halloc : (ca.shm (c.params i).ptr).isAllocated = true
    · rw [if_pos halloc] at hd ⊢
      obtain ⟨b, hlook, -, rfl⟩ := hd
      obtain ⟨e, he, hbuf, b', hb', hoff, -, hlook'⟩ := look_encoded hm hpart h halloc
      obtain rfl : b = b' := Option.some.inj (hlook.symm.trans hlook')
      exact ⟨rfl, hu.size, rfl, rfl, rfl, hu.offset, e, he, hbuf, b, hb', hoff, rfl, rfl⟩
    · rw [if_neg halloc] at hd ⊢
      subst hd
      refine ⟨rfl, hu.size, rfl, rfl, rfl, rfl, ?_⟩
      rw [payloadBytes, read_encoded_registered hpart h halloc]
  rw [if_neg hpart] at hd ⊢
  subst hd
  split_ifs with hvalue
  rw [hb]
  exact hu.value hvalue

end Slots

section Run

variable {ca : CaState} {c : Operation Nat} {data : Mem}
variable {shrdMemList : List SharedMemoryInner}

theorem decodeParams_encoded (hm : Mirrors ca c shrdMemList) (totalSize : U32)
    {is : List (Fin 4)} (hnd : is.Nodup) (st : DecodeState) (hu : ∀ i ∈ is, Untouched c st.operation i)
    (henc : Client.Encoded ca c data st.shmInfoOffset.toNat is)
    (hleft : payloadSize ca.shm c is ≤ st.sizeLeft.toNat)
    (hfit : st.shmInfoOffset.toNat + payloadSize ca.shm c is ≤ totalSize.toNat) :
    ∃ st', Daemon.decodeParams (m := Id) (Daemon.findShmByOffset shrdMemList) data totalSize is st =
        (.success, st') ∧
      st'.shmInfoOffset.toNat = st.shmInfoOffset.toNat + payloadSize ca.shm c is ∧
      st'.sizeLeft.toNat + payloadSize ca.shm c is = st.sizeLeft.toNat ∧
      ∀ i ∈ is, Received ca c shrdMemList data i (st'.slot i) := by
  induction is generalizing st with
  | nil => exact ⟨st, rfl, rfl, rfl, by simp⟩
  | cons i is ih =>
    rw [Client.payloadSize_cons] at hleft hfit ⊢
    rw [List.nodup_cons] at hnd
    have hui := hu i List.mem_cons_self
    have hlen := slotLen_eq_paramSize hui henc.1
    obtain ⟨mid, hmid⟩ := Daemon.decodeParam_succeeds
      (Daemon.findShmByOffset shrdMemList) data totalSize i st (by omega) (by omega) fun hpart halloc => by
        rw [hui.paramType] at hpart
        rw [Daemon.recordAt, copyToShareMemory_encoded hpart henc.1] at halloc
        obtain ⟨-, -, -, b, -, -, hnull, hlook⟩ := look_encoded hm hpart henc.1 halloc
        exact ⟨b, hlook, hnull⟩
    have step := Daemon.decodeStep_of_success hmid (by omega)
    have hmidu j (hj : j ∈ is) : Untouched c mid.operation j := by
      have same := step.sameSlot (j := j) fun hji => hnd.1 (hji ▸ hj)
      have huj := hu j (List.mem_cons_of_mem _ hj)
      exact ⟨same.paramType.trans huj.paramType, same.param ▸ huj.size, same.param ▸ huj.offset,
        same.param ▸ huj.ptr, same.param ▸ huj.value⟩
    have hoff := step.offset
    have hsize := step.sizeLeft
    rw [hlen] at hoff hsize
    obtain ⟨st', hrun, hoff', hsize', hrec⟩ := ih hnd.2 mid hmidu (hoff ▸ henc.2) (by omega) (by omega)
    refine ⟨st', ?_, by omega, by omega, fun j hj => ?_⟩
    · rw [Daemon.decodeParams_cons, hmid]
      exact hrun
    · rcases List.mem_cons.mp hj with rfl | hj
      · rw [(Daemon.decodeRun_of_success hnd.2 hrun step.fits).frame j hnd.1]
        exact received_of_slotDecoded hm hui henc.1 rfl step.slot
      · exact hrec j hj

end Run

/-- Without a payload no slot needs a round: registered references are never empty,
and an empty temporary reference stays null. -/
theorem received_of_paramSize_eq_zero {ca : CaState} {c : Operation Nat} {op : Operation Addr}
    {data : Mem} {shrdMemList : List SharedMemoryInner} {i : Fin 4} {s : Slot}
    (hm : Mirrors ca c shrdMemList) (hu : Untouched c op i) (hs : s.param = op.params i)
    (hzero : paramSize ca.shm c i = 0) : Received ca c shrdMemList data i s := by
  have hpart : ¬ (c.paramType i).isPartialMem = true := by
    intro hpart
    simp [paramSize, ParamType.isTempMem_of_isPartialMem hpart, hpart] at hzero
  apply received_of_slotDecoded (k := 0) hm hu ?_ hs
  · simp only [Daemon.SlotDecoded, hu.paramType, hpart, Bool.false_eq_true, if_false]
    split_ifs with htemp hsize
    · rw [← hs]
    · simp only [paramSize, htemp, if_true] at hzero
      rw [hu.size, BitVec.toNat_eq] at hsize
      exact absurd hzero hsize
  · have := Client.length_paramBytes_le ca c i
    simp [List.length_eq_zero_iff.mp (by omega : (paramBytes ca c i).length = 0)]

theorem untouched_clearedParam (wire : RawOperation) (ionFds : Fin 4 → Int) (i : Fin 4) :
    Untouched (clientOp wire)
      { wire.view Addr.raw with params := Daemon.clearedParam ionFds (wire.view Addr.raw) } i where
  paramType := rfl
  size := by
    simp only [Daemon.clearedParam]
    split_ifs <;> rfl
  offset := by
    simp only [Daemon.clearedParam]
    split_ifs <;> rfl
  ptr := by
    intro h
    have h' : (wire.paramType i).isTempMem = true := h
    simp [Daemon.clearedParam, Daemon.clearPtr, h']
  value := by
    intro h
    have h' : (wire.paramType i).isValueMem = true := h
    cases ht : wire.paramType i <;>
      simp_all [Daemon.clearedParam, ParamType.isTempMem, ParamType.isPartialMem,
        ParamType.isValueMem, RawParameter.view]

/-- Every operation the client accepts is encoded into exactly the payload it
reserved, and the daemon decodes that payload to its last byte into what the client
meant. -/
theorem getTeecOptMem_teecOptEncode (ca : CaState) (wire : RawOperation) (ionFds : Fin 4 → Int)
    (shrdMemList : List SharedMemoryInner) (n : Nat)
    (accepted : Client.teecCheckOperation ca.shm (some (clientOp wire)) = .success)
    (sized : Client.getOptMemSize ca.shm (some (clientOp wire)) = .ok n)
    (ion : ∀ i, wire.paramType i = .ionInput → 0 ≤ ionFds i)
    (mirrors : Mirrors ca (clientOp wire) shrdMemList) :
    ∃ enc op dec,
      Client.teecOptEncode ca (clientOp wire) (Client.createAshmem n) n = .ok enc ∧
      enc.sizeLeft = 0 ∧
      Client.copyTeecOptMem ca (some (clientOp wire)) n =
        .ok (if n = 0 then none else some enc.optMem) ∧
      Daemon.getOperationFromData ionFds wire = some op ∧
      Daemon.getTeecOptMem (m := Id) (Daemon.findShmByOffset shrdMemList) op (BitVec.ofNat 32 n)
        (if n = 0 then none else some enc.optMem.data) = (.success, dec) ∧
      dec.shmInfoOffset.toNat = n ∧ dec.sizeLeft = 0 ∧
      ∀ i, Received ca (clientOp wire) shrdMemList enc.optMem.data i (dec.slot i) := by
  obtain ⟨hn, hlimit⟩ := Client.getOptMemSize_eq_ok sized
  obtain ⟨enc, hrun, hleft, henc⟩ :=
    Client.teecOptEncode_spec (Client.createAshmem n) accepted sized rfl
  have hop := Daemon.getOperationFromData_eq_some.mpr ⟨ion, rfl⟩
  have hcopy : Client.copyTeecOptMem ca (some (clientOp wire)) n =
      .ok (if n = 0 then none else some enc.optMem) := by
    simp only [Client.copyTeecOptMem, hrun]
    split_ifs <;> rfl
  have hsmall : n < 4294967296 := by
    rw [Client.paramSizeLimit] at hlimit
    omega
  have htotal : (BitVec.ofNat 32 n).toNat = n := by
    rw [BitVec.toNat_ofNat, Nat.mod_eq_of_lt hsmall]
  have hu i := untouched_clearedParam wire ionFds i
  by_cases hzero : n = 0
  · subst hzero
    refine ⟨enc, _, _, hrun, hleft, hcopy, hop, rfl, rfl, rfl, fun i => ?_⟩
    refine received_of_paramSize_eq_zero mirrors (hu i) rfl ?_
    have hsum := List.sum_eq_zero_iff.mp hn.symm
    exact hsum _ (List.mem_map_of_mem (mem_paramIndices i))
  · obtain ⟨dec, hdec, hoff, hsize, hrec⟩ := decodeParams_encoded mirrors
      (BitVec.ofNat 32 n) (by decide)
      { operation := _, para := .zeroed, shmInfoOffset := 0, sizeLeft := BitVec.ofNat 32 n }
      (fun i _ => hu i) henc (by simp [htotal, ← hn]) (by simp [htotal, ← hn])
    refine ⟨enc, _, dec, hrun, hleft, hcopy, hop, ?_, ?_, ?_, fun i => hrec i (mem_paramIndices i)⟩
    · have hne : ¬ BitVec.ofNat 32 n = 0 := by
        rw [BitVec.toNat_eq, htotal]
        exact hzero
      simp only [Daemon.getTeecOptMem]
      rw [if_neg hne, if_neg hzero]
      exact hdec
    · simpa [← hn] using hoff
    · rw [BitVec.toNat_eq]
      simp only [htotal, ← hn] at hsize
      simpa using hsize

/-- A client with a registered parent of 16 bytes at `0x200` and an allocated one of
32 bytes at `0x400`. -/
def sampleCa : CaState where
  mem x := BitVec.ofNat 8 x
  shm p := if p = 0x200
    then { buffer := 0x300, size := 16, flags := memInout, opsCnt := 1, isAllocated := false }
    else { buffer := 0x500, size := 32, flags := memInout, opsCnt := 1, isAllocated := true }
  mShareMem := [{ offset := 3, buffer := 0x500, size := 32, fd := 7 }]

def sampleWire : RawOperation where
  started := 1
  paramTypes := paramTypes ParamType.memrefTempInput.code ParamType.memrefPartialInout.code
    ParamType.memrefWhole.code ParamType.valueInput.code
  params := ![{ word := 0x100, size := 3, offset := 0 }, { word := 0x200, size := 8, offset := 4 },
    { word := 0x400, size := 0, offset := 0 }, { word := 0x500000007, size := 0, offset := 0 }]
  cancelFlag := false

def sampleBlock : SharedMemoryInner where
  id := 0
  buffer := .within (.block 0) 0
  size := 32
  flags := memInout
  opsCnt := 1
  isAllocated := true
  offset := 3
  listed := true

theorem getTeecOptMem_teecOptEncode_mixed :
    Client.teecCheckOperation sampleCa.shm (some (clientOp sampleWire)) = .success ∧
    Client.getOptMemSize sampleCa.shm (some (clientOp sampleWire)) = .ok 77 ∧
    ∃ data op dec,
      Daemon.getTeecOptMem (m := Id) (Daemon.findShmByOffset [sampleBlock]) op 77 (some data) =
        (.success, dec) ∧ dec.shmInfoOffset.toNat = 77 ∧
      ∀ i, Received sampleCa (clientOp sampleWire) [sampleBlock] data i (dec.slot i) := by
  have mirrors : Mirrors sampleCa (clientOp sampleWire) [sampleBlock] :=
    ⟨by decide, by decide, by decide⟩
  obtain ⟨enc, op, dec, -, -, -, -, hdec, hoff, -, hrec⟩ :=
    getTeecOptMem_teecOptEncode sampleCa sampleWire (fun _ => 0) [sampleBlock] 77
      rfl rfl (by decide) mirrors
  exact ⟨rfl, rfl, enc.optMem.data, op, dec, hdec, hoff, hrec⟩

end TeeClient.RoundTrip
