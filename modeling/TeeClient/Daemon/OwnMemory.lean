import Mathlib.Tactic
import TeeClient.Daemon.HandOverLaws
import TeeClient.Vendor.SharedMemoryLaws

/-! Whose memory the addresses point to that a request hands to the driver. -/

namespace TeeClient.Daemon

open ByteMemory

/-- A range described to the driver is empty and null, lies in the payload of the
request, or lies in the mapping of a block that was allocated on the context. -/
inductive OwnRange (shrdMemList : List SharedMemoryInner) (r : Request) :
    Addr → U32 → U32 → Prop
  | null : OwnRange shrdMemList r 0 0 0
  | payload {k : Nat} {offset size : U32}
      (fits : k + offset.toNat + size.toNat ≤ r.optMemSize.toNat) :
      OwnRange shrdMemList r (.within .payload k) offset size
  | block {b : SharedMemoryInner} (mem : b ∈ shrdMemList) (alloc : b.isAllocated = true) {k : Nat}
      {offset size : U32} (fits : k + offset.toNat + size.toNat ≤ b.size.toNat) :
      OwnRange shrdMemList r (b.buffer + k) offset size

/-- The memory described in `cli` is the daemon's own, and a looked-up block is an
allocated one whose real size is kept. -/
def OwnMemory (shrdMemList : List SharedMemoryInner) (r : Request)
    (cli : Vendor.ClientParams Addr) (para : DecodePara) : Prop :=
  ∀ i,
    (∀ buffer offset size, cli.params i = .memref buffer offset size →
      OwnRange shrdMemList r buffer offset size) ∧
    (inUse r.kind i → ∀ b, para.shmInner i = some b → b.isAllocated = true ∧
      ∀ buffer offset size, cli.params i = .memref buffer offset size →
        offset.toNat + size.toNat ≤ b.size.toNat)

/-- The bytes a wire record claims of the block it names: the whole of its own size,
or the range of the reference. -/
def claimedEnd (wire : RawOperation) (data : Mem) (k : Nat) (i : Fin 4) : Nat :=
  if wire.paramType i = .memrefWhole then (recordAt data k).size.toNat
  else (wire.params i).offset.toNat + (wire.params i).size.toNat

/-- No slot in use is a `MEMREF_SHARED_INOUT`, and every record that calls its parent
allocated names an allocated block and stays inside its real size. -/
def RangesFit (shrdMemList : List SharedMemoryInner) (r : Request) (wire : RawOperation) : Prop :=
  ∀ i, inUse r.kind i →
    wire.paramType i ≠ .memrefSharedInout ∧
    ((wire.paramType i).isPartialMem = true → ∀ data, r.optMem = some data →
      (recordAt data (startFrom data (wire.view Addr.raw) paramIndices 0 i)).isAllocated = true →
      ∀ b, findShmByOffset shrdMemList
          (recordOffset data (startFrom data (wire.view Addr.raw) paramIndices 0 i)) = some b →
        b.isAllocated = true ∧
        claimedEnd wire data (startFrom data (wire.view Addr.raw) paramIndices 0 i) i ≤
          b.size.toNat)

section Slots

variable {mem : BitVec 64 → SharedMemory Addr} {shrdMemList : List SharedMemoryInner}
variable {r : Request} {wire : RawOperation} {st : DecodeState} {i : Fin 4} {data : Mem}

theorem size_clearedParam {ionFds : Fin 4 → Int} :
    ((clearedOp ionFds wire).params i).size = (wire.params i).size := by
  simp only [clearedOp, clearedParam]
  split_ifs <;> rfl

theorem offset_clearedParam {ionFds : Fin 4 → Int} :
    ((clearedOp ionFds wire).params i).offset = (wire.params i).offset := by
  simp only [clearedOp, clearedParam]
  split_ifs <;> rfl

theorem ptr_clearedParam (ionFds : Fin 4 → Int)
    (h : ((wire.paramType i).isTempMem || (wire.paramType i).isPartialMem) = true) :
    ((clearedOp ionFds wire).params i).ptr = 0 := by
  simp only [clearedOp, clearedParam, RawOperation.paramType_view, h, if_true]
  rfl

theorem params_clearedOp_of_raw {ionFds : Fin 4 → Int}
    (h : ((wire.paramType i).isTempMem || (wire.paramType i).isPartialMem) = false)
    (hion : wire.paramType i ≠ .ionInput) :
    (clearedOp ionFds wire).params i = (wire.view Addr.raw).params i := by
  simp only [clearedOp, clearedParam, RawOperation.paramType_view, h, hion, Bool.false_eq_true,
    if_false]

theorem params_clearedOp_of_ion {ionFds : Fin 4 → Int} (hion : wire.paramType i = .ionInput) :
    (clearedOp ionFds wire).params i =
      setIonShareFd ((wire.view Addr.raw).params i) (ionFds i) := by
  have hmem : ((wire.paramType i).isTempMem || (wire.paramType i).isPartialMem) = false := by
    rw [hion]
    rfl
  simp only [clearedOp, clearedParam, RawOperation.paramType_view, hmem, Bool.false_eq_true,
    if_false]
  exact if_pos hion

theorem startFrom_clearedOp {ionFds : Fin 4 → Int} :
    startFrom data (clearedOp ionFds wire) paramIndices 0 i =
      startFrom data (wire.view Addr.raw) paramIndices 0 i := by
  apply startFrom_congr
  intro j _ k
  exact slotLen_congr (wire.view Addr.raw) (clearedOp ionFds wire) rfl
    size_clearedParam k

theorem Decoded.param_of_other (h : Decoded shrdMemList r (clearedOp r.ionFds wire) st)
    (ht : ((wire.paramType i).isTempMem || (wire.paramType i).isPartialMem) = false) :
    st.operation.params i = (clearedOp r.ionFds wire).params i := by
  rw [Bool.or_eq_false_iff] at ht
  rcases h.slot i with ⟨-, hslot⟩ | ⟨data, -, -, hslot, -⟩
  · exact congrArg Slot.param hslot
  · simp only [SlotDecoded, paramType_clearedOp, ht.1, ht.2, Bool.false_eq_true, if_false] at hslot
    exact congrArg Slot.param hslot

theorem Decoded.param_of_temp (h : Decoded shrdMemList r (clearedOp r.ionFds wire) st)
    (ht : (wire.paramType i).isTempMem = true) :
    (st.operation.params i).size = (wire.params i).size ∧
    ((st.operation.params i).ptr = 0 ∨
      ∃ k, (st.operation.params i).ptr = .within .payload k ∧
        k + (wire.params i).size.toNat ≤ r.optMemSize.toNat) := by
  have hnull := ptr_clearedParam r.ionFds (by simp [ht] :
    ((wire.paramType i).isTempMem || (wire.paramType i).isPartialMem) = true)
  rcases h.slot i with ⟨-, hslot⟩ | ⟨data, -, -, hslot, hfit⟩
  · have hparam : st.operation.params i = _ := congrArg Slot.param hslot
    rw [hparam]
    exact ⟨size_clearedParam, .inl hnull⟩
  · simp only [SlotDecoded, paramType_clearedOp, ht, if_true] at hslot
    have hparam : st.operation.params i = _ := congrArg Slot.param hslot
    simp only [slotLen, paramType_clearedOp, ht, if_true, size_clearedParam] at hfit
    rw [hparam]
    dsimp only
    split_ifs
    · exact ⟨size_clearedParam, .inl hnull⟩
    · exact ⟨size_clearedParam, .inr ⟨_, rfl, hfit⟩⟩

/-- A registered reference, at the payload offset `k` of its record: its parent is
the daemon's copy of the record, whose buffer is the block that was looked up or lies
in the payload. -/
inductive PartialDecoded (shrdMemList : List SharedMemoryInner) (r : Request) (wire : RawOperation)
    (data : Mem) (k : Nat) (i : Fin 4) (param : Parameter Addr) (shm : SharedMemory Addr)
    (shmInner : Option SharedMemoryInner) : Prop
  | block (b : SharedMemoryInner) (alloc : (recordAt data k).isAllocated = true)
      (found : findShmByOffset shrdMemList (recordOffset data k) = some b)
      (inner : shmInner = some b) (parent : shm = { recordAt data k with buffer := b.buffer })
      (offset : param.offset = (wire.params i).offset)
  | payload (registered : (recordAt data k).isAllocated = false) (inner : shmInner = none)
      (parent : shm = { recordAt data k with buffer := .within .payload (k + 17) })
      (offset : param.offset = 0)
      (fits : k + 17 + (if wire.paramType i = .memrefWhole then (recordAt data k).size
        else (wire.params i).size).toNat ≤ r.optMemSize.toNat)

theorem Decoded.param_of_partial (h : Decoded shrdMemList r (clearedOp r.ionFds wire) st)
    (hp : (wire.paramType i).isPartialMem = true) :
    (st.operation.params i).size = (wire.params i).size ∧
    ((st.operation.params i).ptr = 0 ∨
      (st.operation.params i).ptr = .within (.parent i) 0 ∧
      ∃ data, r.optMem = some data ∧
        PartialDecoded shrdMemList r wire data
          (startFrom data (wire.view Addr.raw) paramIndices 0 i) i
          (st.operation.params i) (st.para.shm i) (st.para.shmInner i)) := by
  have htemp := ParamType.isTempMem_of_isPartialMem hp
  rcases h.slot i with ⟨-, hslot⟩ | ⟨data, -, hmem, hslot, hfit⟩
  · have hparam : st.operation.params i = _ := congrArg Slot.param hslot
    rw [hparam]
    exact ⟨size_clearedParam, .inl (ptr_clearedParam _ (by simp [hp]))⟩
  · rw [startFrom_clearedOp] at hslot hfit
    simp only [SlotDecoded, paramType_clearedOp, htemp, hp, Bool.false_eq_true, if_false,
      if_true] at hslot
    simp only [slotLen, refSize, paramType_clearedOp, htemp, hp, Bool.false_eq_true, if_false,
      if_true, size_clearedParam] at hfit
    by_cases halloc :
        (recordAt data (startFrom data (wire.view Addr.raw) paramIndices 0 i)).isAllocated = true
    · rw [if_pos halloc] at hslot
      obtain ⟨b, hfound, -, hslot⟩ := hslot
      have hparam : st.operation.params i = _ := congrArg Slot.param hslot
      have hshm : st.para.shm i = _ := congrArg Slot.shm hslot
      have hinner : st.para.shmInner i = _ := congrArg Slot.shmInner hslot
      rw [hparam]
      exact ⟨size_clearedParam, .inr ⟨rfl, data, hmem,
        .block b halloc hfound hinner hshm offset_clearedParam⟩⟩
    · rw [if_neg halloc] at hslot
      have hparam : st.operation.params i = _ := congrArg Slot.param hslot
      have hshm : st.para.shm i = _ := congrArg Slot.shm hslot
      have hinner : st.para.shmInner i = _ := congrArg Slot.shmInner hslot
      rw [hparam]
      exact ⟨size_clearedParam, .inr ⟨rfl, data, hmem,
        .payload (Bool.not_eq_true _ ▸ halloc) hinner hshm rfl (by omega)⟩⟩

theorem Passed.ptr_ne_zero (h : Passed mem shrdMemList r (clearedOp r.ionFds wire) st)
    (hin : inUse r.kind i) (hp : (wire.paramType i).isPartialMem = true) :
    (st.operation.params i).ptr ≠ 0 := by
  have htype : (innerOperation r.kind st.operation).paramType i = wire.paramType i := by
    rw [h.paramType_inner, if_pos hin, paramType_clearedOp]
  have htemp := ParamType.isTempMem_of_isPartialMem hp
  have hcheck := h.checkedSlot i
  simp only [Vendor.teecCheckParam, htype, htemp, hp, Bool.false_eq_true, if_false, if_true]
    at hcheck
  have := (Vendor.teecCheckMemRef_eq_success.mp hcheck).1
  rwa [params_innerOperation] at this

theorem Passed.encodeSlot (h : Passed mem shrdMemList r (clearedOp r.ionFds wire) st)
    (hin : inUse r.kind i) :
    ((Vendor.teecEncodeParam (parentAt mem st.para) (innerOperation r.kind st.operation)).1.params i) =
      (if (wire.paramType i).isTempMem then Vendor.teecEncodeTempParam (st.operation.params i)
      else if (wire.paramType i).isPartialMem || (wire.paramType i).isSharedMem then
        (Vendor.teecEncodePartialParam (parentAt mem st.para) (wire.paramType i)
          (st.operation.params i)).1
      else if (wire.paramType i).isValueMem then
        Vendor.teecEncodeValueParam (st.operation.params i)
      else if wire.paramType i = .ionInput ∨ wire.paramType i = .ionSglistInput then
        Vendor.teecEncodeIonParam (st.operation.params i)
      else .zeroed) := by
  have htype : (innerOperation r.kind st.operation).paramType i = wire.paramType i := by
    rw [h.paramType_inner, if_pos hin, paramType_clearedOp]
  simp only [Vendor.teecEncodeParam, Vendor.teecEncodeSlot, htype, params_innerOperation]
  split_ifs <;> rfl

theorem Passed.encodeSlot_unused (h : Passed mem shrdMemList r (clearedOp r.ionFds wire) st)
    (hin : ¬ inUse r.kind i) :
    ((Vendor.teecEncodeParam (parentAt mem st.para) (innerOperation r.kind st.operation)).1.params i) =
      .zeroed := by
  have htype : (innerOperation r.kind st.operation).paramType i = .none := by
    rw [h.paramType_inner, if_neg hin]
  exact congrArg Prod.fst (Vendor.teecEncodeSlot_of_none _ htype)

theorem Passed.encoded_partial (h : Passed mem shrdMemList r (clearedOp r.ionFds wire) st)
    (hin : inUse r.kind i) (hp : (wire.paramType i).isPartialMem = true) :
    ∃ data offset size, r.optMem = some data ∧
      ((∃ b, (recordAt data (startFrom data (wire.view Addr.raw) paramIndices 0 i)).isAllocated =
            true ∧
          findShmByOffset shrdMemList
            (recordOffset data (startFrom data (wire.view Addr.raw) paramIndices 0 i)) = some b ∧
          st.para.shmInner i = some b ∧
          (Vendor.teecEncodeParam (parentAt mem st.para)
            (innerOperation r.kind st.operation)).1.params i = .memref b.buffer offset size ∧
          offset.toNat + size.toNat =
            claimedEnd wire data (startFrom data (wire.view Addr.raw) paramIndices 0 i) i) ∨
        (recordAt data (startFrom data (wire.view Addr.raw) paramIndices 0 i)).isAllocated = false ∧
        st.para.shmInner i = none ∧
        ∃ k, (Vendor.teecEncodeParam (parentAt mem st.para)
            (innerOperation r.kind st.operation)).1.params i =
              .memref (.within .payload k) offset size ∧
          k + offset.toNat + size.toNat ≤ r.optMemSize.toNat) := by
  have htemp := ParamType.isTempMem_of_isPartialMem hp
  obtain ⟨hsize, hptr | ⟨hptr, data, hmem, hdec⟩⟩ := h.decoded.param_of_partial hp
  · exact absurd hptr (h.ptr_ne_zero hin hp)
  have henc := h.encodeSlot hin
  simp only [htemp, hp, Bool.false_eq_true, if_false, Bool.true_or, if_true,
    Vendor.teecEncodePartialParam, hptr, parentAt] at henc
  cases hdec with
  | block b halloc hfound hinner hparent hoff =>
    rw [hparent, halloc, if_pos rfl, hsize, hoff] at henc
    refine ⟨data, _, _, hmem, .inl ⟨b, halloc, hfound, hinner, henc, ?_⟩⟩
    rw [claimedEnd]
    split_ifs <;> simp
  | payload hreg hinner hparent hoff hfits =>
    rw [hparent, hreg, if_neg (by simp), hsize, hoff] at henc
    refine ⟨data, _, _, hmem, .inr ⟨hreg, hinner, _, henc, ?_⟩⟩
    split_ifs at hfits ⊢ <;> simpa using hfits

end Slots

section Main

variable {shrdMemList : List SharedMemoryInner} {r : Request} {wire : RawOperation}
variable {st : DecodeState} {mem mem' : BitVec 64 → SharedMemory Addr}

theorem Decoded.shmInner_of_other (h : Decoded shrdMemList r (clearedOp r.ionFds wire) st)
    {i : Fin 4} (hp : (wire.paramType i).isPartialMem = false) : st.para.shmInner i = none := by
  rcases h.slot i with ⟨-, hslot⟩ | ⟨data, -, -, hslot, -⟩
  · exact congrArg Slot.shmInner hslot
  · simp only [SlotDecoded, paramType_clearedOp, hp, Bool.false_eq_true, if_false] at hslot
    split_ifs at hslot <;> exact congrArg Slot.shmInner hslot

theorem Passed.ownRange_of_temp (h : Passed mem shrdMemList r (clearedOp r.ionFds wire) st)
    {i : Fin 4} (hin : inUse r.kind i) (ht : (wire.paramType i).isTempMem = true) :
    OwnRange shrdMemList r (st.operation.params i).ptr 0 (st.operation.params i).size := by
  obtain ⟨hsize, hptr | ⟨k, hptr, hk⟩⟩ := h.decoded.param_of_temp ht
  · have htype : (innerOperation r.kind st.operation).paramType i = wire.paramType i := by
      rw [h.paramType_inner, if_pos hin, paramType_clearedOp]
    have hcheck := h.checkedSlot i
    simp only [Vendor.teecCheckParam, htype, ht, if_true, params_innerOperation] at hcheck
    have hzero : (st.operation.params i).size = 0 := by
      have := checkTmpRef_eq_success.mp hcheck
      simpa [hptr] using this
    rw [hptr, hzero]
    exact .null
  · rw [hptr, hsize]
    exact .payload (by simpa using hk)

/-- Which requests are accepted does not depend on the memory behind a number. -/
theorem Passed.of_mem (h : Passed mem shrdMemList r (clearedOp r.ionFds wire) st)
    (mem' : BitVec 64 → SharedMemory Addr) :
    Passed mem' shrdMemList r (clearedOp r.ionFds wire) st := by
  refine ⟨h.decoded, h.login, ?_⟩
  rw [Vendor.teecCheckOperation_eq_success]
  refine ⟨(Vendor.teecCheckOperation_eq_success.mp h.checked).1, fun i => ?_⟩
  have hcheck := h.checkedSlot i
  by_cases hpart : inUse r.kind i ∧ (wire.paramType i).isPartialMem = true
  · have hparent : parentAt mem' st.para ((innerOperation r.kind st.operation).params i).ptr =
        parentAt mem st.para ((innerOperation r.kind st.operation).params i).ptr := by
      obtain ⟨-, hptr | ⟨hptr, -⟩⟩ := h.decoded.param_of_partial hpart.2
      · exact absurd hptr (h.ptr_ne_zero hpart.1 hpart.2)
      · rw [params_innerOperation, hptr]
        rfl
    simp only [Vendor.teecCheckParam, Vendor.teecCheckMemRef] at hcheck ⊢
    rwa [hparent]
  · have htype : ((innerOperation r.kind st.operation).paramType i).isPartialMem = false := by
      rw [h.paramType_inner]
      split_ifs with hin
      · rw [paramType_clearedOp]
        exact Bool.eq_false_iff.mpr fun hp => hpart ⟨hin, hp⟩
      · rfl
    simp only [Vendor.teecCheckParam, htype, Bool.false_eq_true, if_false] at hcheck ⊢
    exact hcheck

theorem ownMemory_of_rangesFit (h : Passed mem shrdMemList r (clearedOp r.ionFds wire) st)
    (hfit : RangesFit shrdMemList r wire) :
    OwnMemory shrdMemList r (Vendor.teecEncodeParam (parentAt mem st.para)
      (innerOperation r.kind st.operation)).1 st.para := by
  intro i
  by_cases hin : inUse r.kind i
  case neg =>
    rw [h.encodeSlot_unused hin]
    exact ⟨nofun, fun hin' => absurd hin' hin⟩
  obtain ⟨hshared, hblocks⟩ := hfit i hin
  by_cases hp : (wire.paramType i).isPartialMem = true
  · obtain ⟨data, offset, size, hmem, ⟨b, halloc, hfound, hinner, henc, hend⟩ |
      ⟨-, hinner, k, henc, hend⟩⟩ := h.encoded_partial hin hp
    · obtain ⟨hb, hsize⟩ := hblocks hp data hmem halloc b hfound
      rw [henc, hinner]
      constructor
      · intro buffer offset' size' heq
        obtain ⟨rfl, rfl, rfl⟩ := Vendor.ClientParam.memref.inj heq
        have hfits : 0 + offset.toNat + size.toNat ≤ b.size.toNat := by omega
        have hown := OwnRange.block (r := r) (List.mem_of_find?_eq_some hfound) hb hfits
        rwa [Addr.add_zero] at hown
      · rintro - c hc
        obtain rfl := Option.some.inj hc
        refine ⟨hb, fun buffer offset' size' heq => ?_⟩
        obtain ⟨rfl, rfl, rfl⟩ := Vendor.ClientParam.memref.inj heq
        omega
    · rw [henc, hinner]
      refine ⟨fun buffer offset' size' heq => ?_, nofun⟩
      obtain ⟨rfl, rfl, rfl⟩ := Vendor.ClientParam.memref.inj heq
      exact .payload hend
  · rw [Bool.not_eq_true] at hp
    rw [h.decoded.shmInner_of_other hp]
    refine ⟨fun buffer offset size henc => ?_, nofun⟩
    rw [h.encodeSlot hin] at henc
    by_cases ht : (wire.paramType i).isTempMem = true
    · rw [if_pos ht] at henc
      obtain ⟨rfl, rfl, rfl⟩ := Vendor.ClientParam.memref.inj henc
      exact h.ownRange_of_temp hin ht
    · have hs : (wire.paramType i).isSharedMem = false := by
        rwa [← Bool.not_eq_true, ParamType.isSharedMem_iff]
      rw [if_neg ht, hp, hs, if_neg (by simp)] at henc
      split_ifs at henc
      all_goals cases henc

/-- The buffer of an allocated block is the mapping made for it, or `ZERO_SIZE_PTR`. -/
def MappedBlocks (shrdMemList : List SharedMemoryInner) : Prop :=
  ∀ b ∈ shrdMemList, b.isAllocated = true →
    b.buffer = .within (.block b.id) 0 ∨ b.buffer = 16 ∧ b.size = 0

def foreignParent : SharedMemory Addr :=
  { DecodePara.zeroed.shm 0 with buffer := .within (.parent 0) 0, isAllocated := true }

theorem not_ownRange_foreign (hmapped : MappedBlocks shrdMemList) {offset size : U32} :
    ¬ OwnRange shrdMemList r foreignParent.buffer offset size := by
  intro h
  generalize hbuf : foreignParent.buffer = buffer at h
  cases h with
  | null => exact absurd hbuf (Addr.within_ne_zero _ _)
  | payload => cases hbuf
  | block hb halloc =>
    rcases hmapped _ hb halloc with heq | ⟨heq, -⟩ <;> (rw [heq] at hbuf; cases hbuf)

theorem rangesFit_of_ownMemory (hmapped : MappedBlocks shrdMemList)
    (h : Passed mem shrdMemList r (clearedOp r.ionFds wire) st)
    (hown : ∀ mem, OwnMemory shrdMemList r (Vendor.teecEncodeParam (parentAt mem st.para)
      (innerOperation r.kind st.operation)).1 st.para) :
    RangesFit shrdMemList r wire := by
  intro i hin
  constructor
  · intro htype
    -- nothing has touched `memref.parent` here
    have hptr : (st.operation.params i).ptr = .raw (wire.params i).word := by
      rw [h.decoded.param_of_other (by rw [htype]; rfl), params_clearedOp_of_raw (by rw [htype]; rfl)
        (by rw [htype]; decide)]
      rfl
    have henc := (h.of_mem fun _ => foreignParent).encodeSlot hin
    simp only [htype, ParamType.isTempMem, ParamType.isPartialMem, ParamType.isSharedMem,
      Vendor.teecEncodePartialParam, hptr, parentAt] at henc
    exact not_ownRange_foreign hmapped ((hown (fun _ => foreignParent) i).1 _ _ _ henc)
  · intro hp data hdata halloc b hfound
    obtain ⟨data', offset, size, hmem, ⟨c, -, hfound', hinner, henc, hend⟩ | ⟨hreg, -⟩⟩ :=
      h.encoded_partial hin hp
    · obtain rfl := Option.some.inj (hdata.symm.trans hmem)
      obtain rfl := Option.some.inj (hfound.symm.trans hfound')
      obtain ⟨hb, hsize⟩ := (hown mem i).2 hin b hinner
      exact ⟨hb, hend ▸ hsize _ _ _ henc⟩
    · obtain rfl := Option.some.inj (hdata.symm.trans hmem)
      exact absurd halloc (by simp [hreg])

end Main

section Reachable

/-- The states of a context's blocks in the daemon, between critical sections of any
number of requests.  A mapping is new memory; the buffer that `RegisterSharedMemory`
stores is a number. -/
inductive ReachableShms : Vendor.ShmTable Addr → Prop
  | init : ReachableShms .init
  | allocate {t : Vendor.ShmTable Addr} (h : ReachableShms t) (out : Vendor.AllocOutcome Addr)
      (shm : Vendor.ShmArgs Addr)
      (mapping : ∀ p, out.buffer = some p → p.val = .within (.block t.nextId) 0) :
      ReachableShms (Vendor.teecAllocateSharedMemoryInner out shm t).2
  | register {t : Vendor.ShmTable Addr} (h : ReachableShms t) (shm : Vendor.ShmArgs Addr)
      (word : BitVec 64) (number : shm.buffer = .raw word) :
      ReachableShms (Vendor.teecRegisterSharedMemoryInner shm t).2
  | get {t : Vendor.ShmTable Addr} (h : ReachableShms t) (shmOffset : U32) :
      ReachableShms (Vendor.getBnShmByOffset shmOffset t).2
  | put {t : Vendor.ShmTable Addr} (h : ReachableShms t) (id : Nat) :
      ReachableShms (Vendor.putBnShrMem id t)
  | remove {t : Vendor.ShmTable Addr} (h : ReachableShms t) (shm : Vendor.ShmArgs Addr) :
      ReachableShms (Vendor.teecFindAndRemoveShrMemInner true shm t).2

variable {t : Vendor.ShmTable Addr}

theorem mappedBlocks_modify (h : MappedBlocks t.blocks) {id : Nat}
    {f : SharedMemoryInner → SharedMemoryInner}
    (hf : ∀ b, (f b).id = b.id ∧ (f b).buffer = b.buffer ∧ (f b).size = b.size ∧
      (f b).isAllocated = b.isAllocated) :
    MappedBlocks (t.modify id f).blocks := by
  intro b hb halloc
  obtain ⟨c, hc, rfl⟩ := List.mem_map.mp hb
  split_ifs at halloc ⊢
  · obtain ⟨hid, hbuffer, hsize, hisAllocated⟩ := hf c
    rw [hid, hbuffer, hsize]
    exact h c hc (hisAllocated ▸ halloc)
  · exact h c hc halloc

theorem mappedBlocks_insert (h : MappedBlocks t.blocks) {shm : Vendor.ShmArgs Addr}
    {isAllocated : Bool} {offset : U32}
    (hnew : isAllocated = true →
      shm.buffer = .within (.block t.nextId) 0 ∨ shm.buffer = 16 ∧ shm.size = 0) :
    MappedBlocks (t.insert shm isAllocated offset).blocks := by
  intro b hb halloc
  rcases List.mem_append.mp hb with hb | hb
  · exact h b hb halloc
  · obtain rfl := List.mem_singleton.mp hb
    exact hnew halloc

theorem mappedBlocks_of_reachable (h : ReachableShms t) : MappedBlocks t.blocks := by
  induction h with
  | init => exact fun _ h => by cases h
  | @allocate t h out shm mapping ih =>
    simp only [Vendor.teecAllocateSharedMemoryInner]
    split_ifs
    case neg => exact ih
    split
    case h_1 => exact ih
    case h_2 =>
      split
      case h_1 => exact ih
      case h_2 buffer hbuffer =>
        refine mappedBlocks_insert ih fun _ => ?_
        rcases Vendor.allocateBuffer_ok hbuffer with ⟨rfl, hsize⟩ | ⟨q, hq, rfl⟩
        · exact .inr ⟨rfl, hsize⟩
        · exact .inl (mapping q hq)
  | register h shm word number ih =>
    simp only [Vendor.teecRegisterSharedMemoryInner]
    split_ifs
    · exact ih
    · exact mappedBlocks_insert ih (by simp)
  | get h shmOffset ih =>
    simp only [Vendor.getBnShmByOffset]
    split
    · exact ih
    · exact mappedBlocks_modify ih fun _ => ⟨rfl, rfl, rfl, rfl⟩
  | put h id ih =>
    simp only [Vendor.putBnShrMem]
    split
    · exact ih
    · split_ifs
      · exact fun b hb => ih b (List.mem_of_mem_filter hb)
      · exact mappedBlocks_modify ih fun _ => ⟨rfl, rfl, rfl, rfl⟩
  | remove h shm ih =>
    simp only [Vendor.teecFindAndRemoveShrMemInner]
    split
    · exact ih
    · exact mappedBlocks_modify ih fun _ => ⟨rfl, rfl, rfl, rfl⟩

/-- A request that is accepted hands over the daemon's own memory, whatever the
daemon's memory holds at the numbers in it, exactly when its ranges fit. -/
theorem ownMemory_handOver_iff (h : ReachableShms t) (r : Request)
    (haccepted : ∃ mem cli para, handOver mem t.shrdMemList r = .passed cli para) :
    (∀ mem cli para, handOver mem t.shrdMemList r = .passed cli para →
      OwnMemory t.shrdMemList r cli para) ↔
    ∀ wire, r.wire = some wire → RangesFit t.shrdMemList r wire := by
  obtain ⟨mem₀, cli₀, para₀, h₀⟩ := haccepted
  cases hw : r.wire with
  | none =>
    refine iff_of_true (fun mem cli para hpassed => ?_) (by simp)
    simp only [handOver, hw] at hpassed
    split_ifs at hpassed
    obtain ⟨rfl, rfl⟩ := HandOver.passed.inj hpassed
    exact fun i => ⟨(fun _ _ _ h => by cases h), fun _ _ h => by cases h⟩
  | some wire =>
    have hion := ionFds_of_passed hw h₀
    have hpass mem := handOver_of_wire mem t.shrdMemList hw hion
    have hmapped : MappedBlocks t.shrdMemList := fun b hb =>
      mappedBlocks_of_reachable h b (Vendor.ShmTable.mem_of_mem_shrdMemList hb)
    rw [hpass, handOverOperation_eq_passed] at h₀
    obtain ⟨st, hst, -, -⟩ := h₀
    constructor
    · rintro hown _ ⟨⟩
      refine rangesFit_of_ownMemory hmapped hst fun mem => hown mem _ _ ?_
      rw [hpass, handOverOperation_eq_passed]
      exact ⟨st, hst.of_mem mem, rfl, rfl⟩
    · intro hfit mem cli para hmem
      rw [hpass, handOverOperation_eq_passed] at hmem
      obtain ⟨st', hst', rfl, rfl⟩ := hmem
      exact ownMemory_of_rangesFit hst' (hfit wire rfl)

def sampleShms : Vendor.ShmTable Addr :=
  let mapping : Vendor.AllocOutcome Addr :=
    { mallocInner := true, buffer := some ⟨.within (.block 0) 0, nofun⟩, memset := true }
  let args (buffer : Addr) (size : U32) : Vendor.ShmArgs Addr :=
    { buffer, size, flags := memInout, isAllocated := false, offset := 0 }
  (Vendor.teecRegisterSharedMemoryInner (args (.raw 0x41414141) 64)
    (Vendor.teecAllocateSharedMemoryInner mapping (args 0 32) .init).2).2

theorem reachable_sampleShms : ReachableShms sampleShms :=
  .register (.allocate .init _ _ fun _ h => by cases h; rfl) _ 0x41414141 rfl

/-- An `InvokeCommand` with one partial reference to sixteen bytes of the block with
the offset `shmOffset`. -/
def sampleRequest (shmOffset : List (BitVec 8)) : Request where
  kind := .invokeCommand
  wire := some {
    started := 1
    paramTypes := paramTypes ParamType.memrefPartialInout.code 0 0 0
    params := fun _ => { word := 0, size := 16, offset := 8 }
    cancelFlag := false }
  ionFds := fun _ => -1
  optMemSize := 33
  optMem := some fun k => ([1, 3, 0, 0, 0, 1, 0, 0, 0] ++ shmOffset ++ [32, 0, 0, 0]).getD k 0

theorem rangesFit_sample (wire : RawOperation) (hw : (sampleRequest [0, 0, 0, 0]).wire = some wire) :
    RangesFit sampleShms.shrdMemList (sampleRequest [0, 0, 0, 0]) wire := by
  obtain rfl := Option.some.inj hw
  intro i _
  refine ⟨by revert i; decide, fun hp data hdata _ b hb => ?_⟩
  obtain rfl := Option.some.inj hdata
  obtain rfl : i = 0 := by
    clear hb
    revert i
    decide
  obtain rfl := Option.some.inj hb
  exact ⟨rfl, by decide⟩

theorem ownMemory_handOver_partial :
    ReachableShms sampleShms ∧
    ∀ mem cli para, handOver mem sampleShms.shrdMemList (sampleRequest [0, 0, 0, 0]) =
      .passed cli para → OwnMemory sampleShms.shrdMemList (sampleRequest [0, 0, 0, 0]) cli para :=
  ⟨reachable_sampleShms, (ownMemory_handOver_iff reachable_sampleShms _
    ⟨fun _ => foreignParent, _, _, rfl⟩).mpr rangesFit_sample⟩

theorem handOver_registered_escapes :
    ¬ ∀ t, ReachableShms t → ∀ mem r cli para, handOver mem t.shrdMemList r = .passed cli para →
      OwnMemory t.shrdMemList r cli para := by
  intro h
  have := h sampleShms reachable_sampleShms (fun _ => foreignParent)
    (sampleRequest [255, 255, 255, 255]) _ _ rfl
  have hb := ((this 0).2 trivial _ rfl).1
  exact absurd hb (by decide)

end Reachable

end TeeClient.Daemon
