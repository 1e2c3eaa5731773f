import Mathlib.Tactic
import TeeClient.Daemon.OwnMemory

/-! Which bytes of the operation in a parcel reach the driver.  Two parcels that
differ only in the pointers and descriptors of their operations are compared. -/

namespace TeeClient.Daemon

open ByteMemory

def carriesPtr (t : ParamType) : Bool := t.isTempMem || t.isPartialMem || t.isSharedMem

def carriesIonFd (t : ParamType) : Bool := t = .ionInput ∨ t = .ionSglistInput

/-- The two operations differ at most in pointers and descriptors. -/
structure SameButRaw (wire wire' : RawOperation) : Prop where
  started : wire'.started = wire.started
  paramTypes : wire'.paramTypes = wire.paramTypes
  size : ∀ i, (wire'.params i).size = (wire.params i).size
  offset : ∀ i, (wire'.params i).offset = (wire.params i).offset
  ionSize : ∀ i, carriesIonFd (wire.paramType i) = true →
    (wire'.params i).word.extractLsb' 32 32 = (wire.params i).word.extractLsb' 32 32
  word : ∀ i, carriesPtr (wire.paramType i) = false → carriesIonFd (wire.paramType i) = false →
    (wire'.params i).word = (wire.params i).word

def innerCall (shrdMemList : List SharedMemoryInner) (r : Request) : Option DecodeState := do
  let wire ← r.wire
  let op ← getOperationFromData r.ionFds wire
  match getTeecOptMem (m := Id) (findShmByOffset shrdMemList) op r.optMemSize r.optMem with
  | (.success, st) => some st
  | _ => none

def Addr.Own (p : Addr) : Prop := p = 0 ∨ ∃ region k, p = .within region k

/-- What the library gets for slot `i` is the daemon's: pointers to its own memory,
parents with the buffer of the payload or of a listed block, and descriptors that
came with the parcel. -/
structure Overwritten (shrdMemList : List SharedMemoryInner) (r : Request) (st : DecodeState)
    (i : Fin 4) : Prop where
  ptr : carriesPtr (st.operation.paramType i) = true → (st.operation.params i).ptr.Own
  parent : (st.operation.paramType i).isPartialMem = true → (st.operation.params i).ptr ≠ 0 →
    ∀ mem, (parentAt mem st.para (st.operation.params i).ptr).buffer.Own ∨
      ∃ b ∈ shrdMemList, (parentAt mem st.para (st.operation.params i).ptr).buffer = b.buffer
  ionFd : carriesIonFd (st.operation.paramType i) = true →
    (st.operation.params i).a = BitVec.ofInt 32 (r.ionFds i)

/-- No pointer and no descriptor of the operation in the parcel gets further than
the decoding, and the outcome does not depend on them. -/
structure RawBytesDropped (shrdMemList : List SharedMemoryInner) (r : Request)
    (wire : RawOperation) : Prop where
  overwritten : ∀ st, innerCall shrdMemList r = some st → ∀ i, inUse r.kind i →
    Overwritten shrdMemList r st i
  twoRuns : ∀ mem wire', SameButRaw wire wire' →
    handOver mem shrdMemList { r with wire := some wire' } = handOver mem shrdMemList r

def passesRaw (t : ParamType) : Bool := t = .memrefSharedInout ∨ t = .ionSglistInput

section Agree

/-- Two operations with the same types and, on the slots of `S`, the same contents;
`S` has all slots that are decoded. -/
structure AgreeOn (S : Fin 4 → Prop) (op op' : Operation Addr) : Prop where
  decoded : ∀ i, ((op.paramType i).isTempMem || (op.paramType i).isPartialMem) = true → S i
  started : op'.started = op.started
  paramTypes : op'.paramTypes = op.paramTypes
  params : ∀ i, S i → op'.params i = op.params i

variable {S : Fin 4 → Prop} {op op' : Operation Addr} {i : Fin 4} {data : Mem} {totalSize : U32}
variable {getBnShmByOffset : U32 → Option SharedMemoryInner}

theorem AgreeOn.setParam (h : AgreeOn S op op') (p : Parameter Addr) :
    AgreeOn S (op.setParam i p) (op'.setParam i p) where
  decoded := h.decoded
  started := h.started
  paramTypes := h.paramTypes
  params j hj := by
    by_cases hji : j = i
    · subst hji
      rw [Operation.params_setParam_self, Operation.params_setParam_self]
    · rw [Operation.params_setParam_of_ne _ hji, Operation.params_setParam_of_ne _ hji,
        h.params j hj]

theorem AgreeOn.paramType (h : AgreeOn S op op') (i : Fin 4) :
    op'.paramType i = op.paramType i := by
  rw [Operation.paramType, h.paramTypes, Operation.paramType]

/-- The same result, and states that differ only in the operation. -/
def SameDecode (S : Fin 4 → Prop) (x x' : TeecResult × DecodeState) : Prop :=
  ∃ op', x' = (x.1, { x.2 with operation := op' }) ∧ AgreeOn S x.2.operation op'

theorem sameDecode_teecOptDecodeTempMem {st : DecodeState} (h : AgreeOn S st.operation op')
    (hi : S i) :
    SameDecode S (teecOptDecodeTempMem totalSize i st)
      (teecOptDecodeTempMem totalSize i { st with operation := op' }) := by
  simp only [teecOptDecodeTempMem, h.params i hi]
  split_ifs
  · exact ⟨op', rfl, h⟩
  · exact ⟨op', rfl, h⟩
  · exact ⟨_, rfl, h.setParam _⟩

theorem sameDecode_teecOptDecodePartialMem {st : DecodeState} (h : AgreeOn S st.operation op')
    (hi : S i) :
    SameDecode S
      (teecOptDecodePartialMem (m := Id) getBnShmByOffset data totalSize i st)
      (teecOptDecodePartialMem (m := Id) getBnShmByOffset data totalSize i
        { st with operation := op' }) := by
  have href k : refSize data op' k i = refSize data st.operation k i := by
    rw [refSize, h.paramType, h.params i hi, refSize]
  simp only [teecOptDecodePartialMem, h.params i hi, href]
  split_ifs
  · exact ⟨op', rfl, h⟩
  · exact ⟨op', rfl, h⟩
  · generalize getBnShmByOffset (recordOffset data st.shmInfoOffset.toNat) = found
    cases found with
    | none => exact ⟨op', rfl, h⟩
    | some b =>
      change SameDecode S (if b.buffer = 0 then _ else _) (if b.buffer = 0 then _ else _)
      split_ifs
      · exact ⟨op', rfl, h⟩
      · exact ⟨_, rfl, h.setParam _⟩
  · exact ⟨_, rfl, h.setParam _⟩

variable (getBnShmByOffset data totalSize i) in
theorem sameDecode_decodeParam {st : DecodeState} (h : AgreeOn S st.operation op') :
    SameDecode S (decodeParam (m := Id) getBnShmByOffset data totalSize i st)
      (decodeParam (m := Id) getBnShmByOffset data totalSize i { st with operation := op' }) := by
  simp only [decodeParam, h.paramType]
  by_cases htemp : (st.operation.paramType i).isTempMem = true
  · rw [if_pos htemp, if_pos htemp]
    exact sameDecode_teecOptDecodeTempMem h (h.decoded i (by simp [htemp]))
  rw [if_neg htemp, if_neg htemp]
  by_cases hpart : (st.operation.paramType i).isPartialMem = true
  · rw [if_pos hpart, if_pos hpart]
    exact sameDecode_teecOptDecodePartialMem h (h.decoded i (by simp [hpart]))
  · rw [if_neg hpart, if_neg hpart]
    exact ⟨op', rfl, h⟩

theorem sameDecode_decodeParams {is : List (Fin 4)} (st : DecodeState)
    (h : AgreeOn S st.operation op') :
    SameDecode S (decodeParams (m := Id) getBnShmByOffset data totalSize is st)
      (decodeParams (m := Id) getBnShmByOffset data totalSize is { st with operation := op' }) := by
  induction is generalizing st op' with
  | nil => exact ⟨op', rfl, h⟩
  | cons i is ih =>
    obtain ⟨op'', hstep, hagree⟩ := sameDecode_decodeParam i data totalSize
      getBnShmByOffset h
    rw [decodeParams_cons, decodeParams_cons, hstep]
    generalize decodeParam (m := Id) getBnShmByOffset data totalSize i st = x at hagree
    obtain ⟨r, mid⟩ := x
    cases r
    case success => exact ih _ hagree
    all_goals exact ⟨op'', rfl, hagree⟩

variable (getBnShmByOffset) in
theorem sameDecode_getTeecOptMem (optMemSize : U32) (optMem : Option Mem) (h : AgreeOn S op op') :
    SameDecode S (getTeecOptMem (m := Id) getBnShmByOffset op optMemSize optMem)
      (getTeecOptMem (m := Id) getBnShmByOffset op' optMemSize optMem) := by
  simp only [getTeecOptMem]
  split_ifs
  · exact ⟨op', rfl, h⟩
  · cases optMem with
    | none => exact ⟨op', rfl, h⟩
    | some data =>
      exact sameDecode_decodeParams
        { operation := op, para := .zeroed, shmInfoOffset := 0, sizeLeft := optMemSize } h

theorem checkAndEncode_congr {mem : BitVec 64 → SharedMemory Addr}
    {shrdMemList : List SharedMemoryInner} {kind : RequestKind} {st : DecodeState}
    (h : AgreeOn S st.operation op') (hS : ∀ i, inUse kind i → S i) :
    checkAndEncode mem shrdMemList kind { st with operation := op' } =
      checkAndEncode mem shrdMemList kind st := by
  have hstarted : (innerOperation kind op').started = (innerOperation kind st.operation).started := by
    cases kind <;> exact h.started
  have htype i : (innerOperation kind op').paramType i =
      (innerOperation kind st.operation).paramType i := by
    rw [paramType_innerOperation, h.paramType, paramType_innerOperation]
  have hnone i (hin : ¬ inUse kind i) : (innerOperation kind st.operation).paramType i = .none := by
    rw [paramType_innerOperation, if_neg hin]
  have hcheck i : Vendor.teecCheckParam (m := Id) (parentAt mem st.para)
        (checkSharedBufferExist shrdMemList) (innerOperation kind op') i =
      Vendor.teecCheckParam (m := Id) (parentAt mem st.para)
        (checkSharedBufferExist shrdMemList) (innerOperation kind st.operation) i := by
    by_cases hin : inUse kind i
    · simp only [Vendor.teecCheckParam, htype, params_innerOperation, h.params i (hS i hin)]
    · rw [Vendor.teecCheckParam_of_none ((htype i).trans (hnone i hin)),
        Vendor.teecCheckParam_of_none (hnone i hin)]
  have hencode i : (Vendor.teecEncodeSlot (parentAt mem st.para) (innerOperation kind op') i).1 =
        (Vendor.teecEncodeSlot (parentAt mem st.para) (innerOperation kind st.operation) i).1 ∧
      (Vendor.teecEncodeSlot (parentAt mem st.para) (innerOperation kind op') i).2.2 =
        (Vendor.teecEncodeSlot (parentAt mem st.para)
          (innerOperation kind st.operation) i).2.2 := by
    by_cases hin : inUse kind i
    · simp only [Vendor.teecEncodeSlot, htype, params_innerOperation, h.params i (hS i hin),
        and_self]
    · rw [Vendor.teecEncodeSlot_of_none _ ((htype i).trans (hnone i hin)),
        Vendor.teecEncodeSlot_of_none _ (hnone i hin)]
      exact ⟨rfl, rfl⟩
  have hop : Vendor.teecCheckOperation (m := Id) (parentAt mem st.para)
        (checkSharedBufferExist shrdMemList) (some (innerOperation kind op')) =
      Vendor.teecCheckOperation (m := Id) (parentAt mem st.para)
        (checkSharedBufferExist shrdMemList) (some (innerOperation kind st.operation)) := by
    simp only [Vendor.teecCheckOperation, hstarted, funext hcheck]
  simp only [checkAndEncode, hop, Vendor.teecEncodeParam, fun i => (hencode i).1,
    fun i => (hencode i).2]

end Agree

section TwoRuns

variable {mem : BitVec 64 → SharedMemory Addr} {shrdMemList : List SharedMemoryInner}
variable {r : Request} {wire wire' : RawOperation} {st : DecodeState} {i : Fin 4}

theorem SameButRaw.paramType (h : SameButRaw wire wire') (i : Fin 4) :
    wire'.paramType i = wire.paramType i := by
  rw [RawOperation.paramType, h.paramTypes, RawOperation.paramType]

theorem SameButRaw.params_clearedOp (h : SameButRaw wire wire') {ionFds : Fin 4 → Int}
    (hraw : passesRaw (wire.paramType i) = false) :
    (clearedOp ionFds wire').params i = (clearedOp ionFds wire).params i := by
  have htype := h.paramType i
  by_cases hmem : ((wire.paramType i).isTempMem || (wire.paramType i).isPartialMem) = true
  · simp only [clearedOp, clearedParam, RawOperation.paramType_view, htype, hmem, if_true, clearPtr,
      RawOperation.params_view, RawParameter.view, h.size, h.offset]
  rw [Bool.not_eq_true] at hmem
  by_cases hion : wire.paramType i = .ionInput
  · have hb := h.ionSize i (by rw [hion]; rfl)
    rw [params_clearedOp_of_ion (htype.trans hion), params_clearedOp_of_ion hion]
    simp only [setIonShareFd, RawOperation.params_view, RawParameter.view, h.size, h.offset, hb]
  · have hword := h.word i (by simp_all [carriesPtr, passesRaw, ← Bool.not_eq_true,
      ParamType.isSharedMem_iff]) (by simp_all [carriesIonFd, passesRaw])
    rw [params_clearedOp_of_raw (by rwa [htype]) (by rwa [htype]),
      params_clearedOp_of_raw hmem hion]
    simp only [RawOperation.params_view, RawParameter.view, hword, h.size, h.offset]

theorem SameButRaw.agreeOn (h : SameButRaw wire wire') (ionFds : Fin 4 → Int) :
    AgreeOn (fun i => passesRaw (wire.paramType i) = false) (clearedOp ionFds wire)
      (clearedOp ionFds wire') where
  decoded i hi := by
    rw [paramType_clearedOp] at hi
    cases ht : wire.paramType i <;>
      simp_all [passesRaw, ParamType.isTempMem, ParamType.isPartialMem]
  started := h.started
  paramTypes := h.paramTypes
  params i hi := h.params_clearedOp hi

/-- Requests with the types that the stub knows have one outcome for all raw bytes. -/
theorem SameButRaw.handOver_eq (h : SameButRaw wire wire') (hw : r.wire = some wire)
    (hraw : ∀ i, inUse r.kind i → passesRaw (wire.paramType i) = false) :
    handOver mem shrdMemList { r with wire := some wire' } = handOver mem shrdMemList r := by
  by_cases hion : ∀ i, wire.paramType i = .ionInput → 0 ≤ r.ionFds i
  case neg =>
    have hnone (w : RawOperation) (hwt : ∀ i, w.paramType i = wire.paramType i) :
        getOperationFromData r.ionFds w = none := by
      rw [Option.eq_none_iff_forall_ne_some]
      intro op hop
      exact hion fun i hi => (getOperationFromData_eq_some.mp hop).1 i ((hwt i).trans hi)
    simp only [handOver, hw, hnone wire fun _ => rfl, hnone wire' h.paramType]
  rw [handOver_of_wire _ _ hw hion, handOver_of_wire (r := { r with wire := some wire' }) _ _ rfl
    fun i hi => hion i (h.paramType i ▸ hi)]
  obtain ⟨op', hdec, hagree⟩ := sameDecode_getTeecOptMem (findShmByOffset shrdMemList)
    r.optMemSize r.optMem (h.agreeOn r.ionFds)
  simp only [handOverOperation]
  rw [hdec]
  generalize getTeecOptMem (m := Id) (findShmByOffset shrdMemList) (clearedOp r.ionFds wire)
    r.optMemSize r.optMem = x at hagree
  obtain ⟨ret, st⟩ := x
  cases ret
  case success =>
    dsimp only
    rw [checkAndEncode_congr hagree hraw]
  all_goals rfl

theorem innerCall_eq_some (hw : r.wire = some wire) :
    innerCall shrdMemList r = some st ↔
      (∀ i, wire.paramType i = .ionInput → 0 ≤ r.ionFds i) ∧
      Decoded shrdMemList r (clearedOp r.ionFds wire) st := by
  simp only [innerCall, hw, Option.bind_eq_bind, Option.bind_some, Option.bind_eq_some_iff,
    getOperationFromData_eq_some, Decoded]
  constructor
  · rintro ⟨op, ⟨hion, rfl⟩, h⟩
    refine ⟨hion, ?_⟩
    split at h
    · rename_i hdec
      obtain rfl := Option.some.inj h
      exact hdec
    · cases h
  · rintro ⟨hion, hdec⟩
    refine ⟨_, ⟨hion, rfl⟩, ?_⟩
    rw [clearedOp] at hdec
    rw [hdec]

theorem overwritten_of_decoded (h : Decoded shrdMemList r (clearedOp r.ionFds wire) st)
    (hraw : passesRaw (wire.paramType i) = false) : Overwritten shrdMemList r st i := by
  have htype : st.operation.paramType i = wire.paramType i := by
    rw [Operation.paramType, h.paramTypes]
    rfl
  refine ⟨fun hptr => ?_, fun hpart hne mem => ?_, fun hion => ?_⟩
  · rw [htype] at hptr
    by_cases htemp : (wire.paramType i).isTempMem = true
    · obtain ⟨-, hptr | ⟨k, hptr, -⟩⟩ := h.param_of_temp htemp
      · exact .inl hptr
      · exact .inr ⟨_, k, hptr⟩
    · have hpart : (wire.paramType i).isPartialMem = true := by
        simp_all [carriesPtr, passesRaw, ParamType.isSharedMem_iff]
      obtain ⟨-, hptr | ⟨hptr, -⟩⟩ := h.param_of_partial hpart
      · exact .inl hptr
      · exact .inr ⟨_, 0, hptr⟩
  · rw [htype] at hpart
    obtain ⟨-, hptr | ⟨hptr, data, -, hdec⟩⟩ := h.param_of_partial hpart
    · exact absurd hptr hne
    rw [hptr]
    cases hdec with
    | block b halloc hfound hinner hparent hoff =>
      exact .inr ⟨b, List.mem_of_find?_eq_some hfound, by rw [parentAt, hparent]⟩
    | payload hreg hinner hparent hoff hfits =>
      exact .inl (.inr ⟨_, _, by rw [parentAt, hparent]⟩)
  · rw [htype] at hion
    have hinput : wire.paramType i = .ionInput := by simp_all [carriesIonFd, passesRaw]
    rw [h.param_of_other (by rw [hinput]; rfl), params_clearedOp_of_ion hinput]
    rfl

def setWord (wire : RawOperation) (i : Fin 4) (word : BitVec 64) : RawOperation :=
  { wire with params := Function.update wire.params i { wire.params i with word } }

theorem sameButRaw_setWord (word : BitVec 64)
    (hcarries : (carriesPtr (wire.paramType i) || carriesIonFd (wire.paramType i)) = true)
    (hsize : carriesIonFd (wire.paramType i) = true →
      word.extractLsb' 32 32 = (wire.params i).word.extractLsb' 32 32) :
    SameButRaw wire (setWord wire i word) := by
  refine ⟨rfl, rfl, fun j => ?_, fun j => ?_, fun j hj => ?_, fun j hp hj => ?_⟩
  all_goals
    by_cases hji : j = i
    · subst hji
      simp_all [setWord]
    · simp [setWord, hji]

theorem RawBytesDropped.passed_other (h : RawBytesDropped shrdMemList r wire)
    (hw : r.wire = some wire) (hion : ∀ i, wire.paramType i = .ionInput → 0 ≤ r.ionFds i)
    (hst : Passed mem shrdMemList r (clearedOp r.ionFds wire) st) (hsame : SameButRaw wire wire') :
    ∃ st', Passed mem shrdMemList { r with wire := some wire' } (clearedOp r.ionFds wire') st' ∧
      (Vendor.teecEncodeParam (parentAt mem st.para) (innerOperation r.kind st.operation)).1 =
        (Vendor.teecEncodeParam (parentAt mem st'.para)
          (innerOperation r.kind st'.operation)).1 := by
  have htwo := h.twoRuns mem wire' hsame
  rw [handOver_of_wire _ _ hw hion, handOver_of_wire (r := { r with wire := some wire' }) _ _ rfl
    fun i hi => hion i (hsame.paramType i ▸ hi)] at htwo
  have hpassed := handOverOperation_eq_passed.mpr ⟨st, hst, rfl, rfl⟩
  rw [← htwo, handOverOperation_eq_passed] at hpassed
  obtain ⟨st', hst', hcli, -⟩ := hpassed
  exact ⟨st', hst', hcli⟩

def mirror (word : BitVec 64) : SharedMemory Addr := { foreignParent with buffer := .raw word }

theorem Passed.encodeSlot_shared (h : Passed mirror shrdMemList r (clearedOp r.ionFds wire) st)
    (hin : inUse r.kind i) (htype : wire.paramType i = .memrefSharedInout) :
    (Vendor.teecEncodeParam (parentAt mirror st.para) (innerOperation r.kind st.operation)).1.params
      i = .memref (.raw (wire.params i).word) (wire.params i).offset (wire.params i).size := by
  have henc := h.encodeSlot hin
  rw [h.decoded.param_of_other (by rw [htype]; rfl),
    params_clearedOp_of_raw (by rw [htype]; rfl) (by rw [htype]; decide), htype] at henc
  exact henc

theorem Passed.ionShareFd_of_sglist (h : Passed mem shrdMemList r (clearedOp r.ionFds wire) st)
    (hin : inUse r.kind i) (htype : wire.paramType i = .ionSglistInput) :
    0 ≤ ((wire.params i).word.extractLsb' 0 32).toInt := by
  have hcheck := h.checkedSlot i
  simp only [Vendor.teecCheckParam, h.paramType_inner, if_pos hin, paramType_clearedOp, htype,
    params_innerOperation, h.decoded.param_of_other (by rw [htype]; rfl),
    params_clearedOp_of_raw (by rw [htype]; rfl) (by rw [htype]; decide)] at hcheck
  by_contra hneg
  rw [if_neg (by decide), if_neg (by decide), if_neg (by decide), if_pos (.inr trivial),
    if_pos (.inl (by simpa [Parameter.ionShareFd, RawParameter.view] using hneg))] at hcheck
  cases hcheck

theorem passesRaw_eq_false_of_dropped (hw : r.wire = some wire)
    (haccepted : ∃ mem cli para, handOver mem shrdMemList r = .passed cli para)
    (h : RawBytesDropped shrdMemList r wire) (hin : inUse r.kind i) :
    passesRaw (wire.paramType i) = false := by
  obtain ⟨mem, cli, para, hpassed⟩ := haccepted
  have hion := ionFds_of_passed hw hpassed
  rw [handOver_of_wire _ _ hw hion, handOverOperation_eq_passed] at hpassed
  obtain ⟨st, hst, -, -⟩ := hpassed
  rw [← Bool.not_eq_true]
  intro hraw
  have hor : wire.paramType i = .memrefSharedInout ∨ wire.paramType i = .ionSglistInput := by
    simpa [passesRaw] using hraw
  rcases hor with hshared | hsglist
  · obtain ⟨st', hst', hcli⟩ := h.passed_other hw hion (hst.of_mem mirror)
      (sameButRaw_setWord (i := i) ((wire.params i).word + 1) (by rw [hshared]; rfl)
        (by rw [hshared]; nofun))
    have heq := congrFun (congrArg Vendor.ClientParams.params hcli) i
    rw [(hst.of_mem _).encodeSlot_shared hin hshared, hst'.encodeSlot_shared hin hshared] at heq
    have hword := Addr.raw.inj (Vendor.ClientParam.memref.inj heq).1
    simp [setWord] at hword
  · have hlow := BitVec.extractLsb'_append_eq_right (a := (wire.params i).word.extractLsb' 32 32)
      (b := (0xFFFFFFFF : U32))
    obtain ⟨st', hst', -⟩ := h.passed_other hw hion hst
      (sameButRaw_setWord (i := i) ((wire.params i).word.extractLsb' 32 32 ++
          (0xFFFFFFFF : U32)) (by rw [hsglist]; rfl)
        fun _ => BitVec.extractLsb'_append_eq_left)
    have hfd := hst'.ionShareFd_of_sglist hin hsglist
    simp only [setWord, Function.update_self, hlow] at hfd
    exact absurd hfd (by decide)

/-- The pointers and descriptors in a parcel are dropped when no slot in use has a type
that the stub does not know; and an accepted request with such a slot lets them through. -/
theorem rawBytesDropped_iff (shrdMemList : List SharedMemoryInner) (r : Request)
    (wire : RawOperation) (hw : r.wire = some wire) :
    ((∀ i, inUse r.kind i → passesRaw (wire.paramType i) = false) →
      RawBytesDropped shrdMemList r wire) ∧
    ((∃ mem cli para, handOver mem shrdMemList r = .passed cli para) →
      RawBytesDropped shrdMemList r wire →
      ∀ i, inUse r.kind i → passesRaw (wire.paramType i) = false) := by
  constructor
  · intro hraw
    refine ⟨fun st hcall i hin => ?_, fun mem wire' hsame => hsame.handOver_eq hw hraw⟩
    exact overwritten_of_decoded ((innerCall_eq_some hw).mp hcall).2 (hraw i hin)
  · intro haccepted hdropped i hin
    exact passesRaw_eq_false_of_dropped hw haccepted hdropped hin

/-- A temporary reference, a descriptor and a `MEMREF_SHARED_INOUT` in the slot that
`OpenSession` does not use. -/
def knownTypesWire : RawOperation where
  started := 1
  paramTypes := paramTypes ParamType.memrefTempInput.code ParamType.ionInput.code
    ParamType.memrefSharedInout.code 0
  params := ![{ word := 0x7000, size := 4, offset := 0 },
    { word := 0x1000000009, size := 0, offset := 0 }, { word := 0x8000, size := 1, offset := 0 },
    { word := 0, size := 0, offset := 0 }]
  cancelFlag := false

def knownTypesRequest : Request where
  kind := .openSession teecLoginIdentify
  wire := some knownTypesWire
  ionFds := fun _ => 12
  optMemSize := 4
  optMem := some fun k => BitVec.ofNat 8 k

theorem rawBytesDropped_known :
    RawBytesDropped [] knownTypesRequest knownTypesWire ∧
      ∃ cli para, handOver mirror [] knownTypesRequest = .passed cli para ∧
        cli.params 0 = .memref (.within .payload 0) 0 4 ∧ cli.params 1 = .value 12 16 :=
  ⟨(rawBytesDropped_iff [] knownTypesRequest knownTypesWire rfl).1 (by decide),
    _, _, rfl, rfl, rfl⟩

def sharedInoutRequest (word : BitVec 64) : Request where
  kind := .invokeCommand
  wire := some {
    started := 1
    paramTypes := paramTypes ParamType.memrefSharedInout.code 0 0 0
    params := fun _ => { word, size := 16, offset := 0 }
    cancelFlag := false }
  ionFds := fun _ => -1
  optMemSize := 0
  optMem := none

theorem rawBytes_sharedInout_escape :
    ¬ ∀ shrdMemList r wire, r.wire = some wire → RawBytesDropped shrdMemList r wire := by
  intro h
  have hptr := ((h [] (sharedInoutRequest 0x41414141) _ rfl).overwritten _ rfl 0 trivial).ptr rfl
  rcases hptr with hnull | ⟨region, k, hwithin⟩
  · exact absurd hnull (by decide)
  · cases hwithin

end TwoRuns

end TeeClient.Daemon
