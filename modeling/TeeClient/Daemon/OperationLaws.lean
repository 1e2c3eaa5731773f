import Mathlib.Tactic
import TeeClient.Daemon.Operation

/-! What a successful decoding has done to each slot.  One round of the loop touches
the slot it is at and nothing else, so a whole run is described slot by slot from the
payload offset at which the walk gets there. -/

namespace TeeClient.Daemon

open ByteMemory

section Stub

def clearedParam (ionFds : Fin 4 → Int) (op : Operation Addr) (i : Fin 4) : Parameter Addr :=
  if (op.paramType i).isTempMem || (op.paramType i).isPartialMem then
    clearPtr (op.params i)
  else if op.paramType i = .ionInput then setIonShareFd (op.params i) (ionFds i)
  else op.params i

variable {ionFds : Fin 4 → Int}

theorem clearParam_eq_some {op : Operation Addr} {i : Fin 4} {p : Parameter Addr} :
    clearParam ionFds op i = some p ↔
      (op.paramType i = .ionInput → 0 ≤ ionFds i) ∧ clearedParam ionFds op i = p := by
  simp only [clearParam, clearedParam]
  cases ht : op.paramType i <;>
    simp [ParamType.isTempMem, ParamType.isPartialMem]

theorem clearParams_eq_some {is : List (Fin 4)} (hnd : is.Nodup) {op op' : Operation Addr} :
    clearParams ionFds is op = some op' ↔
      (∀ i ∈ is, op.paramType i = .ionInput → 0 ≤ ionFds i) ∧
      op' = { op with params := fun i =>
        if i ∈ is then clearedParam ionFds op i else op.params i } := by
  induction is generalizing op with
  | nil => simp [clearParams, eq_comm]
  | cons i is ih =>
    rw [List.nodup_cons] at hnd
    have hsame : ∀ j ∈ is, clearedParam ionFds (op.setParam i (clearedParam ionFds op i)) j =
        clearedParam ionFds op j := by
      intro j hj
      have hne : j ≠ i := fun h => hnd.1 (h ▸ hj)
      simp [clearedParam, hne]
    simp only [clearParams]
    cases hc : clearParam ionFds op i with
    | none =>
      have : ¬ ((op.paramType i = .ionInput → 0 ≤ ionFds i)) := by
        intro h
        have := clearParam_eq_some.mpr ⟨h, rfl⟩
        simp [hc] at this
      simp [this]
    | some p =>
      obtain ⟨hion, rfl⟩ := clearParam_eq_some.mp hc
      rw [ih hnd.2, List.forall_mem_cons]
      have hparams : (fun j => if j ∈ is then
          clearedParam ionFds (op.setParam i (clearedParam ionFds op i)) j
          else (op.setParam i (clearedParam ionFds op i)).params j) =
          fun j => if j ∈ i :: is then clearedParam ionFds op j else op.params j := by
        funext j
        by_cases hj : j ∈ is
        · simp [hj, hsame j hj]
        · by_cases hji : j = i
          · subst hji
            simp [hj]
          · simp [hj, hji]
      rw [hparams]
      exact ⟨fun h => ⟨⟨hion, h.1⟩, h.2⟩, fun h => ⟨h.1.2, h.2⟩⟩

/-- `GetOperationFromData` fails only where no descriptor can be read, and else
clears every slot by its type. -/
theorem getOperationFromData_eq_some {wire : RawOperation} {op : Operation Addr} :
    getOperationFromData ionFds wire = some op ↔
      (∀ i, wire.paramType i = .ionInput → 0 ≤ ionFds i) ∧
      op = { wire.view Addr.raw with params := clearedParam ionFds (wire.view Addr.raw) } := by
  rw [getOperationFromData, clearParams_eq_some (by decide)]
  have hparams : clearedParam ionFds (setInvalidIonFd (wire.view Addr.raw)) =
      clearedParam ionFds (wire.view Addr.raw) := by
    funext i
    have htype : (setInvalidIonFd (wire.view Addr.raw)).paramType i = wire.paramType i := rfl
    simp only [clearedParam, htype, RawOperation.paramType_view]
    by_cases hion : wire.paramType i = .ionInput <;>
      simp [hion, setInvalidIonFd, setIonShareFd, ParamType.isTempMem, ParamType.isPartialMem]
  simp only [mem_paramIndices, if_true, true_implies, hparams]
  exact Iff.rfl

end Stub

theorem checkSizeStatus_eq_false {a b t m : U32} :
    checkSizeStatus a b t m = false ↔ a.toNat + b.toNat ≤ t.toNat ∧ b.toNat ≤ m.toNat := by
  simp only [checkSizeStatus, Bool.or_eq_false_iff, decide_eq_false_iff_not, BitVec.lt_def,
    BitVec.toNat_add, Nat.not_lt]
  omega

def slotLen (data : Mem) (op : Operation Addr) (k : Nat) (i : Fin 4) : Nat :=
  if (op.paramType i).isTempMem then (op.params i).size.toNat
  else if (op.paramType i).isPartialMem then 17 + (refSize data op k i).toNat
  else 0

structure Slot where
  param : Parameter Addr
  shm : SharedMemory Addr
  shmInner : Option SharedMemoryInner

def DecodeState.slot (st : DecodeState) (i : Fin 4) : Slot where
  param := st.operation.params i
  shm := st.para.shm i
  shmInner := st.para.shmInner i

def SlotDecoded (look : U32 → Option SharedMemoryInner) (data : Mem) (op : Operation Addr)
    (k : Nat) (i : Fin 4) (before after : Slot) : Prop :=
  if (op.paramType i).isTempMem then
    after = { before with
      param := if (op.params i).size = 0 then op.params i
        else { op.params i with ptr := .within .payload k } }
  else if (op.paramType i).isPartialMem then
    if (recordAt data k).isAllocated then
      ∃ b, look (recordOffset data k) = some b ∧ b.buffer ≠ 0 ∧
        after = { param := { op.params i with ptr := .within (.parent i) 0 }
                  shm := { recordAt data k with buffer := b.buffer }
                  shmInner := some b }
    else
      after = { before with
        param := { op.params i with offset := 0, ptr := .within (.parent i) 0 }
        shm := { recordAt data k with buffer := .within .payload (k + 17) } }
  else after = before

section Step

variable {look : U32 → Option SharedMemoryInner} {data : Mem} {totalSize : U32} {i : Fin 4}
variable {st st' : DecodeState}

structure DecodeStep (look : U32 → Option SharedMemoryInner) (data : Mem) (totalSize : U32)
    (i : Fin 4) (st st' : DecodeState) : Prop where
  paramTypes : st'.operation.paramTypes = st.operation.paramTypes
  started : st'.operation.started = st.operation.started
  slot : SlotDecoded look data st.operation st.shmInfoOffset.toNat i (st.slot i) (st'.slot i)
  frame : ∀ j, j ≠ i → st'.slot j = st.slot j
  offset : st'.shmInfoOffset.toNat =
    st.shmInfoOffset.toNat + slotLen data st.operation st.shmInfoOffset.toNat i
  sizeLeft : st'.sizeLeft.toNat + slotLen data st.operation st.shmInfoOffset.toNat i =
    st.sizeLeft.toNat
  fits : st'.shmInfoOffset.toNat ≤ totalSize.toNat

theorem toNat_add_of_le {a b t : U32} (h : a.toNat + b.toNat ≤ t.toNat) :
    (a + b).toNat = a.toNat + b.toNat := by
  rw [BitVec.toNat_add]
  omega

theorem toNat_sub_of_le' {a b : U32} (h : b.toNat ≤ a.toNat) :
    (a - b).toNat = a.toNat - b.toNat := by
  rw [BitVec.toNat_sub]
  omega

theorem toNat_structSize : structSize.toNat = 17 := rfl

theorem decodeStep_of_temp (ht : (st.operation.paramType i).isTempMem)
    (h : teecOptDecodeTempMem totalSize i st = (.success, st')) :
    DecodeStep look data totalSize i st st' := by
  simp only [teecOptDecodeTempMem] at h
  by_cases hsize : checkSizeStatus st.shmInfoOffset (st.operation.params i).size totalSize
      st.sizeLeft = true
  · rw [if_pos hsize] at h
    cases h
  · rw [if_neg hsize] at h
    rw [Bool.not_eq_true, checkSizeStatus_eq_false] at hsize
    obtain rfl := (Prod.mk.inj h).2
    have hoff := toNat_add_of_le hsize.1
    have hleft := toNat_sub_of_le' hsize.2
    have hlen : slotLen data st.operation st.shmInfoOffset.toNat i =
        (st.operation.params i).size.toNat := if_pos ht
    constructor
    case paramTypes | started => dsimp only; split_ifs <;> rfl
    case slot =>
      simp only [SlotDecoded, ht, if_true, DecodeState.slot]
      by_cases hzero : (st.operation.params i).size = 0
      · rw [if_pos hzero, if_pos hzero]
      · rw [if_neg hzero, if_neg hzero, Operation.params_setParam_self]
    case frame =>
      intro j hj
      dsimp only [DecodeState.slot]
      split_ifs <;> simp [hj]
    case offset | sizeLeft | fits => simp only [hlen, hoff, hleft] <;> omega

theorem decodeStep_advance (hpart : (st.operation.paramType i).isPartialMem)
    {param : Parameter Addr} {para : DecodePara} {memSize : U32}
    (hmem : memSize = st.sizeLeft - structSize)
    (hrec : checkSizeStatus st.shmInfoOffset structSize totalSize st.sizeLeft = false)
    (href : checkSizeStatus (st.shmInfoOffset + structSize)
      (refSize data st.operation st.shmInfoOffset.toNat i) totalSize memSize = false)
    (hframe : ∀ j, j ≠ i → para.shm j = st.para.shm j ∧ para.shmInner j = st.para.shmInner j)
    (hslot : SlotDecoded look data st.operation st.shmInfoOffset.toNat i (st.slot i)
      { param := { param with ptr := .within (.parent i) 0 }
        shm := para.shm i, shmInner := para.shmInner i }) :
    DecodeStep look data totalSize i st
      (st.advance i param para (st.shmInfoOffset + structSize) memSize
        (refSize data st.operation st.shmInfoOffset.toNat i)) := by
  subst hmem
  have htemp : (st.operation.paramType i).isTempMem = false := by
    cases hi : st.operation.paramType i <;> simp_all [ParamType.isTempMem, ParamType.isPartialMem]
  rw [checkSizeStatus_eq_false] at hrec href
  have hoff := toNat_add_of_le hrec.1
  have hleft := toNat_sub_of_le' hrec.2
  have hoff' := toNat_add_of_le href.1
  have hleft' := toNat_sub_of_le' href.2
  have hlen : slotLen data st.operation st.shmInfoOffset.toNat i =
      17 + (refSize data st.operation st.shmInfoOffset.toNat i).toNat := by
    simp [slotLen, htemp, hpart]
  rw [toNat_structSize] at hoff hleft hrec
  constructor
  case paramTypes | started => rfl
  case slot =>
    simpa only [DecodeState.slot, DecodeState.advance, Operation.params_setParam_self] using hslot
  case frame =>
    intro j hj
    simp [DecodeState.slot, DecodeState.advance, hj, hframe j hj]
  case offset | sizeLeft | fits => simp only [DecodeState.advance, hlen, hoff', hleft']; omega

theorem decodeStep_of_partial (hpart : (st.operation.paramType i).isPartialMem)
    (h : teecOptDecodePartialMem (m := Id) look data totalSize i st = (.success, st')) :
    DecodeStep look data totalSize i st st' := by
  have htemp : (st.operation.paramType i).isTempMem = false := by
    cases hi : st.operation.paramType i <;> simp_all [ParamType.isTempMem, ParamType.isPartialMem]
  simp only [teecOptDecodePartialMem] at h
  by_cases hrec : checkSizeStatus st.shmInfoOffset structSize totalSize st.sizeLeft = true
  · rw [if_pos hrec] at h
    cases h
  rw [if_neg hrec] at h
  by_cases href : checkSizeStatus (st.shmInfoOffset + structSize)
      (refSize data st.operation st.shmInfoOffset.toNat i) totalSize
      (st.sizeLeft - structSize) = true
  · rw [if_pos href] at h
    cases h
  rw [if_neg href] at h
  rw [Bool.not_eq_true] at hrec href
  by_cases halloc : (recordAt data st.shmInfoOffset.toNat).isAllocated = true
  · rw [if_pos halloc] at h
    cases hb : look (recordOffset data st.shmInfoOffset.toNat) with
    | none =>
      rw [hb] at h
      cases h
    | some b =>
      rw [hb] at h
      change (if b.buffer = 0 then _ else _) = _ at h
      by_cases hnull : b.buffer = 0
      · rw [if_pos hnull] at h
        cases h
      · rw [if_neg hnull] at h
        obtain rfl := (Prod.mk.inj h).2
        refine decodeStep_advance hpart rfl hrec href (fun j hj => ?_) ?_
        · simp [DecodePara.setShm, DecodePara.setShmInner, hj]
        · simp only [SlotDecoded, htemp, hpart, halloc, if_true, Bool.false_eq_true, if_false]
          exact ⟨b, hb, hnull, by simp [DecodePara.setShm, DecodePara.setShmInner]⟩
  · rw [if_neg halloc] at h
    obtain rfl := (Prod.mk.inj h).2
    refine decodeStep_advance hpart rfl hrec href (fun j hj => ?_) ?_
    · simp [DecodePara.setShm, hj]
    · have hoff := toNat_add_of_le (checkSizeStatus_eq_false.mp hrec).1
      simp only [SlotDecoded, htemp, hpart, halloc, if_true, Bool.false_eq_true, if_false]
      simp [DecodePara.setShm, DecodeState.slot, hoff, toNat_structSize]

theorem decodeStep_of_success (h : decodeParam (m := Id) look data totalSize i st = (.success, st'))
    (hfit : st.shmInfoOffset.toNat ≤ totalSize.toNat) :
    DecodeStep look data totalSize i st st' := by
  simp only [decodeParam] at h
  by_cases ht : (st.operation.paramType i).isTempMem = true
  · rw [if_pos ht] at h
    exact decodeStep_of_temp ht h
  rw [if_neg ht] at h
  by_cases hp : (st.operation.paramType i).isPartialMem = true
  · rw [if_pos hp] at h
    exact decodeStep_of_partial hp h
  rw [if_neg hp] at h
  obtain rfl := (Prod.mk.inj h).2
  have hlen : slotLen data st.operation st.shmInfoOffset.toNat i = 0 := by
    simp [slotLen, ht, hp]
  exact ⟨rfl, rfl, by simp [SlotDecoded, ht, hp], fun _ _ => rfl, by rw [hlen]; rfl, by rw [hlen]; rfl, hfit⟩

variable (look data totalSize i st) in
theorem decodeParam_succeeds
    (hfit : st.shmInfoOffset.toNat + slotLen data st.operation st.shmInfoOffset.toNat i ≤
      totalSize.toNat)
    (hleft : slotLen data st.operation st.shmInfoOffset.toNat i ≤ st.sizeLeft.toNat)
    (hblock : (st.operation.paramType i).isPartialMem →
      (recordAt data st.shmInfoOffset.toNat).isAllocated →
      ∃ b, look (recordOffset data st.shmInfoOffset.toNat) = some b ∧ b.buffer ≠ 0) :
    ∃ st', decodeParam (m := Id) look data totalSize i st = (.success, st') := by
  simp only [decodeParam]
  by_cases ht : (st.operation.paramType i).isTempMem = true
  · rw [slotLen, if_pos ht] at hfit hleft
    rw [if_pos ht, teecOptDecodeTempMem,
      if_neg (Bool.not_eq_true _ ▸ checkSizeStatus_eq_false.mpr ⟨hfit, hleft⟩)]
    exact ⟨_, rfl⟩
  rw [if_neg ht]
  by_cases hp : (st.operation.paramType i).isPartialMem = true
  · rw [slotLen, if_neg ht, if_pos hp] at hfit hleft
    have hrec : st.shmInfoOffset.toNat + structSize.toNat ≤ totalSize.toNat ∧
        structSize.toNat ≤ st.sizeLeft.toNat := by
      rw [toNat_structSize]
      omega
    have href : (st.shmInfoOffset + structSize).toNat +
        (refSize data st.operation st.shmInfoOffset.toNat i).toNat ≤ totalSize.toNat ∧
        (refSize data st.operation st.shmInfoOffset.toNat i).toNat ≤
          (st.sizeLeft - structSize).toNat := by
      rw [toNat_add_of_le hrec.1, toNat_sub_of_le' hrec.2, toNat_structSize]
      omega
    rw [if_pos hp, teecOptDecodePartialMem,
      if_neg (Bool.not_eq_true _ ▸ checkSizeStatus_eq_false.mpr hrec),
      if_neg (Bool.not_eq_true _ ▸ checkSizeStatus_eq_false.mpr href)]
    by_cases halloc : (recordAt data st.shmInfoOffset.toNat).isAllocated = true
    · obtain ⟨b, hb, hnull⟩ := hblock hp halloc
      rw [if_pos halloc]
      rw [hb]
      change ∃ st', (if b.buffer = 0 then _ else _) = (TeecResult.success, st')
      rw [if_neg hnull]
      exact ⟨_, rfl⟩
    · rw [if_neg halloc]
      exact ⟨_, rfl⟩
  · rw [if_neg hp]
    exact ⟨_, rfl⟩

theorem decodeParams_cons {is : List (Fin 4)} :
    decodeParams (m := Id) look data totalSize (i :: is) st =
      match decodeParam (m := Id) look data totalSize i st with
      | (.success, st) => decodeParams (m := Id) look data totalSize is st
      | (e, st) => (e, st) := rfl

end Step

def startFrom (data : Mem) (op : Operation Addr) : List (Fin 4) → Nat → Fin 4 → Nat
  | [], k, _ => k
  | j :: js, k, i => if i = j then k else startFrom data op js (k + slotLen data op k j) i

section Run

variable {look : U32 → Option SharedMemoryInner} {data : Mem} {totalSize : U32}
variable {st st' : DecodeState}

structure SameSlot (op op' : Operation Addr) (i : Fin 4) : Prop where
  paramType : op'.paramType i = op.paramType i
  param : op'.params i = op.params i

theorem slotLen_congr (op op' : Operation Addr) {i : Fin 4}
    (ht : op'.paramType i = op.paramType i) (hs : (op'.params i).size = (op.params i).size)
    (k : Nat) : slotLen data op' k i = slotLen data op k i := by
  simp only [slotLen, refSize, ht, hs]

theorem SameSlot.slotLen {op op' : Operation Addr} {i : Fin 4} (h : SameSlot op op' i) (k : Nat) :
    slotLen data op' k i = slotLen data op k i :=
  slotLen_congr op op' h.paramType (congrArg Parameter.size h.param) k

theorem SameSlot.slotDecoded {op op' : Operation Addr} {i : Fin 4} (h : SameSlot op op' i) {k : Nat}
    {before after : Slot} : SlotDecoded look data op' k i before after ↔
      SlotDecoded look data op k i before after := by
  simp only [SlotDecoded, h.paramType, h.param]

theorem startFrom_congr {op op' : Operation Addr} {is : List (Fin 4)}
    (h : ∀ i ∈ is, ∀ k, slotLen data op' k i = slotLen data op k i) (k : Nat) (i : Fin 4) :
    startFrom data op' is k i = startFrom data op is k i := by
  induction is generalizing k with
  | nil => rfl
  | cons j js ih =>
    simp only [startFrom, h j List.mem_cons_self,
      ih fun i hi => h i (List.mem_cons_of_mem _ hi)]

structure DecodeRun (look : U32 → Option SharedMemoryInner) (data : Mem) (totalSize : U32)
    (is : List (Fin 4)) (st st' : DecodeState) : Prop where
  paramTypes : st'.operation.paramTypes = st.operation.paramTypes
  started : st'.operation.started = st.operation.started
  slot : ∀ i ∈ is, SlotDecoded look data st.operation
    (startFrom data st.operation is st.shmInfoOffset.toNat i) i (st.slot i) (st'.slot i)
  frame : ∀ j, j ∉ is → st'.slot j = st.slot j
  fits : ∀ i ∈ is, startFrom data st.operation is st.shmInfoOffset.toNat i +
    slotLen data st.operation (startFrom data st.operation is st.shmInfoOffset.toNat i) i ≤
      totalSize.toNat

theorem DecodeStep.sameSlot {i j : Fin 4} (h : DecodeStep look data totalSize i st st')
    (hj : j ≠ i) : SameSlot st.operation st'.operation j where
  paramType := by rw [Operation.paramType, h.paramTypes, Operation.paramType]
  param := congrArg Slot.param (h.frame j hj)

theorem decodeRun_of_success {is : List (Fin 4)} (hnd : is.Nodup)
    (h : decodeParams (m := Id) look data totalSize is st = (.success, st'))
    (hfit : st.shmInfoOffset.toNat ≤ totalSize.toNat) :
    DecodeRun look data totalSize is st st' := by
  induction is generalizing st with
  | nil =>
    obtain rfl := (Prod.mk.inj h).2
    exact ⟨rfl, rfl, by simp, fun _ _ => rfl, by simp⟩
  | cons i is ih =>
    rw [List.nodup_cons] at hnd
    rw [decodeParams_cons] at h
    rcases hstep : decodeParam (m := Id) look data totalSize i st with ⟨r, mid⟩
    rw [hstep] at h
    cases r
    case success =>
      have step := decodeStep_of_success hstep hfit
      have run := ih hnd.2 h step.fits
      have same j (hj : j ∈ is) : SameSlot st.operation mid.operation j :=
        step.sameSlot fun hji => hnd.1 (hji ▸ hj)
      have hstart j (hj : j ∈ is) :
          startFrom data st.operation (i :: is) st.shmInfoOffset.toNat j =
            startFrom data mid.operation is mid.shmInfoOffset.toNat j := by
        have hji : j ≠ i := fun hji => hnd.1 (hji ▸ hj)
        rw [startFrom_congr fun j hj => (same j hj).slotLen, step.offset, startFrom, if_neg hji]
      refine ⟨run.paramTypes.trans step.paramTypes, run.started.trans step.started,
        fun j hj => ?_, fun j hj => ?_, fun j hj => ?_⟩
      · rcases List.mem_cons.mp hj with rfl | hj
        · rw [run.frame j hnd.1, startFrom, if_pos rfl]
          exact step.slot
        · have hji : j ≠ i := fun hji => hnd.1 (hji ▸ hj)
          rw [hstart j hj, ← step.frame j hji, ← (same j hj).slotDecoded]
          exact run.slot j hj
      · rw [List.mem_cons, not_or] at hj
        rw [run.frame j hj.2, step.frame j hj.1]
      · rcases List.mem_cons.mp hj with rfl | hj
        · rw [startFrom, if_pos rfl, ← step.offset]
          exact step.fits
        · rw [hstart j hj, ← (same j hj).slotLen]
          exact run.fits j hj
    all_goals cases h

end Run

end TeeClient.Daemon
