import Mathlib.Tactic
import TeeClient.Daemon.OperationLaws

/-! The payload offsets that `GetTeecOptMem` reads and hands out.  The blocks of the
context may change from one call of `GetBnShmByOffset` to the next, so the search runs
over a state of its own. -/

namespace TeeClient.Daemon

open ByteMemory

section Reads

variable {m : Type → Type} [Monad m] {look : U32 → m (Option SharedMemoryInner)}
variable {data data' : Mem} {totalSize : U32} {i : Fin 4} {st : DecodeState}

end Reads

section Rounds

variable {σ : Type} {look : U32 → StateM σ (Option SharedMemoryInner)} {data : Mem}
variable {totalSize : U32} {i : Fin 4} {st st' : DecodeState} {s s' : σ}

theorem run_bind_fst {α β : Type} {x : StateM σ α} {k : α → StateM σ β} {k' : α → Id β}
    (h : ∀ a s, ((k a).run s).1 = k' a) :
    ((x >>= k).run s).1 = (((x.run s).1 : Id α) >>= k') := h _ _

theorem decodeParam_run :
    ((decodeParam look data totalSize i st).run s).1 =
      decodeParam (m := Id) (fun offset => ((look offset).run s).1) data totalSize i st := by
  simp only [decodeParam]
  by_cases ht : (st.operation.paramType i).isTempMem = true
  · rw [if_pos ht, if_pos ht]
    rfl
  rw [if_neg ht, if_neg ht]
  by_cases hp : (st.operation.paramType i).isPartialMem = true
  · rw [if_pos hp, if_pos hp]
    simp only [teecOptDecodePartialMem]
    by_cases hrec : checkSizeStatus st.shmInfoOffset structSize totalSize st.sizeLeft = true
    · rw [if_pos hrec, if_pos hrec]
      rfl
    rw [if_neg hrec, if_neg hrec]
    by_cases href : checkSizeStatus (st.shmInfoOffset + structSize)
        (refSize data st.operation st.shmInfoOffset.toNat i) totalSize
        (st.sizeLeft - structSize) = true
    · rw [if_pos href, if_pos href]
      rfl
    rw [if_neg href, if_neg href]
    by_cases halloc : (recordAt data st.shmInfoOffset.toNat).isAllocated = true
    · rw [if_pos halloc, if_pos halloc]
      apply run_bind_fst
      intro found s
      cases found with
      | none => rfl
      | some b =>
        by_cases hnull : b.buffer = 0
        · simp only [if_pos hnull]
          rfl
        · simp only [if_neg hnull]
          rfl
    · rw [if_neg halloc, if_neg halloc]
      rfl
  · rw [if_neg hp, if_neg hp]
    rfl

theorem decodeStep_of_round
    (h : (decodeParam look data totalSize i st).run s = ((.success, st'), s'))
    (hfit : st.shmInfoOffset.toNat ≤ totalSize.toNat) :
    DecodeStep (fun offset => ((look offset).run s).1) data totalSize i st st' := by
  refine decodeStep_of_success ?_ hfit
  rw [← decodeParam_run, h]

variable (look data totalSize) in
def rounds : List (Fin 4) → DecodeState → σ → List (Fin 4 × DecodeState)
  | [], _, _ => []
  | i :: is, st, s =>
    (i, st) ::
      match (decodeParam look data totalSize i st).run s with
      | ((.success, st'), s') => rounds is st' s'
      | _ => []

variable {is : List (Fin 4)}

def Accounted (totalSize : U32) (st : DecodeState) : Prop :=
  st.shmInfoOffset.toNat + st.sizeLeft.toNat = totalSize.toNat

theorem Accounted.step (h : Accounted totalSize st)
    (hrun : (decodeParam look data totalSize i st).run s = ((.success, st'), s')) :
    Accounted totalSize st' := by
  have hfit : st.shmInfoOffset.toNat ≤ totalSize.toNat := by
    rw [← h]
    exact Nat.le_add_right _ _
  have step := decodeStep_of_round hrun hfit
  calc
    st'.shmInfoOffset.toNat + st'.sizeLeft.toNat =
        st.shmInfoOffset.toNat + slotLen data st.operation st.shmInfoOffset.toNat i +
          st'.sizeLeft.toNat := by rw [step.offset]
    _ = st.shmInfoOffset.toNat + (st'.sizeLeft.toNat +
          slotLen data st.operation st.shmInfoOffset.toNat i) := by omega
    _ = totalSize.toNat := by rw [step.sizeLeft, h]

end Rounds

section Ranges

def payloadAt : Addr → U32 → Option (Nat × Nat)
  | .within .payload k, n => some (k, n.toNat)
  | _, _ => none

def Slot.payloadRange (paramType : ParamType) (s : Slot) : Option (Nat × Nat) :=
  if paramType.isTempMem then
    if s.param.size = 0 then none else payloadAt s.param.ptr s.param.size
  else if paramType.isPartialMem then
    if s.shm.isAllocated then none
    else payloadAt s.shm.buffer (if paramType = .memrefWhole then s.shm.size else s.param.size)
  else none

def DecodeState.payloadRange (st : DecodeState) (i : Fin 4) : Option (Nat × Nat) :=
  (st.slot i).payloadRange (st.operation.paramType i)

section Decoded

variable {look : U32 → Option SharedMemoryInner} {data : Mem} {op : Operation Addr} {k : Nat}
variable {i : Fin 4} {before after : Slot}

theorem SlotDecoded.range (h : SlotDecoded look data op k i before after)
    {r : Nat × Nat} (hr : after.payloadRange (op.paramType i) = some r) :
    k ≤ r.1 ∧ r.1 + r.2 = k + slotLen data op k i := by
  rw [SlotDecoded] at h
  rw [Slot.payloadRange] at hr
  rw [slotLen]
  by_cases ht : (op.paramType i).isTempMem = true
  · rw [if_pos ht] at h hr ⊢
    subst h
    by_cases hzero : (op.params i).size = 0
    · simp [hzero] at hr
    · simp only [hzero, if_false, payloadAt, Option.some.injEq] at hr
      subst hr
      exact ⟨Nat.le_refl k, rfl⟩
  rw [if_neg ht] at h hr ⊢
  by_cases hp : (op.paramType i).isPartialMem = true
  · rw [if_pos hp] at h hr ⊢
    by_cases halloc : (recordAt data k).isAllocated = true
    · rw [if_pos halloc] at h
      obtain ⟨b, -, -, rfl⟩ := h
      rw [if_pos halloc] at hr
      cases hr
    · rw [if_neg halloc] at h
      subst h
      simp only [halloc, Bool.false_eq_true, if_false, payloadAt, Option.some.injEq] at hr
      subst hr
      refine ⟨Nat.le_add_right k 17, ?_⟩
      simp only [refSize]
      split_ifs <;> omega
  · rw [if_neg hp] at hr
    cases hr

end Decoded

section Run

variable {σ : Type} {look : U32 → StateM σ (Option SharedMemoryInner)} {data : Mem}
variable {totalSize : U32} {st st' : DecodeState} {s s' : σ}

end Run

variable {σ : Type}

end Ranges

end TeeClient.Daemon
