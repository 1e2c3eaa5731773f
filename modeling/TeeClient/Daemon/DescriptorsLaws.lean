import Mathlib.Tactic
import TeeClient.Daemon.Descriptors
import TeeClient.Daemon.OperationLaws

/-! Which descriptors are closed when the stub returns.  Every function adds to the two
lists of `Fds`, and what it adds is said by one equation. -/

namespace TeeClient.Daemon.Stub

open ByteMemory Vendor

def Fds.Balanced (s : Fds) : Prop := ∀ d, s.closed.count d = s.received.count d

def ClosesReceived (handling : Handling StubResult) : Prop :=
  (handling.run ⟨[], []⟩).2.Balanced

section Run

def Fds.add (s : Fds) (received closed : List Descriptor) : Fds :=
  ⟨s.received ++ received, s.closed ++ closed⟩

@[simp] theorem Fds.add_nil (s : Fds) : s.add [] [] = s := by simp [Fds.add]

@[simp] theorem Fds.add_add (s : Fds) (rs cs rs' cs' : List Descriptor) :
    (s.add rs cs).add rs' cs' = s.add (rs ++ rs') (cs ++ cs') := by simp [Fds.add]

def fileOf (fd : CInt) : List Descriptor := if 0 ≤ fd.toInt then [.file fd] else []

def ashmemOf : Option Ashmem → List Descriptor
  | none => []
  | some _ => [.ashmem]

variable {α β : Type} {s s' : Fds}

theorem run_bind {f : Handling α} {g : α → Handling β} {x : α} (h : f.run s = (x, s')) :
    (f >>= g).run s = (g x).run s' := by
  rw [StateT.run_bind, h]
  rfl

theorem run_close (d : Descriptor) : (close d).run s = ((), s.add [] [d]) := by
  rw [Fds.add, List.append_nil]
  rfl

theorem run_closeFd (fd : CInt) : (closeFd fd).run s = ((), s.add [] (fileOf fd)) := by
  rw [closeFd, fileOf]
  split_ifs
  · exact run_close _
  · rw [Fds.add_nil]
    rfl

theorem run_readFileDescriptor (fd : CInt) :
    (readFileDescriptor fd).run s = (fd, s.add (fileOf fd) []) := by
  rw [readFileDescriptor, fileOf]
  split_ifs
  · rw [Fds.add, List.append_nil]
    rfl
  · rw [Fds.add_nil]
    rfl

theorem run_closeFiles (fds : List CInt) :
    (fds.forM fun fd => close (.file fd) : Handling Unit).run s =
      ((), s.add [] (fds.map .file)) := by
  induction fds generalizing s with
  | nil =>
    rw [List.map_nil, Fds.add_nil]
    rfl
  | cons fd fds ih =>
    have hfirst : ((fd :: fds).forM fun fd => close (.file fd) : Handling Unit) =
        close (.file fd) >>= fun _ => fds.forM fun fd => close (.file fd) := rfl
    rw [hfirst, run_bind (run_close _), ih]
    simp

theorem run_closeDupIonFd (op : Operation Addr) :
    (closeDupIonFd op).run s = ((), s.add [] ((ionShareFds op paramIndices).map .file)) :=
  run_closeFiles _

theorem run_clearAsmMem (optMem : Option Ashmem) :
    (clearAsmMem optMem).run s = ((), s.add [] (ashmemOf optMem)) := by
  cases optMem with
  | none =>
    rw [ashmemOf, Fds.add_nil]
    rfl
  | some optMem => exact run_close _

theorem run_closeOpenSession (optMem : Option Ashmem) (op : Operation Addr) (fd : CInt) :
    (closeOpenSession optMem op fd).run s = ((), s.add []
      (ashmemOf optMem ++ (ionShareFds op paramIndices).map .file ++ fileOf fd)) := by
  rw [closeOpenSession, run_bind (run_clearAsmMem optMem), run_bind (run_closeDupIonFd op),
    run_closeFd]
  simp

end Run

section Ion

variable {op op' : Operation Addr} {is js : List (Fin 4)} {i : Fin 4}

/-- The two operations have the same descriptors in their `ION_INPUT` slots. -/
def SameIon (op op' : Operation Addr) : Prop :=
  op'.paramTypes = op.paramTypes ∧
    ∀ i, op.paramType i = .ionInput → (op'.params i).a = (op.params i).a

theorem SameIon.refl (op : Operation Addr) : SameIon op op := ⟨rfl, fun _ _ => rfl⟩

theorem SameIon.paramType (h : SameIon op op') (i : Fin 4) : op'.paramType i = op.paramType i := by
  rw [Operation.paramType, h.1]
  rfl

theorem SameIon.trans {op'' : Operation Addr} (h : SameIon op op') (h' : SameIon op' op'') :
    SameIon op op'' := by
  refine ⟨h'.1.trans h.1, fun i hi => ?_⟩
  rw [h'.2 i ((h.paramType i).trans hi), h.2 i hi]

theorem ionShareFds_append : ionShareFds op (is ++ js) = ionShareFds op is ++ ionShareFds op js :=
  List.filterMap_append

theorem ionShareFds_eq_nil :
    ionShareFds op is = [] ↔ ∀ i ∈ is, op.paramType i = .ionInput → (op.params i).ionShareFd < 0 := by
  rw [ionShareFds, List.filterMap_eq_nil_iff]
  refine forall₂_congr fun i _ => ?_
  simp

theorem ionShareFds_congr (ht : ∀ i ∈ is, op'.paramType i = op.paramType i)
    (ha : ∀ i ∈ is, op.paramType i = .ionInput → (op'.params i).a = (op.params i).a) :
    ionShareFds op' is = ionShareFds op is := by
  refine List.filterMap_congr fun i hi => ?_
  by_cases hion : op.paramType i = .ionInput
  · have hfd : (op'.params i).ionShareFd = (op.params i).ionShareFd := by
      rw [Parameter.ionShareFd, ha i hi hion]
      rfl
    rw [ht i hi, hfd, ha i hi hion]
  · simp [ht i hi, hion]

theorem SameIon.ionShareFds (h : SameIon op op') (is : List (Fin 4)) :
    ionShareFds op' is = ionShareFds op is :=
  ionShareFds_congr (fun i _ => h.paramType i) fun i _ => h.2 i

theorem ionShareFds_setParam (hi : i ∉ is) (p : Parameter Addr) :
    ionShareFds (op.setParam i p) is = ionShareFds op is := by
  refine ionShareFds_congr (fun _ _ => rfl) fun j hj _ => ?_
  rw [Operation.params_setParam_of_ne]
  rintro rfl
  exact hi hj

end Ion

section Parcel

variable {s : Fds} {ionFds : Fin 4 → CInt}

def brought (ionFds : Fin 4 → CInt) (op : Operation Addr) (is : List (Fin 4)) : List CInt :=
  is.filterMap fun i => if op.paramType i = .ionInput then some (ionFds i) else none

theorem ionShareFd_setIonShareFd (p : Parameter Addr) (fd : CInt) :
    (setIonShareFd p fd.toInt).ionShareFd = fd.toInt := by
  simp [setIonShareFd, Parameter.ionShareFd]

/-- The loop of `GetOperationFromData` from the slots `js` through the slots `is`, in which
`op` has no descriptor yet: the descriptors read go into the operation, or all that it has by
then are closed. -/
structure Reads (ionFds : Fin 4 → CInt) (js is : List (Fin 4)) (op : Operation Addr) (s : Fds)
    (result : Option (Operation Addr) × Fds) : Prop where
  ok : (∀ i ∈ is, op.paramType i = .ionInput → 0 ≤ (ionFds i).toInt) →
    ∃ op', result = (some op', s.add ((brought ionFds op is).map .file) []) ∧
      op'.paramTypes = op.paramTypes ∧
      ionShareFds op' paramIndices = ionShareFds op js ++ brought ionFds op is
  fails : (¬ ∀ i ∈ is, op.paramType i = .ionInput → 0 ≤ (ionFds i).toInt) →
    ∃ fds : List CInt,
      result = (none, s.add (fds.map .file) ((ionShareFds op js ++ fds).map .file))

variable {op : Operation Addr} {js is : List (Fin 4)} {i : Fin 4}
variable {result : Option (Operation Addr) × Fds}

theorem Reads.skip {p : Parameter Addr} (hion : op.paramType i ≠ .ionInput) (hi : i ∉ js)
    (h : Reads ionFds (js ++ [i]) is (op.setParam i p) s result) :
    Reads ionFds js (i :: is) op s result := by
  have hjs : ionShareFds (op.setParam i p) (js ++ [i]) = ionShareFds op js := by
    have hslot : ionShareFds (op.setParam i p) [i] = [] := by
      rw [ionShareFds_eq_nil]
      intro j hj hjion
      rw [List.mem_singleton.mp hj] at hjion
      exact absurd hjion hion
    rw [ionShareFds_append, ionShareFds_setParam hi, hslot, List.append_nil]
  have hbrought : brought ionFds op (i :: is) = brought ionFds op is := by
    simp [brought, hion]
  have hall : (∀ j ∈ i :: is, op.paramType j = .ionInput → 0 ≤ (ionFds j).toInt) ↔
      ∀ j ∈ is, op.paramType j = .ionInput → 0 ≤ (ionFds j).toInt := by
    rw [List.forall_mem_cons]
    exact and_iff_right fun hj => absurd hj hion
  constructor
  · intro hok
    obtain ⟨op', hresult, htypes, hfds⟩ := h.ok (hall.mp hok)
    rw [hjs] at hfds
    exact ⟨op', by rw [hresult, hbrought]; rfl, htypes, by rw [hfds, hbrought]; rfl⟩
  · intro hfails
    obtain ⟨fds, hresult⟩ := h.fails fun hok => hfails (hall.mpr hok)
    rw [hjs] at hresult
    exact ⟨fds, hresult⟩

theorem Reads.readFd {p : Parameter Addr} (hion : op.paramType i = .ionInput) (hi : i ∉ js)
    (hfd : 0 ≤ (ionFds i).toInt) (hp : p.a = ionFds i)
    (h : Reads ionFds (js ++ [i]) is (op.setParam i p) (s.add [.file (ionFds i)] []) result) :
    Reads ionFds js (i :: is) op s result := by
  have hjs : ionShareFds (op.setParam i p) (js ++ [i]) = ionShareFds op js ++ [ionFds i] := by
    rw [ionShareFds_append, ionShareFds_setParam hi]
    simp [ionShareFds, Parameter.ionShareFd, hion, hp, hfd]
  have hbrought : brought ionFds op (i :: is) = ionFds i :: brought ionFds op is := by
    simp [brought, hion]
  have hall : (∀ j ∈ i :: is, op.paramType j = .ionInput → 0 ≤ (ionFds j).toInt) ↔
      ∀ j ∈ is, op.paramType j = .ionInput → 0 ≤ (ionFds j).toInt := by
    rw [List.forall_mem_cons]
    exact and_iff_right fun _ => hfd
  constructor
  · intro hok
    obtain ⟨op', hresult, htypes, hfds⟩ := h.ok (hall.mp hok)
    rw [hjs] at hfds
    refine ⟨op', ?_, htypes, ?_⟩
    · rw [hresult, hbrought, Fds.add_add]
      rfl
    · rw [hfds, hbrought, List.append_assoc]
      rfl
  · intro hfails
    obtain ⟨fds, hresult⟩ := h.fails fun hok => hfails (hall.mpr hok)
    rw [hjs] at hresult
    refine ⟨ionFds i :: fds, ?_⟩
    rw [hresult, Fds.add_add]
    simp

theorem reads_failed {p : Parameter Addr} (hion : op.paramType i = .ionInput)
    (hall : js ++ i :: is = paramIndices) (hnone : ionShareFds op is = [])
    (hfd : (ionFds i).toInt < 0) (hp : p.a = ionFds i)
    (hresult : result = (none, s.add [] ((ionShareFds (op.setParam i p) paramIndices).map .file))) :
    Reads ionFds js (i :: is) op s result := by
  have hnodup : (js ++ i :: is).Nodup := by
    rw [hall]
    decide
  have hjs : i ∉ js := fun h => (List.nodup_append.mp hnodup).2.2 i h i List.mem_cons_self rfl
  have his : i ∉ is := (List.nodup_cons.mp (List.nodup_append.mp hnodup).2.1).1
  have hslot : ionShareFds (op.setParam i p) [i] = [] := by
    rw [ionShareFds_eq_nil]
    intro j hj _
    rw [List.mem_singleton.mp hj, Operation.params_setParam_self, Parameter.ionShareFd, hp]
    exact hfd
  constructor
  · intro hok
    exact absurd (hok i List.mem_cons_self hion) (not_le.mpr hfd)
  · intro _
    refine ⟨[], ?_⟩
    rw [hresult, ← hall, ← List.singleton_append, ionShareFds_append, ionShareFds_append,
      ionShareFds_setParam hjs, ionShareFds_setParam his, hslot, hnone]
    simp

theorem reads_readParams (js : List (Fin 4)) (hall : js ++ is = paramIndices)
    (hnone : ionShareFds op is = []) :
    Reads ionFds js is op s ((readParams ionFds is op).run s) := by
  induction is generalizing op js s with
  | nil =>
    constructor
    · intro _
      refine ⟨op, ?_, rfl, ?_⟩
      · rw [brought, List.filterMap_nil, List.map_nil, Fds.add_nil]
        rfl
      · rw [← hall, List.append_nil, brought, List.filterMap_nil, List.append_nil]
    · intro hfails
      exact absurd (List.forall_mem_nil _) hfails
  | cons i is ih =>
    have hnodup : (js ++ i :: is).Nodup := by
      rw [hall]
      decide
    have hjs : i ∉ js := fun h => (List.nodup_append.mp hnodup).2.2 i h i List.mem_cons_self rfl
    have his : i ∉ is := (List.nodup_cons.mp (List.nodup_append.mp hnodup).2.1).1
    have hall' : (js ++ [i]) ++ is = paramIndices := by simpa using hall
    have hrest : ionShareFds op is = [] := by
      rw [← List.singleton_append, ionShareFds_append] at hnone
      exact (List.append_eq_nil_iff.mp hnone).2
    have hnext (p : Parameter Addr) (s : Fds) : Reads ionFds (js ++ [i]) is (op.setParam i p) s
        ((readParams ionFds is (op.setParam i p)).run s) := by
      refine ih (js ++ [i]) hall' ?_
      rw [ionShareFds_setParam his, hrest]
    rw [readParams]
    split_ifs with hptr hion
    · refine Reads.skip ?_ hjs (hnext _ s)
      intro hion
      simp [hion, ParamType.isTempMem, ParamType.isPartialMem] at hptr
    · rw [run_bind (run_readFileDescriptor _)]
      by_cases hfd : (ionFds i).toInt < 0
      · have hfile : fileOf (ionFds i) = [] := if_neg (not_le.mpr hfd)
        rw [if_pos hfd, run_bind (run_closeDupIonFd _), hfile, Fds.add_nil]
        exact reads_failed hion hall hrest hfd (by simp [setIonShareFd]) rfl
      · have hfile : fileOf (ionFds i) = [.file (ionFds i)] := if_pos (not_lt.mp hfd)
        rw [if_neg hfd, hfile]
        exact (hnext _ _).readFd hion hjs (not_lt.mp hfd) (by simp [setIonShareFd])
    · have hself : op.setParam i (op.params i) = op := by simp [Operation.setParam]
      have hskip := (hnext (op.params i) s).skip hion hjs
      rwa [hself] at hskip

theorem readParams_eq (ionFds : Fin 4 → CInt) (is : List (Fin 4)) (op : Operation Addr) (s : Fds) :
    ((readParams ionFds is op).run s).1 = clearParams (fun i => (ionFds i).toInt) is op := by
  induction is generalizing op s with
  | nil => rfl
  | cons i is ih =>
    rw [readParams, clearParams, clearParam]
    by_cases htemp : (op.paramType i).isTempMem
    · simp only [htemp, Bool.true_or, if_true]
      exact ih _ s
    · by_cases hpart : (op.paramType i).isPartialMem
      · simp only [htemp, hpart, Bool.or_true, if_true, if_false, Bool.false_eq_true]
        exact ih _ s
      · by_cases hion : op.paramType i = .ionInput
        · simp only [hion, ParamType.isTempMem, ParamType.isPartialMem, Bool.or_self, if_true,
            if_false, Bool.false_eq_true]
          rw [run_bind (run_readFileDescriptor _)]
          by_cases hfd : (ionFds i).toInt < 0
          · rw [if_pos hfd, if_pos hfd, run_bind (run_closeDupIonFd _)]
            rfl
          · rw [if_neg hfd, if_neg hfd]
            exact ih _ _
        · have hself : op.setParam i (op.params i) = op := by simp [Operation.setParam]
          simp only [htemp, hpart, hion, Bool.or_self, if_false, Bool.false_eq_true, hself]
          exact ih _ s

theorem ionShareFds_setInvalidIonFd (op : Operation Addr) (is : List (Fin 4)) :
    ionShareFds (setInvalidIonFd op) is = [] := by
  rw [ionShareFds_eq_nil]
  intro i _ hi
  have hion : op.paramType i = .ionInput := hi
  simp [setInvalidIonFd, hion, setIonShareFd, Parameter.ionShareFd]

end Parcel

section Inner

open Resumption (Prog)

variable {op : Operation Addr}

theorem SameIon.maskIdentParams {op' : Operation Addr} (h : SameIon op op') :
    SameIon op.maskIdentParams op'.maskIdentParams := by
  constructor
  · simp only [Operation.maskIdentParams, h.paramType]
  · intro i hi
    refine h.2 i ?_
    rw [Operation.paramType_maskIdentParams] at hi
    split_ifs at hi
    exact hi

theorem sameIon_driverWrites (outputs : Fin 4 → SlotOutput) (op : Operation Addr) :
    SameIon op (driverWrites outputs op) := by
  refine ⟨rfl, fun i hi => ?_⟩
  simp [driverWrites, driverWrite, hi]

theorem sameIon_teecEncode (shm : Addr → SharedMemory Addr) (op : Operation Addr) :
    SameIon op (Api.teecEncode shm op) := by
  rw [Api.teecEncode]
  split_ifs
  · exact .refl op
  · refine ⟨rfl, fun i hi => ?_⟩
    simp [teecEncodeParam, teecEncodeSlot, hi, ParamType.isTempMem, ParamType.isPartialMem,
      ParamType.isSharedMem, ParamType.isValueMem]

theorem operation_teecDoOpenSession {c session : Nat} {operation : Option (Operation Addr)}
    {result : Api.InnerResult Addr}
    (h : Prog.Yields result (Api.teecDoOpenSession c session operation)) :
    result.operation = operation := by
  simp only [Api.teecDoOpenSession, Prog.bind_eq] at h
  obtain ⟨fd, -, h⟩ := Prog.yields_bind.mp h
  obtain ⟨reply, -, h⟩ := Prog.yields_bind.mp h
  split_ifs at h with hret
  · obtain ⟨_, -, h⟩ := Prog.yields_bind.mp h
    obtain rfl := h
    rfl
  · obtain rfl := h
    rfl

theorem operation_teecOpenSessionInner {shm : Addr → SharedMemory Addr} {c session : Nat}
    {connectionMethod : U32} {operation : Option (Operation Addr)} {result : Api.InnerResult Addr}
    (h : Prog.Yields result
      (Api.teecOpenSessionInner shm c session connectionMethod false operation)) :
    (connectionMethod ≠ Api.teecLoginIdentify → result.operation = operation) ∧
    (connectionMethod = Api.teecLoginIdentify →
      result.operation = operation.map (·.maskIdentParams) ∨
      result.operation = operation.map fun op => Api.teecEncode shm op.maskIdentParams) := by
  rw [Api.teecOpenSessionInner] at h
  by_cases hmethod : connectionMethod = Api.teecLoginIdentify
  · refine ⟨fun hlogin => absurd hmethod hlogin, fun _ => ?_⟩
    rw [if_neg (by simp [hmethod])] at h
    simp only [Prog.bind_eq] at h
    obtain ⟨checked, -, h⟩ := Prog.yields_bind.mp h
    split_ifs at h with hchecked
    · obtain ⟨session', -, h⟩ := Prog.yields_bind.mp h
      obtain ⟨encoded, -, h⟩ := Prog.yields_bind.mp h
      split_ifs at h with hencoded
      · obtain ⟨gotApp, -, h⟩ := Prog.yields_bind.mp h
        split_ifs at h with hgotApp
        · rw [operation_teecDoOpenSession h, Option.map_map]
          exact .inr rfl
        · obtain rfl := h
          exact .inr (Option.map_map ..)
      · obtain rfl := h
        exact .inl rfl
    · obtain rfl := h
      exact .inl rfl
  · rw [if_pos (.inl hmethod)] at h
    obtain rfl := h
    exact ⟨fun _ => rfl, fun hlogin => absurd hlogin hmethod⟩

theorem operation_teecInvokeCommandInner {shm : Addr → SharedMemory Addr} {c session : Nat}
    {operation : Option (Operation Addr)} {result : Api.InnerResult Addr}
    (h : Prog.Yields result (Api.teecInvokeCommandInner shm c session operation)) :
    result.operation = operation ∨ result.operation = operation.map (Api.teecEncode shm) := by
  simp only [Api.teecInvokeCommandInner, Prog.bind_eq] at h
  obtain ⟨checked, -, h⟩ := Prog.yields_bind.mp h
  split_ifs at h with hchecked
  · obtain ⟨session', -, h⟩ := Prog.yields_bind.mp h
    obtain ⟨encoded, -, h⟩ := Prog.yields_bind.mp h
    split_ifs at h with hencoded
    · simp only [Api.processInvokeCommand, Prog.bind_eq] at h
      obtain ⟨fd, -, h⟩ := Prog.yields_bind.mp h
      obtain ⟨reply, -, h⟩ := Prog.yields_bind.mp h
      obtain rfl := h
      exact .inr rfl
    · obtain rfl := h
      exact .inl rfl
  · obtain rfl := h
    exact .inl rfl

theorem sameIon_setParam {i : Fin 4} {p : Parameter Addr} (hp : p.a = (op.params i).a) :
    SameIon op (op.setParam i p) := by
  refine ⟨rfl, fun j _ => ?_⟩
  by_cases hj : j = i
  · rw [hj, Operation.params_setParam_self, hp]
  · rw [Operation.params_setParam_of_ne op hj]

theorem sameIon_teecOptDecodePartialMem (look : U32 → Option SharedMemoryInner) (data : Mem)
    (totalSize : U32) (i : Fin 4) (st : DecodeState) :
    SameIon st.operation
      (teecOptDecodePartialMem (m := Id) look data totalSize i st).2.operation := by
  rw [teecOptDecodePartialMem]
  split_ifs with hrecord
  · exact .refl _
  · simp only []
    split_ifs with hfits halloc
    · exact .refl _
    · cases hblock : look (recordOffset data st.shmInfoOffset.toNat) with
      | none => exact .refl _
      | some block =>
        change SameIon st.operation (if block.buffer = 0 then _ else _ : _ × DecodeState).2.operation
        split_ifs with hnull
        · exact .refl _
        · exact sameIon_setParam rfl
    · exact sameIon_setParam rfl

theorem sameIon_decodeParam (look : U32 → Option SharedMemoryInner) (data : Mem) (totalSize : U32)
    (i : Fin 4) (st : DecodeState) :
    SameIon st.operation (decodeParam (m := Id) look data totalSize i st).2.operation := by
  rw [decodeParam]
  split_ifs with htemp hpart
  · change SameIon st.operation (teecOptDecodeTempMem totalSize i st).2.operation
    rw [teecOptDecodeTempMem]
    split_ifs with hfits hsize
    · exact .refl _
    · exact .refl _
    · exact sameIon_setParam rfl
  · exact sameIon_teecOptDecodePartialMem look data totalSize i st
  · exact .refl _

theorem sameIon_decodeParams (look : U32 → Option SharedMemoryInner) (data : Mem) (totalSize : U32)
    (is : List (Fin 4)) (st : DecodeState) :
    SameIon st.operation (decodeParams (m := Id) look data totalSize is st).2.operation := by
  induction is generalizing st with
  | nil => exact .refl _
  | cons i is ih =>
    have hround := sameIon_decodeParam look data totalSize i st
    rw [decodeParams_cons]
    split
    case h_1 st' hst' =>
      rw [hst'] at hround
      exact hround.trans (ih st')
    case h_2 e st' _ hst' =>
      rw [hst'] at hround
      exact hround

theorem sameIon_getTeecOptMem (look : U32 → Option SharedMemoryInner) (op : Operation Addr)
    (optMemSize : U32) (optMem : Option Mem) :
    SameIon op (getTeecOptMem (m := Id) look op optMemSize optMem).2.operation := by
  simp only [getTeecOptMem]
  split_ifs
  · exact .refl op
  · cases optMem with
    | none => exact .refl op
    | some data => exact sameIon_decodeParams look data optMemSize paramIndices _

end Inner

section Service

open Resumption (Prog)

variable {answers : Answers} {fd : CInt} {connectionMethod optMemSize : U32} {optMem : Option Ashmem}
variable {operation operation' operation'' : Option (Operation Addr)} {s : Fds}

abbrev SameIons (operation operation' : Option (Operation Addr)) : Prop :=
  Option.Rel SameIon operation operation'

theorem SameIons.refl (operation : Option (Operation Addr)) : SameIons operation operation := by
  cases operation with
  | none => exact .none
  | some op => exact .some (.refl op)

theorem SameIons.trans (h : SameIons operation operation') (h' : SameIons operation' operation'') :
    SameIons operation operation'' := by
  cases h with
  | none => exact h'
  | some h =>
    cases h' with
    | some h' => exact .some (h.trans h')

theorem SameIons.maskIdentParams (h : SameIons operation operation') :
    SameIons (operation.map (·.maskIdentParams)) (operation'.map (·.maskIdentParams)) := by
  cases h with
  | none => exact .none
  | some h => exact .some h.maskIdentParams

theorem sameIons_map {f : Operation Addr → Operation Addr} (hf : ∀ op, SameIon op (f op)) :
    SameIons operation (operation.map f) := by
  cases operation with
  | none => exact .none
  | some op => exact .some (hf op)

theorem sameIons_afterInner {result : Api.InnerResult Addr} (h : SameIons operation result.operation) :
    SameIons operation (afterInner result) := by
  rw [afterInner]
  cases result.outputs with
  | none => exact h
  | some outputs => exact h.trans (sameIons_map (sameIon_driverWrites outputs))

theorem sameIons_decodeOperation :
    SameIons operation (decodeOperation answers operation optMemSize optMem).2.1 := by
  cases operation with
  | none => exact .none
  | some op => exact .some (sameIon_getTeecOptMem _ op _ _)

/-- The request gets to the masking of `TEEC_OpenSessionInner`. -/
def MasksParams (answers : Answers) (connectionMethod : U32) (operation : Option (Operation Addr))
    (optMemSize : U32) (optMem : Option Ashmem) : Prop :=
  answers.callGetBnContext.isSome ∧
    (decodeOperation answers operation optMemSize optMem).1 = .success ∧
    answers.addTidData ∧ connectionMethod = Api.teecLoginIdentify

theorem run_closeTaFile (answers : Answers) (fd : CInt) :
    ∃ fd' cs, (closeTaFile (if 0 ≤ fd.toInt ∧ answers.fdopen then some fd else none) fd).run s =
      (fd', s.add [] cs) ∧ cs ++ fileOf fd' = fileOf fd := by
  split_ifs with hopened
  · refine ⟨-1, [.file fd], ?_, ?_⟩
    · rw [closeTaFile, run_bind (run_close _)]
      rfl
    · rw [fileOf, fileOf, if_pos hopened.1]
      rfl
  · refine ⟨fd, [], ?_, List.nil_append _⟩
    rw [Fds.add_nil]
    rfl

theorem sameIons_openInner {shm : Addr → SharedMemory Addr} {c session : Nat}
    {result : Api.InnerResult Addr} (h : Prog.Yields result
      (Api.teecOpenSessionInner shm c session connectionMethod false operation)) :
    SameIons (if connectionMethod = Api.teecLoginIdentify then operation.map (·.maskIdentParams)
      else operation) result.operation := by
  obtain ⟨hother, hlogin⟩ := operation_teecOpenSessionInner h
  split_ifs with hmethod
  · rcases hlogin hmethod with hop | hop
    · rw [hop]
      exact .refl _
    · have hencoded : SameIons (operation.map (·.maskIdentParams))
          ((operation.map (·.maskIdentParams)).map (Api.teecEncode shm)) :=
        sameIons_map (sameIon_teecEncode shm)
      rw [Option.map_map] at hencoded
      rw [hop]
      exact hencoded
  · rw [hother hmethod]
    exact .refl _

open Classical in
theorem run_openSession (answers : Answers) (fd : CInt) (connectionMethod : U32)
    (operation : Option (Operation Addr)) (optMemSize : U32) (optMem : Option Ashmem) (s : Fds) :
    ∃ x cs, (openSession answers fd connectionMethod operation optMemSize optMem).run s =
        (x, s.add [] cs) ∧
      cs ++ fileOf x.2.1 = fileOf fd ∧
      SameIons (if MasksParams answers connectionMethod operation optMemSize optMem then
        operation.map (·.maskIdentParams) else operation) x.2.2 := by
  simp only [openSession]
  cases hcontext : answers.callGetBnContext with
  | none =>
    have hmasks : ¬ MasksParams answers connectionMethod operation optMemSize optMem := by
      rintro ⟨hsome, -⟩
      simp [hcontext] at hsome
    rw [if_neg hmasks]
    exact ⟨_, [], by rw [Fds.add_nil]; rfl, List.nil_append _, .refl _⟩
  | some found =>
    obtain ⟨c, session⟩ := found
    obtain ⟨fd', cs, hclose, hfd⟩ := run_closeTaFile (s := s) answers fd
    have hdecoded : SameIons operation (decodeOperation answers operation optMemSize optMem).2.1 :=
      sameIons_decodeOperation
    have hmasks : MasksParams answers connectionMethod operation optMemSize optMem ↔
        ((decodeOperation answers operation optMemSize optMem).1 = .success ∧
          answers.addTidData = true) ∧ connectionMethod = Api.teecLoginIdentify := by
      simp [MasksParams, hcontext, and_assoc]
    rw [hmasks]
    generalize decodeOperation answers operation optMemSize optMem = decoded at *
    obtain ⟨ret, operation', para⟩ := decoded
    by_cases hready : ret = .success ∧ answers.addTidData = true
    · have hinner := sameIons_openInner (Prog.yields_eval answers.inner 0
        (Api.teecOpenSessionInner (parentAt answers.memory para) c session connectionMethod false
          operation'))
      have hafter := sameIons_afterInner hinner
      simp only [hready, and_self, true_and, if_true] at hafter ⊢
      rw [run_bind hclose]
      have hsame : SameIons (if connectionMethod = Api.teecLoginIdentify then
          operation.map (·.maskIdentParams) else operation)
          (if connectionMethod = Api.teecLoginIdentify then
            operation'.map (·.maskIdentParams) else operation') := by
        split_ifs
        · exact hdecoded.maskIdentParams
        · exact hdecoded
      have hall := hsame.trans hafter
      generalize Prog.eval answers.inner 0 _ = result at *
      by_cases hwrite : result.ret = .success ∧ answers.writeReply = true
      · rw [if_pos hwrite]
        exact ⟨_, cs, rfl, hfd, hall⟩
      · rw [if_neg hwrite]
        exact ⟨_, cs, rfl, hfd, hall⟩
    · have hnot : ¬ ((ret = .success ∧ answers.addTidData = true) ∧
          connectionMethod = Api.teecLoginIdentify) := fun h => hready h.1
      simp only [if_neg hready, if_neg hnot]
      rw [run_bind hclose]
      exact ⟨_, cs, rfl, hfd, hdecoded⟩

theorem sameIons_invokeCommand :
    SameIons operation (invokeCommand answers operation optMemSize optMem).2 := by
  simp only [invokeCommand]
  cases answers.callGetBnSession with
  | none => exact .refl _
  | some found =>
    obtain ⟨c, session⟩ := found
    have hdecoded : SameIons operation (decodeOperation answers operation optMemSize optMem).2.1 :=
      sameIons_decodeOperation
    by_cases hready : (decodeOperation answers operation optMemSize optMem).1 = .success ∧
        answers.addTidData = true
    · simp only [if_pos hready]
      refine hdecoded.trans (sameIons_afterInner ?_)
      rcases operation_teecInvokeCommandInner (Prog.yields_eval answers.inner 0 _) with hop | hop
      · rw [hop]
        exact .refl _
      · rw [hop]
        exact sameIons_map (sameIon_teecEncode _)
    · simp only [if_neg hready]
      exact hdecoded

end Service

section Read

variable {s : Fds} {op : Operation Addr}

theorem run_readFd (fdFlag : Option Bool) (fd : CInt) :
    ∃ x, (readFd fdFlag fd).run s = (x, s.add (fileOf x.2) []) ∧
      (x.1 = true ↔ ReadsFd fdFlag fd) := by
  have hnone : fileOf (-1) = [] := rfl
  cases fdFlag with
  | none =>
    refine ⟨(false, -1), ?_, by simp [ReadsFd]⟩
    rw [hnone, Fds.add_nil]
    rfl
  | some flag =>
    cases flag with
    | false =>
      refine ⟨(true, -1), ?_, by simp [ReadsFd]⟩
      rw [hnone, Fds.add_nil]
      rfl
    | true =>
      refine ⟨(decide (0 ≤ fd.toInt), fd), ?_, by simp [ReadsFd]⟩
      rw [readFd, run_bind (run_readFileDescriptor fd)]
      rfl

theorem run_readOpenData (data : OpenData) :
    (∃ fd connMethod, data.Opens ∧ data.connMethod = some connMethod ∧
      (readOpenData data).run s = (some (fd, connMethod), s.add (fileOf fd) [])) ∨
    ∃ fd, ¬ data.Opens ∧ (readOpenData data).run s = (none, s.add (fileOf fd) (fileOf fd)) := by
  obtain ⟨⟨retTmp, fd⟩, hread, hok⟩ := run_readFd (s := s) data.fdFlag data.fd
  rw [readOpenData, run_bind hread]
  have hfails : (do
      closeFd fd
      pure (none : Option (CInt × U32)) : Handling _).run (s.add (fileOf fd) []) =
      (none, s.add (fileOf fd) (fileOf fd)) := by
    rw [run_bind (run_closeFd fd), Fds.add_add, List.append_nil, List.nil_append]
    rfl
  cases retTmp with
  | false =>
    refine .inr ⟨fd, fun h => ?_, hfails⟩
    exact absurd (hok.mpr h.1) (by simp)
  | true =>
    cases huuid : data.uuid with
    | none =>
      refine .inr ⟨fd, fun h => ?_, hfails⟩
      simp [OpenData.Opens, huuid] at h
    | some uuid =>
      cases hmethod : data.connMethod with
      | none =>
        refine .inr ⟨fd, fun h => ?_, hfails⟩
        simp [OpenData.Opens, hmethod] at h
      | some connMethod =>
        refine .inl ⟨fd, connMethod, ⟨hok.mp rfl, by simp [huuid], by simp [hmethod]⟩, rfl, rfl⟩

theorem run_getOptMemFromData (data : OperationData) :
    ∃ x, (getOptMemFromData data).run s = (x, s.add (ashmemOf x.2) []) ∧
      data.mapped = x.1.map (·, x.2) := by
  rw [getOptMemFromData, OperationData.mapped]
  cases data.optMemSize with
  | none => exact ⟨(none, none), by rw [ashmemOf, Fds.add_nil]; rfl, rfl⟩
  | some optMemSize =>
    simp only []
    split_ifs with hzero
    · exact ⟨(some 0, none), by rw [ashmemOf, Fds.add_nil]; rfl, rfl⟩
    · cases data.optMem with
      | none => exact ⟨(none, none), by rw [ashmemOf, Fds.add_nil]; rfl, rfl⟩
      | some optMem =>
        refine ⟨(if optMem.maps then some optMemSize else none, some optMem), ?_, ?_⟩
        · rw [Fds.add, List.append_nil]
          rfl
        · simp only []
          split_ifs <;> rfl

theorem run_getOperationFromData (stack : Operation Addr) (data : OperationData) :
    (data.opFlag = some false ∧
      (getOperationFromData stack data).run s = (some (false, stack), s)) ∨
    (∃ op, data.opFlag = some true ∧ data.decoded = some op ∧
      (getOperationFromData stack data).run s =
        (some (true, op), s.add ((ionShareFds op paramIndices).map .file) [])) ∨
    ∃ fds : List CInt, data.opFlag ≠ some false ∧ data.decoded = none ∧
      (getOperationFromData stack data).run s = (none, s.add (fds.map .file) (fds.map .file)) := by
  rw [getOperationFromData, OperationData.decoded]
  cases hflag : data.opFlag with
  | none => exact .inr (.inr ⟨[], by simp, rfl, by rw [List.map_nil, Fds.add_nil]; rfl⟩)
  | some flag =>
    cases flag with
    | false => exact .inl ⟨rfl, rfl⟩
    | true =>
      cases hwire : data.operation with
      | none => exact .inr (.inr ⟨[], by simp, rfl, by rw [List.map_nil, Fds.add_nil]; rfl⟩)
      | some wire =>
        have hreads : Reads data.ionFds [] paramIndices (setInvalidIonFd (wire.view Addr.raw)) s _ :=
          reads_readParams [] rfl (ionShareFds_setInvalidIonFd _ _)
        have hresult := readParams_eq data.ionFds paramIndices (setInvalidIonFd (wire.view Addr.raw)) s
        by_cases hall : ∀ i ∈ paramIndices, wire.paramType i = .ionInput → 0 ≤ (data.ionFds i).toInt
        · obtain ⟨op, hrun, -, hfds⟩ := hreads.ok hall
          rw [hrun] at hresult
          refine .inr (.inl ⟨op, rfl, hresult.symm, ?_⟩)
          simp only []
          rw [run_bind hrun, hfds]
          rfl
        · obtain ⟨fds, hrun⟩ := hreads.fails hall
          rw [hrun] at hresult
          refine .inr (.inr ⟨fds, by simp, hresult.symm, ?_⟩)
          simp only []
          rw [run_bind hrun]
          rfl

end Read

section RecvProc

variable {stack op op' : Operation Addr} {answers : Answers}

theorem balanced_add {rs cs : List Descriptor} :
    ((Fds.mk [] []).add rs cs).Balanced ↔ ∀ d, cs.count d = rs.count d := by
  simp [Fds.Balanced, Fds.add]

theorem closesReceived_pure (ret : StubResult) : ClosesReceived (pure ret) := fun _ => rfl

theorem decoded_ionShareFd {data : OperationData} (h : data.decoded = some op) {i : Fin 4}
    (hi : op.paramType i = .ionInput) : 0 ≤ (op.params i).ionShareFd := by
  rw [OperationData.decoded] at h
  split at h
  case h_2 => cases h
  case h_1 wire hflag hwire =>
    obtain ⟨hfds, rfl⟩ := getOperationFromData_eq_some.mp h
    have hion : wire.paramType i = .ionInput := hi
    have hparam : clearedParam (fun i => (data.ionFds i).toInt) (wire.view Addr.raw) i =
        setIonShareFd ((wire.view Addr.raw).params i) (data.ionFds i).toInt := by
      simp [clearedParam, hion, ParamType.isTempMem, ParamType.isPartialMem]
    change 0 ≤ (clearedParam (fun i => (data.ionFds i).toInt) (wire.view Addr.raw) i).ionShareFd
    rw [hparam, ionShareFd_setIonShareFd]
    exact hfds i hion

theorem ionShareFds_maskIdentParams (op : Operation Addr) :
    ionShareFds op.maskIdentParams paramIndices = ionShareFds op [0, 1] := by
  have hslots : paramIndices = [0, 1] ++ [2, 3] := rfl
  have htype (i : Fin 4) := op.paramType_maskIdentParams i
  have hlast : ionShareFds op.maskIdentParams [2, 3] = [] := by
    rw [ionShareFds_eq_nil]
    intro i hi hion
    rw [htype] at hion
    fin_cases hi <;> simp at hion
  rw [hslots, ionShareFds_append, hlast, List.append_nil]
  refine ionShareFds_congr (fun i hi => ?_) fun _ _ _ => rfl
  rw [htype]
  fin_cases hi <;> rfl

theorem count_maskIdentParams {data : OperationData} (h : data.decoded = some op) :
    (∀ d, ((ionShareFds op.maskIdentParams paramIndices).map Descriptor.file).count d =
      ((ionShareFds op paramIndices).map Descriptor.file).count d) ↔
    op.paramType 2 ≠ .ionInput ∧ op.paramType 3 ≠ .ionInput := by
  have hslots : paramIndices = [0, 1] ++ [2, 3] := rfl
  rw [ionShareFds_maskIdentParams, hslots, ionShareFds_append]
  simp only [List.map_append, List.count_append, Nat.left_eq_add, List.count_eq_zero]
  rw [← List.eq_nil_iff_forall_not_mem, List.map_eq_nil_iff, ionShareFds_eq_nil]
  have hneg (i : Fin 4) : (op.paramType i = .ionInput → (op.params i).ionShareFd < 0) ↔
      op.paramType i ≠ .ionInput :=
    ⟨fun hlt hi => absurd (hlt hi) (not_lt.mpr (decoded_ionShareFd h hi)), fun hne hi => absurd hi hne⟩
  simp [hneg]

/-- No descriptor stands in the `ION_INPUT` slots of the bytes on the stack. -/
def NoDescriptors (stack : Operation Addr) : Prop := ionShareFds stack paramIndices = []

instance (stack : Operation Addr) : Decidable (NoDescriptors stack) :=
  inferInstanceAs (Decidable (_ = _))

theorem noDescriptors_iff :
    (∀ d, ((ionShareFds stack paramIndices).map Descriptor.file).count d = 0) ↔
      NoDescriptors stack := by
  simp only [List.count_eq_zero]
  rw [← List.eq_nil_iff_forall_not_mem, List.map_eq_nil_iff, NoDescriptors]

def OpenData.Masks (data : OpenData) (answers : Answers) (connMethod : U32) (op : Operation Addr) :
    Prop :=
  ∃ optMemSize optMem, data.mapped = some (optMemSize, optMem) ∧
    MasksParams answers connMethod (some op) optMemSize optMem

/-- Where the stub does what it should: when a message without an operation gets as far as the
clean-up, the stack must not look like one with descriptors, and an `OpenSession` that gets to
the masking of `TEEC_OpenSessionInner` must not bring descriptors in the last two slots. -/
def Cleans (stack : Operation Addr) (answers : Answers) : Message → Prop
  | .openSession data =>
    data.interfaceToken → data.context.isSome → data.taPath.isSome → data.Opens →
      (data.opFlag = some false → NoDescriptors stack) ∧
      ∀ op connMethod, data.decoded = some op → data.connMethod = some connMethod →
        data.Masks answers connMethod op → op.paramType 2 ≠ .ionInput ∧ op.paramType 3 ≠ .ionInput
  | .invokeCommand data =>
    data.interfaceToken → data.context.isSome → data.session.isSome → data.commandID.isSome →
      data.opFlag = some false → NoDescriptors stack
  | .sendSecFile _ => True

theorem closesReceived_sendSecFile (data : SecFileData) :
    ClosesReceived (sendSecFileRecvProc answers data) := by
  rw [sendSecFileRecvProc]
  by_cases htoken : data.interfaceToken
  · rw [if_pos htoken]
    cases data.path with
    | none => exact closesReceived_pure _
    | some path =>
      obtain ⟨⟨retTmp, fd⟩, hread, -⟩ := run_readFd (s := ⟨[], []⟩) data.fdFlag data.fd
      rw [ClosesReceived, run_bind hread]
      by_cases hfd : fd.toInt < 0
      · have hnone : fileOf fd = [] := if_neg (not_le.mpr hfd)
        simp only [if_pos hfd, hnone]
        exact balanced_add.mpr fun _ => rfl
      · have hfile : fileOf fd = [.file fd] := if_pos (not_lt.mp hfd)
        have hclose (ret : StubResult) : ((do
            close (.file fd)
            pure ret : Handling _).run ((Fds.mk [] []).add (fileOf fd) [])).2.Balanced := by
          rw [run_bind (run_close _), Fds.add_add, hfile]
          exact balanced_add.mpr fun _ => rfl
        simp only [if_neg hfd]
        split
        · split_ifs
          · exact hclose _
          · exact hclose _
        · exact hclose _
  · rw [if_neg htoken]
    exact closesReceived_pure _

theorem run_invokeEnd {s : Fds} (optMem : Option Ashmem) (op : Operation Addr) (ret : StubResult) :
    (do clearAsmMem optMem
        closeDupIonFd op
        pure ret : Handling _).run s =
      (ret, s.add [] (ashmemOf optMem ++ (ionShareFds op paramIndices).map .file)) := by
  rw [run_bind (run_clearAsmMem optMem), run_bind (run_closeDupIonFd op), Fds.add_add]
  rfl

theorem SameIons.ionShareFds {operation : Option (Operation Addr)} {opFlag : Bool}
    (h : SameIons (if opFlag then some op else none) operation) :
    ionShareFds (operation.getD op) paramIndices = Stub.ionShareFds op paramIndices := by
  cases opFlag with
  | false =>
    cases h
    rfl
  | true =>
    cases h with
    | some h => exact h.ionShareFds paramIndices

theorem run_serveInvokeCommand (answers : Answers) (s : Fds) (data : InvokeData) (opFlag : Bool)
    (op : Operation Addr) :
    ∃ optMem, ((serveInvokeCommand answers data opFlag op).run s).2 = s.add (ashmemOf optMem)
      (ashmemOf optMem ++ (ionShareFds op paramIndices).map .file) := by
  obtain ⟨⟨optMemSize, optMem⟩, hmem, -⟩ := run_getOptMemFromData (s := s) data.toOperationData
  refine ⟨optMem, ?_⟩
  rw [serveInvokeCommand, run_bind hmem]
  cases optMemSize with
  | none =>
    simp only []
    rw [run_invokeEnd, Fds.add_add, List.append_nil, List.nil_append]
  | some optMemSize =>
    have hsame : SameIons (if opFlag then some op else none)
        (invokeCommand answers (if opFlag then some op else none) optMemSize optMem).2 :=
      sameIons_invokeCommand
    simp only []
    rw [run_invokeEnd, Fds.add_add, List.append_nil, List.nil_append, hsame.ionShareFds]

theorem ionShareFds_served {operation : Option (Operation Addr)} {opFlag masks : Prop}
    [Decidable opFlag] [Decidable masks] (h : SameIons (if masks then
      (if opFlag then some op else none).map (·.maskIdentParams)
      else if opFlag then some op else none) operation) :
    ionShareFds (operation.getD op) paramIndices =
      ionShareFds (if opFlag ∧ masks then op.maskIdentParams else op) paramIndices := by
  by_cases hflag : opFlag
  · by_cases hmasks : masks
    · simp only [hflag, hmasks, if_true, and_self, Option.map_some] at h ⊢
      cases h with
      | some h => exact h.ionShareFds paramIndices
    · simp only [hflag, hmasks, if_true, if_false, and_false] at h ⊢
      cases h with
      | some h => exact h.ionShareFds paramIndices
  · simp only [hflag, if_false, false_and, Option.map_none, ite_self] at h ⊢
    cases h
    rfl

open Classical in
/-- The rest of `OpenSessionRecvProc` closes the descriptor of the TA file and those that are in
`operation`, or what masking leaves of them. -/
theorem run_serveOpenSession (answers : Answers) (s : Fds) (data : OpenData) (fd : CInt)
    (connMethod : U32) (opFlag : Bool) (op : Operation Addr) :
    ∃ optMem ds, ((serveOpenSession answers data fd connMethod opFlag op).run s).2 =
        s.add (ashmemOf optMem) ds ∧
      ∀ d, ds.count d = (ashmemOf optMem).count d + (fileOf fd).count d +
        ((ionShareFds (if opFlag ∧ data.Masks answers connMethod op then op.maskIdentParams else op)
          paramIndices).map Descriptor.file).count d := by
  obtain ⟨⟨optMemSize, optMem⟩, hmem, hmapped⟩ := run_getOptMemFromData (s := s) data.toOperationData
  rw [serveOpenSession, run_bind hmem]
  cases optMemSize with
  | none =>
    have hmasks : ¬ data.Masks answers connMethod op := by
      rintro ⟨optMemSize, optMem, hsome, -⟩
      simp [hmapped] at hsome
    refine ⟨optMem, ashmemOf optMem ++ (ionShareFds op paramIndices).map .file ++ fileOf fd, ?_,
      fun d => ?_⟩
    · simp only []
      rw [run_bind (run_closeOpenSession ..), Fds.add_add, List.append_nil]
      rfl
    · simp only [hmasks, and_false, if_false, List.count_append]
      omega
  | some optMemSize =>
    obtain ⟨⟨ret, fd', operation⟩, cs, hrun, hfd, hsame⟩ := run_openSession answers fd connMethod
      (if opFlag then some op else none) optMemSize optMem (s.add (ashmemOf optMem) [])
    have hmasks : (opFlag = true ∧ MasksParams answers connMethod (if opFlag then some op else none)
        optMemSize optMem) ↔ opFlag = true ∧ data.Masks answers connMethod op := by
      refine and_congr_right fun hflag => ?_
      simp [OpenData.Masks, hmapped, hflag]
    have hfds := ionShareFds_served hsame
    simp only [hmasks] at hfds
    refine ⟨optMem, cs ++ (ashmemOf optMem ++
      (ionShareFds (operation.getD op) paramIndices).map .file ++ fileOf fd'), ?_, fun d => ?_⟩
    · simp only []
      rw [run_bind hrun]
      simp only []
      rw [run_bind (run_closeOpenSession ..), Fds.add_add, Fds.add_add, List.append_nil,
        List.append_nil, List.nil_append]
      rfl
    · rw [← hfd, hfds]
      simp only [List.count_append]
      omega

theorem closesReceived_invokeCommand (data : InvokeData) :
    ClosesReceived (invokeCommandRecvProc stack answers data) ↔
      Cleans stack answers (.invokeCommand data) := by
  rw [invokeCommandRecvProc, Cleans]
  by_cases htoken : data.interfaceToken
  case neg =>
    rw [if_neg htoken]
    exact iff_of_true (closesReceived_pure _) fun h => absurd h htoken
  rw [if_pos htoken]
  split
  case h_2 hmissing =>
    refine iff_of_true (closesReceived_pure _) fun _ hcontext hsession hcommand => ?_
    obtain ⟨context, hcontext⟩ := Option.isSome_iff_exists.mp hcontext
    obtain ⟨session, hsession⟩ := Option.isSome_iff_exists.mp hsession
    obtain ⟨command, hcommand⟩ := Option.isSome_iff_exists.mp hcommand
    exact absurd hcommand (hmissing context session command hcontext hsession)
  case h_1 hcontext hsession hcommand =>
    rw [hcontext, hsession, hcommand]
    simp only [htoken, Option.isSome_some, true_imp_iff, ClosesReceived]
    rcases run_getOperationFromData (s := ⟨[], []⟩) stack data.toOperationData with
      ⟨hflag, hrun⟩ | ⟨op, hflag, -, hrun⟩ | ⟨fds, hflag, -, hrun⟩
    · obtain ⟨optMem, hserve⟩ := run_serveInvokeCommand answers ⟨[], []⟩ data false stack
      rw [run_bind hrun, hserve, balanced_add, hflag, ← noDescriptors_iff]
      simp [List.count_append]
    · obtain ⟨optMem, hserve⟩ := run_serveInvokeCommand answers
        ((Fds.mk [] []).add ((ionShareFds op paramIndices).map .file) []) data true op
      rw [run_bind hrun, hserve, Fds.add_add, balanced_add, hflag]
      simp [List.count_append, Nat.add_comm]
    · rw [run_bind hrun]
      exact iff_of_true (balanced_add.mpr fun _ => rfl) fun h => absurd h hflag

theorem closesReceived_openSession (data : OpenData) :
    ClosesReceived (openSessionRecvProc stack answers data) ↔
      Cleans stack answers (.openSession data) := by
  rw [openSessionRecvProc, Cleans]
  by_cases htoken : data.interfaceToken
  case neg =>
    rw [if_neg htoken]
    exact iff_of_true (closesReceived_pure _) fun h => absurd h htoken
  rw [if_pos htoken]
  split
  case h_2 hmissing =>
    refine iff_of_true (closesReceived_pure _) fun _ hcontext hpath => ?_
    obtain ⟨context, hcontext⟩ := Option.isSome_iff_exists.mp hcontext
    obtain ⟨path, hpath⟩ := Option.isSome_iff_exists.mp hpath
    exact absurd hpath (hmissing context path hcontext)
  case h_1 hcontext hpath =>
    rw [hcontext, hpath]
    simp only [htoken, Option.isSome_some, true_imp_iff, ClosesReceived]
    rcases run_readOpenData (s := ⟨[], []⟩) data with
      ⟨fd, connMethod, hopens, hmethod, hread⟩ | ⟨fd, hopens, hread⟩
    case inr =>
      rw [run_bind hread]
      exact iff_of_true (balanced_add.mpr fun _ => rfl) fun h => absurd h hopens
    rw [run_bind hread, hmethod]
    simp only [hopens, true_imp_iff]
    rcases run_getOperationFromData (s := (Fds.mk [] []).add (fileOf fd) []) stack
      data.toOperationData with
      ⟨hflag, hrun⟩ | ⟨op, hflag, hdecoded, hrun⟩ | ⟨fds, hflag, hdecoded, hrun⟩
    · obtain ⟨optMem, ds, hserve, hcount⟩ := run_serveOpenSession answers
        ((Fds.mk [] []).add (fileOf fd) []) data fd connMethod false stack
      have hdecoded : data.decoded = none := by simp [OperationData.decoded, hflag]
      rw [run_bind hrun, hserve, Fds.add_add, balanced_add, hflag, hdecoded]
      simp only [List.nil_append, List.count_append, hcount, Bool.false_eq_true, false_and, if_false,
        reduceCtorEq, false_imp_iff, implies_true, and_true, true_imp_iff, ← noDescriptors_iff]
      refine forall_congr' fun d => ?_
      omega
    · obtain ⟨optMem, ds, hserve, hcount⟩ := run_serveOpenSession answers
        (((Fds.mk [] []).add (fileOf fd) []).add ((ionShareFds op paramIndices).map .file) [])
        data fd connMethod true op
      rw [run_bind hrun, hserve, Fds.add_add, Fds.add_add, balanced_add, hflag, hdecoded]
      have hclosed : (∀ d, ([] ++ ([] ++ ds)).count d =
          (fileOf fd ++ ((ionShareFds op paramIndices).map Descriptor.file ++
            ashmemOf optMem)).count d) ↔
          (data.Masks answers connMethod op →
            op.paramType 2 ≠ .ionInput ∧ op.paramType 3 ≠ .ionInput) := by
        simp only [List.nil_append, List.count_append, hcount]
        by_cases hmasks : data.Masks answers connMethod op
        · rw [if_pos ⟨rfl, hmasks⟩, ← count_maskIdentParams hdecoded]
          simp only [hmasks, true_imp_iff]
          refine forall_congr' fun d => ?_
          omega
        · rw [if_neg fun h => hmasks h.2]
          refine iff_of_true (fun d => ?_) fun h => absurd h hmasks
          omega
      rw [hclosed]
      simp
    · rw [run_bind hrun]
      simp only []
      rw [run_bind (run_closeFd fd), hdecoded]
      refine iff_of_true ?_ ⟨fun h => absurd h hflag, fun _ _ h => by cases h⟩
      change Fds.Balanced (((Fds.mk [] []).add _ _).add _ _ |>.add _ _)
      rw [Fds.add_add, Fds.add_add, balanced_add]
      intro d
      simp only [List.nil_append, List.append_nil, List.count_append]
      omega

/-- Every descriptor that came with the message is closed once and no other is, if and only if
`Cleans`. -/
theorem closesReceived_iff_cleans (stack : Operation Addr) (answers : Answers) (message : Message) :
    ClosesReceived (recvProc stack answers message) ↔ Cleans stack answers message := by
  cases message with
  | openSession data => exact closesReceived_openSession data
  | invokeCommand data => exact closesReceived_invokeCommand data
  | sendSecFile data => exact iff_of_true (closesReceived_sendSecFile data) trivial

def refuse : (a : Act Addr) → Resp a
  | .core .outcome | .core .writeParcel | .core .addTidData | .core (.closeDupFd _)
  | .core .contextCountLimitCheck | .core (.atomDecContext _) | .core (.readCallFromService _)
  | .core (.isValidContext _ _) | .core (.setContextToProcData _ _) | .core (.addClient _) => false
  | .core (.mallocContext _) | .core (.getBnContext _) | .core (.findAndRemoveBnContext _) => none
  | .core (.openTzdriver _) => none
  | .core (.readContextFd _) => -1
  | .core (.ioctl _) => Api.noReply
  | .core (.takeProcData _) => none
  | .core (.lockClients _) => (0 : Nat)
  | .core .lockReadContextList | .core .unlockReadContextList | .core (.closeFd _)
  | .core (.setContext _ _) | .core (.insertContext _) | .core (.setCallFromService _)
  | .core (.freeContext _) | .core (.closeContext _) | .core (.freeFinalized _)
  | .core .lockProcData | .core .unlockProcData | .core (.releaseProcData _ _)
  | .core (.eraseClient _) | .core .unlockClients => ()
  | .obj (.atomDecSession _ _) | .obj (.atomDecShm _ _) | .obj (.checkSharedBufferExist _ _) => false
  | .obj (.mallocSession _) | .obj (.getBnSession _ _) | .obj (.findAndRemoveSession _ _)
  | .obj (.getAndSetBit _) | .obj (.findAndRemoveShrMem _ _ _) => none
  | .obj (.mallocShm _) => (0 : Nat)
  | .obj (.takeSessions _) | .obj (.takeShms _) => []
  | .obj (.mapBuffer _) => none
  | .obj (.getBnShmByOffset _ _) | .obj (.readShm _ _) => none
  | .obj (.readSession _ _) =>
    { sessionId := 0, opsCnt := 0, home := 0, frees := 0, wasListed := false : Vendor.Session }
  | .obj (.initLists _) | .obj (.freeSession _ _) | .obj (.addSessionList _ _ _)
  | .obj (.releaseSession _ _) | .obj (.clearSession _ _) | .obj (.clearBit _ _)
  | .obj (.freeShm _ _) | .obj (.insertShm _ _ _ _ _) | .obj (.unlinkShm _ _)
  | .obj (.releaseShm _ _) => ()

def known : Answers where
  callGetBnContext := some (0, 0)
  callGetBnSession := none
  fdopen := true
  getBnShmByOffset _ := none
  memory _ := DecodePara.zeroed.shm 0
  addTidData := true
  inner _ := refuse
  writeReply := true
  writeError := true

def ionWire : RawOperation where
  started := 1
  paramTypes := 0x800
  params _ := ⟨7, 0, 0⟩
  cancelFlag := false

def ionMessage : OpenData where
  interfaceToken := true
  context := some 3
  taPath := some none
  fdFlag := some false
  fd := -1
  uuid := some 0
  connMethod := some 7
  opFlag := some true
  operation := some ionWire
  ionFds _ := 7
  optMemSize := some 0
  optMem := none

def emptyMessage : InvokeData where
  interfaceToken := true
  context := some 3
  session := some 0
  commandID := some 0
  opFlag := some false
  operation := none
  ionFds _ := -1
  optMemSize := some 0
  optMem := none

/-- The descriptor of an `OpenSession` is not closed, and an `InvokeCommand` without an operation
closes the descriptor 7 that it finds on the stack. -/
theorem closesReceived_fails :
    ¬ ClosesReceived (recvProc (ionWire.view .raw) known (.openSession ionMessage)) ∧
    ¬ ClosesReceived (recvProc (ionWire.view .raw) known (.invokeCommand emptyMessage)) := by
  constructor
  · intro h
    have hcount := h (.file 7)
    revert hcount
    decide
  · intro h
    have hcount := h (.file 7)
    revert hcount
    decide

end RecvProc

end TeeClient.Daemon.Stub
