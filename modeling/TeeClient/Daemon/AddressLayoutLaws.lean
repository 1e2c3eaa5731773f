import Mathlib.Tactic
import TeeClient.Daemon.OwnMemory
import TeeClient.Daemon.DescriptorsLaws
import TeeClient.Daemon.AddressLayout

/-! No address of the daemon in a reply.  Two layouts are compared: for the messages of
`Conceals` the daemon does the same under both, and the operations that it writes back have no
address of its memory left in them. -/

namespace TeeClient.Daemon.Service

open Vendor Vendor.Api Stub ByteMemory
open Resumption

/-- `GetTeecOptMem` puts an address of the daemon into a slot of this type and size. -/
def takesAddress (paramType : ParamType) (size : U32) : Bool :=
  paramType.isTempMem && size ≠ 0 || paramType.isPartialMem

/-- A message of whose reply nothing depends on the layout.  An operation that is not there must
not look like one with descriptors, no parent is to be read from the memory at a number, and
`OpenSession` gives the last two slots another type after it has put addresses into them. -/
def Conceals (L : Layout) : IpcMessage → Prop
  | .openSession data =>
    (data.opFlag = some false → NoDescriptors L.stack) ∧
    ∀ wire, data.opFlag = some true → data.operation = some wire →
      (∀ i, i.val < 2 → wire.paramType i ≠ .memrefSharedInout) ∧
      (data.optMemSize ≠ some 0 → ∀ i, 2 ≤ i.val →
        takesAddress (wire.paramType i) (wire.params i).size = false)
  | .invokeCommand data =>
    (data.opFlag = some false → NoDescriptors L.stack) ∧
    ∀ wire, data.opFlag = some true → data.operation = some wire →
      ∀ i, wire.paramType i ≠ .memrefSharedInout
  | .registerMem _ _ sharedMem | .releaseMem _ _ sharedMem _ =>
    ∀ shm, sharedMem = some shm → L.named shm.buffer = .raw shm.buffer
  | _ => True

section Decoding

/-- Decoding leaves the types and sizes, and puts addresses into slots that take one. -/
structure Placed (op op' : Operation Addr) : Prop where
  paramTypes : op'.paramTypes = op.paramTypes
  size : ∀ i, (op'.params i).size = (op.params i).size
  ptr : ∀ i, (op'.params i).ptr = (op.params i).ptr ∨
    (takesAddress (op.paramType i) (op.params i).size = true ∧
      ∃ r k, (op'.params i).ptr = .within r k)

variable {op op' op'' : Operation Addr} {i : Fin 4}

theorem Placed.paramType (h : Placed op op') (i : Fin 4) : op'.paramType i = op.paramType i := by
  rw [Operation.paramType, h.paramTypes, Operation.paramType]

theorem Placed.refl (op : Operation Addr) : Placed op op := ⟨rfl, fun _ => rfl, fun _ => .inl rfl⟩

theorem Placed.trans (h : Placed op op') (h' : Placed op' op'') : Placed op op'' := by
  refine ⟨h'.paramTypes.trans h.paramTypes, fun i => (h'.size i).trans (h.size i), fun i => ?_⟩
  rcases h'.ptr i with hptr | ⟨htakes, hwithin⟩
  · rw [hptr]
    exact h.ptr i
  · rw [h.paramType, h.size] at htakes
    exact .inr ⟨htakes, hwithin⟩

theorem placed_setParam {p : Parameter Addr} {r : Region} {k : Nat}
    (hsize : p.size = (op.params i).size) (hptr : p.ptr = .within r k)
    (htakes : takesAddress (op.paramType i) (op.params i).size = true) :
    Placed op (op.setParam i p) := by
  refine ⟨rfl, fun j => ?_, fun j => ?_⟩
  · by_cases hji : j = i
    · rw [hji, Operation.params_setParam_self, hsize]
    · rw [Operation.params_setParam_of_ne _ hji]
  · by_cases hji : j = i
    · rw [hji, Operation.params_setParam_self]
      exact .inr ⟨htakes, r, k, hptr⟩
    · rw [Operation.params_setParam_of_ne _ hji]
      exact .inl rfl

variable {look : U32 → Program Addr (Option SharedMemoryInner)} {data : Mem} {totalSize : U32}

theorem gives_teecOptDecodePartialMem {st : DecodeState}
    (hpart : (st.operation.paramType i).isPartialMem = true) :
    Prog.Gives (fun x => Placed st.operation x.2.operation)
      (teecOptDecodePartialMem look data totalSize i st) := by
  have hadvance (p : Parameter Addr) (para : DecodePara) (shmInfoOffset memSize refSize : U32)
      (hp : p.size = (st.operation.params i).size) :
      Placed st.operation (st.advance i p para shmInfoOffset memSize refSize).operation :=
    placed_setParam (p := { p with ptr := .within (.parent i) 0 }) hp rfl
      (by simp [takesAddress, hpart])
  refine .ite (fun _ => .pure (.refl _)) fun _ => .ite (fun _ => .pure (.refl _)) fun _ => ?_
  refine .ite (fun _ => ?_) fun _ => .pure (hadvance _ _ _ _ _ rfl)
  refine .bind .any fun found _ => ?_
  cases found with
  | none => exact .pure (.refl _)
  | some b => exact .ite (fun _ => .pure (.refl _)) fun _ => .pure (hadvance _ _ _ _ _ rfl)

theorem gives_decodeParam (st : DecodeState) :
    Prog.Gives (fun x => Placed st.operation x.2.operation)
      (decodeParam look data totalSize i st) := by
  refine .ite (fun htemp => .pure ?_) fun _ => .ite gives_teecOptDecodePartialMem fun _ =>
    .pure (.refl _)
  rw [teecOptDecodeTempMem]
  split_ifs with hfits hsize
  · exact .refl _
  · exact .refl _
  · exact placed_setParam rfl rfl (by simpa [takesAddress, htemp] using .inl hsize)

theorem gives_decodeParams (is : List (Fin 4)) (st : DecodeState) :
    Prog.Gives (fun x => Placed st.operation x.2.operation)
      (decodeParams look data totalSize is st) := by
  induction is generalizing st with
  | nil => exact .pure (.refl _)
  | cons i is ih =>
    refine .bind (gives_decodeParam st) fun x hx => ?_
    obtain ⟨ret, st'⟩ := x
    cases ret
    case success => exact (ih st').mono fun _ hy => hx.trans hy
    all_goals exact .pure hx

theorem gives_getTeecOptMem (op : Operation Addr) (optMemSize : U32) (optMem : Option Mem) :
    Prog.Gives (fun x => (optMemSize = 0 → x.2.operation = op) ∧ Placed op x.2.operation)
      (getTeecOptMem look op optMemSize optMem) := by
  refine .ite (fun _ => .pure ⟨fun _ => rfl, .refl _⟩) fun hsize => ?_
  cases optMem with
  | none => exact .pure ⟨fun h => absurd h hsize, .refl _⟩
  | some data =>
    exact (gives_decodeParams paramIndices _).mono fun _ hx => ⟨fun h => absurd h hsize, hx⟩

theorem gives_decode {c : Nat} (op : Operation Addr) (optMemSize : U32) (optMem : Option Ashmem) :
    Prog.Gives (fun x => ∃ op', x.2.1 = some op' ∧ (optMemSize = 0 → op' = op) ∧ Placed op op')
      (decode c (some op) optMemSize optMem) :=
  .bind (gives_getTeecOptMem op optMemSize _) fun _ hx => .pure ⟨_, rfl, hx⟩

end Decoding

section Inner

/-- Both memories show the parents of the registered references alike, and no other parent is
read. -/
def SeenAlike (shm shm' : Addr → SharedMemory Addr) (op : Operation Addr) : Prop :=
  ∀ i, (op.paramType i).isSharedMem = false ∧ ((op.paramType i).isPartialMem = true →
    (op.params i).ptr = 0 ∨ shm (op.params i).ptr = shm' (op.params i).ptr)

variable {shm shm' : Addr → SharedMemory Addr} {op : Operation Addr}
variable {exist : Addr → Program Addr Bool} {i : Fin 4}

theorem teecCheckParam_eq (h : SeenAlike shm shm' op) :
    teecCheckParam shm exist op i = teecCheckParam shm' exist op i := by
  rw [teecCheckParam, teecCheckParam]
  split_ifs with htemp hpart hvalue
  · rfl
  · rcases (h i).2 hpart with hnull | halike
    · rw [teecCheckMemRef, teecCheckMemRef, if_pos (.inl hnull), if_pos (.inl hnull)]
    · rw [teecCheckMemRef, teecCheckMemRef, halike]
  all_goals rfl

theorem teecCheckOperation_eq (h : SeenAlike shm shm' op) :
    teecCheckOperation shm exist (some op) = teecCheckOperation shm' exist (some op) := by
  have hcheck : teecCheckParam shm exist op = teecCheckParam shm' exist op :=
    funext fun _ => teecCheckParam_eq h
  rw [teecCheckOperation, teecCheckOperation, hcheck]

theorem gives_teecCheckParam (hpart : (op.paramType i).isPartialMem = true) :
    Prog.Gives (fun ret => ret = .success → (op.params i).ptr ≠ 0)
      (teecCheckParam shm exist op i) := by
  have hbad : Prog.Gives (fun ret => ret = .success → (op.params i).ptr ≠ 0)
      (pure .errorBadParameters : Program Addr TeecResult) := .pure nofun
  refine .ite (fun htemp => ?_) fun _ => .ite (fun _ => ?_) fun hno => absurd hpart hno
  · rw [ParamType.isTempMem_of_isPartialMem hpart] at htemp
    cases htemp
  · refine .ite (fun _ => hbad) fun hnull => Prog.Gives.any.mono fun _ _ _ => ?_
    exact fun hptr => hnull (.inl hptr)

theorem gives_firstFailure (is : List (Fin 4)) :
    Prog.Gives (fun ret => ret = .success →
        ∀ i ∈ is, (op.paramType i).isPartialMem = true → (op.params i).ptr ≠ 0)
      (firstFailure (teecCheckParam shm exist op) is) := by
  induction is with
  | nil => exact .pure fun _ _ hi => absurd hi List.not_mem_nil
  | cons i is ih =>
    have hslot : Prog.Gives (fun ret => ret = .success → (op.paramType i).isPartialMem = true →
        (op.params i).ptr ≠ 0) (teecCheckParam shm exist op i) := by
      by_cases hpart : (op.paramType i).isPartialMem = true
      · exact (gives_teecCheckParam hpart).mono fun _ hret hok _ => hret hok
      · exact Prog.Gives.any.mono fun _ _ _ hyes => absurd hyes hpart
    refine .bind hslot fun ret hret => ?_
    cases ret
    case success => exact ih.mono fun _ hrest hok => List.forall_mem_cons.mpr ⟨hret rfl, hrest hok⟩
    all_goals exact .pure nofun

theorem gives_teecCheckOperation :
    Prog.Gives (fun ret => ret = .success →
        ∀ i, (op.paramType i).isPartialMem = true → (op.params i).ptr ≠ 0)
      (teecCheckOperation shm exist (some op)) := by
  refine .ite (fun _ => .pure nofun) fun _ => ?_
  exact (gives_firstFailure paramIndices).mono fun _ h hok i => h hok i (mem_paramIndices i)

theorem teecEncode_eq (h : SeenAlike shm shm' op)
    (hptr : ∀ i, (op.paramType i).isPartialMem = true → (op.params i).ptr ≠ 0) :
    teecEncode shm op = teecEncode shm' op := by
  have hslot i : (teecEncodeSlot shm op i).2.1 = (teecEncodeSlot shm' op i).2.1 := by
    rw [teecEncodeSlot, teecEncodeSlot, (h i).1, Bool.or_false]
    split_ifs with htemp hpart
    · rfl
    · have halike := ((h i).2 hpart).resolve_left (hptr i hpart)
      rw [teecEncodePartialParam, teecEncodePartialParam, halike]
    all_goals rfl
  rw [teecEncode, teecEncode, teecEncodeParam, teecEncodeParam, funext hslot]

variable {c session : Nat}

theorem teecOpenSessionInner_eq {connectionMethod : U32}
    (h : SeenAlike shm shm' op.maskIdentParams) :
    teecOpenSessionInner shm c session connectionMethod false (some op) =
      teecOpenSessionInner shm' c session connectionMethod false (some op) := by
  rw [teecOpenSessionInner, teecOpenSessionInner]
  refine ite_congr rfl (fun _ => rfl) fun _ => ?_
  simp only [Option.map_some, ← teecCheckOperation_eq h]
  refine Prog.bind_congr (gives_teecCheckOperation.mono fun ret hret => ?_)
  by_cases hok : ret = .success
  · simp only [if_pos hok, teecEncode_eq h (hret hok)]
  · simp only [if_neg hok]

theorem teecInvokeCommandInner_eq (h : SeenAlike shm shm' op) :
    teecInvokeCommandInner shm c session (some op) =
      teecInvokeCommandInner shm' c session (some op) := by
  rw [teecInvokeCommandInner, teecInvokeCommandInner]
  simp only [Option.map_some, ← teecCheckOperation_eq h]
  refine Prog.bind_congr (gives_teecCheckOperation.mono fun ret hret => ?_)
  by_cases hok : ret = .success
  · simp only [if_pos hok, teecEncode_eq h (hret hok)]
  · simp only [if_neg hok]

end Inner

section Requests

/-- What the stub has read: numbers, and null where a parent is to come. -/
structure FromStub (op : Operation Addr) : Prop where
  raw : ∀ i, (op.params i).ptr.IsRaw
  null : ∀ i, (op.paramType i).isPartialMem = true → (op.params i).ptr = 0

theorem fromStub_decoded {data : OperationData} {op : Operation Addr}
    (h : data.decoded = some op) :
    ∃ wire, data.opFlag = some true ∧ data.operation = some wire ∧ FromStub op ∧
      ∀ i, op.paramType i = wire.paramType i ∧ (op.params i).size = (wire.params i).size := by
  rw [OperationData.decoded] at h
  split at h
  case h_2 => cases h
  case h_1 wire hflag hwire =>
    obtain ⟨-, rfl⟩ := getOperationFromData_eq_some.mp h
    refine ⟨wire, hflag, hwire, ⟨fun i => ?_, fun i hpart => ?_⟩, fun i => ⟨rfl, ?_⟩⟩
    · simp only [clearedParam]
      split_ifs
      · exact ⟨0, rfl⟩
      · exact ⟨_, rfl⟩
      · exact ⟨_, rfl⟩
    · have hmem : ((wire.paramType i).isTempMem || (wire.paramType i).isPartialMem) = true := by
        rw [Bool.or_eq_true]
        exact .inr hpart
      exact ptr_clearedParam _ hmem
    · exact size_clearedParam

variable {op op' : Operation Addr} {memory memory' : BitVec 64 → SharedMemory Addr}
variable {para : DecodePara} {identity : CallerIdentity}

theorem seenAlike_parentAt (hshared : ∀ i, op.paramType i ≠ .memrefSharedInout)
    (hparent : ∀ i, (op.paramType i).isPartialMem = true →
      (op.params i).ptr = 0 ∨ ∃ r k, (op.params i).ptr = .within r k) :
    SeenAlike (parentAt memory para) (parentAt memory' para) op := by
  refine fun i => ⟨?_, fun hpart => ?_⟩
  · rw [← Bool.not_eq_true, ParamType.isSharedMem_iff]
    exact hshared i
  · rcases hparent i hpart with hnull | ⟨r, k, hwithin⟩
    · exact .inl hnull
    · rw [hwithin]
      cases r <;> exact .inr rfl

theorem Placed.parent (h : Placed op op') (hstub : FromStub op) (i : Fin 4)
    (hpart : (op'.paramType i).isPartialMem = true) :
    (op'.params i).ptr = 0 ∨ ∃ r k, (op'.params i).ptr = .within r k := by
  rw [h.paramType] at hpart
  rcases h.ptr i with hptr | ⟨-, hwithin⟩
  · exact .inl (hptr.trans (hstub.null i hpart))
  · exact .inr hwithin

theorem Placed.seenAlike (h : Placed op op') (hstub : FromStub op)
    (hshared : ∀ i, op.paramType i ≠ .memrefSharedInout) :
    SeenAlike (parentAt memory para) (parentAt memory' para) op' :=
  seenAlike_parentAt (fun i => by rw [h.paramType]; exact hshared i) (h.parent hstub)

theorem Placed.seenAlike_mask (h : Placed op op') (hstub : FromStub op)
    (hshared : ∀ i, i.val < 2 → op.paramType i ≠ .memrefSharedInout) :
    SeenAlike (parentAt memory para) (parentAt memory' para) op'.maskIdentParams := by
  refine seenAlike_parentAt (fun i => ?_) fun i hpart => ?_
  · rw [Operation.paramType_maskIdentParams]
    split_ifs with hi
    · rw [h.paramType]
      exact hshared i hi
    · exact nofun
  · rw [Operation.paramType_maskIdentParams] at hpart
    split_ifs at hpart with hi
    · exact h.parent hstub i hpart
    · cases hpart

variable (memory memory') in
theorem openSession_eq {fd : Int} {destination : BitVec 128} {connectionMethod optMemSize : U32}
    {operation : Option (Operation Addr)} {optMem : Option Ashmem}
    (h : ∀ op, operation = some op →
      FromStub op ∧ ∀ i, i.val < 2 → op.paramType i ≠ .memrefSharedInout) :
    openSession memory identity fd destination connectionMethod operation optMemSize optMem =
      openSession memory' identity fd destination connectionMethod operation optMemSize optMem := by
  simp only [openSession, Prog.bind_eq]
  refine Prog.bind_congr fun x _ => ?_
  rcases x with ret | ⟨c, session⟩
  · rfl
  cases operation with
  | none => rfl
  | some op =>
    obtain ⟨hstub, hshared⟩ := h op rfl
    refine Prog.bind_congr ((gives_decode op optMemSize optMem).mono fun x hx => ?_)
    obtain ⟨ret, operation', para⟩ := x
    obtain ⟨op', rfl, -, hplaced⟩ := hx
    have hinner : teecOpenSessionInner (parentAt memory para) c session connectionMethod false
          (some op') =
        teecOpenSessionInner (parentAt memory' para) c session connectionMethod false (some op') :=
      teecOpenSessionInner_eq (hplaced.seenAlike_mask hstub hshared)
    simp only [hinner]

variable (memory memory') in
theorem invokeCommand_eq {fd : Int} {sessionId optMemSize : U32}
    {operation : Option (Operation Addr)} {optMem : Option Ashmem}
    (h : ∀ op, operation = some op →
      FromStub op ∧ ∀ i, op.paramType i ≠ .memrefSharedInout) :
    invokeCommand memory identity fd sessionId operation optMemSize optMem =
      invokeCommand memory' identity fd sessionId operation optMemSize optMem := by
  simp only [invokeCommand, Prog.bind_eq]
  refine Prog.bind_congr fun x _ => ?_
  rcases x with ret | ⟨c, session⟩
  · rfl
  cases operation with
  | none => rfl
  | some op =>
    obtain ⟨hstub, hshared⟩ := h op rfl
    refine Prog.bind_congr ((gives_decode op optMemSize optMem).mono fun x hx => ?_)
    obtain ⟨ret, operation', para⟩ := x
    obtain ⟨op', rfl, -, hplaced⟩ := hx
    have hinner : teecInvokeCommandInner (parentAt memory para) c session (some op') =
        teecInvokeCommandInner (parentAt memory' para) c session (some op') :=
      teecInvokeCommandInner_eq (hplaced.seenAlike hstub hshared)
    simp only [hinner]

theorem closeDupIonFd_eq {stack stack' : Operation Addr} {opFlag : Option Bool}
    (h : opFlag = some false → NoDescriptors stack)
    (h' : opFlag = some false → NoDescriptors stack') :
    closeDupIonFd stack opFlag = closeDupIonFd stack' opFlag := by
  rw [closeDupIonFd, closeDupIonFd]
  refine ite_congr rfl (fun hflag => ?_) fun _ => rfl
  rw [h hflag, h' hflag]

theorem passedOperation_eq_some {data : OperationData} {operation : Option (Operation Addr)}
    (h : passedOperation data = some operation) (op : Operation Addr) (hop : operation = some op) :
    data.decoded = some op := by
  rw [passedOperation] at h
  split at h
  · cases h
  · obtain rfl := Option.some.inj h
    cases hop
  · obtain ⟨op', hdecoded, rfl⟩ := Option.map_eq_some_iff.mp h
    obtain rfl := Option.some.inj hop
    exact hdecoded

variable {L L' : Layout} {teeVersion : U32}

theorem openSessionRecvProc_eq {data : OpenData} (h : Conceals L (.openSession data))
    (h' : Conceals L' (.openSession data)) :
    openSessionRecvProc L.stack L.memory identity data =
      openSessionRecvProc L'.stack L'.memory identity data := by
  rw [openSessionRecvProc, openSessionRecvProc]
  refine ite_congr rfl (fun _ => ?_) fun _ => rfl
  split
  case h_2 => rfl
  refine ite_congr rfl (fun _ => ?_) fun _ => rfl
  rw [closeDupIonFd_eq h.1 h'.1]
  cases hpassed : passedOperation data.toOperationData with
  | none => rfl
  | some operation =>
    cases data.mapped with
    | none => rfl
    | some mapped =>
      have hread : ∀ op, operation = some op →
          FromStub op ∧ ∀ i, i.val < 2 → op.paramType i ≠ .memrefSharedInout := by
        intro op hop
        obtain ⟨wire, hflag, hwire, hstub, hsame⟩ :=
          fromStub_decoded (passedOperation_eq_some hpassed op hop)
        exact ⟨hstub, fun i hi => (hsame i).1 ▸ (h.2 wire hflag hwire).1 i hi⟩
      simp only [openSession_eq L.memory L'.memory hread]

theorem invokeCommandRecvProc_eq {data : InvokeData} (h : Conceals L (.invokeCommand data))
    (h' : Conceals L' (.invokeCommand data)) :
    invokeCommandRecvProc L.stack L.memory identity data =
      invokeCommandRecvProc L'.stack L'.memory identity data := by
  rw [invokeCommandRecvProc, invokeCommandRecvProc]
  refine ite_congr rfl (fun _ => ?_) fun _ => rfl
  split
  case h_2 => rfl
  rw [closeDupIonFd_eq h.1 h'.1]
  cases hpassed : passedOperation data.toOperationData with
  | none => rfl
  | some operation =>
    cases data.mapped with
    | none => rfl
    | some mapped =>
      have hread : ∀ op, operation = some op →
          FromStub op ∧ ∀ i, op.paramType i ≠ .memrefSharedInout := by
        intro op hop
        obtain ⟨wire, hflag, hwire, hstub, hsame⟩ :=
          fromStub_decoded (passedOperation_eq_some hpassed op hop)
        exact ⟨hstub, fun i => (hsame i).1 ▸ h.2 wire hflag hwire i⟩
      simp only [invokeCommand_eq L.memory L'.memory hread]

theorem shmRecvProc_eq {interfaceToken : Bool} {context : Option CInt} {sharedMem : Option ShmData}
    {serve serve' : Int → ShmData → Program Addr (StubResult × Reply)}
    (h : ∀ fd shm, sharedMem = some shm → serve fd shm = serve' fd shm) :
    shmRecvProc interfaceToken context sharedMem serve =
      shmRecvProc interfaceToken context sharedMem serve' := by
  cases context with
  | none => rfl
  | some context =>
    cases sharedMem with
    | none => rfl
    | some shm => rw [shmRecvProc, shmRecvProc, h _ _ rfl]

/-- What the daemon does for such a message does not depend on the layout. -/
theorem onRemoteRequest_eq {message : IpcMessage} (h : Conceals L message)
    (h' : Conceals L' message) :
    onRemoteRequest L.stack L.memory L.named identity teeVersion message =
      onRemoteRequest L'.stack L'.memory L'.named identity teeVersion message := by
  cases message with
  | openSession data => exact openSessionRecvProc_eq h h'
  | invokeCommand data => exact invokeCommandRecvProc_eq h h'
  | registerMem interfaceToken context sharedMem =>
    rw [onRemoteRequest, onRemoteRequest]
    refine shmRecvProc_eq fun fd shm hshm => ?_
    simp only [registerSharedMemory, shmArgs, h shm hshm, h' shm hshm]
  | allocMem interfaceToken context sharedMem => rfl
  | releaseMem interfaceToken context sharedMem shmOffset =>
    rw [onRemoteRequest, onRemoteRequest]
    refine shmRecvProc_eq fun fd shm hshm => ?_
    cases shmOffset with
    | none => rfl
    | some shmOffset => simp only [releaseSharedMemory, shmArgs, h shm hshm, h' shm hshm]
  | _ => rfl

end Requests

section Replies

/-- No pointer of an operation in the item leads into the daemon's memory. -/
def ReplyItem.ShowsRaw : ReplyItem → Prop
  | .operation op => ∀ i, (op.params i).ptr.IsRaw
  | _ => True

def ShowsRaw (reply : Reply) : Prop := ∀ item ∈ reply, item.ShowsRaw

theorem showsRaw_nil : ShowsRaw [] := fun _ h => absurd h List.not_mem_nil

theorem ShowsRaw.append {reply rest : Reply} (h : ShowsRaw reply) (h' : ShowsRaw rest) :
    ShowsRaw (reply ++ rest) :=
  fun item hitem => (List.mem_append.mp hitem).elim (h item) (h' item)

theorem ShowsRaw.map_read {reply : Reply} (h : ShowsRaw reply) (L : Layout) :
    reply.map L.read = reply := by
  refine (List.map_congr_left fun item hitem => ?_).trans reply.map_id
  cases item with
  | operation op =>
    have hnumber i : L.number (op.params i) = op.params i := by
      obtain ⟨w, hw⟩ := h _ hitem i
      rw [Layout.number, hw]
    simp only [Layout.read, hnumber, id]
  | _ => rfl

/-- The pointers that `WriteOperation` does not clear are numbers. -/
def LeavesRaw (op : Operation Addr) : Prop :=
  ∀ i, ((op.paramType i).isTempMem || (op.paramType i).isPartialMem) = true ∨
    (op.params i).ptr.IsRaw

theorem LeavesRaw.retOperation {op : Operation Addr} (h : LeavesRaw op) (i : Fin 4) :
    ((retOperation op).params i).ptr.IsRaw := by
  simp only [Service.retOperation]
  split_ifs with hmem
  · exact ⟨0, rfl⟩
  · exact (h i).resolve_left hmem

abbrev Shows {α : Type} (p : Program Addr (α × Reply)) : Prop := Prog.Gives (fun x => ShowsRaw x.2) p

theorem gives_writeItems {items : List ReplyItem} (h : ∀ item ∈ items, item.ShowsRaw) :
    Shows (writeItems items) := by
  induction items with
  | nil => exact .pure showsRaw_nil
  | cons item items ih =>
    rw [List.forall_mem_cons] at h
    refine .act fun written => .ite (fun _ => ?_) fun _ => .pure showsRaw_nil
    refine .bind (ih h.2) fun x hx => .pure ?_
    exact List.forall_mem_cons.mpr ⟨h.1, hx⟩

theorem gives_writeOperation {operation : Option (Operation Addr)}
    (h : ∀ op, operation = some op → LeavesRaw op) :
    Shows (writeOperation operation) := by
  cases operation with
  | none => exact gives_writeItems (by simp [ReplyItem.ShowsRaw])
  | some op =>
    refine gives_writeItems ?_
    simpa [ReplyItem.ShowsRaw] using (h op rfl).retOperation

theorem gives_writeSession {c session : Nat} {serviceId : BitVec 128} :
    Shows (writeSession c session serviceId) := by
  refine .bind (gives_writeItems (by simp [ReplyItem.ShowsRaw])) fun x hx => ?_
  refine .ite (fun _ => ?_) fun _ => .pure hx
  refine .bind .any fun _ _ => ?_
  exact .bind (gives_writeItems (by simp [ReplyItem.ShowsRaw])) fun y hy => .pure (hx.append hy)

theorem gives_recOpenReply {returnOrigin : U32} {ret : TeecResult} {c session : Nat}
    {serviceId : BitVec 128} {operation : Option (Operation Addr)}
    (h : ∀ op, operation = some op → LeavesRaw op) :
    Shows (recOpenReply returnOrigin ret c session serviceId operation) := by
  refine .bind (gives_writeItems (by simp [ReplyItem.ShowsRaw])) fun x hx => ?_
  refine .ite (fun _ => ?_) fun _ => .pure hx
  refine .bind gives_writeSession fun y hy => .ite (fun _ => ?_) fun _ => .pure (hx.append hy)
  exact .bind (gives_writeOperation h) fun z hz => .pure ((hx.append hy).append hz)

theorem gives_openSessionError {returnOrigin : U32} {ret : TeecResult} {reply : Reply}
    (h : ShowsRaw reply) : Shows (openSessionError returnOrigin ret reply) :=
  .bind (gives_writeItems (by simp [ReplyItem.ShowsRaw])) fun _ hx => .pure (h.append hx)

theorem gives_invokeCommandEnd {returnOrigin : U32} {ret : TeecResult}
    {operation : Option (Operation Addr)} (h : ∀ op, operation = some op → LeavesRaw op) :
    Shows (invokeCommandEnd returnOrigin ret operation) := by
  refine .bind (gives_writeItems (by simp [ReplyItem.ShowsRaw])) fun x hx => ?_
  refine .ite (fun _ => ?_) fun _ => .pure hx
  exact .bind (gives_writeOperation h) fun y hy => .pure (hx.append hy)

theorem gives_shmError {ret : TeecResult} : Shows (shmError ret) :=
  .bind (gives_writeItems (by simp [ReplyItem.ShowsRaw])) fun _ hx => .pure hx

variable {op op' : Operation Addr}

theorem FromStub.leavesRaw (h : FromStub op) : LeavesRaw op := fun i => .inr (h.raw i)

theorem Placed.leavesRaw (h : Placed op op') (hstub : FromStub op) : LeavesRaw op' := by
  intro i
  rcases h.ptr i with hptr | ⟨htakes, -⟩
  · exact .inr (hptr ▸ hstub.raw i)
  · refine .inl ?_
    rw [h.paramType]
    rw [takesAddress, Bool.or_eq_true, Bool.and_eq_true] at htakes
    rw [Bool.or_eq_true]
    exact htakes.imp_left And.left

/-- The masking of `OpenSession` hides no address if the last two slots have none. -/
theorem Placed.leavesRaw_mask (h : Placed op op') (hstub : FromStub op)
    (hlast : ∀ i : Fin 4, 2 ≤ i.val → (op'.params i).ptr = (op.params i).ptr) :
    LeavesRaw op'.maskIdentParams := by
  intro i
  rw [Operation.paramType_maskIdentParams]
  split_ifs with hi
  · exact h.leavesRaw hstub i
  · refine .inr ?_
    have hptr := hlast i (not_lt.mp hi)
    exact hptr ▸ hstub.raw i

theorem LeavesRaw.teecEncode (h : LeavesRaw op) (shm : Addr → SharedMemory Addr) :
    LeavesRaw (teecEncode shm op) := by
  rw [Api.teecEncode]
  split_ifs
  · exact h
  · intro i
    have hptr : ((teecEncodeParam shm op).2.params i).ptr = (op.params i).ptr := by
      simp only [teecEncodeParam, teecEncodeSlot, teecEncodePartialParam]
      split_ifs <;> rfl
    rw [hptr]
    exact h i

theorem LeavesRaw.driverWrites (h : LeavesRaw op) (outputs : Fin 4 → SlotOutput) :
    LeavesRaw (driverWrites outputs op) := by
  intro i
  refine (h i).imp id fun hraw => ?_
  simp only [Daemon.driverWrites, driverWrite]
  split
  case h_1 | h_2 => exact ⟨_, rfl⟩
  all_goals exact hraw

theorem leavesRaw_afterInner {result : InnerResult Addr}
    (h : ∀ op, result.operation = some op → LeavesRaw op) (op : Operation Addr)
    (hop : afterInner result = some op) : LeavesRaw op := by
  rw [afterInner] at hop
  cases houtputs : result.outputs with
  | none =>
    rw [houtputs] at hop
    exact h op hop
  | some outputs =>
    rw [houtputs] at hop
    obtain ⟨op₀, hop₀, rfl⟩ := Option.map_eq_some_iff.mp hop
    exact (h op₀ hop₀).driverWrites outputs

variable {identity : CallerIdentity} {memory : BitVec 64 → SharedMemory Addr}
variable {pointer : BitVec 64 → Addr} {c fd : Nat}

theorem gives_openSession {fd : Int} {destination : BitVec 128} {connectionMethod optMemSize : U32}
    {operation : Option (Operation Addr)} {optMem : Option Ashmem}
    (h : ∀ op, operation = some op → FromStub op ∧ (optMemSize ≠ 0 → ∀ i : Fin 4, 2 ≤ i.val →
      takesAddress (op.paramType i) (op.params i).size = false)) :
    Shows (openSession memory identity fd destination connectionMethod operation optMemSize
      optMem) := by
  have herror (ret : TeecResult) (returnOrigin : U32) (c session : Nat) :
      Shows (Prog.bind (obj (.freeSession c session))
        fun _ => openSessionError returnOrigin ret []) :=
    .bind .any fun _ _ => gives_openSessionError showsRaw_nil
  simp only [openSession, Prog.bind_eq]
  refine .bind .any fun x _ => ?_
  rcases x with ret | ⟨c, session⟩
  · exact gives_openSessionError showsRaw_nil
  have hdecode : Prog.Gives (fun x => ∀ op', x.2.1 = some op' → LeavesRaw op' ∧
      LeavesRaw op'.maskIdentParams) (decode c operation optMemSize optMem) := by
    cases operation with
    | none => exact .pure nofun
    | some op =>
      obtain ⟨hstub, hlast⟩ := h op rfl
      refine (gives_decode op optMemSize optMem).mono fun x hx op' hop' => ?_
      obtain ⟨op'', hop'', hsame, hplaced⟩ := hx
      obtain rfl : op'' = op' := Option.some.inj (hop''.symm.trans hop')
      refine ⟨hplaced.leavesRaw hstub, hplaced.leavesRaw_mask hstub fun i hi => ?_⟩
      by_cases hsize : optMemSize = 0
      · rw [hsame hsize]
      · refine (hplaced.ptr i).resolve_right fun hplace => ?_
        rw [hlast hsize i hi] at hplace
        cases hplace.1
  refine .bind hdecode fun x hx => .ite (fun _ => ?_) fun _ => herror _ _ _ _
  refine .bind .any fun addTidData _ => .ite (fun _ => ?_) fun _ => herror _ _ _ _
  have hinner : Prog.Gives (fun result => ∀ op, InnerResult.operation result = some op →
      LeavesRaw op) (teecOpenSessionInner (parentAt memory x.2.2) c session connectionMethod false
        x.2.1) := by
    intro result hresult op hop
    obtain ⟨hother, hlogin⟩ := operation_teecOpenSessionInner hresult
    by_cases hmethod : connectionMethod = Api.teecLoginIdentify
    · rcases hlogin hmethod with heq | heq
      all_goals
        rw [heq] at hop
        obtain ⟨op', hop', rfl⟩ := Option.map_eq_some_iff.mp hop
      · exact (hx op' hop').2
      · exact (hx op' hop').2.teecEncode _
    · exact (hx op ((hother hmethod).symm.trans hop)).1
  refine .bind hinner fun result hresult => .bind .any fun _ _ => .bind .any fun _ _ => ?_
  refine .bind (gives_recOpenReply (leavesRaw_afterInner hresult)) fun y hy => ?_
  refine .ite (fun _ => .bind .any fun _ _ => .pure hy) fun _ => ?_
  exact .bind .any fun _ _ => gives_openSessionError hy

theorem gives_invokeCommand {fd : Int} {sessionId optMemSize : U32}
    {operation : Option (Operation Addr)} {optMem : Option Ashmem}
    (h : ∀ op, operation = some op → FromStub op) :
    Shows (invokeCommand memory identity fd sessionId operation optMemSize optMem) := by
  simp only [invokeCommand, Prog.bind_eq]
  refine .bind .any fun x _ => ?_
  rcases x with ret | ⟨c, session⟩
  · exact gives_invokeCommandEnd fun op hop => (h op hop).leavesRaw
  have hdecode : Prog.Gives (fun x => ∀ op', x.2.1 = some op' → LeavesRaw op')
      (decode c operation optMemSize optMem) := by
    cases operation with
    | none => exact .pure nofun
    | some op =>
      refine (gives_decode op optMemSize optMem).mono fun x hx op' hop' => ?_
      obtain ⟨op'', hop'', -, hplaced⟩ := hx
      obtain rfl : op'' = op' := Option.some.inj (hop''.symm.trans hop')
      exact hplaced.leavesRaw (h op rfl)
  have hend (x : TeecResult × Option (Operation Addr) × DecodePara)
      (hx : ∀ op', x.2.1 = some op' → LeavesRaw op') :
      Shows (Prog.bind (putBnSession c session) fun _ =>
        Prog.bind (putBnContextAndReleaseFd identity.pid (some c)) fun _ =>
          invokeCommandEnd originApi x.1 x.2.1) :=
    .bind .any fun _ _ => .bind .any fun _ _ => gives_invokeCommandEnd hx
  refine .bind hdecode fun x hx => .ite (fun _ => ?_) fun _ => hend x hx
  refine .bind .any fun addTidData _ => .ite (fun _ => ?_) fun _ => hend x hx
  have hinner : Prog.Gives (fun result => ∀ op, InnerResult.operation result = some op →
      LeavesRaw op) (teecInvokeCommandInner (parentAt memory x.2.2) c session x.2.1) := by
    intro result hresult op hop
    rcases operation_teecInvokeCommandInner hresult with heq | heq
    · exact hx op (heq.symm.trans hop)
    · rw [heq] at hop
      obtain ⟨op', hop', rfl⟩ := Option.map_eq_some_iff.mp hop
      exact (hx op' hop').teecEncode _
  refine .bind hinner fun result hresult => .bind .any fun _ _ => .bind .any fun _ _ => ?_
  exact .bind .any fun _ _ => gives_invokeCommandEnd (leavesRaw_afterInner hresult)

theorem gives_initializeContext : Shows (initializeContext identity) := by
  have hrecord (c : Nat) : Shows (recordContext identity c) := by
    refine .bind .any fun _ _ => .bind .any fun recorded _ => ?_
    have hrelease (reply : Reply) (hreply : ShowsRaw reply) :
        Shows ((releaseContext identity.pid c).bind fun _ => .pure (TeecResult.fail, reply)) :=
      .bind .any fun _ _ => .pure hreply
    refine .ite (fun _ => ?_) fun _ => hrelease _ showsRaw_nil
    refine .bind (gives_writeItems (by simp [ReplyItem.ShowsRaw])) fun x hx => ?_
    refine .ite (fun _ => .bind .any fun fd _ => ?_) fun _ => hrelease _ hx
    refine .bind (gives_writeItems (by simp [ReplyItem.ShowsRaw])) fun y hy => ?_
    refine .ite (fun _ => .bind .any fun _ _ => .pure (hx.append hy)) fun _ => ?_
    exact hrelease _ (hx.append hy)
  refine .bind .any fun contextInner _ => .bind .any fun caInfo _ => ?_
  cases contextInner with
  | none => exact .pure showsRaw_nil
  | some c =>
    have hauth (authInfo : Bool) : Shows
        (if authInfo = true then (teecInitializeContextInner false c).bind fun ret =>
            if ret = .success then recordContext identity c
            else Prog.bind (core (.freeContext c)) fun _ => .pure (ret, [])
          else Prog.bind (core (.freeContext c)) fun _ => .pure (TeecResult.fail, [])) := by
      refine .ite (fun _ => .bind .any fun ret _ => ?_) fun _ => .bind .any fun _ _ => ?_
      · exact .ite (fun _ => hrecord c) fun _ => .bind .any fun _ _ => .pure showsRaw_nil
      · exact .pure showsRaw_nil
    exact .ite (fun _ => .bind .any fun authInfo _ => hauth authInfo) fun _ => hauth false

theorem gives_registerSharedMemory {fd : Int} {sharedMem : ShmData} :
    Shows (registerSharedMemory pointer identity fd sharedMem) := by
  refine .bind .any fun valid _ => .ite (fun _ => .bind .any fun outContext _ => ?_) fun _ =>
    gives_shmError
  cases outContext with
  | none => exact gives_shmError
  | some c =>
    refine .bind .any fun mallocInner _ => .ite (fun _ => ?_) fun _ => gives_shmError
    refine .bind .any fun outShm _ => .bind .any fun ret _ => .ite (fun _ => ?_) fun _ => ?_
    · refine .bind .any fun _ _ => .bind .any fun _ _ => .bind .any fun shm _ => ?_
      refine .bind (gives_writeItems (by simp [shmItem, ReplyItem.ShowsRaw])) fun x hx => ?_
      refine .ite (fun _ => .bind .any fun shm _ => ?_) fun _ => .pure hx
      exact .bind (gives_writeItems (by simp [ReplyItem.ShowsRaw])) fun y hy =>
        .pure (hx.append hy)
    · exact .bind .any fun _ _ => .bind .any fun _ _ => gives_shmError

theorem gives_allocateSharedMemory {fd : Int} {sharedMem : ShmData} :
    Shows (allocateSharedMemory pointer identity fd sharedMem) := by
  refine .bind .any fun valid _ => .ite (fun _ => .bind .any fun outContext _ => ?_) fun _ =>
    gives_shmError
  cases outContext with
  | none => exact gives_shmError
  | some c =>
    refine .bind .any fun mallocInner _ => .ite (fun _ => ?_) fun _ =>
      .bind .any fun _ _ => gives_shmError
    refine .bind .any fun outShm _ => .bind .any fun ret _ => .ite (fun _ => ?_) fun _ => ?_
    · refine .bind .any fun shm _ => .bind .any fun fd _ => ?_
      refine .bind (gives_writeItems (by simp [shmItem, ReplyItem.ShowsRaw])) fun x hx => ?_
      refine .bind .any fun _ _ => .bind .any fun _ _ => .ite (fun _ => .pure hx) fun _ => ?_
      exact .bind .any fun _ _ => .bind .any fun _ _ => .pure hx
    · exact .bind .any fun _ _ => .bind .any fun _ _ => gives_shmError

variable {L L' : Layout} {teeVersion : U32} {message : IpcMessage}

theorem gives_openSessionRecvProc {data : OpenData} (h : Conceals L (.openSession data)) :
    Shows (openSessionRecvProc L.stack L.memory identity data) := by
  have hmalformed (ret : StubResult) : Shows (pure (ret, []) : Program Addr (StubResult × Reply)) :=
    .pure showsRaw_nil
  refine .ite (fun _ => ?_) fun _ => hmalformed _
  split
  case h_2 => exact hmalformed _
  refine .ite (fun _ => ?_) fun _ => hmalformed _
  cases hpassed : passedOperation data.toOperationData with
  | none => exact hmalformed _
  | some operation =>
    cases hmapped : data.mapped with
    | none => exact .bind .any fun _ _ => hmalformed _
    | some mapped =>
      obtain ⟨optMemSize, optMem⟩ := mapped
      refine .bind (gives_openSession fun op hop => ?_) fun x hx => .bind .any fun _ _ => .pure hx
      obtain ⟨wire, hflag, hwire, hstub, hsame⟩ :=
        fromStub_decoded (passedOperation_eq_some hpassed op hop)
      refine ⟨hstub, fun hsize i hi => ?_⟩
      rw [(hsame i).1, (hsame i).2]
      refine (h.2 wire hflag hwire).2 (fun hzero => ?_) i hi
      rw [OperationData.mapped, hzero] at hmapped
      exact hsize (Prod.mk.inj (Option.some.inj hmapped)).1.symm

theorem gives_invokeCommandRecvProc {stack : Operation Addr} {data : InvokeData} :
    Shows (invokeCommandRecvProc stack memory identity data) := by
  have hmalformed (ret : StubResult) : Shows (pure (ret, []) : Program Addr (StubResult × Reply)) :=
    .pure showsRaw_nil
  refine .ite (fun _ => ?_) fun _ => hmalformed _
  split
  case h_2 => exact hmalformed _
  cases hpassed : passedOperation data.toOperationData with
  | none => exact hmalformed _
  | some operation =>
    cases data.mapped with
    | none => exact .bind .any fun _ _ => hmalformed _
    | some mapped =>
      refine .bind (gives_invokeCommand fun op hop => ?_) fun x hx =>
        .bind .any fun _ _ => .pure hx
      obtain ⟨wire, -, -, hstub, -⟩ := fromStub_decoded (passedOperation_eq_some hpassed op hop)
      exact hstub

theorem gives_shmRecvProc {interfaceToken : Bool} {context : Option CInt}
    {sharedMem : Option ShmData} {serve : Int → ShmData → Program Addr (StubResult × Reply)}
    (h : ∀ fd shm, Shows (serve fd shm)) :
    Shows (shmRecvProc interfaceToken context sharedMem serve) := by
  refine .ite (fun _ => ?_) fun _ => .pure showsRaw_nil
  split
  · exact h _ _
  · exact .pure showsRaw_nil

theorem gives_sendSecFileRecvProc {data : SecFileData} :
    Shows (sendSecFileRecvProc data) := by
  have hsend (path : Option String) (fd : Int) : Shows (sendSecfile path fd) := by
    cases path with
    | none => exact .pure showsRaw_nil
    | some path =>
      refine .bind .any fun ret _ => ?_
      exact .bind (gives_writeItems (by simp [ReplyItem.ShowsRaw])) fun x hx => .pure hx
  refine .ite (fun _ => ?_) fun _ => .pure showsRaw_nil
  cases data.path with
  | none => exact .pure showsRaw_nil
  | some path =>
    refine .ite (fun _ => ?_) fun _ => .pure showsRaw_nil
    split
    · refine .bind .any fun fdopen _ => .ite (fun _ => ?_) fun _ => .pure showsRaw_nil
      exact .bind (hsend path _) fun x hx => .pure hx
    · exact .pure showsRaw_nil

/-- No reply to such a message has an address of the daemon in it. -/
theorem gives_onRemoteRequest (h : Conceals L message) :
    Shows (onRemoteRequest L.stack L.memory L.named identity teeVersion message) := by
  cases message with
  | initContext interfaceToken name =>
    refine .ite (fun _ => ?_) fun _ => .pure showsRaw_nil
    cases name with
    | none => exact .pure showsRaw_nil
    | some name => exact .bind gives_initializeContext fun x hx => .pure hx
  | finalContext interfaceToken context =>
    refine .ite (fun _ => ?_) fun _ => .pure showsRaw_nil
    cases context with
    | none => exact .pure showsRaw_nil
    | some context => exact .bind .any fun _ _ => .pure showsRaw_nil
  | openSession data => exact gives_openSessionRecvProc h
  | closeSession interfaceToken context session =>
    refine .ite (fun _ => ?_) fun _ => .pure showsRaw_nil
    split
    · exact .bind .any fun _ _ => .pure showsRaw_nil
    · exact .pure showsRaw_nil
  | invokeCommand data => exact gives_invokeCommandRecvProc
  | registerMem interfaceToken context sharedMem =>
    rw [onRemoteRequest]
    exact gives_shmRecvProc fun fd shm => .bind gives_registerSharedMemory fun x hx => .pure hx
  | allocMem interfaceToken context sharedMem =>
    rw [onRemoteRequest]
    exact gives_shmRecvProc fun fd shm => .bind gives_allocateSharedMemory fun x hx => .pure hx
  | releaseMem interfaceToken context sharedMem shmOffset =>
    rw [onRemoteRequest]
    refine gives_shmRecvProc fun fd shm => ?_
    cases shmOffset with
    | none => exact .pure showsRaw_nil
    | some shmOffset => exact .bind .any fun _ _ => .pure showsRaw_nil
  | setCallBack interfaceToken notify =>
    refine .ite (fun _ => .ite (fun _ => ?_) fun _ => .pure showsRaw_nil) fun _ => .pure showsRaw_nil
    exact .bind .any fun _ _ => .pure showsRaw_nil
  | sendSecFile data => exact gives_sendSecFileRecvProc
  | getTeeVersion =>
    exact .bind (gives_writeItems (by simp [ReplyItem.ShowsRaw])) fun x hx => .pure hx

end Replies

section Runs

variable {identity : CallerIdentity} {teeVersion : U32}

/-- In two runs of messages that conceal both layouts the CA reads the same replies. -/
theorem replies_eq_of_conceals (layout layout' : Nat → Layout) (requests : List Received)
    (w : World Addr)
    (h : ∀ n x, requests[n]? = some x →
      Conceals (layout n) x.message ∧ Conceals (layout' n) x.message) :
    replies identity teeVersion layout requests w =
      replies identity teeVersion layout' requests w := by
  induction requests generalizing layout layout' w with
  | nil => rfl
  | cons x xs ih =>
    obtain ⟨hx, hx'⟩ := h 0 x rfl
    rw [replies, replies, onRemoteRequest_eq hx hx']
    refine Option.bind_congr fun y hy => ?_
    obtain ⟨⟨ret, reply⟩, w'⟩ := y
    have hraw : ShowsRaw reply := gives_onRemoteRequest hx' _ (yields_of_solo hy)
    simp only [hraw.map_read]
    rw [ih _ _ w' fun n y hy => h (n + 1) y hy]

/-- The daemon's memory from `base` on; no number that a CA sends is an address of it. -/
def layoutFrom (base : BitVec 64) : Layout where
  place
    | .payload => base
    | .block b => base + BitVec.ofNat 64 (0x10000 * (b + 1))
    | .parent i => base + BitVec.ofNat 64 (0x100 * (i.val + 1))
  named := .raw
  memory := noMemory
  stack := stackBytes 0 0
  value_named _ := rfl

def serving (message : IpcMessage) : Received where
  message
  envs := List.replicate 48 { answer true 3 with buffer := some ⟨.within (.block 0) 0, Addr.within_ne_zero _ _⟩ }

def memrefs (size : U32) (_ : Fin 4) : RawParameter := { word := 0x5000, size, offset := 0 }

/-- An operation with references of 16 bytes and the payload that comes with it. -/
def operationData (paramTypes optMemSize : U32) (data : Mem) : OperationData where
  opFlag := some true
  operation := some { started := 1, paramTypes, params := memrefs 16, cancelFlag := false }
  ionFds _ := -1
  optMemSize := some optMemSize
  optMem := some { maps := true, data := some data }

def openData (operation : OperationData) : OpenData where
  toOperationData := operation
  interfaceToken := true
  context := some 3
  taPath := some none
  fdFlag := some false
  fd := -1
  uuid := some 0x42
  connMethod := some Api.teecLoginIdentify

def invokeData (operation : OperationData) : InvokeData where
  toOperationData := operation
  interfaceToken := true
  context := some 3
  session := some 0
  commandID := some 1

def sharedMemory (isAllocated : Bool) : ShmData where
  buffer := 0x5000
  size := 16
  flags := memInout
  opsCnt := 0
  isAllocated

/-- The record of a block of 16 bytes at `k`. -/
def recordBytes (isAllocated : Bool) (k : Nat) : Mem := fun n =>
  if n = k then (if isAllocated then 1 else 0)
  else if n = k + 1 then 3
  else if n = k + 13 then 16
  else 0

/-- A block is registered and one allocated; `OpenSession` has a temporary and a registered
reference in the slots that it keeps, and `InvokeCommand` the allocated block. -/
def everyday : List Received :=
  [serving (.initContext true (some none)),
    serving (.registerMem true (some 3) (some (sharedMemory false))),
    serving (.allocMem true (some 3) (some (sharedMemory true))),
    serving (.openSession (openData (operationData
      (paramTypes ParamType.memrefTempInout.code ParamType.memrefPartialInput.code
        ParamType.valueInout.code 0) 49 (recordBytes false 16)))),
    serving (.invokeCommand (invokeData (operationData
      (paramTypes ParamType.memrefWhole.code 0 0 ParamType.memrefTempInput.code) 49
        (recordBytes true 0)))),
    serving (.closeSession true (some 3) (some 0)),
    serving (.releaseMem true (some 3) (some (sharedMemory false)) (some 0))]

theorem conceals_everyday (base : BitVec 64) :
    ∀ x ∈ everyday, Conceals (layoutFrom base) x.message := by
  have hsent {data : OperationData} {q : RawOperation → Prop} {wire : RawOperation}
      (hwire : data.operation = some wire) (hq : q wire) :
      ∀ op, data.opFlag = some true → data.operation = some op → q op := by
    rintro op - hop
    rwa [← Option.some.inj (hwire.symm.trans hop)]
  simp only [everyday, List.forall_mem_cons]
  refine ⟨trivial, fun _ _ => rfl, trivial, ⟨nofun, hsent rfl ⟨by decide, fun _ => by decide⟩⟩,
    ⟨nofun, hsent rfl (by decide)⟩, trivial, fun _ _ => rfl, by simp⟩

theorem replies_everyday :
    replies ⟨1, 1, 1⟩ 0 (fun _ => layoutFrom 0x70000000) everyday (init noObjects) =
      replies ⟨1, 1, 1⟩ 0 (fun _ => layoutFrom 0x7f000000) everyday (init noObjects) ∧
    (replies ⟨1, 1, 1⟩ 0 (fun _ => layoutFrom 0x70000000) everyday (init noObjects)).map
        (fun rs => rs.map fun x => (x.1, x.2.length)) =
      some [(.errNone, 2), (.errNone, 3), (.errNone, 4), (.service .success, 6),
        (.service .success, 4), (.errNone, 0), (.errNone, 0)] :=
  ⟨replies_eq_of_conceals _ _ everyday _ fun _ x hx =>
    ⟨conceals_everyday _ x (List.mem_of_getElem? hx), conceals_everyday _ x (List.mem_of_getElem? hx)⟩,
    rfl⟩

/-- A temporary reference in a slot of which `OpenSession` forgets the type. -/
def hiddenReference : List Received :=
  [serving (.initContext true (some none)),
    serving (.openSession (openData (operationData
      (paramTypes 0 0 ParamType.memrefTempInput.code 0) 16 fun _ => 0)))]

def pointers (replies : List (StubResult × Reply)) : List Addr :=
  replies.flatMap fun x => x.2.flatMap fun
    | .operation op => paramIndices.map fun i => (op.params i).ptr
    | _ => []

theorem not_replies_eq_hiddenReference :
    ¬ ∀ (identity : CallerIdentity) (teeVersion : U32) (layout layout' : Nat → Layout)
      (requests : List Received) (w : World Addr),
      replies identity teeVersion layout requests w =
        replies identity teeVersion layout' requests w := by
  intro hall
  have hsame := congrArg (Option.map pointers) (hall ⟨1, 1, 1⟩ 0 (fun _ => layoutFrom 0x70000000)
    (fun _ => layoutFrom 0x7f000000) hiddenReference (init noObjects))
  have hfirst : (replies ⟨1, 1, 1⟩ 0 (fun _ => layoutFrom 0x70000000) hiddenReference
      (init noObjects)).map pointers = some [.raw 0x5000, .raw 0x5000, .raw 0x70000000,
        .raw 0x5000] := by
    rfl
  have hsecond : (replies ⟨1, 1, 1⟩ 0 (fun _ => layoutFrom 0x7f000000) hiddenReference
      (init noObjects)).map pointers = some [.raw 0x5000, .raw 0x5000, .raw 0x7f000000,
        .raw 0x5000] := by
    rfl
  rw [hfirst, hsecond] at hsame
  exact absurd hsame (by decide)

end Runs

end TeeClient.Daemon.Service
