import Mathlib.Tactic
import TeeClient.Daemon.Service

/-! Most of a request is work on one context that leaves the contexts themselves, their list
and the process data alone. -/

namespace TeeClient.Daemon.Service

open Vendor Vendor.Api Stub
open Resumption

section Works

variable {P : Type}

def works (c : Nat) : Act P → Bool
  | .core .outcome | .core .writeParcel | .core (.ioctl _) => true
  | .core (.readContextFd d) | .core (.readCallFromService d) => d = c
  | .core _ => false
  | .obj a =>
    match a with
    | .initLists _ | .takeSessions _ | .takeShms _ => false
    | .mallocSession d | .freeSession d _ | .addSessionList d _ _ | .getBnSession d _
    | .findAndRemoveSession d _ | .atomDecSession d _ | .releaseSession d _ | .clearSession d _
    | .readSession d _ | .getAndSetBit d | .clearBit d _ | .mapBuffer d | .mallocShm d
    | .freeShm d _ | .insertShm d _ _ _ _ | .readShm d _ | .getBnShmByOffset d _
    | .checkSharedBufferExist d _ | .findAndRemoveShrMem d _ _ | .unlinkShm d _
    | .atomDecShm d _ | .releaseShm d _ => d = c

variable [Zero P]

def Works {α : Type} (c : Nat) (p : Program P α) : Prop := Prog.All (fun a => works c a = true) p

variable {α β : Type} {c : Nat}

theorem Works.pure {x : α} : Works c (Prog.pure x : Program P α) := trivial

theorem Works.act {a : Act P} {k : Resp a → Program P α} (ha : works c a = true)
    (hk : ∀ r, Works c (k r)) : Works c (.act a k) := ⟨ha, hk⟩

theorem Works.core {a : CoreAct} (ha : works (P := P) c (.core a) = true) :
    Works c (Api.core a : Program P _) := ⟨ha, fun _ => trivial⟩

theorem Works.obj {a : ObjAct P} (ha : works c (.obj a) = true) : Works c (Api.obj a) :=
  ⟨ha, fun _ => trivial⟩

theorem Works.bind {p : Program P α} {f : α → Program P β} (hp : Works c p)
    (hf : ∀ x, Works c (f x)) : Works c (p.bind f) := Prog.All.bind hp hf

theorem Works.ite {b : Prop} [Decidable b] {p q : Program P α} (hp : Works c p) (hq : Works c q) :
    Works c (if b then p else q) := Prog.All.ite hp hq

end Works

section Vendor

variable {P : Type} [Zero P] {c : Nat}

theorem works_putBnSession {session : Nat} : Works c (putBnSession c session : Program P Unit) := by
  refine .act (by simp [works]) fun zero => .ite ?_ .pure
  exact .act (by simp [works]) fun _ => .pure

theorem works_putBnShrMem {b : Nat} : Works c (putBnShrMem c b : Program P Unit) := by
  refine .act (by simp [works]) fun zero => .ite ?_ .pure
  exact .act (by simp [works]) fun _ => .pure

theorem works_teecCloseSessionInner {session : Nat} :
    Works c (teecCloseSessionInner session c : Program P TeecResult) := by
  refine .act (by simp [works]) fun _ => .act rfl fun _ => .ite ?_ .pure
  refine .act (by simp [works]) fun _ => .act rfl fun reply => .ite ?_ .pure
  exact .act (by simp [works]) fun _ => .pure

theorem works_openSessionIoctl {fd : Int} {n : Nat} {last : IoctlReply} :
    Works c (openSessionIoctl fd n last : Program P IoctlReply) := by
  induction n generalizing last with
  | zero => exact .pure
  | succ n ih => exact .act rfl fun reply => .ite ih .pure

theorem works_teecAllocateSharedMemoryInner [OfNat P 16] {shmInner : Nat} {shm : ShmArgs P} :
    Works c (teecAllocateSharedMemoryInner c shmInner shm) := by
  simp only [Api.teecAllocateSharedMemoryInner, core, obj, Prog.bind_eq, Prog.bind_act, Prog.bind_pure]
  refine .ite (.act (by simp [works]) fun validBit => ?_) .pure
  cases validBit with
  | none => exact .pure
  | some bit =>
    refine .act (by simp [works]) fun buffer => .act rfl fun memset => ?_
    cases allocateBuffer { mallocInner := true, buffer, memset } shm with
    | error e => exact .act (by simp [works]) fun _ => .pure
    | ok p => exact .act (by simp [works]) fun _ => .pure

theorem works_teecReleaseSharedMemoryInner {shm : ShmArgs P} :
    Works c (teecReleaseSharedMemoryInner c shm) := by
  refine .act (by simp [works]) fun callFromService => .act (by simp [works]) fun found => ?_
  cases found with
  | none => exact .pure
  | some b => exact works_putBnShrMem

variable [DecidableEq P]

theorem works_teecRegisterSharedMemoryInner {shmInner : Nat} {shm : ShmArgs P} :
    Works c (teecRegisterSharedMemoryInner c shmInner shm) :=
  .ite .pure (.act (by simp [works]) fun _ => .pure)

variable [HAdd P Nat P]

theorem works_teecOpenSessionInner {shm : P → SharedMemory P} {session : Nat}
    {connectionMethod : U32} {connectionData : Bool} {operation : Option (Operation P)} :
    Works c (teecOpenSessionInner shm c session connectionMethod connectionData operation) := by
  have hdo (operation : Option (Operation P)) :
      Works c (teecDoOpenSession c session operation : Program P (InnerResult P)) := by
    simp only [teecDoOpenSession, core, obj, Prog.bind_eq, Prog.bind_act, Prog.bind_pure]
    refine .act (by simp [works]) fun fd => .bind works_openSessionIoctl fun reply => ?_
    exact .ite (.act (by simp [works]) fun _ => .pure) .pure
  refine .ite .pure (.bind ?_ fun checked => .ite ?_ .pure)
  · exact all_teecCheckOperation fun _ => ⟨by simp [works], fun _ => trivial⟩
  · refine .act (by simp [works]) fun _ => .act rfl fun _ => .ite ?_ .pure
    exact .act rfl fun _ => .ite (hdo _) .pure

theorem works_teecInvokeCommandInner {shm : P → SharedMemory P} {session : Nat}
    {operation : Option (Operation P)} :
    Works c (teecInvokeCommandInner shm c session operation) := by
  refine .bind ?_ fun checked => .ite ?_ .pure
  · exact all_teecCheckOperation fun _ => ⟨by simp [works], fun _ => trivial⟩
  · refine .act (by simp [works]) fun _ => .act rfl fun _ => .ite ?_ .pure
    exact .act (by simp [works]) fun _ => .act rfl fun _ => .pure

end Vendor

section Service

variable {c : Nat}

theorem works_writeItems (items : List ReplyItem) : Works c (writeItems items) := by
  induction items with
  | nil => exact .pure
  | cons item items ih =>
    simp only [writeItems, core, Prog.bind_eq, Prog.bind_act, Prog.bind_pure]
    refine .act rfl fun written => .ite ?_ .pure
    exact .bind ih fun _ => .pure

theorem works_writeOperation (operation : Option (Operation Addr)) :
    Works c (writeOperation operation) := by
  cases operation with
  | none => exact works_writeItems _
  | some op => exact works_writeItems _

theorem works_writeSession {session : Nat} {serviceId : BitVec 128} :
    Works c (writeSession c session serviceId) := by
  simp only [writeSession, obj, Prog.bind_eq, Prog.bind_act, Prog.bind_pure]
  refine .bind (works_writeItems _) fun x => .ite ?_ .pure
  refine .act (by simp [works]) fun _ => ?_
  exact .bind (works_writeItems _) fun _ => .pure

theorem works_recOpenReply {returnOrigin : U32} {ret : TeecResult} {session : Nat}
    {serviceId : BitVec 128} {operation : Option (Operation Addr)} :
    Works c (recOpenReply returnOrigin ret c session serviceId operation) := by
  refine .bind (works_writeItems _) fun x => .ite ?_ .pure
  refine .bind works_writeSession fun x => .ite ?_ .pure
  exact .bind (works_writeOperation operation) fun _ => .pure

theorem works_openSessionError {returnOrigin : U32} {ret : TeecResult} {reply : Reply} :
    Works c (openSessionError returnOrigin ret reply) :=
  .bind (works_writeItems _) fun _ => .pure

theorem works_invokeCommandEnd {returnOrigin : U32} {ret : TeecResult}
    {operation : Option (Operation Addr)} : Works c (invokeCommandEnd returnOrigin ret operation) := by
  refine .bind (works_writeItems _) fun x => .ite ?_ .pure
  exact .bind (works_writeOperation operation) fun _ => .pure

theorem works_shmError {ret : TeecResult} : Works c (shmError ret) :=
  .bind (works_writeItems _) fun _ => .pure

theorem works_putAllocShrMem {para : DecodePara} : Works c (putAllocShrMem c para) :=
  Prog.All.each fun _ => works_putBnShrMem

theorem works_decode {operation : Option (Operation Addr)} {optMemSize : U32}
    {optMem : Option Ashmem} : Works c (decode c operation optMemSize optMem) := by
  have hlook (shmOffset : U32) :
      Works c (obj (.getBnShmByOffset c shmOffset) : Program Addr (Option SharedMemoryInner)) :=
    .obj (by simp [works])
  have hshared (data : ByteMemory.Mem) (totalSize : U32) (i : Fin 4) (st : DecodeState) :
      Works c (teecOptDecodePartialMem (fun o => obj (.getBnShmByOffset c o)) data totalSize i st) := by
    refine .ite .pure (.ite .pure (.ite ?_ .pure))
    refine .bind (hlook _) fun shmTemp => ?_
    cases shmTemp with
    | none => exact .pure
    | some shmTemp => exact .ite .pure .pure
  have hloop (data : ByteMemory.Mem) (totalSize : U32) (is : List (Fin 4)) (st : DecodeState) :
      Works c (decodeParams (fun o => obj (.getBnShmByOffset c o)) data totalSize is st) := by
    induction is generalizing st with
    | nil => exact .pure
    | cons i is ih =>
      refine .bind (.ite .pure (.ite (hshared data totalSize i st) .pure)) fun x => ?_
      obtain ⟨ret, st⟩ := x
      cases ret
      case success => exact ih st
      all_goals exact .pure
  cases operation with
  | none => exact .pure
  | some op =>
    refine .bind (.ite .pure ?_) fun _ => .pure
    cases optMem.bind (·.data) with
    | none => exact .pure
    | some data => exact hloop data optMemSize paramIndices _

theorem works_finalizeSession {callFromService : Bool} {session : Nat} :
    Works c (finalizeSession c callFromService session : Program Addr Unit) :=
  .bind works_teecCloseSessionInner fun _ => .ite works_putBnSession .pure

theorem works_sendSecFileRecvProc {data : SecFileData} : Works c (sendSecFileRecvProc data) := by
  have hload (fd : Int) : Works c (loadSecFile fd) :=
    .ite .pure (.act rfl fun _ => .ite (.act rfl fun _ => .pure) .pure)
  have hsend (path : Option String) (fd : Int) : Works c (sendSecfile path fd) := by
    cases path with
    | none => exact .pure
    | some path => exact .bind (hload fd) fun _ => .bind (works_writeItems _) fun _ => .pure
  refine .ite ?_ .pure
  cases data.path with
  | none => exact .pure
  | some path =>
    refine .ite ?_ .pure
    split
    · exact .act rfl fun _ => .ite (.bind (hsend path _) fun _ => .pure) .pure
    · exact .pure

end Service

section Requests

def answering {α : Type} (p : Program Addr α) (f : α → StubResult × Reply) :
    Program Addr (StubResult × Reply) := p.bind fun x => .pure (f x)

def closing {α : Type} (stack : Operation Addr) (opFlag : Option Bool) (p : Program Addr α)
    (f : α → StubResult × Reply) : Program Addr (StubResult × Reply) :=
  p.bind fun x => (closeDupIonFd stack opFlag).bind fun _ => .pure (f x)

structure Served (stack : Operation Addr) (memory : BitVec 64 → SharedMemory Addr)
    (pointer : BitVec 64 → Addr) (identity : CallerIdentity)
    (motive : Program Addr (StubResult × Reply) → Prop) : Prop where
  nothing : ∀ x, motive (.pure x)
  unmapped : ∀ opFlag f, motive (answering (closeDupIonFd stack opFlag) f)
  initContext : ∀ f, motive (answering (initializeContext identity) f)
  finalContext : ∀ fd f, motive (answering (finalizeContext identity fd) f)
  openSession : ∀ fd destination connectionMethod operation optMemSize optMem opFlag f,
    motive (closing stack opFlag (openSession memory identity fd destination connectionMethod
      operation optMemSize optMem) f)
  closeSession : ∀ fd sessionId f, motive (answering (closeSession identity fd sessionId) f)
  invokeCommand : ∀ fd sessionId operation optMemSize optMem opFlag f,
    motive (closing stack opFlag (invokeCommand memory identity fd sessionId operation optMemSize
      optMem) f)
  registerMem : ∀ fd sharedMem f,
    motive (answering (registerSharedMemory pointer identity fd sharedMem) f)
  allocMem : ∀ fd sharedMem f,
    motive (answering (allocateSharedMemory pointer identity fd sharedMem) f)
  releaseMem : ∀ fd sharedMem shmOffset f,
    motive (answering (releaseSharedMemory pointer identity fd sharedMem shmOffset) f)
  setCallBack : ∀ f, motive (answering (setCallBack identity.pid) f)
  other : ∀ p, (∀ c, Works c p) → motive p

variable {stack : Operation Addr} {memory : BitVec 64 → SharedMemory Addr}
variable {pointer : BitVec 64 → Addr} {identity : CallerIdentity}
variable {motive : Program Addr (StubResult × Reply) → Prop}

theorem Served.ite {b : Prop} [Decidable b] {p q : Program Addr (StubResult × Reply)}
    (hp : motive p) (hq : motive q) : motive (if b then p else q) := by
  by_cases hb : b
  · rwa [if_pos hb]
  · rwa [if_neg hb]

theorem Served.shmRecvProc (h : Served stack memory pointer identity motive) {interfaceToken : Bool}
    {context : Option CInt} {sharedMem : Option ShmData}
    {serve : Int → ShmData → Program Addr (StubResult × Reply)}
    (hserve : ∀ fd sharedMem, motive (serve fd sharedMem)) :
    motive (shmRecvProc interfaceToken context sharedMem serve) := by
  refine Served.ite ?_ (h.nothing _)
  split
  · exact hserve _ _
  · exact h.nothing _

theorem Served.onRemoteRequest (h : Served stack memory pointer identity motive) (teeVersion : U32)
    (message : IpcMessage) :
    motive (onRemoteRequest stack memory pointer identity teeVersion message) := by
  cases message with
  | initContext interfaceToken name =>
    refine Served.ite ?_ (h.nothing _)
    cases name with
    | none => exact h.nothing _
    | some name => exact h.initContext _
  | finalContext interfaceToken context =>
    refine Served.ite ?_ (h.nothing _)
    cases context with
    | none => exact h.nothing _
    | some context => exact h.finalContext _ _
  | openSession data =>
    refine Served.ite ?_ (h.nothing _)
    split
    · refine Served.ite ?_ (h.nothing _)
      cases passedOperation data.toOperationData with
      | none => exact h.nothing _
      | some operation =>
        cases data.mapped with
        | none => exact h.unmapped _ _
        | some mapped => exact h.openSession _ _ _ _ _ _ _ _
    · exact h.nothing _
  | closeSession interfaceToken context session =>
    refine Served.ite ?_ (h.nothing _)
    split
    · exact h.closeSession _ _ _
    · exact h.nothing _
  | invokeCommand data =>
    refine Served.ite ?_ (h.nothing _)
    split
    · cases passedOperation data.toOperationData with
      | none => exact h.nothing _
      | some operation =>
        cases data.mapped with
        | none => exact h.unmapped _ _
        | some mapped => exact h.invokeCommand _ _ _ _ _ _ _
    · exact h.nothing _
  | registerMem interfaceToken context sharedMem =>
    rw [Service.onRemoteRequest]
    exact h.shmRecvProc fun fd sharedMem => h.registerMem fd sharedMem _
  | allocMem interfaceToken context sharedMem =>
    rw [Service.onRemoteRequest]
    exact h.shmRecvProc fun fd sharedMem => h.allocMem fd sharedMem _
  | releaseMem interfaceToken context sharedMem shmOffset =>
    rw [Service.onRemoteRequest]
    refine h.shmRecvProc fun fd sharedMem => ?_
    cases shmOffset with
    | none => exact h.nothing _
    | some shmOffset => exact h.releaseMem fd sharedMem shmOffset _
  | setCallBack interfaceToken notify =>
    exact Served.ite (Served.ite (h.setCallBack _) (h.nothing _)) (h.nothing _)
  | sendSecFile data => exact h.other _ fun _ => works_sendSecFileRecvProc
  | getTeeVersion => exact h.other _ fun _ => .bind (works_writeItems _) fun _ => .pure

end Requests

end TeeClient.Daemon.Service
