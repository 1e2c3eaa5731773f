import Mathlib.Tactic
import TeeClient.Daemon.Service

/-! An `ioctl` on a descriptor that a message names comes after `IsValidContext` has accepted
that descriptor for the caller, whatever the handlers find on their way and whatever other
requests do meanwhile. -/

namespace TeeClient.Daemon.Service

open Vendor Vendor.Api Stub
open Resumption

/-- In every run of the program, each `ioctl` on the descriptor of the message comes after its
acceptance. -/
def Authorised (identity : CallerIdentity) (message : IpcMessage)
    (prog : Program Addr (StubResult × Reply)) : Prop :=
  ∀ before fd, prog.Performs before (.core (.ioctl fd)) → message.contextFd = some fd →
    ⟨.core (.isValidContext fd identity), true⟩ ∈ before

/-- A `SEND_SECFILE` of which all fields can be read, for a descriptor that may be one. -/
def SendsSecFile : IpcMessage → Prop
  | .sendSecFile data =>
    data.interfaceToken ∧ (∃ path, data.path = some (some path)) ∧
      (data.fdFlag = some true ∧ 0 ≤ data.fd.toInt) ∧
      (∃ context, data.context = some context ∧ 0 ≤ context.toInt) ∧ data.session.isSome
  | _ => False

section Gate

variable {α : Type} {identity : CallerIdentity} {fd : Int} {accepted : Bool}
variable {p : Program Addr α}

/-- The call remembers whether `IsValidContext` has accepted the descriptor. -/
def gate (identity : CallerIdentity) (fd : Int) : Machine (Act Addr) Resp Unit Unit Bool where
  exec _ _ _ := none
  upd
    | accepted, .core (.isValidContext fd' identity'), valid =>
      accepted || (valid && fd' = fd && identity' = identity)
    | accepted, _, _ => accepted

def needs : Bool → Act Addr → Prop
  | accepted, .core (.ioctl _) => accepted = true
  | _, _ => True

def isIoctl : Act Addr → Bool
  | .core (.ioctl _) => true
  | _ => false

abbrev Gated (identity : CallerIdentity) (fd : Int) (accepted : Bool) (p : Program Addr α) : Prop :=
  Safe (gate identity fd) needs accepted p fun _ _ => True

theorem gated_accepted (identity : CallerIdentity) (fd : Int) (p : Program Addr α) :
    Gated identity fd true p := by
  induction p with
  | pure x => trivial
  | act a k ih =>
    refine ⟨?_, fun r => ?_⟩
    · cases a with
      | core a => cases a <;> trivial
      | obj a => trivial
    · have hupd : (gate identity fd).upd true a r = true := by
        cases a with
        | core a => cases a <;> rfl
        | obj a => rfl
      rw [hupd]
      exact ih r

theorem gated_of_noIoctl (h : Prog.All (fun a => isIoctl a = false) p) :
    Gated identity fd accepted p := by
  induction p generalizing accepted with
  | pure x => trivial
  | act a k ih =>
    refine ⟨?_, fun r => ih r (h.2 r)⟩
    cases a with
    | core a =>
      cases a <;> first | trivial | exact absurd h.1 (by simp [isIoctl])
    | obj a => trivial

/-- Every handler asks `IsValidContext` first, and does nothing to the driver when the answer
is no. -/
theorem gated_check {f : Bool → Program Addr α} (hno : Gated identity fd false (f false)) :
    Gated identity fd false ((core (.isValidContext fd identity)).bind f) := by
  rw [Gated, safe_bind]
  refine ⟨trivial, fun valid => ?_⟩
  cases valid with
  | false => exact hno
  | true =>
    have hupd : (gate identity fd).upd false (.core (.isValidContext fd identity)) true = true := by
      simp [gate]
    rw [hupd]
    exact gated_accepted identity fd (f true)

theorem Gated.bind {β : Type} {f : α → Program Addr β} (hp : Gated identity fd accepted p)
    (hf : ∀ x accepted, Gated identity fd accepted (f x)) :
    Gated identity fd accepted (p.bind f) := by
  rw [Gated, safe_bind]
  exact hp.mono fun x accepted _ => hf x accepted

theorem accepted_of_upd {a : Act Addr} {r : Resp a} (h : (gate identity fd).upd accepted a r = true) :
    accepted = true ∨
      (⟨a, r⟩ : Sigma (Resp (P := Addr))) = ⟨.core (.isValidContext fd identity), true⟩ := by
  cases a with
  | core a =>
    cases a with
    | isValidContext fd' identity' =>
      simp only [gate, Bool.or_eq_true, Bool.and_eq_true, decide_eq_true_eq] at h
      rcases h with h | ⟨⟨hvalid, hfd⟩, hidentity⟩
      · exact .inl h
      · right
        obtain rfl : r = true := hvalid
        rw [hfd, hidentity]
    | _ => exact .inl h
  | obj a => exact .inl h

theorem accepted_of_foldl {before : List (Sigma (Resp (P := Addr)))}
    (h : before.foldl (fun l x => (gate identity fd).upd l x.1 x.2) accepted = true) :
    accepted = true ∨ ⟨.core (.isValidContext fd identity), true⟩ ∈ before := by
  induction before generalizing accepted with
  | nil => exact .inl h
  | cons x before ih =>
    rcases ih h with hupd | hmem
    · rcases accepted_of_upd hupd with haccepted | hx
      · exact .inl haccepted
      · rw [← hx]
        exact .inr List.mem_cons_self
    · exact .inr (List.mem_cons_of_mem _ hmem)

end Gate

section Handlers

variable {identity : CallerIdentity} {fd : Int} {accepted : Bool} {stack : Operation Addr}
variable {memory : BitVec 64 → SharedMemory Addr} {pointer : BitVec 64 → Addr}

theorem noIoctl_writeItems (items : List ReplyItem) :
    Prog.All (fun a => isIoctl a = false) (writeItems items) := by
  induction items with
  | nil => trivial
  | cons item items ih =>
    refine ⟨rfl, fun written => ?_⟩
    cases written with
    | false => trivial
    | true => exact ih.bind fun _ => trivial

theorem gated_writeItems (items : List ReplyItem) : Gated identity fd accepted (writeItems items) :=
  gated_of_noIoctl (noIoctl_writeItems items)

theorem gated_writeOperation (operation : Option (Operation Addr)) :
    Gated identity fd accepted (writeOperation operation) := by
  cases operation with
  | none => exact gated_writeItems _
  | some op => exact gated_writeItems _

theorem gated_invokeCommandEnd {returnOrigin : U32} {ret : TeecResult}
    {operation : Option (Operation Addr)} :
    Gated identity fd accepted (invokeCommandEnd returnOrigin ret operation) := by
  refine (gated_writeItems _).bind fun x accepted => ?_
  obtain ⟨writeRet, reply⟩ := x
  cases writeRet with
  | false => trivial
  | true => exact (gated_writeOperation operation).bind fun _ _ => trivial

theorem gated_finalizeContext : Gated identity fd false (finalizeContext identity fd) :=
  gated_check trivial

theorem gated_openSession {destination : BitVec 128} {connectionMethod optMemSize : U32}
    {operation : Option (Operation Addr)} {optMem : Option Ashmem} :
    Gated identity fd false
      (openSession memory identity fd destination connectionMethod operation optMemSize optMem) := by
  simp only [openSession, callGetBnContext, Prog.bind_eq, Prog.bind_assoc]
  refine gated_check ?_
  exact (gated_writeItems _).bind fun _ _ => trivial

theorem gated_invokeCommand {sessionId optMemSize : U32} {operation : Option (Operation Addr)}
    {optMem : Option Ashmem} :
    Gated identity fd false (invokeCommand memory identity fd sessionId operation optMemSize optMem) := by
  simp only [invokeCommand, callGetBnSession, Prog.bind_eq, Prog.bind_assoc]
  exact gated_check gated_invokeCommandEnd

theorem gated_closeSession {sessionId : U32} :
    Gated identity fd false (closeSession identity fd sessionId) :=
  gated_check trivial

theorem gated_registerSharedMemory {sharedMem : ShmData} :
    Gated identity fd false (registerSharedMemory pointer identity fd sharedMem) :=
  gated_check ((gated_writeItems _).bind fun _ _ => trivial)

theorem gated_allocateSharedMemory {sharedMem : ShmData} :
    Gated identity fd false (allocateSharedMemory pointer identity fd sharedMem) :=
  gated_check ((gated_writeItems _).bind fun _ _ => trivial)

theorem gated_releaseSharedMemory {sharedMem : ShmData} {shmOffset : U32} :
    Gated identity fd false (releaseSharedMemory pointer identity fd sharedMem shmOffset) :=
  gated_check trivial

theorem gated_shmRecvProc {interfaceToken : Bool} {context : Option CInt}
    {sharedMem : Option ShmData} {serve : Int → ShmData → Program Addr (StubResult × Reply)}
    (hfd : context.map (·.toInt) = some fd)
    (hserve : ∀ sharedMem, Gated identity fd false (serve fd sharedMem)) :
    Gated identity fd false (shmRecvProc interfaceToken context sharedMem serve) := by
  obtain ⟨context, rfl, rfl⟩ := Option.map_eq_some_iff.mp hfd
  cases interfaceToken with
  | false => trivial
  | true =>
    cases sharedMem with
    | none => trivial
    | some sharedMem => exact hserve sharedMem

theorem gated_closeDupIonFd {opFlag : Option Bool} :
    Gated identity fd accepted (closeDupIonFd stack opFlag) := by
  refine gated_of_noIoctl (.ite (Prog.All.each fun fd => ?_) trivial)
  exact ⟨rfl, fun _ => trivial⟩

theorem gated_openSessionRecvProc {data : OpenData} (hfd : data.context.map (·.toInt) = some fd) :
    Gated identity fd false (openSessionRecvProc stack memory identity data) := by
  obtain ⟨context, hcontext, rfl⟩ := Option.map_eq_some_iff.mp hfd
  rw [openSessionRecvProc, hcontext]
  cases data.interfaceToken with
  | false => trivial
  | true =>
    rw [if_pos rfl]
    split
    case h_2 => trivial
    case h_1 context' path uuid connMethod hcontext' _ _ _ =>
      cases hcontext'
      by_cases hfd : ReadsFd data.fdFlag data.fd
      · rw [if_pos hfd]
        cases passedOperation data.toOperationData with
        | none => trivial
        | some operation =>
          cases data.mapped with
          | none => exact gated_closeDupIonFd.bind fun _ _ => trivial
          | some mapped =>
            exact gated_openSession.bind fun _ _ => gated_closeDupIonFd.bind fun _ _ => trivial
      · rw [if_neg hfd]
        trivial

theorem gated_invokeCommandRecvProc {data : InvokeData}
    (hfd : data.context.map (·.toInt) = some fd) :
    Gated identity fd false (invokeCommandRecvProc stack memory identity data) := by
  obtain ⟨context, hcontext, rfl⟩ := Option.map_eq_some_iff.mp hfd
  rw [invokeCommandRecvProc, hcontext]
  cases data.interfaceToken with
  | false => trivial
  | true =>
    rw [if_pos rfl]
    split
    case h_2 => trivial
    case h_1 context' session commandID hcontext' _ _ =>
      cases hcontext'
      cases passedOperation data.toOperationData with
      | none => trivial
      | some operation =>
        cases data.mapped with
        | none => exact gated_closeDupIonFd.bind fun _ _ => trivial
        | some mapped =>
          exact gated_invokeCommand.bind fun _ _ => gated_closeDupIonFd.bind fun _ _ => trivial

theorem gated_sendSecFileRecvProc {data : SecFileData} (h : ¬ SendsSecFile (.sendSecFile data)) :
    Gated identity fd false (sendSecFileRecvProc data) := by
  rw [sendSecFileRecvProc]
  cases htoken : data.interfaceToken with
  | false => trivial
  | true =>
    rw [if_pos rfl]
    cases hpath : data.path with
    | none => trivial
    | some path =>
      simp only []
      by_cases hfile : data.fdFlag = some true ∧ 0 ≤ data.fd.toInt
      case neg =>
        rw [if_neg hfile]
        trivial
      rw [if_pos hfile]
      cases hcontext : data.context with
      | none => trivial
      | some context =>
        cases hsession : data.session with
        | none => trivial
        | some session =>
          refine ⟨trivial, fun fdopen => ?_⟩
          cases fdopen with
          | false => trivial
          | true =>
            cases path with
            | none => trivial
            | some path =>
              have hneg : context.toInt < 0 := by
                by_contra hpos
                exact h ⟨htoken, ⟨path, hpath⟩, hfile, ⟨context, hcontext, not_lt.mp hpos⟩,
                  by simp [hsession]⟩
              have hload : loadSecFile context.toInt = .pure (-1) := if_pos hneg
              simp only [sendSecfile, hload, Prog.bind_eq, Prog.bind_pure, Prog.bind_assoc]
              exact (gated_writeItems _).bind fun _ _ => trivial

theorem gated_onRemoteRequest (teeVersion : U32) (message : IpcMessage)
    (h : ¬ SendsSecFile message) (hfd : message.contextFd = some fd) :
    Gated identity fd false (onRemoteRequest stack memory pointer identity teeVersion message) := by
  cases message with
  | initContext interfaceToken name => cases hfd
  | finalContext interfaceToken context =>
    obtain ⟨context, rfl, rfl⟩ := Option.map_eq_some_iff.mp hfd
    cases interfaceToken with
    | false => trivial
    | true => exact gated_finalizeContext.bind fun _ _ => by trivial
  | openSession data => exact gated_openSessionRecvProc hfd
  | closeSession interfaceToken context session =>
    obtain ⟨context, rfl, rfl⟩ := Option.map_eq_some_iff.mp hfd
    cases interfaceToken with
    | false => trivial
    | true =>
      cases session with
      | none => trivial
      | some session => exact gated_closeSession.bind fun _ _ => by trivial
  | invokeCommand data => exact gated_invokeCommandRecvProc hfd
  | registerMem interfaceToken context sharedMem =>
    rw [onRemoteRequest]
    exact gated_shmRecvProc hfd fun _ => gated_registerSharedMemory.bind fun _ _ => by trivial
  | allocMem interfaceToken context sharedMem =>
    rw [onRemoteRequest]
    exact gated_shmRecvProc hfd fun _ => gated_allocateSharedMemory.bind fun _ _ => by trivial
  | releaseMem interfaceToken context sharedMem shmOffset =>
    rw [onRemoteRequest]
    cases shmOffset with
    | none => exact gated_shmRecvProc hfd fun _ => by trivial
    | some shmOffset =>
      exact gated_shmRecvProc hfd fun _ => gated_releaseSharedMemory.bind fun _ _ => by trivial
  | setCallBack interfaceToken notify => cases hfd
  | sendSecFile data => exact gated_sendSecFileRecvProc h
  | getTeeVersion => cases hfd

theorem performs_sendSecFile (data : SecFileData) (h : SendsSecFile (.sendSecFile data)) :
    ∃ fd, data.context.map (·.toInt) = some fd ∧
      (sendSecFileRecvProc data).Performs
        [⟨.core .outcome, true⟩, ⟨.core .outcome, true⟩] (.core (.ioctl fd)) := by
  obtain ⟨htoken, ⟨path, hpath⟩, hfile, ⟨context, hcontext, hpos⟩, hsession⟩ := h
  obtain ⟨session, hsession⟩ := Option.isSome_iff_exists.mp hsession
  refine ⟨context.toInt, by simp [hcontext], ?_⟩
  have hload : loadSecFile context.toInt = _ := if_neg (not_lt.mpr hpos)
  simp only [sendSecFileRecvProc, htoken, hpath, hfile, hcontext, hsession, if_true, and_self,
    sendSecfile, hload]
  refine Prog.Performs.later (R := Resp) (a := .core .outcome) true ?_
  refine Prog.Performs.later (R := Resp) (a := .core .outcome) true ?_
  exact .here _ _

end Handlers

/-- Handling a message keeps to the check if and only if the message is no `SEND_SECFILE` that
gets to its `ioctl`. -/
theorem authorised_iff (stack : Operation Addr) (memory : BitVec 64 → SharedMemory Addr) (pointer : BitVec 64 → Addr)
    (identity : CallerIdentity) (teeVersion : U32) (message : IpcMessage) :
    Authorised identity message (onRemoteRequest stack memory pointer identity teeVersion message) ↔
      ¬ SendsSecFile message := by
  constructor
  · intro h hsends
    cases message with
    | sendSecFile data =>
      obtain ⟨fd, hfd, hperforms⟩ := performs_sendSecFile data hsends
      have hmem := h _ fd hperforms hfd
      simp at hmem
    | _ => exact hsends
  · intro hsends before fd hperforms hfd
    have hneeds := (gated_onRemoteRequest teeVersion message hsends hfd).performs hperforms
    rcases accepted_of_foldl hneeds with haccepted | hmem
    · cases haccepted
    · exact hmem

section Runs

def daemon : Machine (Act Addr) Resp (World Addr) (Env Addr) Unit where
  exec := exec
  upd _ _ _ := ()

/-- Where the daemon gets from its start, with any tasks at any time. -/
abbrev DaemonReaches (cfg : Config (Act Addr) Resp (World Addr) Unit) : Prop :=
  Reaches daemon (fun k => ∃ task : Task, k = ⟨(), task.program (stackBytes 0 0) noMemory .raw 0⟩)
    (fun _ _ _ _ _ => true) (init noObjects) cfg

def secFileMessage : SecFileData where
  interfaceToken := true
  path := some (some "/data/lib.sec")
  fdFlag := some true
  fd := 9
  context := some 3
  session := some 0

/-- The process 1 has the context of descriptor 3; a `SEND_SECFILE` of the process 2 gets to an
`ioctl` on it, although it is not valid for that process. -/
theorem authorised_fails :
    (∃ cfg, DaemonReaches cfg ∧ cfg.state.core.isValidContext 3 ⟨1, 1, 1⟩ = true ∧
      cfg.state.core.isValidContext 3 ⟨2, 2, 2⟩ = false ∧
      cfg.Pending 1 () (.core (.ioctl 3))) ∧
    ¬ Authorised ⟨2, 2, 2⟩ (.sendSecFile secFileMessage)
      (onRemoteRequest (stackBytes 0 0) noMemory .raw ⟨2, 2, 2⟩ 0 (.sendSecFile secFileMessage)) := by
  have hstart : DaemonReaches ⟨init noObjects,
      [⟨(), (Task.request ⟨1, 1, 1⟩ (.initContext true (some none))).program (stackBytes 0 0) noMemory .raw 0⟩,
        ⟨(), (Task.request ⟨2, 2, 2⟩ (.sendSecFile secFileMessage)).program (stackBytes 0 0) noMemory .raw 0⟩]⟩ :=
    (Reaches.init.start ⟨_, rfl⟩).start ⟨_, rfl⟩
  have hrun := Reaches.replay (List.replicate 18 (0, answer true 3) ++
    List.replicate 2 (1, answer true 3)) hstart rfl
  constructor
  · refine ⟨_, hrun, ?_, ?_, ?_⟩
    · decide
    · decide
    · exact ⟨_, rfl⟩
  · intro h
    obtain ⟨fd, hfd, hperforms⟩ := performs_sendSecFile secFileMessage
      ⟨rfl, ⟨_, rfl⟩, ⟨rfl, by decide⟩, ⟨_, rfl, by decide⟩, rfl⟩
    have hmem := h _ fd hperforms hfd
    simp at hmem

end Runs

end TeeClient.Daemon.Service
