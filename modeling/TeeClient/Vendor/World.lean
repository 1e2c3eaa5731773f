import Mathlib.Tactic
import TeeClient.Lib.Resumption
import TeeClient.Vendor.SharedMemory

/-! The state of a process that links `tee_client_api.c`, a CA or `cadaemon`, and its
critical sections.  An object is known by a number that is never used again; the
table of open descriptors says for which context each was opened.  The process data
of `cadaemon` is a part of the state that stays empty in a CA. -/

namespace TeeClient.Vendor

structure CallerIdentity where
  pid : Int
  uid : Int
  tokenid : U32
  deriving DecidableEq, Repr

/-- `TEEC_ContextInner`, less its lists.  `owner` is the caller it was created for;
`wasListed` and `takenOut` say whether it has been in `g_teecContextList` and whether a
call has taken it out, `frees` counts the calls of `free` on it and `finalized` the runs
of `TEEC_FinalizeContextInner` that have ended. -/
structure ContextInner where
  owner : CallerIdentity
  fd : Int
  opsCnt : Nat
  callFromService : Bool
  frees : Nat
  wasListed : Bool
  takenOut : Bool
  finalized : Nat

structure DaemonProcdata where
  callerIdentity : CallerIdentity
  cxtFd : List Int
  deriving DecidableEq, Repr

def maxCxtcntOneca : Nat := 16

/-- `TEEC_Session`.  `home` is the context that `cadaemon` allocated it for; `frees` and
`wasListed` are as for contexts. -/
structure Session where
  sessionId : U32
  opsCnt : Nat
  home : Nat
  frees : Nat
  wasListed : Bool

/-- What has become of a `TEEC_SharedMemoryInner`: the calls of `free` on it, and whether
it has been in `shrd_mem_list`. -/
structure ShmFate where
  frees : Nat
  wasListed : Bool

/-- The contexts of the process, `g_teecContextList`, the descriptors that are open
for contexts, the process data and the clients of `cadaemon`, and whether
`mProcDataLock`, `mClientLock` and `g_mutexReadContextList` are taken. -/
structure Core where
  ctx : Nat → ContextInner
  next : Nat
  contextList : List Nat
  openFds : List (Int × Nat)
  procData : List DaemonProcdata
  clients : List Int
  procLock : Bool
  clientLock : Bool
  readLock : Bool

structure Objects (P : Type) where
  session : Nat → Session
  nextSession : Nat
  sessionList : Nat → List Nat
  shm : Nat → ShmTable P
  shmFate : Nat → Nat → ShmFate

structure World (P : Type) where
  core : Core
  objs : Objects P

/-- What the driver writes behind the addresses it was given for a slot: the two words of
a value, or the size of a memory reference. -/
structure SlotOutput where
  a : U32
  b : U32
  size : U32

structure IoctlReply where
  ret : Int
  errno : Int
  code : U32
  origin : U32
  sessionId : U32
  outputs : Fin 4 → SlotOutput

/-- `outcome` is what `malloc`, `memset_s` and other calls without a state of their own
give, `writeParcel` whether a field could be written into a reply, and `closeDupFd` whether
`close` found a descriptor with that number. -/
inductive CoreAct
  | outcome
  | writeParcel
  | addTidData
  | closeDupFd (fd : Int)
  | ioctl (fd : Int)
  | lockReadContextList
  | unlockReadContextList
  | contextCountLimitCheck
  | mallocContext (owner : CallerIdentity)
  | openTzdriver (c : Nat)
  | closeFd (fd : Int)
  | setContext (c : Nat) (fd : Int)
  | insertContext (c : Nat)
  | setCallFromService (c : Nat)
  | freeContext (c : Nat)
  | getBnContext (fd : Int)
  | findAndRemoveBnContext (fd : Int)
  | atomDecContext (c : Nat)
  | readContextFd (c : Nat)
  | readCallFromService (c : Nat)
  | closeContext (c : Nat)
  | freeFinalized (c : Nat)
  | isValidContext (fd : Int) (identity : CallerIdentity)
  | setContextToProcData (identity : CallerIdentity) (c : Nat)
  | lockProcData
  | unlockProcData
  | releaseProcData (pid : Int) (fd : Int)
  | takeProcData (pid : Int)
  | addClient (pid : Int)
  | lockClients (pid : Int)
  | eraseClient (pid : Int)
  | unlockClients

@[reducible] def CoreResp : CoreAct → Type
  | .outcome | .writeParcel | .addTidData | .closeDupFd _ | .contextCountLimitCheck
  | .atomDecContext _ | .readCallFromService _ | .isValidContext _ _ | .setContextToProcData _ _
  | .addClient _ => Bool
  | .mallocContext _ | .getBnContext _ | .findAndRemoveBnContext _ => Option Nat
  | .openTzdriver _ => Option Int
  | .readContextFd _ => Int
  | .ioctl _ => IoctlReply
  | .takeProcData _ => Option DaemonProcdata
  | .lockClients _ => Nat
  | .lockReadContextList | .unlockReadContextList | .closeFd _ | .setContext _ _
  | .insertContext _ | .setCallFromService _ | .freeContext _ | .closeContext _ | .freeFinalized _
  | .lockProcData | .unlockProcData | .releaseProcData _ _ | .eraseClient _ | .unlockClients => Unit

inductive ObjAct (P : Type)
  | initLists (c : Nat)
  | takeSessions (c : Nat)
  | takeShms (c : Nat)
  | mallocSession (c : Nat)
  | freeSession (c n : Nat)
  | addSessionList (c n : Nat) (sessionId : U32)
  | getBnSession (c : Nat) (sessionId : U32)
  | findAndRemoveSession (c : Nat) (sessionId : U32)
  | atomDecSession (c n : Nat)
  | releaseSession (c n : Nat)
  | clearSession (c n : Nat)
  | readSession (c n : Nat)
  | getAndSetBit (c : Nat)
  | clearBit (c bit : Nat)
  | mapBuffer (c : Nat)
  | mallocShm (c : Nat)
  | freeShm (c b : Nat)
  | insertShm (c b : Nat) (shm : ShmArgs P) (isAllocated : Bool) (offset : U32)
  | readShm (c b : Nat)
  | getBnShmByOffset (c : Nat) (shmOffset : U32)
  | checkSharedBufferExist (c : Nat) (buffer : P)
  | findAndRemoveShrMem (c : Nat) (callFromService : Bool) (shm : ShmArgs P)
  | unlinkShm (c b : Nat)
  | atomDecShm (c b : Nat)
  | releaseShm (c b : Nat)

@[reducible] def ObjResp {P : Type} [Zero P] : ObjAct P → Type
  | .atomDecSession _ _ | .atomDecShm _ _ | .checkSharedBufferExist _ _ => Bool
  | .mallocSession _ | .getBnSession _ _ | .findAndRemoveSession _ _ | .getAndSetBit _
  | .findAndRemoveShrMem _ _ _ => Option Nat
  | .mallocShm _ => Nat
  | .takeSessions _ | .takeShms _ => List Nat
  | .mapBuffer _ => Option { p : P // p ≠ 0 }
  | .getBnShmByOffset _ _ | .readShm _ _ => Option (SharedMemoryInner P)
  | .readSession _ _ => Session
  | .initLists _ | .freeSession _ _ | .addSessionList _ _ _ | .releaseSession _ _
  | .clearSession _ _ | .clearBit _ _ | .freeShm _ _ | .insertShm _ _ _ _ _ | .unlinkShm _ _
  | .releaseShm _ _ => Unit

inductive Act (P : Type)
  | core (a : CoreAct)
  | obj (a : ObjAct P)

@[reducible] def Resp {P : Type} [Zero P] : Act P → Type
  | .core a => CoreResp a
  | .obj a => ObjResp a

/-- What the kernel, the driver, the allocator and the peer decide. -/
structure Env (P : Type) [Zero P] where
  ok : Bool
  fd : Int
  reply : IoctlReply
  buffer : Option { p : P // p ≠ 0 }

def found {α σ : Type} (r : Option α) (s : σ) (f : α → σ) : Option (Option α × σ) :=
  some (r, r.elim s f)

namespace Core

def modify (s : Core) (c : Nat) (f : ContextInner → ContextInner) : Core :=
  { s with ctx := Function.update s.ctx c (f (s.ctx c)) }

def findBnContext (s : Core) (fd : Int) : Option Nat :=
  s.contextList.find? fun c => (s.ctx c).fd = fd

def mallocContext (s : Core) (owner : CallerIdentity) : Core :=
  let zeroed := {
    owner
    fd := 0
    opsCnt := 0
    callFromService := false
    frees := 0
    wasListed := false
    takenOut := false
    finalized := 0 }
  { s with ctx := Function.update s.ctx s.next zeroed, next := s.next + 1 }

def closeFd (s : Core) (fd : Int) : Core :=
  { s with openFds := s.openFds.filter (·.1 ≠ fd) }

def insertContext (s : Core) (c : Nat) : Core :=
  let s' := s.modify c fun x => { x with opsCnt := x.opsCnt + 1, wasListed := true }
  { s' with contextList := s.contextList ++ [c] }

def removeContext (s : Core) (c : Nat) : Core :=
  { s.modify c ({ · with takenOut := true }) with contextList := s.contextList.erase c }

def getProcdataByPid (s : Core) (pid : Int) : Option DaemonProcdata :=
  s.procData.find? (·.callerIdentity.pid = pid)

/-- `IsValidContextWithoutLock` -/
def isValidContext (s : Core) (fd : Int) (identity : CallerIdentity) : Bool :=
  if fd < 0 then false
  else
    match s.getProcdataByPid identity.pid with
    | none => false
    | some procData => procData.callerIdentity = identity ∧ fd ∈ procData.cxtFd

def setSlot (fd : Int) : List Int → Option (List Int)
  | [] => none
  | x :: xs => if x = -1 then some (fd :: xs) else (setSlot fd xs).map (x :: ·)

/-- `RemoveContextFromProcData` -/
def clearSlot (fd : Int) : List Int → List Int
  | [] => []
  | x :: xs => if x = fd then -1 :: xs else x :: clearSlot fd xs

def updateProcData (pid : Int) (f : DaemonProcdata → Option DaemonProcdata) :
    List DaemonProcdata → List DaemonProcdata
  | [] => []
  | e :: es =>
    if e.callerIdentity.pid = pid then (f e).elim es (· :: es) else e :: updateProcData pid f es

/-- `SetContextToProcData`, with `CallGetProcDataPtr`; `malloc` gives the memory of a new
entry. -/
def setContextToProcData (s : Core) (malloc : Bool) (identity : CallerIdentity) (fd : Int) :
    Bool × Core :=
  match s.getProcdataByPid identity.pid with
  | some procData =>
    if procData.callerIdentity = identity then
      match setSlot fd procData.cxtFd with
      | some cxtFd =>
        let record (e : DaemonProcdata) := some { e with cxtFd }
        (true, { s with procData := updateProcData identity.pid record s.procData })
      | none => (false, s)
    else (false, s)
  | none =>
    if malloc then
      let cxtFd := fd :: List.replicate (maxCxtcntOneca - 1) (-1)
      (true, { s with procData := s.procData ++ [{ callerIdentity := identity, cxtFd }] })
    else (false, s)

def releaseProcData (s : Core) (pid fd : Int) : Core :=
  let release (e : DaemonProcdata) : Option DaemonProcdata :=
    let cxtFd := clearSlot fd e.cxtFd
    if cxtFd.all (· = -1) then none else some { e with cxtFd }
  { s with procData := updateProcData pid release s.procData }

def takeProcData (s : Core) (pid : Int) : Option DaemonProcdata × Core :=
  (s.getProcdataByPid pid, { s with procData := updateProcData pid (fun _ => none) s.procData })

def addClient (s : Core) (linked : Bool) (pid : Int) : Bool × Core :=
  if pid ∈ s.clients then (true, s)
  else if linked then (true, { s with clients := s.clients ++ [pid] })
  else (false, s)

/-- What a critical section, or an access outside of one, answers and does; `none` when
it has to wait or when the kernel cannot answer so. -/
def exec {P : Type} [Zero P] (s : Core) (env : Env P) : (a : CoreAct) → Option (CoreResp a × Core)
  | .outcome => some (env.ok, s)
  | .writeParcel => some (env.ok, s)
  | .addTidData => some (env.ok, s)
  | .closeDupFd fd =>
    -- a number that is no context's may be open for something else
    if fd ∈ s.openFds.map (·.1) then some (true, s.closeFd fd) else some (env.ok, s)
  | .ioctl _ => some (env.reply, s)
  | .lockReadContextList => if s.readLock then none else some ((), { s with readLock := true })
  | .unlockReadContextList => some ((), { s with readLock := false })
  | .contextCountLimitCheck => some (decide (s.contextList.length < maxCxtcntOneca), s)
  | .mallocContext owner =>
    if env.ok then some (some s.next, s.mallocContext owner) else some (none, s)
  | .openTzdriver c =>
    if env.ok then
      -- the kernel does not hand out a descriptor that is open
      if 0 ≤ env.fd ∧ env.fd ∉ s.openFds.map (·.1) then
        some (some env.fd, { s with openFds := (env.fd, c) :: s.openFds })
      else none
    else some (none, s)
  | .closeFd fd => some ((), s.closeFd fd)
  | .setContext c fd => some ((), s.modify c fun x => { x with fd, opsCnt := 1 })
  | .insertContext c => some ((), s.insertContext c)
  | .setCallFromService c => some ((), s.modify c fun x => { x with callFromService := true })
  | .freeContext c => some ((), s.modify c fun x => { x with frees := x.frees + 1 })
  | .getBnContext fd =>
    found (s.findBnContext fd) s fun c => s.modify c fun x => { x with opsCnt := x.opsCnt + 1 }
  | .findAndRemoveBnContext fd => found (s.findBnContext fd) s s.removeContext
  | .atomDecContext c =>
    some (decide ((s.ctx c).opsCnt - 1 = 0), s.modify c fun x => { x with opsCnt := x.opsCnt - 1 })
  | .readContextFd c => some ((s.ctx c).fd, s)
  | .readCallFromService c => some ((s.ctx c).callFromService, s)
  | .closeContext c =>
    some ((), (s.closeFd (s.ctx c).fd).modify c fun x => { x with fd := -1 })
  | .freeFinalized c =>
    some ((), s.modify c fun x =>
      { x with frees := x.frees + 1, finalized := x.finalized + 1 })
  | .isValidContext fd identity =>
    if s.procLock then none else some (s.isValidContext fd identity, s)
  | .setContextToProcData identity c =>
    if s.procLock then none else some (s.setContextToProcData env.ok identity (s.ctx c).fd)
  | .lockProcData => if s.procLock then none else some ((), { s with procLock := true })
  | .unlockProcData => some ((), { s with procLock := false })
  | .releaseProcData pid fd => some ((), s.releaseProcData pid fd)
  | .takeProcData pid => if s.procLock then none else some (s.takeProcData pid)
  | .addClient pid => if s.clientLock then none else some (s.addClient env.ok pid)
  | .lockClients pid =>
    if s.clientLock then none else some (s.clients.count pid, { s with clientLock := true })
  | .eraseClient pid => some ((), { s with clients := s.clients.erase pid })
  | .unlockClients => some ((), { s with clientLock := false })

end Core

namespace Objects

variable {P : Type}

def modifySession (s : Objects P) (n : Nat) (f : Session → Session) : Objects P :=
  { s with session := Function.update s.session n (f (s.session n)) }

def setShm (s : Objects P) (c : Nat) (t : ShmTable P) : Objects P :=
  { s with shm := Function.update s.shm c t }

def setSessionList (s : Objects P) (c : Nat) (ss : List Nat) : Objects P :=
  { s with sessionList := Function.update s.sessionList c ss }

def findBnSession (s : Objects P) (c : Nat) (sessionId : U32) : Option Nat :=
  (s.sessionList c).find? fun n => (s.session n).sessionId = sessionId

def setFate (s : Objects P) (c b : Nat) (fate : ShmFate) : Objects P :=
  { s with shmFate := Function.update s.shmFate c (Function.update (s.shmFate c) b fate) }

def countFree (s : Objects P) (c b : Nat) : Objects P :=
  s.setFate c b { s.shmFate c b with frees := (s.shmFate c b).frees + 1 }

def mallocSession (s : Objects P) (c : Nat) : Objects P :=
  let zeroed := { sessionId := 0, opsCnt := 0, home := c, frees := 0, wasListed := false }
  let session := Function.update s.session s.nextSession zeroed
  { s with session, nextSession := s.nextSession + 1 }

def addSessionList (s : Objects P) (c n : Nat) (sessionId : U32) : Objects P :=
  let s' := s.modifySession n fun x => { x with sessionId, opsCnt := 2, wasListed := true }
  s'.setSessionList c ((s.sessionList c).filter (· ≠ n) ++ [n])

def mallocShm (s : Objects P) (c : Nat) : Objects P :=
  (s.setShm c { s.shm c with nextId := (s.shm c).nextId + 1 }).setFate c (s.shm c).nextId
    { frees := 0, wasListed := false }

def insertShm (s : Objects P) (c b : Nat) (shm : ShmArgs P) (isAllocated : Bool) (offset : U32) :
    Objects P :=
  let t := { s.shm c with nextId := b }.insert shm isAllocated offset
  (s.setShm c { t with nextId := (s.shm c).nextId }).setFate c b
    { s.shmFate c b with wasListed := true }

def findShm (s : Objects P) (c b : Nat) : Option (SharedMemoryInner P) :=
  (s.shm c).blocks.find? (·.id = b)

def exec [DecidableEq P] [Zero P] (s : Objects P) (env : Env P) :
    (a : ObjAct P) → Option (ObjResp a × Objects P)
  | .initLists c => some ((), (s.setSessionList c []).setShm c .init)
  | .takeSessions c => some (s.sessionList c, s.setSessionList c [])
  | .takeShms c =>
    let blocks := (s.shm c).blocks.map ({ · with listed := false })
    some ((s.shm c).shrdMemList.map (·.id), s.setShm c { s.shm c with blocks })
  | .mallocSession c =>
    if env.ok then some (some s.nextSession, s.mallocSession c) else some (none, s)
  | .freeSession _ n => some ((), s.modifySession n fun x => { x with frees := x.frees + 1 })
  | .addSessionList c n sessionId => some ((), s.addSessionList c n sessionId)
  | .getBnSession c sessionId =>
    found (s.findBnSession c sessionId) s fun n =>
      s.modifySession n fun x => { x with opsCnt := x.opsCnt + 1 }
  | .findAndRemoveSession c sessionId =>
    found (s.findBnSession c sessionId) s fun n => s.setSessionList c ((s.sessionList c).erase n)
  | .atomDecSession _ n =>
    some (decide ((s.session n).opsCnt - 1 = 0),
      s.modifySession n fun x => { x with opsCnt := x.opsCnt - 1 })
  | .releaseSession _ n => some ((), s.modifySession n fun x => { x with frees := x.frees + 1 })
  | .clearSession _ n => some ((), s.modifySession n fun x => { x with sessionId := 0 })
  | .readSession _ n => some (s.session n, s)
  | .getAndSetBit c =>
    let (bit, bitmap) := getAndSetBit (s.shm c).bitmap
    some (bit, s.setShm c { s.shm c with bitmap })
  | .clearBit c bit =>
    let bitmap := Vendor.clearBit bit (s.shm c).bitmap
    some ((), s.setShm c { s.shm c with bitmap })
  | .mapBuffer _ => some (env.buffer, s)
  | .mallocShm c => some ((s.shm c).nextId, s.mallocShm c)
  | .freeShm c b => some ((), s.countFree c b)
  | .insertShm c b shm isAllocated offset => some ((), s.insertShm c b shm isAllocated offset)
  | .readShm c b => some (s.findShm c b, s)
  | .getBnShmByOffset c shmOffset =>
    let (shm, t) := getBnShmByOffset shmOffset (s.shm c)
    some (shm, s.setShm c t)
  | .checkSharedBufferExist c buffer => some ((s.shm c).shrdMemList.any (·.buffer = buffer), s)
  | .findAndRemoveShrMem c callFromService shm =>
    let (b, t) := teecFindAndRemoveShrMemInner callFromService shm (s.shm c)
    some (b.map (·.id), s.setShm c t)
  | .unlinkShm c b =>
    some ((), s.setShm c ((s.shm c).modify b fun x => { x with listed := false }))
  | .atomDecShm c b =>
    some ((s.findShm c b).elim false fun x => decide (x.opsCnt - 1 = 0),
      s.setShm c ((s.shm c).modify b fun x => { x with opsCnt := x.opsCnt - 1 }))
  | .releaseShm c b =>
    let s' := s.countFree c b
    some ((), (s.findShm c b).elim s' fun x => s'.setShm c (releaseSharedMemory x (s.shm c)))

end Objects

def exec {P : Type} [DecidableEq P] [Zero P] (s : World P) (env : Env P) :
    (a : Act P) → Option (Resp a × World P)
  | .core a => (s.core.exec env a).map fun (r, core) => (r, { s with core })
  | .obj a => (s.objs.exec env a).map fun (r, objs) => (r, { s with objs })

end TeeClient.Vendor
