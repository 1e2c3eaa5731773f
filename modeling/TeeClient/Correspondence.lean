import Mathlib.Tactic
import TeeClient.Client.SharedMemory
import TeeClient.Vendor.SharedMemory

/-! The shared memory of one client application, in `libteec` and in `cadaemon`: which block
of the daemon a release removes. -/

namespace TeeClient.Correspondence

open Vendor Client

section Requests

variable {P : Type} [DecidableEq P] [Zero P] [OfNat P 16]

def getBnContext (fd : Int) (cs : List (ShmContext P)) : Option (ShmContext P) :=
  if fd < 0 then none else cs.find? (·.fd = fd)

def shmReply (id : Nat) (t : ShmTable P) : Except TeecResult ShmReply :=
  match t.blocks.find? (·.id = id) with
  | some outShm =>
    .ok { opsCnt := BitVec.ofNat 32 outShm.opsCnt, isAllocated := outShm.isAllocated,
          offset := outShm.offset }
  | none => .error .fail

def serveAllocate (out : AllocOutcome P) (fd : Int) (sharedMem : ShmArgs P)
    (cs : List (ShmContext P)) : Except TeecResult ShmReply × List (ShmContext P) :=
  match getBnContext fd cs with
  | none => (.error .fail, cs)
  | some c =>
    if out.mallocInner then
      match teecAllocateSharedMemoryInner out sharedMem c.shm with
      | (.success, t) =>
        -- the reply is written before the reference is put
        (shmReply c.shm.nextId t,
          updateContext fd (fun c' => { c' with shm := putBnShrMem c.shm.nextId t }) cs)
      | (ret, t) => (.error ret, updateContext fd (fun c' => { c' with shm := t }) cs)
    else (.error .fail, cs)

def serveRegister (mallocInner : Bool) (fd : Int) (sharedMem : ShmArgs P)
    (cs : List (ShmContext P)) : Except TeecResult ShmReply × List (ShmContext P) :=
  match getBnContext fd cs with
  | none => (.error .fail, cs)
  | some c =>
    if mallocInner then
      match teecRegisterSharedMemoryInner sharedMem c.shm with
      | (.success, t) =>
        let t := putBnShrMem c.shm.nextId t
        (shmReply c.shm.nextId t, updateContext fd (fun c' => { c' with shm := t }) cs)
      | (ret, t) => (.error ret, updateContext fd (fun c' => { c' with shm := t }) cs)
    else (.error .fail, cs)

def serveRelease (fd : Int) (sharedMem : ShmArgs P) (cs : List (ShmContext P)) :
    List (ShmContext P) :=
  match getBnContext fd cs with
  | none => cs
  | some c =>
    let t := teecReleaseSharedMemoryInner c.callFromService sharedMem c.shm
    updateContext fd (fun c' => { c' with shm := t }) cs

def serveFinalize (fd : Int) (cs : List (ShmContext P)) : List (ShmContext P) :=
  match getBnContext fd cs with
  | none => cs
  | some _ => Vendor.finalizeContext fd cs

end Requests

/-- A client application and the contexts of it that `cadaemon` has. -/
structure Joint where
  ca : Ca
  contexts : List (ShmContext Nat)

inductive CaCall
  | initializeContext (reply : Option Int) (context : Nat)
  | finalizeContext (context : Nat)
  | registerSharedMemory (mallocInner : Bool) (context shm : Nat) (sharedMem : SharedMemory Nat)
  | allocateSharedMemory (out : AllocOutcome Nat) (map : MapOutcome) (context shm : Nat)
      (sharedMem : SharedMemory Nat)
  | releaseSharedMemory (shm : Nat)

/-- The copy of a structure that a request carries, with the offset beside it. -/
def shmArgs (sharedMem : SharedMemory Nat) (offset : U32) : ShmArgs Nat where
  buffer := sharedMem.buffer
  size := sharedMem.size
  flags := sharedMem.flags
  isAllocated := sharedMem.isAllocated
  offset

namespace Joint

def start : Joint where
  ca := {
    contextFd := fun _ => -1
    sharedMem := fun _ => { buffer := 0, size := 0, flags := 0, opsCnt := 0, isAllocated := false,
                            context := none }
    mShareMem := [] }
  contexts := []

def fill (ca : Ca) (shm : Nat) (sharedMem : SharedMemory Nat) : Ca :=
  ca.setShm shm { sharedMem with context := none }

def call (σ : Joint) : CaCall → Joint
  | .initializeContext reply context =>
    let contexts := match reply with
      | none => σ.contexts
      | some fd => σ.contexts ++ [{ fd, callFromService := true, shm := .init }]
    { ca := initializeContext reply context σ.ca, contexts }
  | .finalizeContext context =>
    let (ca, contexts) := Client.finalizeContext serveFinalize context σ.ca σ.contexts
    { ca, contexts }
  | .registerSharedMemory mallocInner context shm sharedMem =>
    let (_, ca, contexts) := registerSharedMemory
      (fun fd sharedMem => serveRegister mallocInner fd (shmArgs sharedMem 0)) context shm
      (fill σ.ca shm sharedMem) σ.contexts
    { ca, contexts }
  | .allocateSharedMemory out map context shm sharedMem =>
    let (_, ca, contexts) := allocateSharedMemory
      (fun fd sharedMem => serveAllocate out fd (shmArgs sharedMem 0)) map context shm
      (fill σ.ca shm sharedMem) σ.contexts
    { ca, contexts }
  | .releaseSharedMemory shm =>
    let (ca, contexts) := releaseSharedMemory
      (fun fd sharedMem shmOffset => serveRelease fd (shmArgs sharedMem shmOffset)) shm σ.ca
      σ.contexts
    { ca, contexts }

def liveBlocks (cs : List (ShmContext Nat)) : List (Int × SharedMemoryInner Nat) :=
  cs.flatMap fun c => c.shm.shrdMemList.map (c.fd, ·)

/-- What the kernel and the application keep to: a descriptor or an address in use is not handed
out again, a `TEEC_Context` in use is not initialised, and registered buffers are distinct. -/
def Allowed (σ : Joint) : CaCall → Prop
  | .initializeContext reply context =>
    σ.ca.contextFd context = -1 ∧ ∀ fd, reply = some fd → 0 ≤ fd ∧ fd ∉ σ.contexts.map (·.fd)
  | .allocateSharedMemory _ map _ _ _ => ∀ p, map.mapped = some p →
    p ≠ 0 ∧ p ≠ zeroSizePtr ∧ ∀ e ∈ σ.ca.mShareMem, e.size ≠ 0 → e.buffer ≠ p
  | .registerSharedMemory _ context _ sharedMem => ∀ b ∈ liveBlocks σ.contexts,
    b.1 = σ.ca.contextFd context → b.2.isAllocated = false → b.2.buffer ≠ sharedMem.buffer
  | _ => True

end Joint

/-- The two, and for every `TEEC_SharedMemory` the block that its last `Allocate` or `Register`
has made, while the daemon has it. -/
structure Run where
  joint : Joint
  made : Nat → Option (Int × SharedMemoryInner Nat)

namespace Run

open Joint

def start : Run := ⟨.start, fun _ => none⟩

def created (before after : List (ShmContext Nat)) : Option (Int × SharedMemoryInner Nat) :=
  (liveBlocks after).find? (· ∉ liveBlocks before)

def call (r : Run) (c : CaCall) : Run :=
  let joint := r.joint.call c
  let kept (shm : Nat) := (r.made shm).filter (· ∈ liveBlocks joint.contexts)
  let made := match c with
    | .allocateSharedMemory _ _ _ shm _ | .registerSharedMemory _ _ shm _ =>
      Function.update kept shm (created r.joint.contexts joint.contexts)
    | _ => kept
  { joint, made }

/-- A call that nothing misleads.  A block is mapped for the application, too.  No block without
bytes is left in a context that is finalised.  A release of an allocated block finds its own entry
first, one of a registered buffer no mapping of the daemon at that address; a structure without
a block names nobody else's. -/
def Aimed (r : Run) : CaCall → Prop
  | .allocateSharedMemory _ map _ _ sharedMem =>
    map.readFd = true ∧ (sharedMem.size ≠ 0 → map.mapped.isSome)
  | .finalizeContext context => ∀ e ∈ r.joint.ca.mShareMem,
    e.fd = r.joint.ca.contextFd context → e.size ≠ 0
  | .releaseSharedMemory shm =>
    let sharedMem := r.joint.ca.sharedMem shm
    let found := r.joint.ca.mShareMem.find? (·.buffer = sharedMem.buffer)
    match r.made shm, sharedMem.context with
    | some (fd, b), _ =>
      if b.isAllocated then b.size = 0 → ∀ e ∈ found, e.fd = fd ∧ e.offset = b.offset
      else ∀ d ∈ (liveBlocks r.joint.contexts).find? fun d =>
        d.1 = fd ∧ d.2.buffer = sharedMem.buffer, d.2.isAllocated = false
    | none, some context =>
      let here := (liveBlocks r.joint.contexts).filter (·.1 = r.joint.ca.contextFd context)
      if sharedMem.isAllocated then
        (sharedMem.buffer ≠ 0 → found = none) ∧ ∀ d ∈ here, d.2.isAllocated = true
      else ∀ d ∈ here, d.2.buffer ≠ sharedMem.buffer
    | none, none => True
  | _ => True

inductive Reaches (ok : Run → CaCall → Prop) : Run → Prop
  | start : Reaches ok .start
  | call {r : Run} {c : CaCall} :
    Reaches ok r → r.joint.Allowed c → ok r c → Reaches ok (r.call c)

/-- The entries of `mShareMem` are the allocated blocks of the daemon, one for one. -/
def Corresponds (σ : Joint) : Prop :=
  (σ.ca.mShareMem.map fun e => (e.fd, e.offset)).Perm
    (((liveBlocks σ.contexts).filter (·.2.isAllocated)).map fun b => (b.1, b.2.offset))

/-- A release removes the block that the structure was given for, and no other. -/
def Removes (r : Run) (shm : Nat) : Prop :=
  liveBlocks (r.call (.releaseSharedMemory shm)).joint.contexts =
    (liveBlocks r.joint.contexts).filter fun b => r.made shm ≠ some b

end Run

end TeeClient.Correspondence
