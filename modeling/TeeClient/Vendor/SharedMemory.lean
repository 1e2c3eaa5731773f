import Mathlib.Tactic
import TeeClient.Types
import TeeClient.Vendor.Bitmap

/-! The shared-memory blocks of a `TEEC_ContextInner`: `shrd_mem_list`, `shm_bitmap`
and the functions of `tee_client_api.c` that change them.  `P` is the type of
pointers; what `malloc`, `mmap` and `memset_s` give is an argument. -/

namespace TeeClient.Vendor

/-- `TEEC_SharedMemoryInner`.  `id` stands for the address of the structure, and
`listed` says whether its `head` is linked into the list. -/
structure SharedMemoryInner (P : Type) where
  id : Nat
  buffer : P
  size : U32
  flags : U32
  opsCnt : Nat
  isAllocated : Bool
  offset : U32
  listed : Bool
  deriving DecidableEq, Repr

/-- The blocks of a context that are not freed, in the order of `shrd_mem_list`, and
its `shm_bitmap`. -/
structure ShmTable (P : Type) where
  blocks : List (SharedMemoryInner P)
  bitmap : Bitmap
  nextId : Nat
  deriving DecidableEq

/-- What the caller of `AllocateSharedMemory`, `RegisterSharedMemory` or
`ReleaseSharedMemory` fills in. -/
structure ShmArgs (P : Type) where
  buffer : P
  size : U32
  flags : U32
  isAllocated : Bool
  offset : U32
  deriving DecidableEq, Repr

/-- What the system answers to an allocation: `MallocShrMemInner`, the buffer from
`mmap` or `malloc`, which is never null, and `memset_s`. -/
structure AllocOutcome (P : Type) [Zero P] where
  mallocInner : Bool
  buffer : Option { p : P // p ≠ 0 }
  memset : Bool

def numOfSharememBitmap : Nat := 8

def maxSharedmemLen : U32 := 0x10000000

namespace ShmTable

variable {P : Type}

def init : ShmTable P where
  blocks := []
  bitmap := List.replicate numOfSharememBitmap 0
  nextId := 0

def shrdMemList (t : ShmTable P) : List (SharedMemoryInner P) := t.blocks.filter (·.listed)

def insert (t : ShmTable P) (shm : ShmArgs P) (isAllocated : Bool) (offset : U32) : ShmTable P :=
  let block := {
    id := t.nextId
    buffer := shm.buffer
    size := shm.size
    flags := shm.flags
    opsCnt := 2
    isAllocated, offset
    listed := true }
  { t with blocks := t.blocks ++ [block], nextId := t.nextId + 1 }

def modify (t : ShmTable P) (id : Nat) (f : SharedMemoryInner P → SharedMemoryInner P) :
    ShmTable P :=
  { t with blocks := t.blocks.map fun b => if b.id = id then f b else b }

end ShmTable

section Blocks

variable {P : Type} [DecidableEq P] [Zero P] [OfNat P 16]

def sharedMemoryFlags (flags : U32) : Bool :=
  flags = memInput ∨ flags = memOutput ∨ flags = memInout

def checkSharedMemoryParam (flags : U32) : TeecResult :=
  if sharedMemoryFlags flags ∨ flags = memSharedInout then .success else .errorBadParameters

def allocateBuffer (out : AllocOutcome P) (shm : ShmArgs P) : Except TeecResult P :=
  if shm.flags = memSharedInout then
    -- `AllocateSharedMem`
    if shm.size = 0 ∨ maxSharedmemLen < shm.size then .error .errorBadParameters
    else
      match out.buffer with
      | none => .error .errorOutOfMemory
      | some p => if out.memset then .ok p.val else .error .errorSecurity
  else if shm.size = 0 then .ok 16
  else
    match out.buffer with
    | none => .error .errorOutOfMemory
    | some p => .ok p.val

def teecAllocateSharedMemoryInner (out : AllocOutcome P) (shm : ShmArgs P) (t : ShmTable P) :
    TeecResult × ShmTable P :=
  if checkSharedMemoryParam shm.flags = .success then
    match getAndSetBit t.bitmap with
    | (none, _) => (.errorBadParameters, t)
    | (some validBit, bitmap) =>
      match allocateBuffer out shm with
      | .error e => (e, { t with bitmap := clearBit validBit bitmap })
      | .ok buffer =>
        (.success, { t with bitmap }.insert { shm with buffer } true (BitVec.ofNat 32 validBit))
  else (.errorBadParameters, t)

def teecRegisterSharedMemoryInner (shm : ShmArgs P) (t : ShmTable P) : TeecResult × ShmTable P :=
  if shm.buffer = 0 ∨ sharedMemoryFlags shm.flags = false then (.errorBadParameters, t)
  else (.success, t.insert shm false uint32Max)

def releaseSharedMemory (b : SharedMemoryInner P) (t : ShmTable P) : ShmTable P :=
  { t with
    blocks := t.blocks.filter (·.id ≠ b.id)
    bitmap := if b.isAllocated = true ∧ b.buffer ≠ 0 then clearBit b.offset.toNat t.bitmap
      else t.bitmap }

def putBnShrMem (id : Nat) (t : ShmTable P) : ShmTable P :=
  match t.blocks.find? (·.id = id) with
  | none => t
  | some b =>
    if b.opsCnt = 1 then releaseSharedMemory b t
    else t.modify id fun b => { b with opsCnt := b.opsCnt - 1 }

def getBnShmByOffset (shmOffset : U32) (t : ShmTable P) :
    Option (SharedMemoryInner P) × ShmTable P :=
  match t.shrdMemList.find? (·.offset = shmOffset) with
  | none => (none, t)
  | some b => (some b, t.modify b.id fun b => { b with opsCnt := b.opsCnt + 1 })

/-- The test of `TEEC_FindAndRemoveShrMemInner`; every block of the list belongs to
the context that is searched. -/
def matchesArgs (callFromService : Bool) (shm : ShmArgs P) (b : SharedMemoryInner P) : Bool :=
  if callFromService && shm.isAllocated then b.offset = shm.offset else b.buffer = shm.buffer

def teecFindAndRemoveShrMemInner (callFromService : Bool) (shm : ShmArgs P) (t : ShmTable P) :
    Option (SharedMemoryInner P) × ShmTable P :=
  match t.shrdMemList.find? (matchesArgs callFromService shm) with
  | none => (none, t)
  | some b => (some b, t.modify b.id fun b => { b with listed := false })

def teecReleaseSharedMemoryInner (callFromService : Bool) (shm : ShmArgs P) (t : ShmTable P) :
    ShmTable P :=
  match teecFindAndRemoveShrMemInner callFromService shm t with
  | (none, t) => t
  | (some b, t) => putBnShrMem b.id t

def releaseBlocks : List (SharedMemoryInner P) → ShmTable P → ShmTable P
  | [], t => t
  | b :: bs, t =>
    releaseBlocks bs (putBnShrMem b.id (t.modify b.id fun b => { b with listed := false }))

def finalizeShms (t : ShmTable P) : ShmTable P := releaseBlocks t.shrdMemList t

end Blocks

section Api

variable {P : Type} [DecidableEq P] [Zero P] [OfNat P 16]

def teecAllocateSharedMemory (out : AllocOutcome P) (shm : ShmArgs P) (t : ShmTable P) :
    TeecResult × ShmTable P :=
  if out.mallocInner then
    match teecAllocateSharedMemoryInner out shm t with
    | (.success, t') => (.success, putBnShrMem t.nextId t')
    | (e, t') => (e, t')
  else (.fail, t)

def teecRegisterSharedMemory (mallocInner : Bool) (shm : ShmArgs P) (t : ShmTable P) :
    TeecResult × ShmTable P :=
  if mallocInner then
    match teecRegisterSharedMemoryInner shm t with
    | (.success, t') => (.success, putBnShrMem t.nextId t')
    | (e, t') => (e, t')
  else (.fail, t)

def teecReleaseSharedMemory (callFromService : Bool) (shm : ShmArgs P) (t : ShmTable P) :
    ShmTable P :=
  teecReleaseSharedMemoryInner callFromService shm t

end Api

structure ShmContext (P : Type) where
  fd : Int
  callFromService : Bool
  shm : ShmTable P
  deriving DecidableEq

inductive ShmCall (P : Type) [Zero P]
  | initializeContext (fd : Int) (callFromService : Bool)
  | allocateSharedMemory (fd : Int) (out : AllocOutcome P) (shm : ShmArgs P)
  | registerSharedMemory (fd : Int) (mallocInner : Bool) (shm : ShmArgs P)
  | releaseSharedMemory (fd : Int) (shm : ShmArgs P)
  | finalizeContext (fd : Int)

section Calls

variable {P : Type} [DecidableEq P] [Zero P] [OfNat P 16]

def updateContext (fd : Int) (f : ShmContext P → ShmContext P) :
    List (ShmContext P) → List (ShmContext P)
  | [] => []
  | c :: cs => if c.fd = fd then f c :: cs else c :: updateContext fd f cs

def finalizeContext (fd : Int) : List (ShmContext P) → List (ShmContext P)
  | [] => []
  | c :: cs => if c.fd = fd then cs else c :: finalizeContext fd cs

/-- One call, run to its end.  A call on a descriptor without a context fails. -/
def runShmCall (call : ShmCall P) (cs : List (ShmContext P)) : List (ShmContext P) :=
  match call with
  | .initializeContext fd callFromService => cs ++ [{ fd, callFromService, shm := .init }]
  | .allocateSharedMemory fd out shm =>
    updateContext fd (fun c => { c with shm := (teecAllocateSharedMemory out shm c.shm).2 }) cs
  | .registerSharedMemory fd mallocInner shm =>
    updateContext fd (fun c => { c with shm := (teecRegisterSharedMemory mallocInner shm c.shm).2 })
      cs
  | .releaseSharedMemory fd shm =>
    updateContext fd
      (fun c => { c with shm := teecReleaseSharedMemory c.callFromService shm c.shm }) cs
  | .finalizeContext fd => finalizeContext fd cs

end Calls

/-- A `TEEC_SharedMemory`, with its `TEEC_Context` by the descriptor.  The offset is what the
service answers beside it. -/
structure CallerShm (P : Type) where
  args : ShmArgs P
  context : Option Int

/-- The contexts and the structures of their user, by numbers.  `made` is the block that the last
`Allocate` or `Register` of a structure has put into a context, while it is there. -/
structure ShmRun (P : Type) where
  contexts : List (ShmContext P)
  structures : Nat → CallerShm P
  made : Nat → Option (Int × Nat)

inductive CallerCall (P : Type) [Zero P]
  | initializeContext (fd : Int) (callFromService : Bool)
  | allocateSharedMemory (fd : Int) (out : AllocOutcome P) (sharedMem : Nat) (shm : ShmArgs P)
  | registerSharedMemory (fd : Int) (mallocInner : Bool) (sharedMem : Nat) (shm : ShmArgs P)
  | releaseSharedMemory (sharedMem : Nat)
  | finalizeContext (fd : Int)

namespace ShmRun

variable {P : Type} [DecidableEq P] [Zero P] [OfNat P 16]

def start : ShmRun P where
  contexts := []
  structures _ :=
    { args := { buffer := 0, size := 0, flags := 0, isAllocated := false, offset := 0 }
      context := none }
  made _ := none

def created (fd : Int) (before after : List (ShmContext P)) : Option (SharedMemoryInner P) := do
  let c ← before.find? (·.fd = fd)
  let c' ← after.find? (·.fd = fd)
  c'.shm.blocks.find? (·.id = c.shm.nextId)

/-- `TEEC_AllocateSharedMemory` and `TEEC_RegisterSharedMemory` of a structure: it gets its context
at once, and the fields of its block when there is one. -/
def fill (r : ShmRun P) (fd : Int) (sharedMem : Nat) (shm : ShmArgs P)
    (contexts : List (ShmContext P)) : ShmRun P :=
  let block := created fd r.contexts contexts
  let args := block.elim shm fun b =>
    { shm with buffer := b.buffer, isAllocated := b.isAllocated, offset := b.offset }
  { contexts
    structures := Function.update r.structures sharedMem { args, context := some fd }
    made := Function.update r.made sharedMem (block.map fun b => (fd, b.id)) }

def release (r : ShmRun P) (sharedMem : Nat) : ShmRun P :=
  let shm := r.structures sharedMem
  match shm.context with
  | none => r
  | some fd =>
    let args := { shm.args with buffer := 0, size := 0, flags := 0 }
    { contexts := runShmCall (.releaseSharedMemory fd shm.args) r.contexts
      structures := Function.update r.structures sharedMem { args, context := none }
      made := Function.update r.made sharedMem none }

def exec (r : ShmRun P) : CallerCall P → ShmRun P
  | .initializeContext fd callFromService =>
    { r with contexts := runShmCall (.initializeContext fd callFromService) r.contexts }
  | .allocateSharedMemory fd out sharedMem shm =>
    r.fill fd sharedMem shm (runShmCall (.allocateSharedMemory fd out shm) r.contexts)
  | .registerSharedMemory fd mallocInner sharedMem shm =>
    r.fill fd sharedMem shm (runShmCall (.registerSharedMemory fd mallocInner shm) r.contexts)
  | .releaseSharedMemory sharedMem => r.release sharedMem
  | .finalizeContext fd => { r with contexts := runShmCall (.finalizeContext fd) r.contexts }

def call (r : ShmRun P) (c : CallerCall P) : ShmRun P :=
  { r.exec c with
    made := fun sharedMem => ((r.exec c).made sharedMem).filter fun x =>
      (r.exec c).contexts.any fun c => c.fd = x.1 && c.shm.blocks.any (·.id = x.2) }

def Along (p : ShmRun P → CallerCall P → Prop) : ShmRun P → List (CallerCall P) → Prop
  | _, [] => True
  | r, call :: calls => p r call ∧ Along p (r.call call) calls

def Fresh (r : ShmRun P) : CallerCall P → Prop
  | .initializeContext fd _ => fd ∉ r.contexts.map (·.fd)
  | _ => True

/-- The first block of the context that answers to a structure that is released is the
structure's own. -/
def Aimed (r : ShmRun P) : CallerCall P → Prop
  | .releaseSharedMemory sharedMem => ∀ c ∈ r.contexts,
    (r.structures sharedMem).context = some c.fd →
      (c.shm.shrdMemList.find?
        (matchesArgs c.callFromService (r.structures sharedMem).args)).map (c.fd, ·.id) =
        r.made sharedMem
  | _ => True

instance (r : ShmRun P) : (call : CallerCall P) → Decidable (r.Fresh call)
  | .initializeContext fd _ => inferInstanceAs (Decidable (fd ∉ r.contexts.map (·.fd)))
  | .allocateSharedMemory _ _ _ _ | .registerSharedMemory _ _ _ _ | .releaseSharedMemory _
  | .finalizeContext _ => .isTrue trivial

instance (r : ShmRun P) : (call : CallerCall P) → Decidable (r.Aimed call)
  | .releaseSharedMemory sharedMem => inferInstanceAs (Decidable (∀ c ∈ r.contexts,
      (r.structures sharedMem).context = some c.fd →
        (c.shm.shrdMemList.find?
          (matchesArgs c.callFromService (r.structures sharedMem).args)).map (c.fd, ·.id) =
          r.made sharedMem))
  | .initializeContext _ _ | .allocateSharedMemory _ _ _ _ | .registerSharedMemory _ _ _ _
  | .finalizeContext _ => .isTrue trivial

instance decidableAlong {p : ShmRun P → CallerCall P → Prop} [∀ r call, Decidable (p r call)] :
    (r : ShmRun P) → (calls : List (CallerCall P)) → Decidable (Along p r calls)
  | _, [] => .isTrue trivial
  | r, call :: calls =>
    have : Decidable (Along p (r.call call) calls) := decidableAlong (r.call call) calls
    inferInstanceAs (Decidable (p r call ∧ Along p (r.call call) calls))

end ShmRun

end TeeClient.Vendor
