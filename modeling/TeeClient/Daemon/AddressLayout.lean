import Mathlib.Tactic
import TeeClient.Daemon.Service

/-! What a CA reads of the replies of a daemon whose memory lies somewhere.  The requests of
`Service` run on addresses that say where they come from; here they get numbers. -/

namespace TeeClient.Daemon

/-- The number that an address is, when `place` says where the daemon's memory lies. -/
def Addr.value (place : Region → BitVec 64) : Addr → BitVec 64
  | .raw w => w
  | .within r k => place r + BitVec.ofNat 64 k

def Addr.IsRaw (p : Addr) : Prop := ∃ w, p = .raw w

end TeeClient.Daemon

namespace TeeClient.Daemon.Service

open Vendor Vendor.Api Stub
open Resumption

/-- Where a daemon's memory lies, which of its addresses a number is, and what its memory and its
stack hold. -/
structure Layout where
  place : Region → BitVec 64
  named : BitVec 64 → Addr
  memory : BitVec 64 → SharedMemory Addr
  stack : Operation Addr
  value_named : ∀ w, (named w).value place = w

/-- The bytes of a slot, with the number that an address is. -/
def Layout.number (L : Layout) (p : Parameter Addr) : Parameter Addr :=
  match p.ptr with
  | .raw _ => p
  | .within _ _ =>
    RawParameter.view .raw { word := p.ptr.value L.place, size := p.size, offset := p.offset }

/-- What the CA reads of what the daemon has written. -/
def Layout.read (L : Layout) : ReplyItem → ReplyItem
  | .operation op => .operation { op with params := fun i => L.number (op.params i) }
  | item => item

structure Received where
  message : IpcMessage
  envs : List (Env Addr)

/-- The replies to the requests of one CA, as it reads them; `layout n` is the layout while the
daemon is at the `n`-th request. -/
def replies (identity : CallerIdentity) (teeVersion : U32) :
    (Nat → Layout) → List Received → World Addr → Option (List (StubResult × Reply))
  | _, [], _ => some []
  | layout, x :: xs, w =>
    (solo exec x.envs w (onRemoteRequest (layout 0).stack (layout 0).memory (layout 0).named
      identity teeVersion x.message)).bind fun ((ret, reply), w') =>
        (replies identity teeVersion (fun n => layout (n + 1)) xs w').map
          ((ret, reply.map (layout 0).read) :: ·)

end TeeClient.Daemon.Service
