import Mathlib.Tactic
import TeeClient.Daemon.ServiceLaws
import TeeClient.Vendor.ObjectLifetime

/-! The references that a request has to contexts, sessions and blocks, action by action.  A
request also keeps what its last action took, which context it has inserted without marking it
as the service's, whether `GetBnShmByOffset` has given it a block and whether `AddTidData` has
succeeded; it is `lost` once it has forgotten a reference, and `stray` after an answer that no
run gives. -/

namespace TeeClient.Daemon.References

open Vendor Vendor.Api Stub Service
open Resumption RefCount

section Holdings

inductive Took
  | nothing
  | context
  | session
  deriving DecidableEq

structure Holding where
  contexts : List (Ref Nat)
  objects : List (Ref Shared)
  took : Took
  unmarked : Option Nat
  found : Bool
  served : Bool
  lost : Bool
  stray : Bool

def updObjects (l : List (Ref Shared)) : (a : Act Addr) → Resp a → List (Ref Shared)
  | .core _, _ => l
  | .obj a, r => updAll l (objEvents l a r)

def tookBy : (a : Act Addr) → Resp a → Took
  | .core (.getBnContext _), r => if Option.isSome r then .context else .nothing
  | .obj (.findAndRemoveSession _ _), r => if Option.isSome r then .session else .nothing
  | _, _ => .nothing

def updUnmarked (u : Option Nat) : Act Addr → Option Nat
  | .core (.insertContext c) => some c
  | .core (.setCallFromService c) => if u = some c then none else u
  | _ => u

def findsBlock : (a : Act Addr) → Resp a → Bool
  | .obj (.getBnShmByOffset _ _), r => Option.isSome r
  | _, _ => false

def addsTidData : (a : Act Addr) → Resp a → Bool
  | .core .addTidData, r => r
  | _, _ => false

def mallocFails (l : Holding) : (a : Act Addr) → Resp a → Bool
  | .core .outcome, r => !r && decide (l.took = .context)
  | _, _ => false

/-- The branches that forget a reference.  `OpenSession` frees its session before `AddTidData` has
succeeded: `GetTeecOptMem` or `AddTidData` has failed.  `InvokeCommand` puts its session in that
case, although it has been given a block.  `CloseSession` returns when `AddTidData` fails. -/
def forgets (l : Holding) : (a : Act Addr) → Resp a → Bool
  | .core .addTidData, r => !r && decide (l.took = .session)
  | .obj (.freeSession _ _), _ => !l.served
  | .obj (.atomDecSession _ _), _ => !l.served && l.found
  | _, _ => false

/-- A context that is finalised was not marked as the service's. -/
def strays (l : Holding) : (a : Act Addr) → Resp a → Bool
  | .core (.readCallFromService c), r => !r && decide (.fin c ∈ l.contexts)
  | _, _ => false

def holdings : Machine (Act Addr) Resp (World Addr) (Env Addr) Holding where
  exec := exec
  upd l a r := {
    contexts := (refMachine Addr).upd l.contexts a r
    objects := updObjects l.objects a r
    took := tookBy a r
    unmarked := updUnmarked l.unmarked a
    found := l.found || findsBlock a r
    served := l.served || addsTidData a r
    lost := l.lost || mallocFails l a r || forgets l a r
    stray := l.stray || strays l a r }

/-- Actions that some requests perform on an object after they have put it. -/
def late : Act Addr → Bool
  | .core (.readContextFd _) | .obj (.readShm _ _) | .obj (.unlinkShm _ _)
  | .obj (.releaseShm _ _) => true
  | _ => false

def Held (l : List (Ref Shared)) : ObjAct Addr → Prop
  | .addSessionList c n _ => .own (.session c n) ∈ l
  | .freeSession c n => .own (.session c n) ∈ l ∨ .hold (.session c n) ∈ l
  | .atomDecSession c n => .hold (.session c n) ∈ l ∨ .removed (.session c n) ∈ l
  | .releaseSession c n => .fin (.session c n) ∈ l
  | .readSession c n | .clearSession c n => ∃ t ∈ l, t.obj = .session c n
  | .insertShm c b _ _ _ | .freeShm c b => .own (.shm c b) ∈ l
  | .atomDecShm c b => .hold (.shm c b) ∈ l ∨ .removed (.shm c b) ∈ l
  | .releaseShm c b => .fin (.shm c b) ∈ l
  | _ => True

structure Pre (l : Holding) (a : Act Addr) : Prop where
  covered : ∀ b, a = .core b → ∀ r, Covered l.contexts (ctxEvents b r)
  held : ∀ b, a = .obj b → Held l.objects b
  contexts : ∀ c ∈ pointees a, (late a = true ∧ l.contexts = []) ∨ ∃ t ∈ l.contexts, t.obj = c
  inits : ∀ c, a = .obj (.initLists c) → .init c ∈ l.contexts
  mallocs : ∀ c, a = .obj (.mallocSession c) ∨ a = .obj (.mallocShm c) → .hold c ∈ l.contexts
  marked : ∀ c, a = .core (.atomDecContext c) ∨ a = .core (.insertContext c) → l.unmarked = none

def HoldPre (l : Holding) (a : Act Addr) : Prop := l.stray = true ∨ Pre l a

/-- How far a request has come: `AddTidData` has not succeeded, and maybe a block was found; or
nothing is known; or a reference is forgotten. -/
inductive Past
  | begun
  | found
  | served
  | lost

def Past.Of : Past → Holding → Prop
  | .begun, l => l.served = false
  | .found, l => l.served = false ∧ l.found = true
  | .served, _ => True
  | .lost, l => l.lost = true

def Past.put : Past → Past
  | .found => .lost
  | past => past

structure Stage where
  contexts : List (Ref Nat)
  objects : List (Ref Shared)
  unmarked : Option Nat
  past : Past

def having (contexts : List (Ref Nat)) (objects : List (Ref Shared)) : Stage :=
  ⟨contexts, objects, none, .begun⟩

structure At (g : Stage) (l : Holding) : Prop where
  contexts : l.contexts = g.contexts
  objects : l.objects.Perm g.objects
  unmarked : l.unmarked = g.unmarked
  past : g.past.Of l

def Stands (g : Stage) (l : Holding) : Prop := l.stray = true ∨ At g l

def Leads {α : Type} (g : Stage) (p : Program Addr α) (post : α → Stage) : Prop :=
  ∀ l, Stands g l → Safe holdings HoldPre l p fun x l' => Stands (post x) l'

/-- A request that ends has put its references, or forgotten some. -/
def Settled (l : Holding) : Prop :=
  l.stray = true ∨ l.lost = true ∨ l.contexts = [] ∧ l.objects = []

def Ends {α : Type} (g : Stage) (p : Program Addr α) : Prop :=
  ∀ l, Stands g l → Safe holdings HoldPre l p fun _ l' => Settled l'

end Holdings

section Rules

variable {α β : Type} {g : Stage} {post : α → Stage} {p : Program Addr α}

theorem stray_upd {l : Holding} (h : l.stray = true) (a : Act Addr) (r : Resp a) :
    (holdings.upd l a r).stray = true := by
  simp [holdings, h]

theorem Leads.pure {x : α} (h : post x = g) : Leads g (.pure x) post := by
  intro l hl
  rw [safe_pure, h]
  exact hl

theorem Leads.bind {f : α → Program Addr β} {m : α → Stage} {post : β → Stage}
    (hp : Leads g p m) (hf : ∀ x, Leads (m x) (f x) post) : Leads g (p.bind f) post :=
  fun l hl => safe_bind.mpr ((hp l hl).mono fun x l' hl' => hf x l' hl')

theorem Ends.bind {f : α → Program Addr β} (hp : Leads g p post)
    (hf : ∀ x, Ends (post x) (f x)) : Ends g (p.bind f) :=
  fun l hl => safe_bind.mpr ((hp l hl).mono fun x l' hl' => hf x l' hl')

theorem Stands.settled {l : Holding} (h : Stands g l)
    (hg : g.past = .lost ∨ g.contexts = [] ∧ g.objects = []) : Settled l := by
  refine h.imp_right fun hat => ?_
  rcases hg with hlost | ⟨hctx, hobj⟩
  · have hpast := hat.past
    rw [hlost] at hpast
    exact .inl hpast
  · exact .inr ⟨hat.contexts.trans hctx, (hobj ▸ hat.objects).eq_nil⟩

theorem Leads.ite {b : Prop} [Decidable b] {q : Program Addr α} (hp : b → Leads g p post)
    (hq : ¬ b → Leads g q post) : Leads g (if b then p else q) post := by
  split_ifs with h
  · exact hp h
  · exact hq h

theorem Ends.perm {cs : List (Ref Nat)} {os os' : List (Ref Shared)} {u : Option Nat}
    {past : Past} (h : os.Perm os') (hp : Ends ⟨cs, os', u, past⟩ p) : Ends ⟨cs, os, u, past⟩ p :=
  fun l hl => hp l (hl.imp_right fun hat => ⟨hat.1, hat.2.trans h, hat.3, hat.4⟩)

theorem Ends.pure {x : α} (hg : g.past = .lost ∨ g.contexts = [] ∧ g.objects = []) :
    Ends g (.pure x : Program Addr α) := fun _ hl => hl.settled hg

theorem Ends.ite {b : Prop} [Decidable b] {q : Program Addr α} (hp : b → Ends g p)
    (hq : ¬ b → Ends g q) : Ends g (if b then p else q) := by
  split_ifs with h
  · exact hp h
  · exact hq h

structure Moves (g : Stage) (a : Act Addr) (next : Resp a → Stage) : Prop where
  pre : ∀ l, At g l → Pre l a
  upd : ∀ l r, At g l → Stands (next r) (holdings.upd l a r)

theorem Moves.stands {a : Act Addr} {next : Resp a → Stage} (h : Moves g a next) {l : Holding}
    (hl : Stands g l) : HoldPre l a ∧ ∀ r, Stands (next r) (holdings.upd l a r) := by
  rcases hl with hstray | hat
  · exact ⟨.inl hstray, fun r => .inl (stray_upd hstray a r)⟩
  · exact ⟨.inr (h.pre l hat), fun r => h.upd l r hat⟩

theorem Leads.act {a : Act Addr} {k : Resp a → Program Addr α} {next : Resp a → Stage}
    (h : Moves g a next) (hk : ∀ r, Leads (next r) (k r) post) : Leads g (.act a k) post :=
  fun _ hl => ⟨(h.stands hl).1, fun r => hk r _ ((h.stands hl).2 r)⟩

theorem Ends.act {a : Act Addr} {k : Resp a → Program Addr α} {next : Resp a → Stage}
    (h : Moves g a next) (hk : ∀ r, Ends (next r) (k r)) : Ends g (.act a k) :=
  fun _ hl => ⟨(h.stands hl).1, fun r => hk r _ ((h.stands hl).2 r)⟩

end Rules

section Actions

variable {g : Stage}

theorem served_upd {l : Holding} {a : Act Addr} (h : l.served = false)
    (ha : a ≠ .core .addTidData) (r : Resp a) : (holdings.upd l a r).served = false := by
  have hadds : addsTidData a r = false := by
    cases a with
    | obj a => rfl
    | core a => cases a <;> first | rfl | exact absurd rfl ha
  simp [holdings, h, hadds]

theorem Past.Of.upd {past : Past} {l : Holding} (h : past.Of l) (a : Act Addr) (r : Resp a)
    (ha : a ≠ .core .addTidData) : past.Of (holdings.upd l a r) := by
  cases past with
  | begun => exact served_upd h ha r
  | found => exact ⟨served_upd h.1 ha r, by simp [holdings, h.2]⟩
  | served => trivial
  | lost =>
    have hlost : l.lost = true := h
    simp [Past.Of, holdings, hlost]

theorem held_perm {l l' : List (Ref Shared)} (h : l.Perm l') (a : ObjAct Addr) :
    Held l a ↔ Held l' a := by
  cases a <;> simp only [Held, h.mem_iff]

theorem objEvents_perm {l l' : List (Ref Shared)} (h : l.Perm l') (a : ObjAct Addr)
    (r : ObjResp a) : objEvents l a r = objEvents l' a r := by
  cases a <;> simp only [objEvents, h.mem_iff]

def Reach (g : Stage) (a : Act Addr) : Prop :=
  ∀ c ∈ pointees a, (late a = true ∧ g.contexts = []) ∨ ∃ t ∈ g.contexts, t.obj = c

theorem reach_of_nil {a : Act Addr} (h : pointees a = []) : Reach g a := by
  simp [Reach, h]

theorem reach_of_mem {a : Act Addr} {c : Nat} {t : Ref Nat} (h : pointees a = [c])
    (ht : t ∈ g.contexts) (hobj : t.obj = c) : Reach g a := by
  intro d hd
  rw [h] at hd
  obtain rfl := List.mem_singleton.mp hd
  exact .inr ⟨t, ht, hobj⟩

theorem moves_core {a : CoreAct} {next : CoreResp a → Stage} (hadd : a ≠ .addTidData)
    (hcov : ∀ r, Covered g.contexts (ctxEvents a r)) (hreach : Reach g (.core a))
    (hmarked : ∀ c, a = .atomDecContext c ∨ a = .insertContext c → g.unmarked = none)
    (hctx : ∀ r, (next r).contexts = updAll g.contexts (ctxEvents a r))
    (hobj : ∀ r, (next r).objects = g.objects)
    (hun : ∀ r, (next r).unmarked = updUnmarked g.unmarked (.core a))
    (hpast : ∀ r, (next r).past = g.past) : Moves g (.core a) next := by
  refine ⟨fun l hl => ⟨?_, nofun, ?_, nofun, ?_, ?_⟩, fun l r hl => .inr ⟨?_, ?_, ?_, ?_⟩⟩
  · rintro b hb r
    cases hb
    rw [hl.contexts]
    exact hcov r
  · rw [hl.contexts]
    exact hreach
  · rintro c (h | h) <;> cases h
  · rintro c hc
    refine hl.unmarked.trans (hmarked c (hc.imp ?_ ?_))
    · exact fun h => Act.core.inj h
    · exact fun h => Act.core.inj h
  · rw [hctx, ← hl.contexts]
    rfl
  · rw [hobj]
    exact hl.objects
  · rw [hun, ← hl.unmarked]
    rfl
  · rw [hpast]
    exact hl.past.upd (.core a) r (by simpa using hadd)

theorem moves_obj_past {a : ObjAct Addr} {next : ObjResp a → Stage} (hheld : Held g.objects a)
    (hreach : Reach g (.obj a)) (hinits : ∀ c, a = .initLists c → .init c ∈ g.contexts)
    (hmallocs : ∀ c, a = .mallocSession c ∨ a = .mallocShm c → .hold c ∈ g.contexts)
    (hctx : ∀ r, (next r).contexts = g.contexts)
    (hobj : ∀ r, (updAll g.objects (objEvents g.objects a r)).Perm (next r).objects)
    (hun : ∀ r, (next r).unmarked = g.unmarked)
    (hpast : ∀ r l, At g l → (next r).past.Of (holdings.upd l (.obj a) r)) :
    Moves g (.obj a) next := by
  refine ⟨fun l hl => ⟨nofun, ?_, ?_, ?_, ?_, ?_⟩, fun l r hl => .inr ⟨?_, ?_, ?_, hpast r l hl⟩⟩
  · rintro b hb
    cases hb
    exact (held_perm hl.objects a).mpr hheld
  · rw [hl.contexts]
    exact hreach
  · rintro c hc
    cases hc
    rw [hl.contexts]
    exact hinits c rfl
  · rintro c hc
    rw [hl.contexts]
    refine hmallocs c (hc.imp ?_ ?_)
    · exact fun h => Act.obj.inj h
    · exact fun h => Act.obj.inj h
  · rintro c (h | h) <;> cases h
  · rw [hctx]
    exact hl.contexts
  · have hevents := objEvents_perm hl.objects a r
    have hupd : (holdings.upd l (.obj a) r).objects = updAll l.objects (objEvents g.objects a r) :=
      congrArg (updAll l.objects) hevents
    rw [hupd]
    exact (updAll_perm hl.objects _).trans (hobj r)
  · rw [hun]
    exact hl.unmarked

theorem moves_obj {a : ObjAct Addr} {next : ObjResp a → Stage} (hheld : Held g.objects a)
    (hreach : Reach g (.obj a)) (hinits : ∀ c, a = .initLists c → .init c ∈ g.contexts)
    (hmallocs : ∀ c, a = .mallocSession c ∨ a = .mallocShm c → .hold c ∈ g.contexts)
    (hnext : ∀ r, ∃ os, (updAll g.objects (objEvents g.objects a r)).Perm os ∧
      next r = { g with objects := os }) : Moves g (.obj a) next := by
  refine moves_obj_past hheld hreach hinits hmallocs (fun r => ?_) (fun r => ?_) (fun r => ?_)
    fun r l hl => ?_
  · obtain ⟨os, -, hr⟩ := hnext r
    rw [hr]
  · obtain ⟨os, hos, hr⟩ := hnext r
    rw [hr]
    exact hos
  · obtain ⟨os, -, hr⟩ := hnext r
    rw [hr]
  · obtain ⟨os, -, hr⟩ := hnext r
    rw [hr]
    exact hl.past.upd (.obj a) r (by simp)

theorem moves_core_keep {a : CoreAct} (hev : ∀ r, ctxEvents a r = []) (hreach : Reach g (.core a))
    (hmarks : ∀ c, a ≠ .atomDecContext c ∧ a ≠ .insertContext c ∧ a ≠ .setCallFromService c ∧
      a ≠ .addTidData) : Moves g (.core a) fun _ => g := by
  refine moves_core (hmarks 0).2.2.2 (fun r => ?_) hreach (fun c h => ?_) (fun r => ?_)
    (fun _ => rfl) (fun _ => ?_) fun _ => rfl
  · rw [hev r]
    exact covered_nil _
  · rcases h with h | h
    · exact absurd h (hmarks c).1
    · exact absurd h (hmarks c).2.1
  · rw [hev r]
    rfl
  · cases a
    case insertContext c _ => exact absurd rfl (hmarks c).2.1
    case setCallFromService c _ => exact absurd rfl (hmarks c).2.2.1
    all_goals rfl

theorem moves_obj_keep {a : ObjAct Addr} (hev : ∀ l r, objEvents l a r = [])
    (hheld : Held g.objects a) (hreach : Reach g (.obj a))
    (hnew : ∀ c, a ≠ .initLists c ∧ a ≠ .mallocSession c ∧ a ≠ .mallocShm c) :
    Moves g (.obj a) fun _ => g := by
  refine moves_obj hheld hreach (fun c h => absurd h (hnew c).1) (fun c h => ?_) fun r =>
    ⟨g.objects, ?_, rfl⟩
  · rcases h with h | h
    · exact absurd h (hnew c).2.1
    · exact absurd h (hnew c).2.2
  · rw [hev _ r]
    exact List.Perm.refl _

def bare : CoreAct → Bool
  | .outcome | .writeParcel | .closeDupFd _ | .ioctl _ | .isValidContext _ _ | .lockProcData
  | .unlockProcData | .releaseProcData _ _ | .takeProcData _ | .addClient _ | .lockClients _
  | .eraseClient _ | .unlockClients => true
  | _ => false

theorem moves_bare {a : CoreAct} (h : bare a = true) : Moves g (.core a) fun _ => g := by
  refine moves_core_keep (fun r => ?_) (reach_of_nil ?_) fun c => ?_
  · cases a <;> first | rfl | cases h
  · cases a <;> first | rfl | cases h
  · refine ⟨?_, ?_, ?_, ?_⟩ <;> rintro rfl <;> cases h

def reads (c : Nat) (o : Shared) : Act Addr → Bool
  | .core (.readContextFd d) => d = c
  | .core a => bare a
  | .obj (.checkSharedBufferExist d _) | .obj (.getAndSetBit d) | .obj (.clearBit d _)
  | .obj (.mapBuffer d) => d = c
  | .obj (.readSession d m) | .obj (.clearSession d m) => .session d m = o
  | .obj (.readShm _ _) => true
  | .obj _ => false

theorem moves_reads {a : Act Addr} {c : Nat} {o : Shared} (h : reads c o a = true)
    (hc : ∃ t ∈ g.contexts, t.obj = c) (ho : ∃ t ∈ g.objects, t.obj = o) :
    Moves g a fun _ => g := by
  obtain ⟨t, ht, hobj⟩ := hc
  cases a with
  | core a =>
    cases a
    case readContextFd d =>
      obtain rfl : d = c := by simpa [reads] using h
      exact moves_core_keep (fun _ => rfl) (reach_of_mem rfl ht hobj) (by simp)
    all_goals exact moves_bare h
  | obj a =>
    cases a
    case checkSharedBufferExist d p | getAndSetBit d | clearBit d bit | mapBuffer d =>
      obtain rfl : d = c := by simpa [reads] using h
      exact moves_obj_keep (fun _ _ => rfl) trivial (reach_of_mem rfl ht hobj) (by simp)
    case readSession d m | clearSession d m =>
      obtain rfl : .session d m = o := by simpa [reads] using h
      exact moves_obj_keep (fun _ _ => rfl) ho (reach_of_nil rfl) (by simp)
    case readShm d b => exact moves_obj_keep (fun _ _ => rfl) trivial (reach_of_nil rfl) (by simp)
    all_goals cases h

theorem leads_all {α : Type} {q : Act Addr → Prop} {p : Program Addr α} (hall : Prog.All q p)
    (hmoves : ∀ a, q a → Moves g a fun _ => g) : Leads g p fun _ => g := by
  induction p with
  | pure x => exact .pure rfl
  | act a k ih => exact .act (hmoves a hall.1) fun r => ih r (hall.2 r)

theorem moves_works {a : Act Addr} (h : ∀ c, works c a = true) : Moves g a fun _ => g := by
  cases a with
  | core a =>
    cases a
    case readContextFd d | readCallFromService d =>
      have hd : d = d + 1 := by simpa [works] using h (d + 1)
      omega
    case outcome | writeParcel | ioctl => exact moves_bare rfl
    all_goals exact absurd (h 0) (by simp [works])
  | obj a =>
    have hnone (d : Nat) (hd : ∀ c, d = c) : False := by
      have := hd (d + 1)
      omega
    cases a
    case initLists | takeSessions | takeShms => exact absurd (h 0) (by simp [works])
    all_goals exact absurd (fun c => by simpa [works] using h c) (hnone _)

theorem leads_works {α : Type} {p : Program Addr α} (h : ∀ c, Works c p) :
    Leads g p fun _ => g := by
  induction p with
  | pure x => exact .pure rfl
  | act a k ih => exact .act (moves_works fun c => (h c).1) fun r => ih r fun c => (h c).2 r

def Reads {α : Type} (c : Nat) (o : Shared) (p : Program Addr α) : Prop :=
  Prog.All (fun a => reads c o a = true) p

theorem Reads.leads {α : Type} {c : Nat} {o : Shared} {p : Program Addr α} (h : Reads c o p)
    (hc : ∃ t ∈ g.contexts, t.obj = c) (ho : ∃ t ∈ g.objects, t.obj = o) :
    Leads g p fun _ => g :=
  leads_all h fun _ ha => moves_reads ha hc ho

end Actions

section Puts

variable {cs : List (Ref Nat)} {os : List (Ref Shared)} {u : Option Nat} {past : Past} {c : Nat}

def Near (cs : List (Ref Nat)) (c : Nat) : Prop := cs = [] ∨ ∃ t ∈ cs, t.obj = c

theorem Near.reach {g : Stage} {a : Act Addr} (h : Near g.contexts c) (ha : pointees a = [c])
    (hlate : late a = true) : Reach g a := by
  intro d hd
  rw [ha] at hd
  obtain rfl := List.mem_singleton.mp hd
  exact h.imp_left fun hnil => ⟨hlate, hnil⟩

def Puts (o : Shared) (r : Ref Shared) (os : List (Ref Shared)) : Prop :=
  r = .removed o ∨ r = .hold o ∧ .removed o ∉ os

theorem Puts.consumed {o : Shared} {r : Ref Shared} (h : Puts o r os) (zero : Bool) :
    consumed (r :: os) (.put o zero) = some r := by
  rcases h with rfl | ⟨rfl, hos⟩ <;> simp_all [RefCount.consumed]

theorem Puts.mem {o : Shared} {r : Ref Shared} (h : Puts o r os) :
    .hold o ∈ r :: os ∨ .removed o ∈ r :: os := by
  rcases h with rfl | ⟨rfl, -⟩ <;> simp

def afterPut (o : Shared) (os : List (Ref Shared)) (zero : Bool) : List (Ref Shared) :=
  if zero then .fin o :: os else os

theorem Puts.updAll {o : Shared} {r : Ref Shared} (h : Puts o r os) (zero : Bool) :
    updAll (r :: os) [.put o zero] = afterPut o os zero := by
  rw [updAll_cons, updAll_nil, upd_cons (h.consumed zero)]
  cases zero <;> rfl

theorem updAll_free {o : Shared} : updAll (.fin o :: os) [.free o] = os := by
  rw [updAll_cons, updAll_nil, upd_cons rfl]
  rfl

theorem updAll_setInsert {o : Shared} :
    updAll (.own o :: os) [.set o, .insert o] = .hold o :: os := by
  simp [upd, consumed, produced]

theorem moves_free {o : Shared} {a : ObjAct Addr} (hheld : Held (.fin o :: os) a)
    (hreach : Reach ⟨cs, .fin o :: os, u, past⟩ (.obj a)) (hev : ∀ l r, objEvents l a r = [.free o])
    (hinits : ∀ c, a ≠ .initLists c) (hmallocs : ∀ c, a ≠ .mallocSession c ∧ a ≠ .mallocShm c) :
    Moves ⟨cs, .fin o :: os, u, past⟩ (.obj a) fun _ => ⟨cs, os, u, past⟩ := by
  refine moves_obj hheld hreach (fun c h => absurd h (hinits c)) (fun c h => ?_) fun r =>
    ⟨os, ?_, rfl⟩
  · rcases h with h | h
    · exact absurd h (hmallocs c).1
    · exact absurd h (hmallocs c).2
  · rw [hev _ r]
    exact updAll_free ▸ List.Perm.refl _

theorem leads_putBnSession {n : Nat} {r : Ref Shared} (hr : Puts (.session c n) r os) :
    Leads ⟨cs, r :: os, u, past⟩ (putBnSession c n) fun _ => ⟨cs, os, u, past.put⟩ := by
  have hdec : Moves ⟨cs, r :: os, u, past⟩ (.obj (.atomDecSession c n)) fun zero =>
      ⟨cs, afterPut (.session c n) os zero, u, past.put⟩ := by
    refine moves_obj_past hr.mem (reach_of_nil rfl) (by simp) (by simp) (fun _ => rfl)
      (fun zero => ?_) (fun _ => rfl) fun zero l hl => ?_
    · exact hr.updAll zero ▸ List.Perm.refl _
    · cases past with
      | found =>
        have hforgets : forgets l (.obj (.atomDecSession c n)) zero = true := by
          simp [forgets, hl.past.1, hl.past.2]
        simp [Past.put, Past.Of, holdings, hforgets]
      | begun => exact hl.past.upd (.obj (.atomDecSession c n)) zero (by simp)
      | served => trivial
      | lost => exact hl.past.upd (.obj (.atomDecSession c n)) zero (by simp)
  refine .act hdec fun zero => ?_
  cases zero with
  | false => exact .pure rfl
  | true =>
    exact .act (moves_free List.mem_cons_self (reach_of_nil rfl) (fun _ _ => rfl) (by simp)
      (by simp)) fun _ => .pure rfl

theorem leads_putBnShrMem {b : Nat} {r : Ref Shared} (hr : Puts (.shm c b) r os)
    (hnear : Near cs c) :
    Leads ⟨cs, r :: os, u, past⟩ (putBnShrMem c b) fun _ => ⟨cs, os, u, past⟩ := by
  have hdec : Moves ⟨cs, r :: os, u, past⟩ (.obj (.atomDecShm c b)) fun zero =>
      ⟨cs, afterPut (.shm c b) os zero, u, past⟩ := by
    refine moves_obj hr.mem (reach_of_nil rfl) (by simp) (by simp) fun zero => ⟨_, ?_, rfl⟩
    exact hr.updAll zero ▸ List.Perm.refl _
  refine .act hdec fun zero => ?_
  cases zero with
  | false => exact .pure rfl
  | true =>
    exact .act (moves_free List.mem_cons_self (hnear.reach rfl rfl) (fun _ _ => rfl) (by simp)
      (by simp)) fun _ => .pure rfl

theorem leads_putBlocks {r : Nat → Ref Shared}
    (hr : ∀ b bs, Puts (.shm c b) (r b) (List.map r bs ++ os)) (hnear : Near cs c) (bs : List Nat) :
    Leads ⟨cs, bs.map r ++ os, u, past⟩ (Prog.each (putBnShrMem c) bs) fun _ =>
      ⟨cs, os, u, past⟩ := by
  induction bs with
  | nil => exact .pure rfl
  | cons b bs ih => exact .bind (leads_putBnShrMem (hr b bs) hnear) fun _ => ih

end Puts

end TeeClient.Daemon.References
