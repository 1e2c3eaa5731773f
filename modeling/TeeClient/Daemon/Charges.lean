import Mathlib.Tactic
import TeeClient.Daemon.Errands

/-! What a request or a clean-up has still to see to: the descriptor that it has opened, the context
that it has put into the list and not recorded, or could not record, and the numbers of a snapshot.
Whatever the daemon answers, nothing is left when it ends. -/

namespace TeeClient.Daemon.Service.CaDeath

open Vendor Vendor.Api Stub
open Resumption RefCount

section Charges

/-- Whether a clean-up has looked for the entry of its process, and taken it out. -/
def takes (taken : Bool) : (a : Act Addr) → Resp a → Bool
  | .core (.takeProcData _), _ => true
  | _, _ => taken

/-- Beside what a task knows: whether it has taken an entry, the context that it could not record,
with the number that it has read for it, and the context that it has closed and not freed. -/
structure Charge where
  care : Local
  taken : Bool
  refused : Option (Nat × Option Int)
  closed : Option Nat

def updRefused (refused : Option (Nat × Option Int)) :
    (a : Act Addr) → Resp a → Option (Nat × Option Int)
  | .core (.setContextToProcData _ c), recorded => if recorded then none else some (c, none)
  | .core (.readContextFd c), fd => refused.map fun x => if x.1 = c then (c, some fd) else x
  | .core (.findAndRemoveBnContext _), _ => none
  | _, _ => refused

def updClosed (closed : Option Nat) : Act Addr → Option Nat
  | .core (.closeContext c) => some c
  | .core (.freeFinalized _) => none
  | _ => closed

abbrev charges : Machine (Act Addr) Resp (World Addr) (Env Addr) Charge where
  exec := exec
  upd l a r := {
    care := watched.upd l.care a r
    taken := takes l.taken a r
    refused := updRefused l.refused a r
    closed := updClosed l.closed a }

/-- A task does one thing after the other, and takes out what it could not record by the number
that it has read. -/
def ChargePre (l : Charge) : Act Addr → Prop
  | .core (.takeProcData _) => l.care.1.1.snapshot = []
  | .core (.insertContext _) => l.care.1.2.fresh = none
  | .core (.setContextToProcData _ _) => l.refused = none
  | .core (.findAndRemoveBnContext fd) => ∀ c x, l.refused = some (c, x) → x = some fd
  | .core (.closeContext _) => l.closed = none
  | .core (.freeFinalized c) => l.closed = some c
  | _ => True

/-- What a task has still to see to. -/
structure Page where
  snapshot : List Int
  fresh : Option Nat
  refused : Option Nat
  opened : Option (Nat × Int)

def blank : Page := ⟨[], none, none, none⟩

def afterInit (c : Nat) (ret : TeecResult) : Page :=
  if ret = .success then { blank with fresh := some c } else blank

def Charge.page (l : Charge) : Page where
  snapshot := l.care.1.1.snapshot
  fresh := l.care.1.2.fresh
  refused := l.refused.map (·.1)
  opened := l.care.2.2

structure On (g : Page) (l : Charge) : Prop where
  page : l.page = g
  closed : l.closed = none

def Turns {α : Type} (g : Page) (p : Program Addr α) (post : α → Page) : Prop :=
  ∀ l, On g l → Safe charges ChargePre l p fun x l' => On (post x) l'

def Keeps {α : Type} (g : Page) (p : Program Addr α) : Prop := Turns g p fun _ => g

def still : Act Addr → Bool
  | .core a =>
    match a with
    | .takeProcData _ | .insertContext _ | .setContextToProcData _ _ | .findAndRemoveBnContext _
    | .closeContext _ | .freeFinalized _ | .openTzdriver _ | .closeFd _ => false
    | _ => true
  | .obj _ => true

variable {α β : Type} {g : Page} {l : Charge} {a : Act Addr} {p : Program Addr α} {c : Nat}

theorem chargePre_of_still (h : still a = true) : ChargePre l a := by
  cases a with
  | obj a => trivial
  | core a => cases a <;> trivial

theorem page_readContextFd {fd : Int} :
    (charges.upd l (.core (.readContextFd c)) fd).page = l.page := by
  have hfresh : (charges.upd l (.core (.readContextFd c)) fd).care.1.2.fresh =
      l.care.1.2.fresh := by
    have hwatch : (charges.upd l (.core (.readContextFd c)) fd).care.1.2 =
        if l.care.1.2.locked then l.care.1.2 else { l.care.1.2 with read := some (c, fd) } := rfl
    rw [hwatch]
    split_ifs <;> rfl
  have hrefused : (updRefused l.refused (.core (.readContextFd c)) fd).map (·.1) =
      l.refused.map (·.1) := by
    cases l.refused with
    | none => rfl
    | some x =>
      by_cases hx : x.1 = c
      · simp [updRefused, hx]
      · simp [updRefused, hx]
  rw [Charge.page, hfresh, hrefused]
  rfl

theorem page_still (h : still a = true) (r : Resp a) : (charges.upd l a r).page = l.page := by
  cases a with
  | obj a => rfl
  | core a =>
    cases a
    case readContextFd c => exact page_readContextFd
    all_goals first | rfl | cases h

theorem closed_still (h : still a = true) (r : Resp a) : (charges.upd l a r).closed = l.closed := by
  cases a with
  | obj a => rfl
  | core a => cases a <;> first | rfl | cases h

theorem on_still (h : still a = true) (r : Resp a) (hl : On g l) : On g (charges.upd l a r) :=
  ⟨(page_still h r).trans hl.page, (closed_still h r).trans hl.closed⟩

theorem On.refused_eq_none (hl : On g l) (hg : g.refused = none) : l.refused = none :=
  Option.map_eq_none_iff.mp ((congrArg Page.refused hl.page).trans hg)

namespace Turns

variable {post : α → Page}

theorem pure {x : α} (h : post x = g) : Turns g (.pure x) post := by
  intro l hl
  rw [safe_pure, h]
  exact hl

theorem act {k : Resp a → Program Addr α} (h : still a = true) (hk : ∀ r, Turns g (k r) post) :
    Turns g (.act a k) post :=
  fun _ hl => ⟨chargePre_of_still h, fun r => hk r _ (on_still h r hl)⟩

theorem bind {f : α → Program Addr β} {mid : α → Page} {post : β → Page} (hp : Turns g p mid)
    (hf : ∀ x, Turns (mid x) (f x) post) : Turns g (p.bind f) post :=
  fun l hl => safe_bind.mpr ((hp l hl).mono fun x l' hl' => hf x l' hl')

theorem ite {b : Prop} [Decidable b] {q : Program Addr α} (hp : Turns g p post)
    (hq : Turns g q post) : Turns g (if b then p else q) post := by
  split_ifs
  · exact hp
  · exact hq

theorem each {f : β → Program Addr Unit} {xs : List β} (hf : ∀ x, Keeps g (f x)) :
    Keeps g (Prog.each f xs) :=
  fun _ hl => Safe.each (fun x _ l hl => hf x l hl) hl

theorem all {q : Act Addr → Prop} (hall : Prog.All q p) (hq : ∀ a, q a → still a = true) :
    Keeps g p := by
  induction p with
  | pure x => exact .pure rfl
  | act a k ih => exact .act (hq a hall.1) fun r => ih r (hall.2 r)

theorem works (h : Works c p) : Keeps g p := by
  refine .all h fun a ha => ?_
  cases a with
  | obj a => rfl
  | core a => cases a <;> first | rfl | cases ha

end Turns

end Charges

section Passes

variable {α : Type} {g : Page} {l : Charge} {c : Nat} {fd : Int} {identity : CallerIdentity}
variable {memory : BitVec 64 → SharedMemory Addr} {pointer : BitVec 64 → Addr}

theorem keeps_putBnContext : Keeps g (putBnContext (some c)) := by
  have hfinalize : Keeps g (teecFinalizeContextInner c) := by
    simp only [teecFinalizeContextInner, core, obj, Prog.bind_eq, Prog.bind_act, Prog.bind_pure]
    refine .act rfl fun sessions => .act rfl fun callFromService => ?_
    refine .bind (.each fun _ => .works works_finalizeSession) fun _ => .act rfl fun shms => ?_
    refine .bind (.each fun _ => .works works_putBnShrMem) fun _ => fun l hl => ?_
    exact ⟨hl.closed, fun _ => ⟨rfl, fun _ => ⟨hl.page, rfl⟩⟩⟩
  exact .act rfl fun zero => .ite (.bind hfinalize fun _ => .pure rfl) (.pure rfl)

theorem keeps_putBnContextAndReleaseFd :
    Keeps g (putBnContextAndReleaseFd identity.pid (some c)) := by
  simp only [putBnContextAndReleaseFd, core, Prog.bind_eq, Prog.bind_act, Prog.bind_pure]
  refine .act rfl fun fd => .act rfl fun _ => .bind keeps_putBnContext fun cleared => ?_
  cases cleared with
  | false => exact .act rfl fun _ => .pure rfl
  | true => exact .act rfl fun _ => .act rfl fun _ => .pure rfl

theorem keeps_put {f : Unit → Program Addr α} (hf : ∀ x, Works c (f x)) :
    Keeps g ((putBnContextAndReleaseFd identity.pid (some c)).bind f) :=
  .bind keeps_putBnContextAndReleaseFd fun x => .works (hf x)

theorem keeps_use {k : Option Nat → Program Addr α} {no : Program Addr α}
    (hk : ∀ r, Keeps g (k r)) (hno : Keeps g no) :
    Keeps g (.act (.core (.isValidContext fd identity)) fun valid =>
      if valid = true then .act (.core (.getBnContext fd)) k else no) :=
  .act rfl fun _ => .ite (.act rfl hk) hno

theorem keeps_callGetBnContext : Keeps g (callGetBnContext identity fd) := by
  simp only [callGetBnContext, core, obj, Prog.bind_eq, Prog.bind_act, Prog.bind_pure]
  refine keeps_use (fun tempContext => ?_) (.pure rfl)
  cases tempContext with
  | none => exact .pure rfl
  | some c =>
    refine .act rfl fun session => ?_
    cases session with
    | none => exact keeps_put fun _ => .pure
    | some session => exact .pure rfl

theorem keeps_callGetBnSession {sessionId : U32} :
    Keeps g (callGetBnSession identity fd sessionId) := by
  simp only [callGetBnSession, core, obj, Prog.bind_eq, Prog.bind_act, Prog.bind_pure]
  refine keeps_use (fun tmpContext => ?_) (.pure rfl)
  cases tmpContext with
  | none => exact .pure rfl
  | some c =>
    refine .act rfl fun session => ?_
    cases session with
    | none => exact keeps_put fun _ => .pure
    | some session => exact .pure rfl

theorem keeps_openSession {destination : BitVec 128} {connectionMethod optMemSize : U32}
    {operation : Option (Operation Addr)} {optMem : Option Ashmem} :
    Keeps g (openSession memory identity fd destination connectionMethod operation optMemSize
      optMem) := by
  simp only [openSession, core, obj, Prog.bind_eq, Prog.bind_act, Prog.bind_pure]
  refine .bind keeps_callGetBnContext fun got => ?_
  obtain ret | ⟨c, session⟩ := got
  · exact .works (c := 0) works_openSessionError
  · refine .bind (.works (c := c) works_decode) fun x => .ite ?_ ?_
    · refine .act rfl fun addTidData =>
        .ite ?_ (.act rfl fun _ => .works (c := c) works_openSessionError)
      refine .bind (.works works_teecOpenSessionInner) fun result => ?_
      refine .bind (.works works_putAllocShrMem) fun _ => keeps_put fun _ => ?_
      refine .bind works_recOpenReply fun x => .ite ?_ ?_
      · exact .bind works_putBnSession fun _ => .pure
      · exact .act (by simp [Service.works]) fun _ => works_openSessionError
    · exact .act rfl fun _ => .works (c := c) works_openSessionError

theorem keeps_invokeCommand {sessionId optMemSize : U32} {operation : Option (Operation Addr)}
    {optMem : Option Ashmem} :
    Keeps g (invokeCommand memory identity fd sessionId operation optMemSize optMem) := by
  simp only [invokeCommand, core, Prog.bind_eq, Prog.bind_act, Prog.bind_pure]
  refine .bind keeps_callGetBnSession fun got => ?_
  obtain ret | ⟨c, session⟩ := got
  · exact .works (c := 0) works_invokeCommandEnd
  have hput (ret : TeecResult) (operation : Option (Operation Addr)) :
      Keeps g ((putBnSession c session).bind fun _ =>
        (putBnContextAndReleaseFd identity.pid (some c)).bind fun _ =>
          invokeCommandEnd originApi ret operation) :=
    .bind (.works works_putBnSession) fun _ => keeps_put fun _ => works_invokeCommandEnd
  refine .bind (.works (c := c) works_decode) fun x => .ite ?_ (hput _ _)
  refine .act rfl fun addTidData => .ite ?_ (hput _ _)
  refine .bind (.works works_teecInvokeCommandInner) fun result => ?_
  refine .bind (.works works_putAllocShrMem) fun _ => .bind (.works works_putBnSession) fun _ => ?_
  exact keeps_put fun _ => works_invokeCommandEnd

theorem keeps_closeSession {sessionId : U32} : Keeps g (closeSession identity fd sessionId) := by
  simp only [closeSession, core, obj, Prog.bind_eq, Prog.bind_act, Prog.bind_pure]
  refine keeps_use (fun outContext => ?_) (.pure rfl)
  cases outContext with
  | none => exact .pure rfl
  | some c =>
    refine .act rfl fun outSession => ?_
    cases outSession with
    | none => exact keeps_put fun _ => .pure
    | some session =>
      refine .act rfl fun addTidData => .ite ?_ (.pure rfl)
      refine .bind (.works works_teecCloseSessionInner) fun _ => ?_
      exact .bind (.works works_putBnSession) fun _ => keeps_put fun _ => .pure

theorem keeps_registerSharedMemory {sharedMem : ShmData} :
    Keeps g (registerSharedMemory pointer identity fd sharedMem) := by
  have herror {ret : TeecResult} : Keeps g (shmError ret) := .works (c := 0) works_shmError
  simp only [registerSharedMemory, registerSharedMemoryReply, core, obj, Prog.bind_eq,
    Prog.bind_act, Prog.bind_pure]
  refine keeps_use (fun outContext => ?_) herror
  cases outContext with
  | none => exact herror
  | some c =>
    refine .act rfl fun mallocInner => .ite (.act rfl fun outShm => ?_) herror
    refine .bind (.works works_teecRegisterSharedMemoryInner) fun ret => .ite ?_ ?_
    · refine .bind (.works works_putBnShrMem) fun _ => keeps_put fun _ => ?_
      refine .act (by simp [Service.works]) fun shm => .bind (works_writeItems _) fun x =>
        .ite ?_ .pure
      exact .act (by simp [Service.works]) fun shm => .bind (works_writeItems _) fun _ => .pure
    · exact .act rfl fun _ => keeps_put fun _ => works_shmError

theorem keeps_allocateSharedMemory {sharedMem : ShmData} :
    Keeps g (allocateSharedMemory pointer identity fd sharedMem) := by
  have herror {ret : TeecResult} : Keeps g (shmError ret) := .works (c := 0) works_shmError
  simp only [allocateSharedMemory, core, obj, Prog.bind_eq, Prog.bind_act, Prog.bind_pure]
  refine keeps_use (fun outContext => ?_) herror
  cases outContext with
  | none => exact herror
  | some c =>
    refine .act rfl fun mallocInner =>
      .ite (.act rfl fun outShm => ?_) (keeps_put fun _ => works_shmError)
    refine .bind (.works works_teecAllocateSharedMemoryInner) fun ret => .ite ?_ ?_
    · refine .act rfl fun shm => .act rfl fun fd => .bind (.works (c := c) (works_writeItems _)) ?_
      refine fun x => .bind (.works works_putBnShrMem) fun _ => keeps_put fun _ => .ite .pure ?_
      exact .act (by simp [Service.works]) fun _ => .bind works_putBnShrMem fun _ => .pure
    · exact .act rfl fun _ => keeps_put fun _ => works_shmError

theorem keeps_releaseSharedMemory {sharedMem : ShmData} {shmOffset : U32} :
    Keeps g (releaseSharedMemory pointer identity fd sharedMem shmOffset) := by
  simp only [releaseSharedMemory, core, Prog.bind_eq, Prog.bind_act, Prog.bind_pure]
  refine keeps_use (fun outContext => ?_) (.pure rfl)
  cases outContext with
  | none => exact .pure rfl
  | some c =>
    exact .bind (.works works_teecReleaseSharedMemoryInner) fun _ => keeps_put fun _ => .pure

theorem page_findAndRemove (r : Option Nat) :
    (charges.upd l (.core (.findAndRemoveBnContext fd)) r).page =
      { l.page with snapshot := l.page.snapshot.erase fd, refused := none } := rfl

/-- Taking a context out by a number is all that is left to do for one that was not recorded. -/
theorem turns_callFinalizeContext (hl : On { blank with refused := g.refused } l)
    (hfd : ∀ c x, l.refused = some (c, x) → x = some fd) :
    Safe charges ChargePre l (callFinalizeContext identity.pid fd) fun _ => On blank := by
  simp only [callFinalizeContext, core, Prog.bind_eq, Prog.bind_act, Prog.bind_pure]
  refine ⟨hfd, fun outContext => ?_⟩
  have hat : On blank (charges.upd l (.core (.findAndRemoveBnContext fd)) outContext) :=
    ⟨(page_findAndRemove outContext).trans (by rw [hl.page]; rfl), hl.closed⟩
  cases outContext with
  | none => exact hat
  | some c => exact Turns.bind keeps_putBnContextAndReleaseFd (fun _ => .pure rfl) _ hat

theorem keeps_finalizeContext : Keeps blank (finalizeContext identity fd) := by
  refine .act rfl fun valid => .ite (fun l hl => ?_) (.pure rfl)
  refine turns_callFinalizeContext (g := blank) hl fun c x hx => ?_
  have hnone := hl.refused_eq_none rfl
  cases hnone.symm.trans hx

theorem turns_releaseContext {refused : Option Nat} (hr : refused = none ∨ refused = some c) :
    Turns { blank with refused } (releaseContext identity.pid c) fun _ => blank := by
  simp only [releaseContext, core, Prog.bind_eq, Prog.bind_act, Prog.bind_pure]
  refine .bind keeps_putBnContextAndReleaseFd fun _ l hl => ⟨trivial, fun fd => safe_bind.mpr ?_⟩
  have hread := on_still (a := .core (.readContextFd c)) rfl fd hl
  refine (turns_callFinalizeContext (g := { blank with refused }) hread fun d x hx => ?_).mono
    fun _ _ h => h
  have hrefused : l.refused.map (·.1) = refused := congrArg Page.refused hl.page
  have hmap : updRefused l.refused (.core (.readContextFd c)) fd = some (d, x) := hx
  cases hlr : l.refused with
  | none =>
    rw [hlr] at hmap
    cases hmap
  | some y =>
    rw [hlr] at hrefused hmap
    have hy : y.1 = c := by
      rcases hr with rfl | rfl
      · cases hrefused
      · exact Option.some.inj hrefused
    simp only [updRefused, Option.map_some, hy, if_true] at hmap
    exact (Prod.mk.inj (Option.some.inj hmap)).2.symm

theorem page_setContextToProcData (recorded : Bool) :
    (charges.upd l (.core (.setContextToProcData identity c)) recorded).page =
      { l.page with fresh := none, refused := if recorded then none else some c } := by
  cases recorded <;> rfl

theorem turns_recordContext :
    Turns { blank with fresh := some c } (recordContext identity c) fun _ => blank := by
  have hrelease {refused : Option Nat} (hr : refused = none ∨ refused = some c)
      (x : TeecResult × Reply) : Turns { blank with refused }
        ((releaseContext identity.pid c).bind fun _ => .pure x) fun _ => blank :=
    .bind (turns_releaseContext hr) fun _ => .pure rfl
  simp only [recordContext, core, Prog.bind_eq, Prog.bind_act, Prog.bind_pure]
  refine .act rfl fun _ l hl => ?_
  have hnone : l.refused = none := hl.refused_eq_none rfl
  refine ⟨hnone, fun recorded => ?_⟩
  cases recorded with
  | false =>
    have hat : On { blank with refused := some c }
        (charges.upd l (.core (.setContextToProcData identity c)) false) :=
      ⟨(page_setContextToProcData false).trans (by rw [hl.page]; rfl), hl.closed⟩
    exact hrelease (.inr rfl) _ _ hat
  | true =>
    have hat : On blank (charges.upd l (.core (.setContextToProcData identity c)) true) :=
      ⟨(page_setContextToProcData true).trans (by rw [hl.page]; rfl), hl.closed⟩
    refine (?_ : Turns blank _ fun _ => blank) _ hat
    refine .bind (.works (c := c) (works_writeItems _)) fun x => .ite ?_ (hrelease (.inl rfl) _)
    refine .act rfl fun fd => .bind (.works (c := c) (works_writeItems _)) fun x =>
      .ite ?_ (hrelease (.inl rfl) _)
    exact .bind keeps_putBnContextAndReleaseFd fun _ => .pure rfl

theorem page_openTzdriver (r : Option Int) : (charges.upd l (.core (.openTzdriver c)) r).page =
    { l.page with opened := r.map (c, ·) } := rfl

theorem page_closeFd :
    (charges.upd l (.core (.closeFd fd)) ()).page = { l.page with opened := none } := rfl

theorem page_insertContext : (charges.upd l (.core (.insertContext c)) ()).page =
    { l.page with fresh := some c, opened := none } := rfl

theorem turns_teecInitializeContextInner :
    Turns blank (teecInitializeContextInner false c) (afterInit c) := by
  simp only [teecInitializeContextInner, core, obj, Prog.bind_eq, Prog.bind_act, Prog.bind_pure]
  intro l hl
  refine ⟨trivial, fun answer => ?_⟩
  cases answer with
  | none => exact ⟨(page_openTzdriver none).trans (by rw [hl.page]; rfl), hl.closed⟩
  | some fd =>
    have hat : On { blank with opened := some (c, fd) }
        (charges.upd l (.core (.openTzdriver c)) (some fd)) :=
      ⟨(page_openTzdriver (some fd)).trans (by rw [hl.page]; rfl), hl.closed⟩
    have hclose {ret : TeecResult} (hret : ret ≠ .success) :
        Turns { blank with opened := some (c, fd) }
          (.act (.core (.closeFd fd)) fun _ => .pure ret) (afterInit c) := by
      refine fun l hl => ⟨trivial, fun _ => ?_⟩
      rw [safe_pure, afterInit, if_neg hret]
      exact ⟨page_closeFd.trans (by rw [hl.page]; rfl), hl.closed⟩
    refine (?_ : Turns { blank with opened := some (c, fd) } _ (afterInit c)) _ hat
    refine .act rfl fun loggedIn => .ite ?_ (hclose (by simp))
    refine .act rfl fun _ => .act rfl fun _ => .act rfl fun cleared => .ite ?_ (hclose (by simp))
    exact fun l hl => ⟨congrArg Page.fresh hl.page, fun _ =>
      ⟨page_insertContext.trans (by rw [hl.page]; rfl), hl.closed⟩⟩

theorem keeps_initializeContext : Keeps blank (initializeContext identity) := by
  simp only [initializeContext, core, Prog.bind_eq, Prog.bind_act, Prog.bind_pure, Prog.pure_eq]
  refine .act rfl fun contextInner => .act rfl fun caInfo => ?_
  cases contextInner with
  | none => exact .pure rfl
  | some c =>
    have hfree (x : TeecResult × Reply) :
        Keeps blank (.act (.core (.freeContext c)) fun _ => .pure x) :=
      .act rfl fun _ => .pure rfl
    have hinit (ret : TeecResult) : Turns (afterInit c ret)
        (if ret = .success then recordContext identity c
          else .act (.core (.freeContext c)) fun _ => .pure (ret, [])) fun _ => blank := by
      by_cases hret : ret = .success
      · rw [afterInit, if_pos hret, if_pos hret]
        exact turns_recordContext
      · rw [afterInit, if_neg hret, if_neg hret]
        exact hfree _
    have hauth : Turns blank ((teecInitializeContextInner false c).bind fun ret =>
        if ret = .success then recordContext identity c
        else .act (.core (.freeContext c)) fun _ => .pure (ret, [])) fun _ => blank :=
      .bind turns_teecInitializeContextInner hinit
    exact .ite (.act rfl fun authInfo => .ite hauth (hfree _)) (.ite hauth (hfree _))

theorem turns_cleanContexts (fds : List Int) :
    Turns { blank with snapshot := fds } (Prog.each cleanContext fds) fun _ => blank := by
  induction fds with
  | nil => exact .pure rfl
  | cons fd fds ih =>
    have hclean : Turns { blank with snapshot := fd :: fds } (cleanContext fd) fun _ =>
        { blank with snapshot := fds } := by
      simp only [cleanContext, core, Prog.bind_eq, Prog.bind_act, Prog.bind_pure]
      intro l hl
      have hnone : l.refused = none := hl.refused_eq_none rfl
      refine ⟨(fun c x hx => by cases hnone.symm.trans hx), fun outContext => ?_⟩
      have hat : On { blank with snapshot := fds }
          (charges.upd l (.core (.findAndRemoveBnContext fd)) outContext) := by
        refine ⟨(page_findAndRemove outContext).trans ?_, hl.closed⟩
        rw [hl.page]
        simp [blank]
      cases outContext with
      | none => exact hat
      | some c => exact Turns.bind keeps_putBnContext (fun _ => .pure rfl) _ hat
    exact .bind hclean fun _ => ih

theorem page_takeProcData {pid : Int} (r : Option DaemonProcdata) :
    (charges.upd l (.core (.takeProcData pid)) r).page =
      { l.page with snapshot := Option.elim r [] recorded } := rfl

theorem keeps_onRemoteDied {pid : Int} : Keeps blank (onRemoteDied pid) := by
  have hprocess : Keeps blank (processCaDied pid) := by
    simp only [processCaDied, core, Prog.bind_eq, Prog.bind_act, Prog.bind_pure]
    refine fun l hl => ⟨congrArg Page.snapshot hl.page, fun outProcData => ?_⟩
    have hat : On { blank with snapshot := Option.elim outProcData [] recorded }
        (charges.upd l (.core (.takeProcData pid)) outProcData) :=
      ⟨(page_takeProcData outProcData).trans (by rw [hl.page]), hl.closed⟩
    cases outProcData with
    | none => exact hat
    | some e => exact turns_cleanContexts (recorded e) _ hat
  simp only [onRemoteDied, core, Prog.bind_eq, Prog.bind_act, Prog.bind_pure]
  refine .act rfl fun clients => .bind (.each fun _ => ?_) fun _ => .act rfl fun _ => .pure rfl
  exact .bind hprocess fun _ => .act rfl fun _ => .pure rfl

variable {stack : Operation Addr} {teeVersion : U32}

theorem keeps_closeDupIonFd {opFlag : Option Bool} : Keeps g (closeDupIonFd stack opFlag) :=
  .ite (.each fun _ => .act rfl fun _ => .pure rfl) (.pure rfl)

theorem keeps_closing {p : Program Addr α} {opFlag : Option Bool} {f : α → StubResult × Reply}
    (h : Keeps g p) : Keeps g (closing stack opFlag p f) :=
  .bind h fun _ => .bind keeps_closeDupIonFd fun _ => .pure rfl

theorem keeps_answering {p : Program Addr α} {f : α → StubResult × Reply} (h : Keeps g p) :
    Keeps g (answering p f) := .bind h fun _ => .pure rfl

theorem keeps_program (task : Task) :
    Keeps blank (task.program stack memory pointer teeVersion) := by
  cases task with
  | caDied pid => exact keeps_onRemoteDied
  | request identity message =>
    refine .bind (?_ : Keeps blank _) fun _ => .pure rfl
    refine Served.onRemoteRequest (motive := Keeps blank) ?_ teeVersion message
    exact {
      nothing := fun _ => .pure rfl
      unmapped := fun _ _ => keeps_answering keeps_closeDupIonFd
      initContext := fun _ => keeps_answering keeps_initializeContext
      finalContext := fun _ _ => keeps_answering keeps_finalizeContext
      openSession := fun _ _ _ _ _ _ _ _ => keeps_closing keeps_openSession
      closeSession := fun _ _ _ => keeps_answering keeps_closeSession
      invokeCommand := fun _ _ _ _ _ _ _ => keeps_closing keeps_invokeCommand
      registerMem := fun _ _ _ => keeps_answering keeps_registerSharedMemory
      allocMem := fun _ _ _ => keeps_answering keeps_allocateSharedMemory
      releaseMem := fun _ _ _ _ => keeps_answering keeps_releaseSharedMemory
      setCallBack := fun _ => keeps_answering (.act rfl fun _ => .pure rfl)
      other := fun _ hp => .works (hp 0) }

end Passes

end TeeClient.Daemon.Service.CaDeath
