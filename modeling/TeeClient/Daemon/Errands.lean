import Mathlib.Tactic
import TeeClient.Daemon.ProcData
import TeeClient.Vendor.ContextList

/-! What a request or a clean-up keeps to on its own, whatever the daemon answers: it looks
contexts up only by the number it was told to, and puts what it has got. -/

namespace TeeClient.Daemon.Service

open Vendor Vendor.Api Stub
open Resumption RefCount

section Errands

def Task.MayUse : Task → CallerIdentity → Prop
  | .request identity _, owner => owner = identity
  | .caDied pid, owner => owner.pid = pid

instance (task : Task) (owner : CallerIdentity) : Decidable (task.MayUse owner) :=
  match task with
  | .request identity _ => inferInstanceAs (Decidable (owner = identity))
  | .caDied pid => inferInstanceAs (Decidable (owner.pid = pid))

/-- A task and the numbers that it looks contexts up by: the one that it has just had accepted, or
has read after it has put a context, and those of the entry that a clean-up has taken out of the
process data. -/
structure Errand where
  task : Task
  lookAt : Option Int
  put : Bool
  snapshot : List Int

def updErrand (l : Errand) : (a : Act Addr) → Resp a → Errand
  | .core (.isValidContext fd _), valid =>
    { l with lookAt := if valid then some fd else none, put := false }
  | .core .unlockProcData, _ => { l with lookAt := none, put := true }
  | .core (.readContextFd _), fd =>
    { l with lookAt := if l.put then some fd else none, put := false }
  | .core (.takeProcData _), e =>
    { l with lookAt := none, put := false, snapshot := Option.elim e [] recorded }
  | .core (.findAndRemoveBnContext fd), _ =>
    { l with lookAt := none, put := false, snapshot := l.snapshot.erase fd }
  | _, _ => { l with lookAt := none, put := false }

def errands : Machine (Act Addr) Resp (World Addr) (Env Addr) Errand where
  exec := exec
  upd := updErrand

def Errand.After (l : Errand) (fd : Int) : Prop := l.lookAt = some fd ∨ fd ∈ l.snapshot

instance (l : Errand) (fd : Int) : Decidable (l.After fd) :=
  inferInstanceAs (Decidable (_ ∨ _))

def AnyTask (k : Call (Act Addr) Resp Errand) : Prop :=
  ∃ task stack memory pointer teeVersion,
    k = ⟨⟨task, none, false, []⟩, Task.program stack memory pointer teeVersion task⟩

end Errands

section Care

/-- What a task knows beside: the contexts that it has met, the one that it has put into the list
and not into the process data yet, the descriptor that it has read last, whether it has
`mProcDataLock`, and the number that it has closed since. -/
structure Watch where
  known : List Nat
  fresh : Option Nat
  read : Option (Nat × Int)
  locked : Bool
  closing : Option Int

def Watch.start : Watch := ⟨[], none, none, false, none⟩

def updWatch (w : Watch) : (a : Act Addr) → Resp a → Watch
  | .core (.insertContext c), _ => { w with known := c :: w.known, fresh := some c }
  | .core (.getBnContext _), r => { w with known := Option.toList r ++ w.known }
  | .core (.findAndRemoveBnContext _), r => { w with known := Option.toList r ++ w.known }
  | .core (.setContextToProcData _ _), _ => { w with fresh := none }
  | .core (.readContextFd c), fd => if w.locked then w else { w with read := some (c, fd) }
  | .core .lockProcData, _ => { w with locked := true }
  | .core (.closeContext _), _ =>
    { w with closing := if w.locked then w.read.map (·.2) else none }
  | .core (.releaseProcData _ _), _ => { w with closing := none }
  | .core .unlockProcData, _ => { w with locked := false }
  | _, _ => w

def Task.IsRequestOf (task : Task) (identity : CallerIdentity) : Prop :=
  ∃ message, task = .request identity message

/-- A task acts for its caller, looks contexts up only by the number it is after, and closes a
descriptor between taking `mProcDataLock` and clearing the slot; a clean-up closes without it. -/
def Careful (l : Errand × Watch) : Act Addr → Prop
  | .core (.isValidContext _ identity) | .core (.mallocContext identity) =>
    l.1.task.IsRequestOf identity
  | .core (.takeProcData pid) => l.1.task = .caDied pid
  | .core (.getBnContext fd) | .core (.findAndRemoveBnContext fd) => l.1.After fd
  | .core (.readContextFd c) => c ∈ l.2.known
  | .core (.setContextToProcData identity c) =>
    l.2.fresh = some c ∧ l.1.task.IsRequestOf identity
  | .core (.atomDecContext _) => l.2.fresh = none
  | .core (.closeContext c) =>
    c ∈ l.2.known ∧ l.2.closing = none ∧
      if l.2.locked then (∃ fd, l.2.read = some (c, fd)) ∧ ∃ identity, l.1.task.IsRequestOf identity
      else ∃ pid, l.1.task = .caDied pid
  | .core (.releaseProcData pid fd) =>
    l.2.closing = some fd ∧ ∃ identity, identity.pid = pid ∧ l.1.task.IsRequestOf identity
  | .core .unlockProcData => l.2.locked = true ∧ l.2.closing = none
  | _ => True

def updInit (l : InitLocal) (a : Act Addr) (r : Resp a) : InitLocal :=
  ((refMachine Addr).upd l.1 a r, updOpened l.2 a r)

abbrev Local := (Errand × Watch) × InitLocal

abbrev watched : Machine (Act Addr) Resp (World Addr) (Env Addr) Local :=
  (errands.prod updWatch).prod updInit

def CarefulPre (l : Local) (a : Act Addr) : Prop :=
  Careful l.1 a ∧ RefUse l.2.1 a ∧ OpenedPre l.2.2 a

structure Stage where
  known : List Nat
  snapshot : List Int
  fresh : Option Nat
  lock : Option (Nat × Int)
  closing : Option Int
  refs : List (Ref Nat)
  opened : Option (Nat × Int)

def idle (cs : List Nat) (refs : List (Ref Nat)) : Stage := ⟨cs, [], none, none, none, refs, none⟩

structure At (t : Task) (g : Stage) (l : Local) : Prop where
  task : l.1.1.task = t
  snapshot : l.1.1.snapshot = g.snapshot
  known : ∀ c ∈ g.known, c ∈ l.1.2.known
  fresh : l.1.2.fresh = g.fresh
  locked : l.1.2.locked = g.lock.isSome
  read : g.lock.isSome → l.1.2.read = g.lock
  closing : l.1.2.closing = g.closing
  refs : l.2.1 = g.refs
  opened : l.2.2 = g.opened

def Leads {α : Type} (t : Task) (g : Stage) (p : Program Addr α) (post : α → Stage) : Prop :=
  ∀ l, At t g l → Safe watched CarefulPre l p fun x l' => At t (post x) l'

def Ends {α : Type} (t : Task) (g : Stage) (p : Program Addr α) : Prop :=
  ∀ l, At t g l → Safe watched CarefulPre l p fun _ _ => True

variable {α β : Type} {t : Task} {g : Stage} {post : α → Stage} {p : Program Addr α}

theorem At.isRequestOf {l : Local} {identity : CallerIdentity} (hl : At t g l)
    (ht : t.IsRequestOf identity) : l.1.1.task.IsRequestOf identity := by
  rw [hl.task]
  exact ht

theorem Leads.ends (h : Leads t g p post) : Ends t g p :=
  fun l hl => (h l hl).mono fun _ _ _ => trivial

theorem At.forget {l : Local} (hl : At t g l) : At t { g with known := [] } l :=
  ⟨hl.task, hl.snapshot, List.forall_mem_nil _, hl.fresh, hl.locked, hl.read, hl.closing, hl.refs,
    hl.opened⟩

theorem Leads.forget (h : Leads t g p post) : Leads t g p fun x => { post x with known := [] } :=
  fun l hl => (h l hl).mono fun _ _ hl' => hl'.forget

theorem Leads.then {f : α → Program Addr β} (hp : Leads t g p post)
    (hf : ∀ x, Ends t (post x) (f x)) : Ends t g (p.bind f) :=
  fun l hl => safe_bind.mpr ((hp l hl).mono fun x l' hl' => hf x l' hl')

theorem Ends.pure {x : α} : Ends t g (.pure x) := fun _ _ => trivial

theorem Ends.ite {b : Prop} [Decidable b] {q : Program Addr α} (hp : Ends t g p)
    (hq : Ends t g q) : Ends t g (if b then p else q) := by
  split_ifs
  · exact hp
  · exact hq

namespace Leads

theorem pure {x : α} (h : post x = g) : Leads t g (.pure x) post := by
  intro l hl
  rw [safe_pure, h]
  exact hl

theorem bind {f : α → Program Addr β} {mid : α → Stage} {post : β → Stage}
    (hp : Leads t g p mid) (hf : ∀ x, Leads t (mid x) (f x) post) : Leads t g (p.bind f) post :=
  fun l hl => safe_bind.mpr ((hp l hl).mono fun x l' hl' => hf x l' hl')

theorem each {f : β → Program Addr Unit} {xs : List β} (hf : ∀ x, Leads t g (f x) fun _ => g) :
    Leads t g (Prog.each f xs) fun _ => g :=
  fun _ hl => Safe.each (fun x _ l hl => hf x l hl) hl

end Leads

theorem refUse_core {a : CoreAct} {l : List (Ref Nat)} (hcov : ∀ r, Covered l (ctxEvents a r))
    (hopens : ∀ c, a = .openTzdriver c → .own c ∈ l)
    (hcloses : ∀ c, a = .closeContext c → .fin c ∈ l) : RefUse (P := Addr) l (.core a) := by
  refine ⟨?_, ?_, ?_⟩
  · rintro b hb r
    cases hb
    exact hcov r
  · rintro c hc
    cases hc
    exact hopens c rfl
  · rintro c hc
    cases hc
    exact hcloses c rfl

theorem refUse_idle {a : CoreAct} {l : List (Ref Nat)} (h : a.idle = true) :
    RefUse (P := Addr) l (.core a) := by
  refine refUse_core (fun r => ?_) ?_ ?_
  · cases a <;> first | exact covered_nil l | cases h
  · rintro c rfl
    cases h
  · rintro c rfl
    cases h

def plain : Act Addr → Bool
  | .core (.setCallFromService _) | .core (.readCallFromService _) | .core .outcome
  | .core .writeParcel | .core .addTidData | .core (.closeDupFd _) | .core (.ioctl _)
  | .core (.addClient _) | .core (.lockClients _) | .core (.eraseClient _)
  | .core .unlockClients => true
  | .core _ => false
  | .obj _ => true

theorem refUse_of_plain {a : Act Addr} {l : List (Ref Nat)} (h : plain a = true) : RefUse l a := by
  cases a with
  | obj a => exact ⟨fun _ hb => (by cases hb), fun _ hb => (by cases hb), fun _ hb => (by cases hb)⟩
  | core a =>
    refine refUse_core (fun r => ?_) ?_ ?_
    · cases a <;> first | exact covered_nil l | cases h
    · rintro c rfl
      cases h
    · rintro c rfl
      cases h

theorem at_of_plain {a : Act Addr} {l : Local} (h : plain a = true) (r : Resp a) (hl : At t g l) :
    At t g (watched.upd l a r) := by
  obtain ⟨htask, hsnap, hknown, hfresh, hlocked, hread, hclosing, hrefs, hopened⟩ := hl
  cases a with
  | obj a => exact ⟨htask, hsnap, hknown, hfresh, hlocked, hread, hclosing, hrefs, hopened⟩
  | core a =>
    cases a
    all_goals first
      | exact ⟨htask, hsnap, hknown, hfresh, hlocked, hread, hclosing, hrefs, hopened⟩
      | cases h

theorem carefulPre_of_plain {a : Act Addr} {l : Local} (h : plain a = true) : CarefulPre l a := by
  refine ⟨?_, refUse_of_plain h, ?_⟩
  · cases a with
    | obj a => trivial
    | core a => cases a <;> trivial
  · cases a with
    | obj a => trivial
    | core a => cases a <;> trivial

theorem Leads.plain {a : Act Addr} {k : Resp a → Program Addr α} (h : Service.plain a = true)
    (hk : ∀ r, Leads t g (k r) post) : Leads t g (.act a k) post :=
  fun _ hl => ⟨carefulPre_of_plain h, fun r => hk r _ (at_of_plain h r hl)⟩

theorem Ends.plain {a : Act Addr} {k : Resp a → Program Addr α} (h : Service.plain a = true)
    (hk : ∀ r, Ends t g (k r)) : Ends t g (.act a k) :=
  fun _ hl => ⟨carefulPre_of_plain h, fun r => hk r _ (at_of_plain h r hl)⟩

theorem carefulPre_readContextFd {c : Nat} {l : Local} (hl : At t g l) (hc : c ∈ g.known) :
    CarefulPre l (.core (.readContextFd c)) :=
  ⟨hl.known c hc, refUse_idle rfl, trivial⟩

theorem at_readContextFd {c : Nat} {l : Local} (fd : Int) (hl : At t g l) :
    At t g (watched.upd l (.core (.readContextFd c)) fd) := by
  obtain ⟨htask, hsnap, hknown, hfresh, hlocked, hread, hclosing, hrefs, hopened⟩ := hl
  have hwatch : updWatch l.1.2 (.core (.readContextFd c)) fd =
      if l.1.2.locked then l.1.2 else { l.1.2 with read := some (c, fd) } := rfl
  cases hlock : l.1.2.locked with
  | true =>
    have hsame : (watched.upd l (.core (.readContextFd c)) fd).1.2 = l.1.2 := by
      rw [hlock] at hwatch
      exact hwatch
    refine ⟨htask, hsnap, ?_, ?_, ?_, ?_, ?_, hrefs, hopened⟩
    all_goals rwa [hsame]
  | false =>
    have hset : (watched.upd l (.core (.readContextFd c)) fd).1.2 =
        { l.1.2 with read := some (c, fd) } := by
      rw [hlock] at hwatch
      exact hwatch
    refine ⟨htask, hsnap, ?_, ?_, ?_, ?_, ?_, hrefs, hopened⟩
    all_goals rw [hset]
    · exact hknown
    · exact hfresh
    · exact hlocked
    · intro hsome
      rw [← hlocked, hlock] at hsome
      cases hsome
    · exact hclosing

theorem leads_readContextFd {c : Nat} {k : Int → Program Addr α} (hc : c ∈ g.known)
    (hk : ∀ fd, Leads t g (k fd) post) : Leads t g (.act (.core (.readContextFd c)) k) post :=
  fun _ hl => ⟨carefulPre_readContextFd hl hc, fun fd => hk fd _ (at_readContextFd fd hl)⟩

theorem ends_readContextFd {c : Nat} {k : Int → Program Addr α} (hc : c ∈ g.known)
    (hk : ∀ fd, Ends t g (k fd)) : Ends t g (.act (.core (.readContextFd c)) k) :=
  fun _ hl => ⟨carefulPre_readContextFd hl hc, fun fd => hk fd _ (at_readContextFd fd hl)⟩

theorem leads_of_all {p : Program Addr α}
    (h : Prog.All (fun a => plain a = true ∨ ∃ c ∈ g.known, a = .core (.readContextFd c)) p) :
    Leads t g p fun _ => g := by
  induction p with
  | pure x => exact .pure rfl
  | act a k ih =>
    rcases h.1 with hplain | ⟨c, hc, rfl⟩
    · exact .plain hplain fun r => ih r (h.2 r)
    · exact leads_readContextFd hc fun r => ih r (h.2 r)

theorem plain_of_works {c : Nat} {a : Act Addr} (h : works c a = true) :
    plain a = true ∨ a = .core (.readContextFd c) := by
  cases a with
  | obj a => exact .inl rfl
  | core a =>
    cases a
    case readContextFd d =>
      obtain rfl : d = c := of_decide_eq_true h
      exact .inr rfl
    all_goals first | exact .inl rfl | cases h

theorem leads_works {c : Nat} (hc : c ∈ g.known) (h : Works c p) : Leads t g p fun _ => g := by
  refine leads_of_all ?_
  induction p with
  | pure x => trivial
  | act a k ih =>
    refine ⟨(plain_of_works h.1).imp_right ?_, fun r => ih r (h.2 r)⟩
    rintro rfl
    exact ⟨c, hc, rfl⟩

theorem leads_any (h : ∀ c, Works c p) : Leads t g p fun _ => g := by
  refine leads_of_all ?_
  induction p with
  | pure x => trivial
  | act a k ih =>
    refine ⟨.inl ?_, fun r => ih r fun c => (h c).2 r⟩
    rcases plain_of_works (h 0).1 with hplain | rfl
    · exact hplain
    · cases (h 1).1

theorem Ends.works {c : Nat} (hc : c ∈ g.known) (h : Works c p) : Ends t g p :=
  (leads_works hc h).ends

theorem Ends.andThen {c : Nat} {f : α → Program Addr β} (hc : c ∈ g.known) (hp : Works c p)
    (hf : ∀ x, Ends t g (f x)) : Ends t g (p.bind f) := (leads_works hc hp).then hf

end Care

section Puts

variable {t : Task} {g : Stage} {c : Nat} {cs : List Nat} {identity : CallerIdentity}

theorem leads_teecFinalizeContextInner (g' : Stage) (hc : c ∈ g.known)
    (hclose : ∀ l, At t { g with refs := [.fin c] } l → Careful l.1 (.core (.closeContext c)) ∧
      At t { g' with refs := [.fin c] } (watched.upd l (.core (.closeContext c)) ())) :
    Leads t { g with refs := [.fin c] } (teecFinalizeContextInner c) fun _ =>
      { g' with refs := [] } := by
  simp only [teecFinalizeContextInner, core, obj, Prog.bind_eq, Prog.bind_act, Prog.bind_pure]
  refine .plain rfl fun sessions => .plain rfl fun _ => ?_
  refine .bind (.each fun _ => leads_works hc works_finalizeSession) fun _ => ?_
  refine .plain rfl fun shms => ?_
  refine .bind (.each fun _ => leads_works hc works_putBnShrMem) fun _ => fun l hl => ?_
  have hfin : l.2.1 = [.fin c] := hl.refs
  obtain ⟨hcareful, hat⟩ := hclose l hl
  have hfin' : (watched.upd l (.core (.closeContext c)) ()).2.1 = [.fin c] := hat.refs
  refine ⟨⟨hcareful, refUse_core (fun _ => covered_nil _) (fun _ h => by cases h) ?_, trivial⟩,
    fun _ => ⟨⟨trivial, refUse_core (fun _ => ?_) (fun _ h => by cases h) (fun _ h => by cases h),
      trivial⟩, fun _ => ?_⟩⟩
  · rintro d hd
    cases hd
    rw [hfin]
    exact List.mem_cons_self
  · rw [hfin']
    exact covered_cons.mpr ⟨by simp [consumed], trivial⟩
  · refine ⟨hat.task, hat.snapshot, hat.known, hat.fresh, hat.locked, hat.read, hat.closing, ?_,
      hat.opened⟩
    have hupd : (watched.upd (watched.upd l (.core (.closeContext c)) ())
        (.core (.freeFinalized c)) ()).2.1 =
        upd (watched.upd l (.core (.closeContext c)) ()).2.1 (.free c) := rfl
    rw [hupd, hfin']
    simp [upd, consumed, produced]

theorem leads_putBnContext (g' : Stage) {r : Ref Nat} (hr : r = .hold c ∨ r = .removed c)
    (hc : c ∈ g.known) (hfresh : g.fresh = none) (hrefs : g.refs = [r])
    (hclose : ∀ l, At t { g with refs := [.fin c] } l → Careful l.1 (.core (.closeContext c)) ∧
      At t { g' with refs := [.fin c] } (watched.upd l (.core (.closeContext c)) ())) :
    Leads t g (putBnContext (some c)) fun cleared =>
      if cleared then { g' with refs := [] } else { g with refs := [] } := by
  have hcons (zero : Bool) : consumed [r] (.put c zero) = some r := by
    rcases hr with rfl | rfl <;> simp [consumed]
  simp only [putBnContext, core, Prog.bind_eq, Prog.bind_act, Prog.bind_pure]
  intro l hl
  have hone : l.2.1 = [r] := hl.refs.trans hrefs
  refine ⟨⟨hl.fresh.trans hfresh, refUse_core (fun zero => ?_) (fun _ h => by cases h)
    (fun _ h => by cases h), trivial⟩, fun zero => ?_⟩
  · rw [hone]
    refine covered_cons.mpr ⟨fun u hu => ?_, trivial⟩
    obtain rfl := Option.some.inj ((hcons zero).symm.trans hu)
    exact List.mem_cons_self
  · have hput : (watched.upd l (.core (.atomDecContext c)) zero).2.1 =
        (produced (.put c zero)).toList := by
      have hupd : (watched.upd l (.core (.atomDecContext c)) zero).2.1 =
          upd l.2.1 (.put c zero) := rfl
      rw [hupd, hone, upd, hcons]
      simp
    have hat : At t { g with refs := (produced (.put c zero)).toList }
        (watched.upd l (.core (.atomDecContext c)) zero) :=
      ⟨hl.task, hl.snapshot, hl.known, hl.fresh, hl.locked, hl.read, hl.closing, hput, hl.opened⟩
    cases zero with
    | false => exact hat
    | true =>
      exact Leads.bind (leads_teecFinalizeContextInner g' hc hclose)
        (fun _ => .pure (x := true) rfl) _ hat

def putting (cs : List Nat) (c : Nat) (fd : Int) (closing : Option Int) (refs : List (Ref Nat)) :
    Stage := ⟨cs, [], none, some (c, fd), closing, refs, none⟩

theorem careful_putBnContextAndReleaseFd {r : Ref Nat} {l : Local}
    (hr : r = .hold c ∨ r = .removed c) (ht : t.IsRequestOf identity) (hc : c ∈ cs)
    (hl : At t (idle cs [r]) l) :
    Safe watched CarefulPre l (putBnContextAndReleaseFd identity.pid (some c)) fun _ l' =>
      At t (idle cs []) l' ∧ l'.1.1.put = true := by
  simp only [putBnContextAndReleaseFd, core, Prog.bind_eq, Prog.bind_act, Prog.bind_pure]
  have hread : (updWatch l.1.2 (.core (.readContextFd c))) =
      fun fd => { l.1.2 with read := some (c, fd) } := by
    funext fd
    have hwatch : updWatch l.1.2 (.core (.readContextFd c)) fd =
        if l.1.2.locked then l.1.2 else { l.1.2 with read := some (c, fd) } := rfl
    rw [hl.locked] at hwatch
    exact hwatch
  refine ⟨⟨hl.known c hc, refUse_idle rfl, trivial⟩, fun fd =>
    ⟨⟨trivial, refUse_idle rfl, trivial⟩, fun _ => ?_⟩⟩
  have hat : At t (putting cs c fd none [r])
      (watched.upd (watched.upd l (.core (.readContextFd c)) fd) (.core .lockProcData) ()) := by
    have hwatch : (watched.upd (watched.upd l (.core (.readContextFd c)) fd)
        (.core .lockProcData) ()).1.2 = { l.1.2 with read := some (c, fd), locked := true } := by
      have hstep : (watched.upd (watched.upd l (.core (.readContextFd c)) fd)
        (.core .lockProcData) ()).1.2 =
          { updWatch l.1.2 (.core (.readContextFd c)) fd with locked := true } := rfl
      rw [hstep, hread]
    refine ⟨hl.task, hl.snapshot, ?_, ?_, ?_, ?_, ?_, hl.refs, hl.opened⟩
    all_goals rw [hwatch]
    · exact hl.known
    · exact hl.fresh
    · rfl
    · exact fun _ => rfl
    · exact hl.closing
  have hunlock {l : Local} (hl : At t (putting cs c fd none []) l) :
      Safe watched CarefulPre l (.act (.core .unlockProcData) .pure) fun _ l' =>
        At t (idle cs []) l' ∧ l'.1.1.put = true := by
    refine ⟨⟨⟨hl.locked, hl.closing⟩, refUse_idle rfl, trivial⟩, fun _ => ⟨?_, rfl⟩⟩
    exact ⟨hl.task, hl.snapshot, hl.known, hl.fresh, rfl, (fun h => by cases h), hl.closing,
      hl.refs, hl.opened⟩
  have hclose : Leads t (putting cs c fd none [r]) (putBnContext (some c)) fun cleared =>
      if cleared then putting cs c fd (some fd) [] else putting cs c fd none [] := by
    refine leads_putBnContext (putting cs c fd (some fd) []) hr hc rfl rfl fun l hl => ?_
    have hlast : l.1.2.read = some (c, fd) := hl.read rfl
    have hlocked : l.1.2.locked = true := hl.locked
    refine ⟨⟨hl.known c hc, hl.closing, ?_⟩, hl.task, hl.snapshot, hl.known, hl.fresh, hl.locked,
      hl.read, ?_, hl.refs, hl.opened⟩
    · rw [if_pos hlocked]
      exact ⟨⟨fd, hlast⟩, identity, hl.isRequestOf ht⟩
    · have hwatch : (updWatch l.1.2 (.core (.closeContext c)) ()).closing =
          if l.1.2.locked then l.1.2.read.map (·.2) else none := rfl
      rw [hlocked, if_pos rfl, hlast] at hwatch
      exact hwatch
  refine safe_bind.mpr ((hclose _ hat).mono fun cleared l hl => ?_)
  cases cleared with
  | false => exact hunlock hl
  | true =>
    refine ⟨⟨⟨hl.closing, identity, rfl, hl.isRequestOf ht⟩, refUse_idle rfl, trivial⟩, fun _ =>
      hunlock ?_⟩
    exact ⟨hl.task, hl.snapshot, hl.known, hl.fresh, hl.locked, hl.read, rfl, hl.refs, hl.opened⟩

theorem leads_putBnContextAndReleaseFd {r : Ref Nat} (hr : r = .hold c ∨ r = .removed c)
    (ht : t.IsRequestOf identity) (hc : c ∈ cs) :
    Leads t (idle cs [r]) (putBnContextAndReleaseFd identity.pid (some c)) fun _ => idle cs [] :=
  fun _ hl => (careful_putBnContextAndReleaseFd hr ht hc hl).mono fun _ _ hl' => hl'.1

end Puts

section Requests

variable {α : Type} {t : Task} {c : Nat} {cs : List Nat} {fd : Int} {identity : CallerIdentity}
variable {l : Local}

theorem ends_callFinalizeContext (ht : t.IsRequestOf identity) (hl : At t (idle cs []) l)
    (hafter : l.1.1.After fd) :
    Safe watched CarefulPre l (callFinalizeContext identity.pid fd) fun _ _ => True := by
  have hnil : l.2.1 = [] := hl.refs
  simp only [callFinalizeContext, core, Prog.bind_eq, Prog.bind_act, Prog.bind_pure]
  refine ⟨⟨hafter, refUse_core (fun r => ?_) (fun _ h => by cases h) (fun _ h => by cases h),
    trivial⟩, fun r => ?_⟩
  · rw [hnil]
    exact covered_found (fun _ => rfl) r
  · cases r with
    | none => trivial
    | some c =>
      have hat : At t (idle [c] [.removed c])
          (watched.upd l (.core (.findAndRemoveBnContext fd)) (some c)) := by
        refine ⟨hl.task, ?_, ?_, hl.fresh, hl.locked, hl.read, hl.closing, ?_, hl.opened⟩
        · have hsnap : l.1.1.snapshot = [] := hl.snapshot
          have herase : (updErrand l.1.1 (.core (.findAndRemoveBnContext fd)) (some c)).snapshot =
              l.1.1.snapshot.erase fd := rfl
          rw [hsnap] at herase
          exact herase
        · rintro d hd
          exact List.mem_append_left _ hd
        · have hupd : (watched.upd l (.core (.findAndRemoveBnContext fd)) (some c)).2.1 =
              upd l.2.1 (.remove c) := rfl
          rw [hupd, hnil]
          rfl
      exact Leads.then (leads_putBnContextAndReleaseFd (.inr rfl) ht List.mem_cons_self)
        (fun _ => .pure) _ hat

theorem ends_finalizeContext (ht : t.IsRequestOf identity) :
    Ends t (idle [] []) (finalizeContext identity fd) := by
  intro l hl
  refine ⟨⟨hl.isRequestOf ht, refUse_idle rfl, trivial⟩, fun valid => ?_⟩
  cases valid with
  | false => trivial
  | true =>
    have hat : At t (idle [] []) (watched.upd l (.core (.isValidContext fd identity)) true) :=
      ⟨hl.task, hl.snapshot, hl.known, hl.fresh, hl.locked, hl.read, hl.closing, hl.refs, hl.opened⟩
    exact ends_callFinalizeContext ht hat (.inl rfl)

theorem careful_use {k : Option Nat → Program Addr α} {no : Program Addr α} {Q : α → Local → Prop}
    (ht : t.IsRequestOf identity)
    (hnone : ∀ l, At t (idle [] []) l → Safe watched CarefulPre l (k none) Q)
    (hsome : ∀ c l, At t (idle [c] [.hold c]) l → Safe watched CarefulPre l (k (some c)) Q)
    (hno : ∀ l, At t (idle [] []) l → Safe watched CarefulPre l no Q) (hl : At t (idle [] []) l) :
    Safe watched CarefulPre l (.act (.core (.isValidContext fd identity)) fun valid =>
      if valid = true then .act (.core (.getBnContext fd)) k else no) Q := by
  refine ⟨⟨hl.isRequestOf ht, refUse_idle rfl, trivial⟩, fun valid => ?_⟩
  have hat : At t (idle [] []) (watched.upd l (.core (.isValidContext fd identity)) valid) :=
    ⟨hl.task, hl.snapshot, hl.known, hl.fresh, hl.locked, hl.read, hl.closing, hl.refs, hl.opened⟩
  cases valid with
  | false => exact hno _ hat
  | true =>
    have hnil : l.2.1 = [] := hl.refs
    refine ⟨⟨.inl rfl, refUse_core (fun r => ?_) (fun _ h => by cases h) (fun _ h => by cases h),
      trivial⟩, fun r => ?_⟩
    · have hsame : (watched.upd l (.core (.isValidContext fd identity)) true).2.1 = l.2.1 := rfl
      rw [hsame, hnil]
      exact covered_found (fun _ => rfl) r
    · cases r with
      | none =>
        exact hnone _ ⟨hl.task, hl.snapshot, List.forall_mem_nil _, hl.fresh, hl.locked, hl.read,
          hl.closing, hl.refs, hl.opened⟩
      | some c =>
        refine hsome c _ ⟨hl.task, hl.snapshot, fun d hd => List.mem_append_left _ hd, hl.fresh,
          hl.locked, hl.read, hl.closing, ?_, hl.opened⟩
        have hupd : (watched.upd (watched.upd l (.core (.isValidContext fd identity)) true)
            (.core (.getBnContext fd)) (some c)).2.1 = upd l.2.1 (.get c) := rfl
        rw [hupd, hnil]
        rfl

def gotStage : Except TeecResult (Nat × Nat) → Stage
  | .error _ => idle [] []
  | .ok (c, _) => idle [c] [.hold c]

theorem leads_callGetBnContext (ht : t.IsRequestOf identity) :
    Leads t (idle [] []) (callGetBnContext identity fd) gotStage := by
  simp only [callGetBnContext, core, obj, Prog.bind_eq, Prog.bind_act, Prog.bind_pure]
  refine fun l => careful_use ht (fun _ hl => hl) (fun c => ?_) fun _ hl => hl
  show Leads t (idle [c] [.hold c]) _ gotStage
  refine .plain rfl fun session => ?_
  cases session with
  | none =>
    exact .bind (leads_putBnContextAndReleaseFd (.inl rfl) ht List.mem_cons_self).forget
      fun _ => .pure rfl
  | some session => exact .pure rfl

theorem leads_callGetBnSession (ht : t.IsRequestOf identity) {sessionId : U32} :
    Leads t (idle [] []) (callGetBnSession identity fd sessionId) gotStage := by
  simp only [callGetBnSession, core, obj, Prog.bind_eq, Prog.bind_act, Prog.bind_pure]
  refine fun l => careful_use ht (fun _ hl => hl) (fun c => ?_) fun _ hl => hl
  show Leads t (idle [c] [.hold c]) _ gotStage
  refine .plain rfl fun session => ?_
  cases session with
  | none =>
    exact .bind (leads_putBnContextAndReleaseFd (.inl rfl) ht List.mem_cons_self).forget
      fun _ => .pure rfl
  | some session => exact .pure rfl

def inserted (c : Nat) : Stage := ⟨[c], [], some c, none, none, [.hold c], none⟩

theorem refUse_consume {a : CoreAct} {r : Ref Nat} (e : CoreResp a → Event Nat)
    (hev : ∀ x, ctxEvents a x = [e x]) (hcons : ∀ x, consumed [r] (e x) = some r)
    (hcloses : ∀ c, a ≠ .closeContext c) (hopens : ∀ c, a ≠ .openTzdriver c) :
    RefUse (P := Addr) [r] (.core a) := by
  refine refUse_core (fun x => ?_) (fun c h => absurd h (hopens c)) fun c h => absurd h (hcloses c)
  rw [hev x]
  refine covered_cons.mpr ⟨fun u hu => ?_, trivial⟩
  obtain rfl := Option.some.inj ((hcons x).symm.trans hu)
  exact List.mem_cons_self

def connected (r : Ref Nat) (c : Nat) (fd : Int) : Stage :=
  ⟨[], [], none, none, none, [r], some (c, fd)⟩

def Unlisted (t : Task) (c : Nat) (l : Local) : Prop :=
  ∃ r, (r = .own c ∨ r = .init c) ∧ At t (idle [] [r]) l

theorem safe_closeFd {r : Ref Nat} {ret : TeecResult} (hr : r = .own c ∨ r = .init c)
    (hret : ret ≠ .success) (hl : At t (connected r c fd) l) :
    Safe watched CarefulPre l (.act (.core (.closeFd fd)) fun _ => .pure ret) fun ret l' =>
      if ret = .success then At t (inserted c) l' else Unlisted t c l' := by
  refine ⟨⟨trivial, refUse_core (fun _ => covered_nil _) (fun _ h => by cases h)
    (fun _ h => by cases h), c, hl.opened⟩, fun _ => ?_⟩
  rw [safe_pure, if_neg hret]
  exact ⟨r, hr, hl.task, hl.snapshot, hl.known, hl.fresh, hl.locked, hl.read, hl.closing, hl.refs,
    rfl⟩

theorem at_setContext (hl : At t (connected (.own c) c fd) l) :
    CarefulPre l (.core (.setContext c fd)) ∧
      At t (connected (.init c) c fd) (watched.upd l (.core (.setContext c fd)) ()) := by
  have howns : l.2.1 = [.own c] := hl.refs
  refine ⟨⟨trivial, ?_, hl.opened⟩, hl.task, hl.snapshot, hl.known, hl.fresh, hl.locked, hl.read,
    hl.closing, ?_, hl.opened⟩
  · rw [howns]
    exact refUse_consume (fun _ => .set c) (fun _ => rfl) (fun _ => rfl) (by simp) (by simp)
  · have hupd : (watched.upd l (.core (.setContext c fd)) ()).2.1 = upd l.2.1 (.set c) := rfl
    rw [hupd, howns]
    simp [connected, upd, consumed, produced]

theorem at_insertContext (hl : At t (connected (.init c) c fd) l) :
    CarefulPre l (.core (.insertContext c)) ∧
      At t (inserted c) (watched.upd l (.core (.insertContext c)) ()) := by
  have hinit : l.2.1 = [.init c] := hl.refs
  refine ⟨⟨trivial, ?_, fd, hl.opened⟩, hl.task, hl.snapshot, ?_, rfl, hl.locked, hl.read,
    hl.closing, ?_, rfl⟩
  · rw [hinit]
    exact refUse_consume (fun _ => .insert c) (fun _ => rfl) (fun _ => rfl) (by simp) (by simp)
  · intro d hd
    obtain rfl := List.mem_singleton.mp hd
    exact List.mem_cons_self
  · have hupd : (watched.upd l (.core (.insertContext c)) ()).2.1 = upd l.2.1 (.insert c) := rfl
    rw [hupd, hinit]
    simp [inserted, upd, consumed, produced]

theorem careful_teecInitializeContextInner (hl : At t (idle [] [.own c]) l) :
    Safe watched CarefulPre l (teecInitializeContextInner false c) fun ret l' =>
      if ret = .success then At t (inserted c) l' else Unlisted t c l' := by
  have howns : l.2.1 = [.own c] := hl.refs
  simp only [teecInitializeContextInner, core, obj, Prog.bind_eq, Prog.bind_act, Prog.bind_pure]
  refine ⟨⟨trivial, refUse_core (fun _ => covered_nil _) (fun d hd => ?_) (fun _ h => by cases h),
    hl.opened⟩, fun answer => ?_⟩
  · cases hd
    rw [howns]
    exact List.mem_cons_self
  cases answer with
  | none =>
    exact ⟨.own c, .inl rfl, hl.task, hl.snapshot, hl.known, hl.fresh, hl.locked, hl.read,
      hl.closing, hl.refs, rfl⟩
  | some fd =>
    have hopen : At t (connected (.own c) c fd)
        (watched.upd l (.core (.openTzdriver c)) (some fd)) :=
      ⟨hl.task, hl.snapshot, hl.known, hl.fresh, hl.locked, hl.read, hl.closing, hl.refs, rfl⟩
    refine ⟨carefulPre_of_plain rfl, fun loggedIn => ?_⟩
    have hlogin := at_of_plain (a := .core .outcome) rfl loggedIn hopen
    cases loggedIn with
    | false => exact safe_closeFd (.inl rfl) (by simp) hlogin
    | true =>
      obtain ⟨hset, hat⟩ := at_setContext hlogin
      refine ⟨hset, fun _ => ⟨carefulPre_of_plain rfl, fun _ =>
        ⟨carefulPre_of_plain rfl, fun cleared => ?_⟩⟩⟩
      have hlists := at_of_plain (a := .obj (.initLists c)) rfl () hat
      have hclear := at_of_plain (a := .core .outcome) rfl cleared hlists
      cases cleared with
      | false => exact safe_closeFd (.inr rfl) (by simp) hclear
      | true =>
        obtain ⟨hinsert, hat⟩ := at_insertContext hclear
        exact ⟨hinsert, fun _ => hat⟩

theorem ends_freeContext {α : Type} {x : α} (hl : Unlisted t c l) :
    Safe watched CarefulPre l (.act (.core (.freeContext c)) fun _ => .pure x) fun _ _ => True := by
  obtain ⟨r, hr, hat⟩ := hl
  have hrefs : l.2.1 = [r] := hat.refs
  have hcons : consumed [r] (.discard c) = some r := by
    rcases hr with rfl | rfl <;> simp [consumed]
  refine ⟨⟨trivial, ?_, hat.opened⟩, fun _ => trivial⟩
  rw [hrefs]
  exact refUse_consume (fun _ => .discard c) (fun _ => rfl) (fun _ => hcons) (by simp) (by simp)

/-- The context that is taken out is the one with the number that is read, whatever it is. -/
theorem ends_releaseContext (ht : t.IsRequestOf identity) (hc : c ∈ cs) :
    Ends t (idle cs [.hold c]) (releaseContext identity.pid c) := by
  intro l hl
  simp only [releaseContext, core, Prog.bind_eq, Prog.bind_act, Prog.bind_pure]
  refine safe_bind.mpr ((careful_putBnContextAndReleaseFd (.inl rfl) ht hc hl).mono ?_)
  rintro - l ⟨hl, hput⟩
  refine ⟨carefulPre_readContextFd hl hc, fun fd => safe_bind.mpr ?_⟩
  have hat := at_readContextFd (c := c) fd hl
  have hafter : (updErrand l.1.1 (.core (.readContextFd c)) fd).After fd := by
    refine .inl ?_
    have hlook : (updErrand l.1.1 (.core (.readContextFd c)) fd).lookAt =
        if l.1.1.put then some fd else none := rfl
    rw [hlook, if_pos hput]
  exact (ends_callFinalizeContext ht hat hafter).mono fun _ _ _ => trivial

theorem ends_recordContext (ht : t.IsRequestOf identity) :
    Ends t (inserted c) (recordContext identity c) := by
  have hrelease (x : TeecResult × Reply) : Ends t (idle [c] [.hold c])
      ((releaseContext identity.pid c).bind fun _ => .pure x) := fun l hl =>
    safe_bind.mpr ((ends_releaseContext ht List.mem_cons_self l hl).mono fun _ _ _ => trivial)
  simp only [recordContext, core, Prog.bind_eq, Prog.bind_act, Prog.bind_pure]
  refine .plain rfl fun _ => fun l hl => ?_
  refine ⟨⟨⟨hl.fresh, hl.isRequestOf ht⟩, refUse_idle rfl, trivial⟩, fun recorded => ?_⟩
  have hat : At t (idle [c] [.hold c])
      (watched.upd l (.core (.setContextToProcData identity c)) recorded) :=
    ⟨hl.task, hl.snapshot, hl.known, rfl, hl.locked, hl.read, hl.closing, hl.refs, hl.opened⟩
  refine Ends.ite ?_ (hrelease _) _ hat
  refine .andThen (c := c) List.mem_cons_self (works_writeItems _) fun x => .ite ?_ (hrelease _)
  refine ends_readContextFd List.mem_cons_self fun fd => ?_
  refine .andThen (c := c) List.mem_cons_self (works_writeItems _) fun x => .ite ?_ (hrelease _)
  exact (leads_putBnContextAndReleaseFd (.inl rfl) ht List.mem_cons_self).then fun _ => .pure

theorem ends_initializeContext (ht : t.IsRequestOf identity) :
    Ends t (idle [] []) (initializeContext identity) := by
  intro l hl
  have hnil : l.2.1 = [] := hl.refs
  simp only [initializeContext, core, Prog.bind_eq, Prog.bind_act, Prog.bind_pure, Prog.pure_eq]
  refine ⟨⟨hl.isRequestOf ht, refUse_core (fun r => ?_) (fun _ h => by cases h)
    (fun _ h => by cases h), trivial⟩, fun contextInner =>
      ⟨carefulPre_of_plain rfl, fun caInfo => ?_⟩⟩
  · rw [hnil]
    exact covered_found (fun _ => rfl) r
  cases contextInner with
  | none => trivial
  | some c =>
    have hown : At t (idle [] [.own c])
        (watched.upd l (.core (.mallocContext identity)) (some c)) := by
      refine ⟨hl.task, hl.snapshot, List.forall_mem_nil _, hl.fresh, hl.locked, hl.read, hl.closing,
        ?_, hl.opened⟩
      have hupd : (watched.upd l (.core (.mallocContext identity)) (some c)).2.1 =
          upd l.2.1 (.malloc c) := rfl
      rw [hupd, hnil]
      rfl
    have hat := at_of_plain (a := .core .outcome) rfl caInfo hown
    have hauth (authInfo : Bool) {l : Local} (hl : At t (idle [] [.own c]) l) :
        Safe watched CarefulPre l (if authInfo = true then
          (teecInitializeContextInner false c).bind fun ret =>
            if ret = .success then recordContext identity c
            else .act (.core (.freeContext c)) fun _ => .pure (ret, [])
          else .act (.core (.freeContext c)) fun _ => .pure (.fail, [])) fun _ _ => True := by
      cases authInfo with
      | false => exact ends_freeContext ⟨_, .inl rfl, hl⟩
      | true =>
        refine safe_bind.mpr ((careful_teecInitializeContextInner hl).mono fun ret l' hret => ?_)
        by_cases hok : ret = .success
        · rw [if_pos hok] at hret ⊢
          exact ends_recordContext ht l' hret
        · rw [if_neg hok] at hret ⊢
          exact ends_freeContext hret
    cases caInfo with
    | false => exact hauth false hat
    | true =>
      exact ⟨carefulPre_of_plain rfl, fun authInfo =>
        hauth authInfo (at_of_plain (a := .core .outcome) rfl authInfo hat)⟩

end Requests

section Sessions

variable {t : Task} {c : Nat} {fd : Int} {identity : CallerIdentity}
variable {memory : BitVec 64 → SharedMemory Addr} {pointer : BitVec 64 → Addr}

theorem ends_put {α : Type} {f : Unit → Program Addr α} (ht : t.IsRequestOf identity)
    (hf : ∀ x, Works c (f x)) :
    Ends t (idle [c] [.hold c]) ((putBnContextAndReleaseFd identity.pid (some c)).bind f) :=
  (leads_putBnContextAndReleaseFd (.inl rfl) ht List.mem_cons_self).then fun x =>
    .works List.mem_cons_self (hf x)

theorem ends_openSession (ht : t.IsRequestOf identity) {destination : BitVec 128}
    {connectionMethod optMemSize : U32} {operation : Option (Operation Addr)}
    {optMem : Option Ashmem} :
    Ends t (idle [] []) (openSession memory identity fd destination connectionMethod operation
      optMemSize optMem) := by
  simp only [openSession, core, obj, Prog.bind_eq, Prog.bind_act, Prog.bind_pure]
  refine (leads_callGetBnContext ht).then fun got => ?_
  obtain ret | ⟨c, session⟩ := got
  · exact (leads_any fun _ => works_openSessionError).ends
  have hc : c ∈ (idle [c] [.hold c]).known := List.mem_cons_self
  refine .andThen hc works_decode fun x => .ite ?_ ?_
  · refine .plain rfl fun addTidData =>
      .ite ?_ (.plain rfl fun _ => .works hc works_openSessionError)
    refine .andThen hc works_teecOpenSessionInner fun result => ?_
    refine .andThen hc works_putAllocShrMem fun _ => ends_put ht fun _ => ?_
    refine .bind works_recOpenReply fun x => .ite ?_ ?_
    · exact .bind works_putBnSession fun _ => .pure
    · exact .act (by simp [works]) fun _ => works_openSessionError
  · exact .plain rfl fun _ => .works hc works_openSessionError

theorem ends_invokeCommand (ht : t.IsRequestOf identity) {sessionId optMemSize : U32}
    {operation : Option (Operation Addr)} {optMem : Option Ashmem} :
    Ends t (idle [] [])
      (invokeCommand memory identity fd sessionId operation optMemSize optMem) := by
  simp only [invokeCommand, core, Prog.bind_eq, Prog.bind_act, Prog.bind_pure]
  refine (leads_callGetBnSession ht).then fun got => ?_
  obtain ret | ⟨c, session⟩ := got
  · exact (leads_any fun _ => works_invokeCommandEnd).ends
  have hc : c ∈ (idle [c] [.hold c]).known := List.mem_cons_self
  have hput (ret : TeecResult) (operation : Option (Operation Addr)) :
      Ends t (idle [c] [.hold c]) ((putBnSession c session).bind fun _ =>
        (putBnContextAndReleaseFd identity.pid (some c)).bind fun _ =>
          invokeCommandEnd originApi ret operation) :=
    .andThen hc works_putBnSession fun _ => ends_put ht fun _ => works_invokeCommandEnd
  refine .andThen hc works_decode fun x => .ite ?_ (hput _ _)
  refine .plain rfl fun addTidData => .ite ?_ (hput _ _)
  refine .andThen hc works_teecInvokeCommandInner fun result => ?_
  refine .andThen hc works_putAllocShrMem fun _ => ?_
  exact .andThen hc works_putBnSession fun _ => ends_put ht fun _ => works_invokeCommandEnd

theorem ends_closeSession (ht : t.IsRequestOf identity) {sessionId : U32} :
    Ends t (idle [] []) (closeSession identity fd sessionId) := by
  simp only [closeSession, core, obj, Prog.bind_eq, Prog.bind_act, Prog.bind_pure]
  refine fun l => careful_use ht (fun _ _ => trivial) (fun c => ?_) fun _ _ => trivial
  refine Ends.plain rfl fun outSession => ?_
  cases outSession with
  | none => exact ends_put ht fun _ => .pure
  | some session =>
    refine .plain rfl fun addTidData => .ite ?_ .pure
    refine .andThen (c := c) List.mem_cons_self works_teecCloseSessionInner fun _ => ?_
    refine .andThen (c := c) List.mem_cons_self works_putBnSession fun _ => ?_
    exact ends_put ht fun _ => .pure

theorem ends_registerSharedMemory (ht : t.IsRequestOf identity) {sharedMem : ShmData} :
    Ends t (idle [] []) (registerSharedMemory pointer identity fd sharedMem) := by
  have herror {ret : TeecResult} : Ends t (idle [] []) (shmError ret) :=
    (leads_any fun _ => works_shmError).ends
  simp only [registerSharedMemory, registerSharedMemoryReply, core, obj, Prog.bind_eq,
    Prog.bind_act, Prog.bind_pure]
  refine fun l => careful_use ht herror (fun c => ?_) herror
  have hc : c ∈ (idle [c] [.hold c]).known := List.mem_cons_self
  refine Ends.plain rfl fun mallocInner =>
    .ite (.plain rfl fun outShm => ?_) (.works hc works_shmError)
  refine .andThen hc works_teecRegisterSharedMemoryInner fun ret => .ite ?_ ?_
  · refine .andThen hc works_putBnShrMem fun _ => ends_put ht fun _ => ?_
    refine .act (by simp [works]) fun shm => .bind (works_writeItems _) fun x => .ite ?_ .pure
    exact .act (by simp [works]) fun shm => .bind (works_writeItems _) fun _ => .pure
  · exact .plain rfl fun _ => ends_put ht fun _ => works_shmError

theorem ends_allocateSharedMemory (ht : t.IsRequestOf identity) {sharedMem : ShmData} :
    Ends t (idle [] []) (allocateSharedMemory pointer identity fd sharedMem) := by
  have herror {ret : TeecResult} : Ends t (idle [] []) (shmError ret) :=
    (leads_any fun _ => works_shmError).ends
  simp only [allocateSharedMemory, core, obj, Prog.bind_eq, Prog.bind_act, Prog.bind_pure]
  refine fun l => careful_use ht herror (fun c => ?_) herror
  have hc : c ∈ (idle [c] [.hold c]).known := List.mem_cons_self
  refine Ends.plain rfl fun mallocInner =>
    .ite (.plain rfl fun outShm => ?_) (ends_put ht fun _ => works_shmError)
  refine .andThen hc works_teecAllocateSharedMemoryInner fun ret => .ite ?_ ?_
  · refine .plain rfl fun shm => ends_readContextFd hc fun fd => ?_
    refine .andThen hc (works_writeItems _) fun x => ?_
    refine .andThen hc works_putBnShrMem fun _ => ends_put ht fun _ => .ite .pure ?_
    exact .act (by simp [works]) fun _ => .bind works_putBnShrMem fun _ => .pure
  · exact .plain rfl fun _ => ends_put ht fun _ => works_shmError

theorem ends_releaseSharedMemory (ht : t.IsRequestOf identity) {sharedMem : ShmData}
    {shmOffset : U32} :
    Ends t (idle [] []) (releaseSharedMemory pointer identity fd sharedMem shmOffset) := by
  simp only [releaseSharedMemory, core, Prog.bind_eq, Prog.bind_act, Prog.bind_pure]
  refine fun l => careful_use ht (fun _ _ => trivial) (fun c => ?_) fun _ _ => trivial
  exact Ends.andThen (c := c) List.mem_cons_self works_teecReleaseSharedMemoryInner fun _ =>
    ends_put ht fun _ => .pure

end Sessions

section Deaths

variable {pid : Int}

def cleaning (fds : List Int) (refs : List (Ref Nat)) : Stage :=
  ⟨[], fds, none, none, none, refs, none⟩

theorem leads_cleanContext {fd : Int} {fds : List Int} :
    Leads (.caDied pid) (cleaning (fd :: fds) []) (cleanContext fd) fun _ => cleaning fds [] := by
  simp only [cleanContext, core, Prog.bind_eq, Prog.bind_act, Prog.bind_pure]
  intro l hl
  have hnil : l.2.1 = [] := hl.refs
  have hsnap : l.1.1.snapshot = fd :: fds := hl.snapshot
  have herase (r : Option Nat) :
      (updErrand l.1.1 (.core (.findAndRemoveBnContext fd)) r).snapshot = fds := by
    have hupd : (updErrand l.1.1 (.core (.findAndRemoveBnContext fd)) r).snapshot =
        l.1.1.snapshot.erase fd := rfl
    rw [hupd, hsnap, List.erase_cons_head]
  refine ⟨⟨.inr ?_, refUse_core (fun r => ?_) (fun _ h => by cases h) (fun _ h => by cases h),
    trivial⟩, fun r => ?_⟩
  · rw [hsnap]
    exact List.mem_cons_self
  · rw [hnil]
    exact covered_found (fun _ => rfl) r
  cases r with
  | none =>
    exact ⟨hl.task, herase none, List.forall_mem_nil _, hl.fresh, hl.locked, hl.read, hl.closing,
      hl.refs, hl.opened⟩
  | some c =>
    have hat : At (.caDied pid) ⟨[c], fds, none, none, none, [.removed c], none⟩
        (watched.upd l (.core (.findAndRemoveBnContext fd)) (some c)) := by
      refine ⟨hl.task, herase (some c), fun d hd => List.mem_append_left _ hd, hl.fresh, hl.locked,
        hl.read, hl.closing, ?_, hl.opened⟩
      have hupd : (watched.upd l (.core (.findAndRemoveBnContext fd)) (some c)).2.1 =
          upd l.2.1 (.remove c) := rfl
      rw [hupd, hnil]
      rfl
    refine Leads.bind (leads_putBnContext ⟨[c], fds, none, none, none, [.removed c], none⟩
      (.inr rfl) List.mem_cons_self rfl rfl ?_).forget (fun cleared => .pure ?_) _ hat
    · intro l hl
      have hfree : l.1.2.locked = false := hl.locked
      refine ⟨⟨hl.known c List.mem_cons_self, hl.closing, ?_⟩, hl.task, hl.snapshot, hl.known,
        hl.fresh, hl.locked, hl.read, ?_, hl.refs, hl.opened⟩
      · rw [hfree]
        exact ⟨pid, hl.task⟩
      · have hwatch : (updWatch l.1.2 (.core (.closeContext c)) ()).closing =
            if l.1.2.locked then l.1.2.read.map (·.2) else none := rfl
        rw [hfree] at hwatch
        exact hwatch
    · cases cleared <;> rfl

theorem leads_cleanContexts (fds : List Int) :
    Leads (.caDied pid) (cleaning fds []) (Prog.each cleanContext fds) fun _ => cleaning [] [] := by
  induction fds with
  | nil => exact .pure rfl
  | cons fd fds ih => exact .bind leads_cleanContext fun _ => ih

theorem leads_processCaDied :
    Leads (.caDied pid) (cleaning [] []) (processCaDied pid) fun _ => cleaning [] [] := by
  simp only [processCaDied, core, Prog.bind_eq, Prog.bind_act, Prog.bind_pure]
  intro l hl
  refine ⟨⟨hl.task, refUse_idle rfl, trivial⟩, fun outProcData => ?_⟩
  have hat : At (.caDied pid) (cleaning (Option.elim outProcData [] recorded) [])
      (watched.upd l (.core (.takeProcData pid)) outProcData) :=
    ⟨hl.task, rfl, hl.known, hl.fresh, hl.locked, hl.read, hl.closing, hl.refs, hl.opened⟩
  cases outProcData with
  | none => exact hat
  | some e => exact leads_cleanContexts (recorded e) _ hat

theorem ends_onRemoteDied : Ends (.caDied pid) (idle [] []) (onRemoteDied pid) := by
  simp only [onRemoteDied, core, Prog.bind_eq, Prog.bind_act, Prog.bind_pure]
  refine .plain rfl fun clients => ?_
  have hbody (_ : Unit) : Leads (.caDied pid) (cleaning [] [])
      ((processCaDied pid).bind fun _ => .act (.core (.eraseClient pid)) .pure)
      fun _ => cleaning [] [] :=
    .bind leads_processCaDied fun _ => .plain rfl fun _ => .pure rfl
  exact (Leads.each hbody).then fun _ => .plain rfl fun _ => .pure

end Deaths

section Tasks

variable {t : Task} {identity : CallerIdentity} {stack : Operation Addr}
variable {memory : BitVec 64 → SharedMemory Addr} {pointer : BitVec 64 → Addr} {teeVersion : U32}

theorem ends_answering {α : Type} {g : Stage} {p : Program Addr α} {f : α → StubResult × Reply}
    (h : Ends t g p) : Ends t g (answering p f) :=
  fun l hl => safe_bind.mpr ((h l hl).mono fun _ _ _ => trivial)

theorem safe_closeDupIonFd {opFlag : Option Bool} {l : Local} :
    Safe watched CarefulPre l (closeDupIonFd stack opFlag) fun _ _ => True := by
  have hplain : Prog.All (fun a => plain a = true) (closeDupIonFd stack opFlag) :=
    .ite (Prog.All.each fun fd => ⟨rfl, fun _ => trivial⟩) trivial
  exact .of_forall hplain fun _ _ ha => carefulPre_of_plain ha

theorem ends_closing {α : Type} {g : Stage} {p : Program Addr α} {opFlag : Option Bool}
    {f : α → StubResult × Reply} (h : Ends t g p) : Ends t g (closing stack opFlag p f) :=
  fun l hl => safe_bind.mpr ((h l hl).mono fun _ _ _ =>
    safe_bind.mpr (safe_closeDupIonFd.mono fun _ _ _ => trivial))

theorem ends_onRemoteRequest (ht : t.IsRequestOf identity) (message : IpcMessage) :
    Ends t (idle [] []) (onRemoteRequest stack memory pointer identity teeVersion message) := by
  refine Served.onRemoteRequest (motive := Ends t (idle [] [])) ?_ teeVersion message
  exact {
    nothing := fun _ => .pure
    unmapped := fun _ _ => fun l _ => safe_bind.mpr (safe_closeDupIonFd.mono fun _ _ _ => trivial)
    initContext := fun _ => ends_answering (ends_initializeContext ht)
    finalContext := fun _ _ => ends_answering (ends_finalizeContext ht)
    openSession := fun _ _ _ _ _ _ _ _ => ends_closing (ends_openSession ht)
    closeSession := fun _ _ _ => ends_answering (ends_closeSession ht)
    invokeCommand := fun _ _ _ _ _ _ _ => ends_closing (ends_invokeCommand ht)
    registerMem := fun _ _ _ => ends_answering (ends_registerSharedMemory ht)
    allocMem := fun _ _ _ => ends_answering (ends_allocateSharedMemory ht)
    releaseMem := fun _ _ _ _ => ends_answering (ends_releaseSharedMemory ht)
    setCallBack := fun _ => ends_answering (.plain rfl fun _ => .pure)
    other := fun _ hp => (leads_any hp).ends }

theorem careful_program (task : Task) :
    Safe watched CarefulPre ((⟨task, none, false, []⟩, Watch.start), [], none)
      (task.program stack memory pointer teeVersion) fun _ _ => True := by
  have hstart : At task (idle [] []) ((⟨task, none, false, []⟩, Watch.start), [], none) :=
    ⟨rfl, rfl, List.forall_mem_nil _, rfl, rfl, (fun h => by cases h), rfl, rfl, rfl⟩
  cases task with
  | request identity message =>
    refine safe_bind.mpr ((ends_onRemoteRequest ⟨message, rfl⟩ message _ hstart).mono ?_)
    exact fun _ _ _ => trivial
  | caDied pid => exact ends_onRemoteDied _ hstart

end Tasks

end TeeClient.Daemon.Service
