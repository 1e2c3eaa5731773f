import Mathlib.Tactic
import TeeClient.Daemon.Charges
import TeeClient.Daemon.Isolation

/-! Every context in the list, every open descriptor and every entry of the process data has a task
that will see to it, or is recorded where the clean-up after its process finds it. -/

namespace TeeClient.Daemon.Service.CaDeath

open Vendor Vendor.Api Stub
open Resumption RefCount

section Tending

def isDeathOf (pid : Int) : Task → Bool
  | .request _ _ => false
  | .caDied died => died = pid

/-- No context is recorded for a process whose entry a clean-up has taken. -/
def inTime (ts : List (Task × Bool)) : (a : Act Addr) → Resp a → Bool
  | .core (.setContextToProcData identity _), recorded =>
    !recorded || ts.all fun t => !(t.2 && isDeathOf identity.pid t.1)
  | _, _ => true

def Page.Minds (g : Page) (fd : Int) (c : Nat) : Prop :=
  g.fresh = some c ∨ g.refused = some c ∨ fd ∈ g.snapshot

/-- A context in the list is one that a task has still to record or to take out, or it is recorded
under its number. -/
def Minded (s : Core) (ls : List Charge) (c : Nat) : Prop :=
  (∃ l ∈ ls, l.page.Minds (s.ctx c).fd c) ∨ ∃ e ∈ s.procData,
    (s.ctx c).fd ∈ recorded e ∧ ¬ Closing (ls.map (·.care)) e.callerIdentity.pid (s.ctx c).fd

structure Recalls (s : Core) (l : Charge) : Prop where
  refused : ∀ c x, l.refused = some (c, x) → Was s c ∧ l.care.1.1.task.MayUse (s.ctx c).owner ∧
    ∀ fd, x = some fd → (s.ctx c).fd = fd ∨ (s.ctx c).fd = -1
  closed : ∀ c, l.closed = some c → Was s c ∧ (s.ctx c).fd = -1
  refs : ∀ t ∈ l.care.2.1, l.care.1.1.task.MayUse (s.ctx t.obj).owner

def Backed (s : Core) (ls : List Charge) (p : Int × Nat) : Prop :=
  (∃ k ∈ ls, k.page.opened = some (p.2, p.1)) ∨
    Was s p.2 ∧ (s.ctx p.2).frees = 0 ∧ (s.ctx p.2).fd = p.1

structure Tended (s : Core) (ls : List Charge) : Prop where
  listed : ∀ c ∈ s.contextList, Minded s ls c
  recalls : ∀ l ∈ ls, Recalls s l
  closing : ∀ c, Was s c → (s.ctx c).frees = 0 → (s.ctx c).fd = -1 →
    ∃ l ∈ ls, l.closed = some c ∧ .fin c ∈ l.care.2.1
  opened : ∀ p ∈ s.openFds, Backed s ls p
  taken : ∀ l ∈ ls, l.taken = true → ∀ pid, l.care.1.1.task = .caDied pid →
    ∀ e ∈ s.procData, e.callerIdentity.pid ≠ pid

variable {s s' : Core} {ls : List Charge} {i : Nat} {l l' : Charge} {a : CoreAct} {r : CoreResp a}
variable {env : Env Addr} {c : Nat} {fd pid : Int}

theorem task_upd (a : Act Addr) (r : Resp a) :
    (charges.upd l a r).care.1.1.task = l.care.1.1.task := by
  cases a with
  | obj a => rfl
  | core a => cases a <;> rfl

theorem closing_upd (ha : ∀ c, a ≠ .closeContext c)
    (h : (charges.upd l (.core a) r).care.1.2.closing = some fd) :
    l.care.1.2.closing = some fd := by
  cases a
  case closeContext c => exact absurd rfl (ha c)
  case readContextFd c =>
    have hwatch : (charges.upd l (.core (.readContextFd c)) r).care.1.2 =
        if l.care.1.2.locked then l.care.1.2 else { l.care.1.2 with read := some (c, r) } := rfl
    rw [hwatch] at h
    split_ifs at h <;> exact h
  case releaseProcData => cases h
  all_goals exact h

theorem closing_of_set {ls : List Local} {l l' : Local} (hi : ls[i]? = some l)
    (h : Closing (ls.set i l') pid fd) (htask : l'.1.1.task = l.1.1.task)
    (hclosing : l'.1.2.closing = some fd → l.1.2.closing = some fd) : Closing ls pid fd := by
  obtain ⟨k, hk, hkc, hrequest⟩ := h
  rcases mem_set_cases hk with rfl | ⟨j, -, hj⟩
  · exact ⟨l, List.mem_of_getElem? hi, hclosing hkc, htask ▸ hrequest⟩
  · exact ⟨k, List.mem_of_getElem? hj, hkc, hrequest⟩

theorem Minded.step (h : Minded s ls c) (hi : ls[i]? = some l)
    (hfd : (s'.ctx c).fd = (s.ctx c).fd)
    (hminds : l.page.Minds (s.ctx c).fd c → Minded s' (ls.set i l') c)
    (hrec : ∀ e ∈ s.procData, (s.ctx c).fd ∈ recorded e →
      ¬ Closing (ls.map (·.care)) e.callerIdentity.pid (s.ctx c).fd →
        Minded s' (ls.set i l') c) : Minded s' (ls.set i l') c := by
  rcases h with ⟨k, hk, hkc⟩ | ⟨e, he, hrecorded, hnot⟩
  · rcases mem_cases hi hk with rfl | ⟨j, hij, hj⟩
    · exact hminds hkc
    · exact .inl ⟨k, mem_set_of_ne hij hj, hfd ▸ hkc⟩
  · exact hrec e he hrecorded hnot

theorem Recalls.moves (h : Recalls s l) (hm : Moves a s s')
    (hrefs : ∀ t ∈ l.care.2.1, t.obj < s.next) : Recalls s' l := by
  refine ⟨fun c x hx => ?_, fun c hc => ?_, fun t ht => ?_⟩
  · obtain ⟨hwas, hmay, hfd⟩ := h.refused c x hx
    obtain ⟨hwas', hsame | ⟨-, hneg⟩⟩ := hm.was c hwas
    · rw [hm.owner c hwas.1, hsame]
      exact ⟨hwas', hmay, hfd⟩
    · rw [hm.owner c hwas.1]
      exact ⟨hwas', hmay, fun _ _ => .inr hneg⟩
  · obtain ⟨hwas, hneg⟩ := h.closed c hc
    obtain ⟨hwas', hsame | ⟨-, hneg'⟩⟩ := hm.was c hwas
    · exact ⟨hwas', hsame.trans hneg⟩
    · exact ⟨hwas', hneg'⟩
  · rw [hm.owner t.obj (hrefs t ht)]
    exact h.refs t ht

theorem obj_of_mem_upd {refs : List (Ref Nat)} {e : Event Nat} {t : Ref Nat} (h : t ∈ upd refs e)
    (hcov : Covered refs [e]) (hnew : ∀ o, e ≠ .malloc o ∧ e ≠ .get o ∧ e ≠ .remove o) :
    ∃ t' ∈ refs, t'.obj = t.obj := by
  rcases mem_of_mem_upd h with hold | hprod
  · exact ⟨t, hold, rfl⟩
  · have hobj := obj_of_produced hprod
    obtain ⟨u, hu⟩ : ∃ u, consumed refs e = some u := by
      cases e
      case malloc o => exact absurd rfl (hnew o).1
      case get o => exact absurd rfl (hnew o).2.1
      case remove o => exact absurd rfl (hnew o).2.2
      all_goals
        simp only [consumed]
        try split_ifs
        all_goals exact ⟨_, rfl⟩
    exact ⟨u, hcov.1 u hu, (obj_of_consumed hu).trans hobj.symm⟩

theorem fin_mem_updAll {refs : List (Ref Nat)} (h : .fin c ∈ refs) (ha : a ≠ .freeFinalized c) :
    .fin c ∈ updAll refs (ctxEvents a r) := by
  have hone (e : Event Nat) (he : consumed refs e ≠ some (.fin c)) :
      .fin c ∈ updAll refs [e] := mem_upd_of_mem h he
  cases a
  case mallocContext | getBnContext | findAndRemoveBnContext =>
    cases r with
    | none => exact h
    | some d => exact hone _ (by simp [consumed])
  case setContext | insertContext => exact hone _ (by simp [consumed])
  case freeContext d | atomDecContext d =>
    refine hone _ ?_
    simp only [consumed]
    split_ifs <;> simp
  case freeFinalized d =>
    refine hone _ ?_
    rintro ⟨⟩
    exact ha rfl
  all_goals exact h

section Step

variable (hguard : Guarded s (ls.map (·.care))) (hi : ls[i]? = some l)
variable (hexec : s.exec env a = some (r, s')) (hpre : CarefulPre l.care (.core a))
include hguard hi hexec hpre

theorem moves_charge : Moves a s s' :=
  moves_exec hguard.accounts (Guarded.mem_refs (List.mem_map_of_mem (List.mem_of_getElem? hi)))
    hexec hpre.2.1

theorem frees_charge (hwas : Was s c) (hfinalized : a ≠ .freeFinalized c) :
    (s'.ctx c).frees = (s.ctx c).frees := by
  have hm := Guarded.mem_refs (List.mem_map_of_mem (f := (·.care)) (List.mem_of_getElem? hi))
  have hdiscard : a ≠ .freeContext c := by
    rintro rfl
    have hcov := (hpre.2.1.covered _ rfl r).1
    have href : .own c ∈ l.care.2.1 ∨ .init c ∈ l.care.2.1 := by
      by_cases hown : .own c ∈ l.care.2.1
      · exact .inl hown
      · exact .inr (hcov _ (by simp [consumed, hown]))
    cases (wasListed_eq_false hguard.accounts hm href).symm.trans hwas.2
  have hknown : s.ledger.known c = true := decide_eq_true hwas.1
  refine (follows_ctxEvents hexec).frees hknown fun e he => ?_
  cases a
  case mallocContext | getBnContext | findAndRemoveBnContext =>
    obtain ⟨d, -, rfl⟩ := List.mem_map.mp he
    simp
  case freeContext d =>
    obtain rfl := List.mem_singleton.mp he
    have hdc : d ≠ c := fun heq => hdiscard (heq ▸ rfl)
    simp [hdc]
  case freeFinalized d =>
    obtain rfl := List.mem_singleton.mp he
    have hdc : d ≠ c := fun heq => hfinalized (heq ▸ rfl)
    simp [hdc]
  case setContext | insertContext | atomDecContext =>
    obtain rfl := List.mem_singleton.mp he
    simp
  all_goals cases he

theorem refs_charge (hrecalls : Recalls s l) :
    ∀ t ∈ (charges.upd l (.core a) r).care.2.1, l.care.1.1.task.MayUse (s'.ctx t.obj).owner := by
  have hl := List.mem_map_of_mem (f := (·.care)) (List.mem_of_getElem? hi)
  have hmoves := moves_charge hguard hi hexec hpre
  have hold {t : Ref Nat} (ht : t ∈ l.care.2.1) :
      l.care.1.1.task.MayUse (s'.ctx t.obj).owner := by
    rw [hmoves.owner t.obj (lt_next_of_ref hguard.accounts (Guarded.mem_refs hl) ht)]
    exact hrecalls.refs t ht
  have hcov := hpre.2.1.covered a rfl r
  have hsame {e : Event Nat} (he : ctxEvents a r = [e])
      (hnew : ∀ o, e ≠ .malloc o ∧ e ≠ .get o ∧ e ≠ .remove o) :
      ∀ t ∈ updAll l.care.2.1 (ctxEvents a r), l.care.1.1.task.MayUse (s'.ctx t.obj).owner := by
    rw [he] at hcov ⊢
    intro t ht
    obtain ⟨t', ht', hobj⟩ := obj_of_mem_upd ht hcov hnew
    exact hobj ▸ hold ht'
  cases a
  case mallocContext owner =>
    simp only [Core.exec] at hexec
    split_ifs at hexec
    · obtain ⟨rfl, rfl⟩ := Prod.mk.inj (Option.some.inj hexec)
      intro t ht
      rcases mem_of_mem_upd (e := .malloc s.next) ht with ht | hprod
      · exact hold ht
      · obtain rfl := Option.some.inj hprod
        have howner : ((s.mallocContext owner).ctx s.next).owner = owner := by
          simp [Core.mallocContext]
        rw [Ref.obj, howner]
        exact Task.IsRequestOf.mayUse hpre.1
    · obtain ⟨rfl, rfl⟩ := Prod.mk.inj (Option.some.inj hexec)
      exact fun t ht => hold ht
  case getBnContext fd =>
    obtain ⟨rfl, rfl⟩ := Prod.mk.inj (Option.some.inj hexec)
    cases hfind : s.findBnContext fd with
    | none =>
      rw [hfind] at hold
      exact fun t ht => hold ht
    | some c =>
      rw [hfind] at hold hmoves
      intro t ht
      rcases mem_of_mem_upd (e := .get c) ht with ht | hprod
      · exact hold ht
      · obtain rfl := Option.some.inj hprod
        exact (met hguard.accounts (hguard.pledge _ hl) hpre.1 hfind hmoves).2
  case findAndRemoveBnContext fd =>
    obtain ⟨rfl, rfl⟩ := Prod.mk.inj (Option.some.inj hexec)
    cases hfind : s.findBnContext fd with
    | none =>
      rw [hfind] at hold
      exact fun t ht => hold ht
    | some c =>
      rw [hfind] at hold hmoves
      intro t ht
      rcases mem_of_mem_upd (e := .remove c) ht with ht | hprod
      · exact hold ht
      · obtain rfl := Option.some.inj hprod
        exact (met hguard.accounts (hguard.pledge _ hl) hpre.1 hfind hmoves).2
  case setContext | insertContext | atomDecContext | freeContext | freeFinalized =>
    exact hsame rfl (by simp)
  all_goals exact fun t ht => hold ht

theorem recalls_charge (hrecalls : Recalls s l) : Recalls s' (charges.upd l (.core a) r) := by
  have hl := List.mem_map_of_mem (f := (·.care)) (List.mem_of_getElem? hi)
  have hmoves := moves_charge hguard hi hexec hpre
  have hrefs := refs_charge hguard hi hexec hpre hrecalls
  have h' := hrecalls.moves hmoves fun t ht =>
    lt_next_of_ref hguard.accounts (Guarded.mem_refs hl) ht
  refine ⟨?_, ?_, ?_⟩
  · cases a
    case setContextToProcData identity c =>
      intro d x hx
      cases r with
      | true => cases hx
      | false =>
        obtain ⟨rfl, rfl⟩ := Prod.mk.inj (Option.some.inj hx)
        obtain ⟨hwas, hmay⟩ := (hguard.sound _ hl).known c ((hguard.sound _ hl).fresh c hpre.1.1).2
        rw [hmoves.owner c hwas.1]
        exact ⟨(hmoves.was c hwas).1, hmay, fun _ h => by cases h⟩
    case readContextFd c =>
      obtain ⟨rfl, rfl⟩ := Prod.mk.inj (Option.some.inj hexec)
      intro d x hx
      have hmap : (l.refused.map fun y => if y.1 = c then (c, some (s.ctx c).fd) else y) =
          some (d, x) := hx
      obtain ⟨y, hy, hyx⟩ := Option.map_eq_some_iff.mp hmap
      by_cases hyc : y.1 = c
      · rw [if_pos hyc] at hyx
        obtain ⟨rfl, rfl⟩ := Prod.mk.inj hyx
        obtain ⟨hwas, hmay, -⟩ := hrecalls.refused c y.2 (hyc ▸ hy)
        exact ⟨hwas, hmay, fun fd hfd => .inl (Option.some.inj hfd)⟩
      · rw [if_neg hyc] at hyx
        exact hrecalls.refused d x (hyx ▸ hy)
    case findAndRemoveBnContext fd => exact fun _ _ hx => by cases hx
    all_goals exact h'.refused
  · cases a
    case closeContext c =>
      intro d hd
      obtain rfl : c = d := Option.some.inj hd
      have hwas := was_of_ref hguard.accounts (Guarded.mem_refs hl)
        (.inr (.inr (hpre.2.1.closes c rfl)))
      obtain ⟨-, rfl⟩ := Prod.mk.inj (Option.some.inj hexec)
      exact ⟨(hmoves.was c hwas).1, by simp [Core.modify]⟩
    case freeFinalized c => exact fun _ hx => by cases hx
    all_goals exact h'.closed
  · rw [task_upd]
    exact hrefs

end Step

end Tending

section Steps

variable {s s' : Core} {ls : List Charge} {i : Nat} {l : Charge} {a : CoreAct} {r : CoreResp a}
variable {env : Env Addr} {c : Nat} {fd pid : Int}

theorem fd_ne_of_listed (hguard : Guarded s (ls.map (·.care))) (hc : c ∈ s.contextList) :
    (s.ctx c).fd ≠ -1 := hguard.fd_ne_of_open (open_of_listed hguard.accounts hguard.fds hc)

/-- The number of a context in the list is that of no other one. -/
theorem eq_of_listed {d : Nat} (hguard : Guarded s (ls.map (·.care))) (hc : c ∈ s.contextList)
    (hd : Was s d) (hfd : (s.ctx d).fd = (s.ctx c).fd) : c = d := by
  have hopen := open_of_listed hguard.accounts hguard.fds hc
  have hopen' := (hguard.shut d hd).resolve_left fun hneg =>
    fd_ne_of_listed hguard hc (hfd.symm.trans hneg)
  rw [hfd] at hopen'
  exact hguard.fds.unique hopen hopen'

theorem closed_upd (hpre : ChargePre l (.core a)) (h : l.closed = some c)
    (ha : a ≠ .freeFinalized c) : (charges.upd l (.core a) r).closed = some c := by
  cases a
  case closeContext d => cases h.symm.trans hpre
  case freeFinalized d =>
    obtain rfl := Option.some.inj (h.symm.trans hpre)
    exact absurd rfl ha
  all_goals exact h

def turnsPage : CoreAct → Bool
  | .takeProcData _ | .insertContext _ | .setContextToProcData _ _ | .findAndRemoveBnContext _ =>
    true
  | _ => false

theorem minds_upd (ha : turnsPage a = false) :
    (charges.upd l (.core a) r).page.Minds fd c ↔ l.page.Minds fd c := by
  cases a
  case readContextFd d =>
    rw [page_readContextFd]
  case takeProcData | insertContext | setContextToProcData | findAndRemoveBnContext => cases ha
  all_goals exact Iff.rfl

section Step

variable (h : Tended s ls) (hguard : Guarded s (ls.map (·.care))) (hi : ls[i]? = some l)
variable (hexec : s.exec env a = some (r, s')) (hpre : CarefulPre l.care (.core a))
variable (hcharge : ChargePre l (.core a))
include h hguard hi hexec hpre hcharge

theorem closing_charge (hwas : Was s' c) (hfrees : (s'.ctx c).frees = 0)
    (hneg : (s'.ctx c).fd = -1) :
    ∃ k ∈ ls.set i (charges.upd l (.core a) r), k.closed = some c ∧ .fin c ∈ k.care.2.1 := by
  have hl := List.mem_map_of_mem (f := (·.care)) (List.mem_of_getElem? hi)
  have hmoves := moves_charge hguard hi hexec hpre
  rcases hmoves.new c hwas with hwas | rfl
  · by_cases hclose : a = .closeContext c
    · subst hclose
      exact ⟨_, mem_set_self hi, rfl, hpre.2.1.closes c rfl⟩
    · have hsame : (s.ctx c).fd = -1 := by
        rcases (hmoves.was c hwas).2 with hsame | ⟨hclose', -⟩
        · exact hsame.symm.trans hneg
        · exact absurd hclose' hclose
      have hfinal : a ≠ .freeFinalized c := by
        rintro rfl
        obtain ⟨-, rfl⟩ := Prod.mk.inj (Option.some.inj hexec)
        simp [Core.modify] at hfrees
      rw [frees_charge hguard hi hexec hpre hwas hfinal] at hfrees
      obtain ⟨k, hk, hclosed, hfin⟩ := h.closing c hwas hfrees hsame
      rcases mem_cases hi hk with rfl | ⟨j, hij, hj⟩
      · exact ⟨_, mem_set_self hi, closed_upd hcharge hclosed hfinal, fin_mem_updAll hfin hfinal⟩
      · exact ⟨k, mem_set_of_ne hij hj, hclosed, hfin⟩
  · obtain ⟨-, rfl⟩ := Prod.mk.inj (Option.some.inj hexec)
    obtain ⟨fd, hopened⟩ := hpre.2.2
    have hinit := fd_of_init hguard.accounts hguard.fds (Guarded.mem_refs hl) hopened
      ((hpre.2.1.covered _ rfl r).1 _ rfl)
    have hsame : ((s.insertContext c).ctx c).fd = (s.ctx c).fd := by
      simp [Core.insertContext, Core.modify]
    have hopen := (hguard.fds.opened l.care.2 (Guarded.mem_refs hl) c fd hopened).1
    exact absurd ((hinit.symm.trans hsame.symm).trans hneg) (hguard.fd_ne_of_open hopen)

theorem live_charge (hwas : Was s c) (hfrees : (s.ctx c).frees = 0) (hfd : (s.ctx c).fd = fd)
    (hneg : fd ≠ -1) (hclose : a ≠ .closeContext c) :
    Was s' c ∧ (s'.ctx c).frees = 0 ∧ (s'.ctx c).fd = fd := by
  have hfinal : a ≠ .freeFinalized c := by
    rintro rfl
    obtain ⟨-, hshut⟩ := (h.recalls l (List.mem_of_getElem? hi)).closed c hcharge
    exact hneg (hfd.symm.trans hshut)
  obtain ⟨hwas', hsame | ⟨hclose', -⟩⟩ := (moves_charge hguard hi hexec hpre).was c hwas
  · exact ⟨hwas', (frees_charge hguard hi hexec hpre hwas hfinal).trans hfrees, hsame.trans hfd⟩
  · exact absurd hclose' hclose

theorem backed_charge {p : Int × Nat} (hp : p ∈ s.openFds)
    (hclose : (s.ctx p.2).fd = p.1 → a ≠ .closeContext p.2)
    (hmine : l.page.opened = some (p.2, p.1) →
      Backed s' (ls.set i (charges.upd l (.core a) r)) p) :
    Backed s' (ls.set i (charges.upd l (.core a) r)) p := by
  rcases h.opened p hp with ⟨k, hk, hopened⟩ | ⟨hwas, hfrees, hfd⟩
  · rcases mem_cases hi hk with rfl | ⟨j, hij, hj⟩
    · exact hmine hopened
    · exact .inl ⟨k, mem_set_of_ne hij hj, hopened⟩
  · exact .inr (live_charge h hguard hi hexec hpre hcharge hwas hfrees hfd
      (hguard.fd_ne_of_open hp) (hclose hfd))

theorem opened_charge (hspare : ∀ fd, a = .closeDupFd fd → s' = s) :
    ∀ p ∈ s'.openFds, Backed s' (ls.set i (charges.upd l (.core a) r)) p := by
  have hl := List.mem_map_of_mem (f := (·.care)) (List.mem_of_getElem? hi)
  have hstay {p : Int × Nat} (hp : p ∈ s.openFds)
      (hclose : (s.ctx p.2).fd = p.1 → a ≠ .closeContext p.2)
      (hsame : (charges.upd l (.core a) r).page.opened = l.page.opened) :
      Backed s' (ls.set i (charges.upd l (.core a) r)) p :=
    backed_charge h hguard hi hexec hpre hcharge hp hclose fun hmine =>
      .inl ⟨_, mem_set_self hi, hsame.trans hmine⟩
  have hkept := fun p => backed_charge h hguard hi hexec hpre hcharge (p := p)
  cases a
  case openTzdriver d =>
    have hnone : l.page.opened = none := hpre.2.2
    have hold (p : Int × Nat) (hp : p ∈ s.openFds) :
        Backed s' (ls.set i (charges.upd l (.core (.openTzdriver d)) r)) p :=
      hkept p hp (by simp) fun hmine => by cases hnone.symm.trans hmine
    simp only [Core.exec] at hexec
    split_ifs at hexec
    · obtain ⟨rfl, rfl⟩ := Prod.mk.inj (Option.some.inj hexec)
      intro p hp
      rcases List.mem_cons.mp hp with rfl | hp
      · exact .inl ⟨_, mem_set_self hi, rfl⟩
      · exact hold p hp
    · obtain ⟨-, rfl⟩ := Prod.mk.inj (Option.some.inj hexec)
      exact hold
  case closeFd fd =>
    obtain ⟨-, rfl⟩ := Prod.mk.inj (Option.some.inj hexec)
    intro p hp
    obtain ⟨hp, hne⟩ := List.mem_filter.mp hp
    obtain ⟨d, hopened⟩ := hpre.2.2
    have hpage : l.page.opened = some (d, fd) := hopened
    refine hkept p hp (by simp) fun hmine => ?_
    obtain ⟨-, rfl⟩ := Prod.mk.inj (Option.some.inj (hpage.symm.trans hmine))
    simp at hne
  case closeContext d =>
    obtain ⟨-, rfl⟩ := Prod.mk.inj (Option.some.inj hexec)
    intro p hp
    obtain ⟨hp, hne⟩ := List.mem_filter.mp hp
    refine hstay hp (fun hfd hclose => ?_) rfl
    obtain rfl := CoreAct.closeContext.inj hclose
    simp [hfd] at hne
  case insertContext d =>
    obtain ⟨fd, hopened⟩ := hpre.2.2
    have hinit : .init d ∈ l.care.2.1 := (hpre.2.1.covered _ rfl r).1 _ rfl
    have hfd := fd_of_init hguard.accounts hguard.fds (Guarded.mem_refs hl) hopened hinit
    have hfrees : (s.ctx d).frees = 0 := hguard.accounts.frees_eq_zero
      (refsOf_pos.mpr ⟨_, List.mem_map_of_mem (Guarded.mem_refs hl), hinit⟩)
    have hlt := ((hguard.sound _ hl).mine d (.inr hinit)).1
    have hpage : l.page.opened = some (d, fd) := hopened
    have hlive : Was (s.insertContext d) d ∧
        ((s.insertContext d).ctx d).frees = 0 ∧ ((s.insertContext d).ctx d).fd = fd := by
      simpa [Was, Core.insertContext, Core.modify, hfrees, hfd] using hlt
    obtain ⟨-, rfl⟩ := Prod.mk.inj (Option.some.inj hexec)
    intro p hp
    refine hkept p hp (by simp) fun hmine => ?_
    obtain ⟨hd, hfdp⟩ := Prod.mk.inj (Option.some.inj (hpage.symm.trans hmine))
    exact .inr (by rw [← hd, ← hfdp]; exact hlive)
  case closeDupFd fd =>
    obtain rfl := hspare fd rfl
    exact fun p hp => hstay hp (by simp) rfl
  case mallocContext | lockReadContextList =>
    simp only [Core.exec] at hexec
    split_ifs at hexec
    all_goals
      obtain ⟨-, rfl⟩ := Prod.mk.inj (Option.some.inj hexec)
      exact fun p hp => hstay hp (by simp) rfl
  case getBnContext fd | findAndRemoveBnContext fd =>
    obtain ⟨-, rfl⟩ := Prod.mk.inj (Option.some.inj hexec)
    intro p hp
    refine hstay (p := p) ?_ (by simp) rfl
    revert hp
    cases s.findBnContext fd <;> exact id
  case setContext | setCallFromService | freeContext | atomDecContext | freeFinalized
    | unlockReadContextList =>
    obtain ⟨-, rfl⟩ := Prod.mk.inj (Option.some.inj hexec)
    exact fun p hp => hstay hp (by simp) rfl
  all_goals
    have hidle := Core.exec_idle rfl hexec
    rw [hidle.openFds]
    exact fun p hp => hstay hp (by simp) rfl

omit h hcharge in
theorem entry_charge
    (htime : inTime (ls.map fun k => (k.care.1.1.task, k.taken)) (.core a) r = true)
    {e : DaemonProcdata} (he : e ∈ s'.procData) :
    (∃ e₀ ∈ s.procData, e₀.callerIdentity.pid = e.callerIdentity.pid) ∨
      ∀ k ∈ ls, k.taken = true → k.care.1.1.task ≠ .caDied e.callerIdentity.pid := by
  cases a
  case setContextToProcData identity d =>
    simp only [Core.exec] at hexec
    split_ifs at hexec with hlock
    obtain ⟨hr, hs⟩ : (s.setContextToProcData env.ok identity (s.ctx d).fd).1 = r ∧
        (s.setContextToProcData env.ok identity (s.ctx d).fd).2 = s' :=
      Prod.mk.inj (Option.some.inj hexec)
    cases r with
    | false =>
      rw [setContextToProcData_false hr] at hs
      exact .inl ⟨e, hs ▸ he, rfl⟩
    | true =>
      have hl := List.mem_map_of_mem (f := (·.care)) (List.mem_of_getElem? hi)
      have hneg := hguard.fd_ne_of_open (hguard.fresh_open hl hpre.1.1).2
      rw [← hs] at he
      rcases (setContextToProcData_spec env.ok identity hneg hguard.records.pids).2 e he with
        he | ⟨rfl, -⟩
      · exact .inl ⟨e, he, rfl⟩
      · refine .inr fun k hk htaken htask => ?_
        have hlate := List.all_eq_true.mp htime _ (List.mem_map_of_mem hk)
        simp [htaken, htask, isDeathOf] at hlate
  case releaseProcData pid fd =>
    obtain ⟨-, rfl⟩ := Prod.mk.inj (Option.some.inj hexec)
    rcases (releaseProcData_spec pid fd hguard.records.pids).2 e he with
      ⟨he, -⟩ | ⟨e₀, he₀, -, hid, -⟩
    · exact .inl ⟨e, he, rfl⟩
    · exact .inl ⟨e₀, he₀, congrArg CallerIdentity.pid hid.symm⟩
  case takeProcData pid =>
    simp only [Core.exec] at hexec
    split_ifs at hexec
    obtain ⟨-, rfl⟩ := Prod.mk.inj (Option.some.inj hexec)
    rcases mem_updateProcData hguard.records.pids he with ⟨he, -⟩ | ⟨_, -, -, hnone⟩
    · exact .inl ⟨e, he, rfl⟩
    · cases hnone
  case lockProcData =>
    simp only [Core.exec] at hexec
    split_ifs at hexec
    obtain ⟨-, rfl⟩ := Prod.mk.inj (Option.some.inj hexec)
    exact .inl ⟨e, he, rfl⟩
  case unlockProcData =>
    obtain ⟨-, rfl⟩ := Prod.mk.inj (Option.some.inj hexec)
    exact .inl ⟨e, he, rfl⟩
  all_goals exact .inl ⟨e, (exec_offTable hexec rfl).2 ▸ he, rfl⟩

theorem taken_charge
    (htime : inTime (ls.map fun k => (k.care.1.1.task, k.taken)) (.core a) r = true) :
    ∀ k ∈ ls.set i (charges.upd l (.core a) r), k.taken = true → ∀ pid,
      k.care.1.1.task = .caDied pid → ∀ e ∈ s'.procData, e.callerIdentity.pid ≠ pid := by
  have hold (k : Charge) (hk : k ∈ ls) (htaken : k.taken = true) (pid : Int)
      (htask : k.care.1.1.task = .caDied pid) (e : DaemonProcdata) (he : e ∈ s'.procData) :
      e.callerIdentity.pid ≠ pid := by
    rcases entry_charge hguard hi hexec hpre htime he with ⟨e₀, he₀, hpid⟩ | hnone
    · rw [← hpid]
      exact h.taken k hk htaken pid htask e₀ he₀
    · exact fun hpid => hnone k hk htaken (hpid ▸ htask)
  intro k hk htaken pid htask e he
  rcases mem_set_cases hk with rfl | ⟨j, -, hj⟩
  · rw [task_upd] at htask
    have hl := List.mem_of_getElem? hi
    cases a
    case takeProcData pid' =>
      have htask' : l.care.1.1.task = .caDied pid' := hpre.1
      obtain rfl := Task.caDied.inj (htask'.symm.trans htask)
      simp only [Core.exec] at hexec
      split_ifs at hexec
      obtain ⟨-, rfl⟩ := Prod.mk.inj (Option.some.inj hexec)
      rcases mem_updateProcData hguard.records.pids he with ⟨-, hne⟩ | ⟨_, -, -, hnone⟩
      · exact hne
      · cases hnone
    all_goals exact hold l hl htaken pid htask e he
  · exact hold k (List.mem_of_getElem? hj) htaken pid htask e he

end Step

section Listed

variable (h : Tended s ls) (hguard : Guarded s (ls.map (·.care))) (hi : ls[i]? = some l)
variable (hc : c ∈ s.contextList)

omit hguard hc in
include hi in
theorem not_closing_charge (ha : ∀ c, a ≠ .closeContext c)
    (hnot : ¬ Closing (ls.map (·.care)) pid fd) :
    ¬ Closing ((ls.set i (charges.upd l (.core a) r)).map (·.care)) pid fd := by
  rw [List.map_set]
  have hcare : (ls.map (·.care))[i]? = some l.care := by simp [hi]
  exact fun hclosing => hnot (closing_of_set hcare hclosing (task_upd (.core a) r) (closing_upd ha))

include h hi hc

/-- An action that is not about what a task minds or about the process data. -/
theorem minded_of_still (ha : turnsPage a = false) (hproc : s'.procData = s.procData)
    (hfd : (s'.ctx c).fd = (s.ctx c).fd)
    (hclosing : ∀ pid, ¬ Closing (ls.map (·.care)) pid (s.ctx c).fd →
      ¬ Closing ((ls.set i (charges.upd l (.core a) r)).map (·.care)) pid (s.ctx c).fd) :
    Minded s' (ls.set i (charges.upd l (.core a) r)) c := by
  refine (h.listed c hc).step hi hfd (fun hminds => .inl ⟨_, mem_set_self hi, ?_⟩)
    fun e he hrec hnot => .inr ⟨e, hproc ▸ he, ?_⟩
  · rw [hfd]
    exact (minds_upd ha).mpr hminds
  · rw [hfd]
    exact ⟨hrec, hclosing _ hnot⟩

theorem minded_insertContext {d : Nat} (hcharge : ChargePre l (.core (.insertContext d)))
    (hfd : ((s.insertContext d).ctx c).fd = (s.ctx c).fd) :
    Minded (s.insertContext d) (ls.set i (charges.upd l (.core (.insertContext d)) ())) c := by
  refine (h.listed c hc).step hi hfd (fun hminds => .inl ⟨_, mem_set_self hi, ?_⟩)
    fun e he hrec hnot => .inr ⟨e, he, ?_⟩
  · rw [hfd]
    exact hminds.imp_left fun hfresh => by cases hcharge.symm.trans hfresh
  · rw [hfd]
    exact ⟨hrec, not_closing_charge hi (by simp) hnot⟩

include hguard

theorem minded_setContextToProcData {identity : CallerIdentity} {d : Nat} {malloc : Bool}
    (hlock : s.procLock = false)
    (hpre : CarefulPre l.care (.core (.setContextToProcData identity d)))
    (hcharge : ChargePre l (.core (.setContextToProcData identity d))) :
    Minded (s.setContextToProcData malloc identity (s.ctx d).fd).2
      (ls.set i (charges.upd l (.core (.setContextToProcData identity d))
        (s.setContextToProcData malloc identity (s.ctx d).fd).1)) c := by
  have hl := List.mem_map_of_mem (f := (·.care)) (List.mem_of_getElem? hi)
  obtain ⟨es, hsame⟩ : ∃ procData, (s.setContextToProcData malloc identity (s.ctx d).fd).2 =
      { s with procData } := Core.setContextToProcData_eq
  have hfd : ((s.setContextToProcData malloc identity (s.ctx d).fd).2.ctx c).fd = (s.ctx c).fd := by
    rw [hsame]
  have hfree (pid fd : Int) {r : Bool} : ¬ Closing ((ls.set i (charges.upd l
      (.core (.setContextToProcData identity d)) r)).map (·.care)) pid fd :=
    not_closing_charge hi (by simp) (hguard.locks.not_closing hlock)
  have hneg := hguard.fd_ne_of_open (hguard.fresh_open hl hpre.1.1).2
  have hpage {r : Bool} : (charges.upd l (.core (.setContextToProcData identity d)) r).page =
      { l.page with fresh := none, refused := if r then none else some d } :=
    page_setContextToProcData r
  have hnone : l.page.refused = none := Option.map_eq_none_iff.mpr hcharge
  have hfresh {c : Nat} (hfresh : l.page.fresh = some c) : c = d :=
    Option.some.inj (hfresh.symm.trans hpre.1.1)
  cases hr : (s.setContextToProcData malloc identity (s.ctx d).fd).1 with
  | false =>
    rw [setContextToProcData_false hr]
    refine (h.listed c hc).step hi rfl (fun hminds => .inl ⟨_, mem_set_self hi, ?_⟩)
      fun e he hrec _ => .inr ⟨e, he, hrec, hfree _ _⟩
    rw [hpage]
    rcases hminds with hc | hc | hc
    · obtain rfl := hfresh hc
      exact .inr (.inl rfl)
    · cases hnone.symm.trans hc
    · exact .inr (.inr hc)
  | true =>
    obtain ⟨⟨e', he', hrec'⟩, hkeep⟩ := recorded_setContextToProcData hneg hguard.records.pids hr
    refine (h.listed c hc).step hi hfd (fun hminds => ?_) fun e he hrec _ => ?_
    · rcases hminds with hc | hc | hc
      · obtain rfl := hfresh hc
        exact .inr ⟨e', he', by rw [hfd]; exact hrec', hfree _ _⟩
      · cases hnone.symm.trans hc
      · refine .inl ⟨_, mem_set_self hi, ?_⟩
        rw [hpage, hfd]
        exact .inr (.inr hc)
    · obtain ⟨e', he', hrec'⟩ := hkeep e he _ hrec
      exact .inr ⟨e', he', by rw [hfd]; exact hrec', hfree _ _⟩

theorem minded_releaseProcData
    (hpre : CarefulPre l.care (.core (.releaseProcData pid fd))) :
    Minded (s.releaseProcData pid fd)
      (ls.set i (charges.upd l (.core (.releaseProcData pid fd)) ())) c := by
  have hl := List.mem_map_of_mem (f := (·.care)) (List.mem_of_getElem? hi)
  obtain ⟨hclosing, identity, rfl, hrequest⟩ := hpre.1
  refine (h.listed c hc).step hi rfl (fun hminds => .inl ⟨_, mem_set_self hi, hminds⟩)
    fun e he hrec hnot => ?_
  have hne (hpid : e.callerIdentity.pid = identity.pid) : (s.ctx c).fd ≠ fd := by
    rintro rfl
    exact hnot ⟨l.care, hl, hclosing, identity, hpid.symm, hrequest⟩
  obtain ⟨e', he', hpid, hrec'⟩ := recorded_releaseProcData hguard.records.pids he hrec hne
  exact .inr ⟨e', he', hrec', hpid ▸ not_closing_charge hi (by simp) hnot⟩

theorem minded_takeProcData (hcharge : ChargePre l (.core (.takeProcData pid))) :
    Minded (s.takeProcData pid).2 (ls.set i (charges.upd l (.core (.takeProcData pid))
      (s.takeProcData pid).1)) c := by
  refine (h.listed c hc).step hi rfl (fun hminds => .inl ⟨_, mem_set_self hi, ?_⟩)
    fun e he hrec hnot => ?_
  · rcases hminds with hc | hc | hc
    · exact .inl hc
    · exact .inr (.inl hc)
    · have hnil : l.page.snapshot = [] := hcharge
      rw [hnil] at hc
      cases hc
  · have hwhere : (s.ctx c).fd ∈ Option.elim (s.takeProcData pid).1 [] recorded ∨
        e ∈ (s.takeProcData pid).2.procData := recorded_takeProcData hguard.records.pids he hrec
    rcases hwhere with hsnap | he'
    · exact .inl ⟨_, mem_set_self hi, .inr (.inr hsnap)⟩
    · exact .inr ⟨e, he', hrec, not_closing_charge hi (by simp) hnot⟩

/-- The number that is closed is none of a context in the list. -/
theorem minded_closeContext {d : Nat} (hpre : CarefulPre l.care (.core (.closeContext d)))
    (hcharge : ChargePre l (.core (.closeContext d))) (hproc : s'.procData = s.procData)
    (hfd : (s'.ctx c).fd = (s.ctx c).fd) :
    Minded s' (ls.set i (charges.upd l (.core (.closeContext d)) ())) c := by
  have hl := List.mem_map_of_mem (f := (·.care)) (List.mem_of_getElem? hi)
  refine minded_of_still h hi hc rfl hproc hfd fun pid hnot hclosing => ?_
  rw [List.map_set] at hclosing
  have hcare : (ls.map (·.care))[i]? = some l.care := by simp [hi]
  refine hnot (closing_of_set hcare hclosing rfl fun hmine => ?_)
  have hwatch : (if l.care.1.2.locked then l.care.1.2.read.map (·.2) else none) =
      some (s.ctx c).fd := hmine
  split_ifs at hwatch with hlocked
  obtain ⟨⟨d', fd⟩, hread, rfl⟩ := Option.map_eq_some_iff.mp hwatch
  obtain ⟨-, -, hhow⟩ := hpre.1
  rw [if_pos hlocked] at hhow
  obtain ⟨⟨fd', hread'⟩, -⟩ := hhow
  obtain ⟨rfl, -⟩ := Prod.mk.inj (Option.some.inj (hread.symm.trans hread'))
  have hfin : .fin d' ∈ l.care.2.1 := hpre.2.1.closes d' rfl
  obtain ⟨hwas, hfdd | hneg⟩ := (hguard.sound _ hl).read d' _ hread
  · obtain rfl := eq_of_listed hguard hc hwas hfdd
    exact absurd hc (not_listed_of_ref hguard.accounts (Guarded.mem_refs hl) (.inr (.inr hfin)))
  · -- another task has closed it already, and both would have it to themselves
    have hfrees : (s.ctx d').frees = 0 := hguard.accounts.frees_eq_zero
      (refsOf_pos.mpr ⟨_, List.mem_map_of_mem (Guarded.mem_refs hl), hfin⟩)
    obtain ⟨k, hk, hclosed, hfin'⟩ := h.closing d' hwas hfrees hneg
    rcases mem_cases hi hk with rfl | ⟨j, hij, hj⟩
    · cases hcharge.symm.trans hclosed
    · have hi' : ((ls.map (·.care)).map (·.2))[i]? = some l.care.2 := by simp [hi]
      have hj' : ((ls.map (·.care)).map (·.2))[j]? = some k.care.2 := by simp [hj]
      cases not_exclusive_of_ne hguard.accounts hij hi' hj' hfin hfin' rfl

theorem minded_findAndRemoveBnContext
    (hcharge : ChargePre l (.core (.findAndRemoveBnContext fd)))
    (hfd : (s'.ctx c).fd = (s.ctx c).fd) (hproc : s'.procData = s.procData)
    (hleft : (s.ctx c).fd ≠ fd) {r : Option Nat} :
    Minded s' (ls.set i (charges.upd l (.core (.findAndRemoveBnContext fd)) r)) c := by
  refine (h.listed c hc).step hi hfd (fun hminds => .inl ⟨_, mem_set_self hi, ?_⟩)
    fun e he hrec hnot => .inr ⟨e, hproc ▸ he, ?_⟩
  · rw [page_findAndRemove, hfd]
    rcases hminds with hc | hrefused | hsnap
    · exact .inl hc
    · obtain ⟨⟨_, x⟩, hx, rfl⟩ := Option.map_eq_some_iff.mp hrefused
      obtain ⟨-, -, hread⟩ := (h.recalls l (List.mem_of_getElem? hi)).refused _ x hx
      rcases hread fd (hcharge _ x hx) with heq | hneg
      · exact absurd heq hleft
      · exact absurd hneg (fd_ne_of_listed hguard hc)
    · exact .inr (.inr ((List.mem_erase_of_ne hleft).mpr hsnap))
  · rw [hfd]
    exact ⟨hrec, not_closing_charge hi (by simp) hnot⟩

omit h hi in
/-- Taking a context out by its number takes it out for good. -/
theorem fd_ne_of_removed (hleft : c ∈ ((s.findBnContext fd).elim s s.removeContext).contextList) :
    (s.ctx c).fd ≠ fd := by
  rintro rfl
  cases hfind : s.findBnContext (s.ctx c).fd with
  | none => simpa using List.find?_eq_none.mp hfind c hc
  | some d =>
    obtain ⟨hd, hfdd⟩ := of_findBnContext hfind
    obtain rfl := eq_of_listed hguard hc (was_of_listed hguard.accounts hd) hfdd
    rw [hfind] at hleft
    have hknown := hguard.accounts.known_of_listed (List.count_pos_iff.mpr hc)
    have hstage := (hguard.accounts.law c hknown).stage
    have hcount : s.ledger.listed c = s.contextList.count c := rfl
    have hpos : 0 < (s.contextList.erase c).count c := List.count_pos_iff.mpr hleft
    rw [List.count_erase_self] at hpos
    omega

end Listed

section Step

variable (h : Tended s ls) (hguard : Guarded s (ls.map (·.care))) (hi : ls[i]? = some l)
variable (hexec : s.exec env a = some (r, s')) (hpre : CarefulPre l.care (.core a))
variable (hcharge : ChargePre l (.core a))
include h hguard hi hexec hpre hcharge

theorem listed_charge :
    ∀ c ∈ s'.contextList, Minded s' (ls.set i (charges.upd l (.core a) r)) c := by
  intro c hc
  rcases (moves_charge hguard hi hexec hpre).listed c hc with ⟨hold, hfd⟩ | rfl
  · have hrest (ha : turnsPage a = false) (hproc : s'.procData = s.procData)
        (hclose : ∀ d, a ≠ .closeContext d) :
        Minded s' (ls.set i (charges.upd l (.core a) r)) c :=
      minded_of_still h hi hold ha hproc hfd fun _ => not_closing_charge hi hclose
    cases a
    case insertContext d =>
      obtain ⟨-, rfl⟩ := Prod.mk.inj (Option.some.inj hexec)
      exact minded_insertContext h hi hold hcharge hfd
    case setContextToProcData identity d =>
      simp only [Core.exec] at hexec
      split_ifs at hexec with hlock
      obtain ⟨rfl, rfl⟩ := Prod.mk.inj (Option.some.inj hexec)
      exact minded_setContextToProcData h hguard hi hold (Bool.eq_false_iff.mpr hlock) hpre hcharge
    case releaseProcData pid fd =>
      obtain ⟨-, rfl⟩ := Prod.mk.inj (Option.some.inj hexec)
      exact minded_releaseProcData h hguard hi hold hpre
    case takeProcData pid =>
      simp only [Core.exec] at hexec
      split_ifs at hexec
      obtain ⟨rfl, rfl⟩ := Prod.mk.inj (Option.some.inj hexec)
      exact minded_takeProcData h hguard hi hold hcharge
    case closeContext d =>
      obtain ⟨-, rfl⟩ := Prod.mk.inj (Option.some.inj hexec)
      exact minded_closeContext h hguard hi hold hpre hcharge rfl hfd
    case findAndRemoveBnContext fd =>
      have hproc := (exec_offTable hexec rfl).2
      obtain ⟨rfl, rfl⟩ := Prod.mk.inj (Option.some.inj hexec)
      exact minded_findAndRemoveBnContext h hguard hi hold hcharge hfd hproc
        (fd_ne_of_removed hguard hold hc)
    case lockProcData =>
      simp only [Core.exec] at hexec
      split_ifs at hexec
      obtain ⟨-, rfl⟩ := Prod.mk.inj (Option.some.inj hexec)
      exact hrest rfl rfl (by simp)
    case unlockProcData =>
      obtain ⟨-, rfl⟩ := Prod.mk.inj (Option.some.inj hexec)
      exact hrest rfl rfl (by simp)
    all_goals exact hrest rfl (exec_offTable hexec rfl).2 (by simp)
  · exact .inl ⟨_, mem_set_self hi, .inl rfl⟩

theorem tended_exec {objs : Objects Addr}
    (happart : keepsApart ⟨s, objs⟩ (ls.map (·.care.1.1)) l.care.1.1 (.core a) r = true)
    (htime : inTime (ls.map fun k => (k.care.1.1.task, k.taken)) (.core a) r = true) :
    Tended s' (ls.set i (charges.upd l (.core a) r)) where
  listed := listed_charge h hguard hi hexec hpre hcharge
  recalls := by
    have hmoves := moves_charge hguard hi hexec hpre
    intro k hk
    rcases mem_set_cases hk with rfl | ⟨j, -, hj⟩
    · exact recalls_charge hguard hi hexec hpre (h.recalls l (List.mem_of_getElem? hi))
    · have hmem := List.mem_of_getElem? hj
      refine (h.recalls k hmem).moves hmoves fun t ht => ?_
      exact lt_next_of_ref hguard.accounts (Guarded.mem_refs (List.mem_map_of_mem hmem)) ht
  closing := fun _ => closing_charge h hguard hi hexec hpre hcharge
  opened := opened_charge h hguard hi hexec hpre hcharge (eq_of_spared hexec happart)
  taken := taken_charge h hguard hi hexec hpre hcharge htime

end Step
end Steps

end TeeClient.Daemon.Service.CaDeath
