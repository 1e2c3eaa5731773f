import Mathlib.Tactic
import TeeClient.Daemon.Errands

/-! The contexts that a request or a clean-up works on are those of its caller, for any
interleaving of tasks, as long as the number of a descriptor that one of them is about to look
up is not given to another caller. -/

namespace TeeClient.Daemon.Service

open Vendor Vendor.Api Stub
open Resumption RefCount

section Statement

def takesUp (s : Core) : Act Addr → Option Nat
  | .core (.getBnContext fd) | .core (.findAndRemoveBnContext fd) => s.findBnContext fd
  | _ => none

abbrev Errands := Config (Act Addr) Resp (World Addr) Errand

/-- The context that a task takes up is one of its caller, or of the CA that died. -/
def Isolated (cfg : Errands) : Prop :=
  ∀ i l a c, cfg.Pending i l a → takesUp cfg.state.core a = some c →
    l.task.MayUse (cfg.state.core.ctx c).owner

/-- No context goes into the list under a number by which a task looks for those of another
caller, no clean-up closes a number that the process data records again, and what an operation
that was never written shows as a descriptor is not open. -/
def keepsApart (s : World Addr) (ls : List Errand) (l : Errand) : (a : Act Addr) → Resp a → Bool
  | .core (.insertContext c), _ =>
    decide (∀ k ∈ ls, k.After (s.core.ctx c).fd → k.task.MayUse (s.core.ctx c).owner)
  | .core (.closeContext c), _ =>
    match l.task with
    | .request _ _ => true
    | .caDied _ => decide (∀ e ∈ s.core.procData, (s.core.ctx c).fd ∉ recorded e)
  | .core (.closeDupFd _), closed => !closed
  | _, _ => true

theorem eq_of_spared {s s' : Core} {a : CoreAct} {r : CoreResp a} {env : Env Addr} {w : World Addr}
    {ls : List Errand} {l : Errand} (hexec : s.exec env a = some (r, s'))
    (hmeets : keepsApart w ls l (.core a) r = true) (fd : Int) (ha : a = .closeDupFd fd) :
    s' = s := by
  subst ha
  obtain rfl : r = false := by simpa [keepsApart] using hmeets
  simp only [Core.exec] at hexec
  split_ifs at hexec
  · cases Option.some.inj hexec
  · exact (Prod.mk.inj (Option.some.inj hexec)).2.symm

end Statement

section Contexts

def Was (s : Core) (c : Nat) : Prop := c < s.next ∧ (s.ctx c).wasListed = true

structure Moves (a : CoreAct) (s s' : Core) : Prop where
  next : s.next ≤ s'.next
  owner : ∀ c < s.next, (s'.ctx c).owner = (s.ctx c).owner
  was : ∀ c, Was s c → Was s' c ∧
    ((s'.ctx c).fd = (s.ctx c).fd ∨ a = .closeContext c ∧ (s'.ctx c).fd = -1)
  new : ∀ c, Was s' c → Was s c ∨ a = .insertContext c
  listed : ∀ c ∈ s'.contextList, c ∈ s.contextList ∧ (s'.ctx c).fd = (s.ctx c).fd ∨
    a = .insertContext c

variable {s s' : Core} {ms : List InitLocal} {i c : Nat} {m : InitLocal} {a : CoreAct}

theorem moves_of_update {x : ContextInner} (hctx : s'.ctx = Function.update s.ctx c x)
    (hnext : s'.next = s.next) (hlist : s'.contextList.Sublist s.contextList)
    (howner : x.owner = (s.ctx c).owner)
    (hnew : x.wasListed = true → (s.ctx c).wasListed = true ∨ a = .insertContext c)
    (hwas : (s.ctx c).wasListed = true → x.wasListed = true ∧
      (x.fd = (s.ctx c).fd ∨ a = .closeContext c ∧ x.fd = -1))
    (hlisted : c ∈ s.contextList → x.fd = (s.ctx c).fd) : Moves a s s' := by
  have hself : s'.ctx c = x := by rw [hctx, Function.update_self]
  have hother (d : Nat) (hd : d ≠ c) : s'.ctx d = s.ctx d := by
    rw [hctx, Function.update_of_ne hd]
  refine ⟨hnext.ge, fun d _ => ?_, fun d hd => ?_, fun d hd => ?_,
    fun d hd => .inl ⟨hlist.subset hd, ?_⟩⟩
  · by_cases hdc : d = c
    · subst hdc
      rw [hself, howner]
    · rw [hother d hdc]
  · by_cases hdc : d = c
    · subst hdc
      obtain ⟨hlisted, hfd⟩ := hwas hd.2
      rw [Was, hself, hnext]
      exact ⟨⟨hd.1, hlisted⟩, hfd⟩
    · rw [Was, hother d hdc, hnext]
      exact ⟨hd, .inl rfl⟩
  · by_cases hdc : d = c
    · subst hdc
      rw [Was, hself, hnext] at hd
      exact (hnew hd.2).imp_left fun hwas => ⟨hd.1, hwas⟩
    · rw [Was, hother d hdc, hnext] at hd
      exact .inl hd
  · by_cases hdc : d = c
    · subst hdc
      rw [hself, hlisted (hlist.subset hd)]
    · rw [hother d hdc]

theorem moves_of_ctx (hctx : s'.ctx = s.ctx) (hnext : s'.next = s.next)
    (hlist : s'.contextList = s.contextList) : Moves a s s' := by
  refine ⟨hnext.ge, fun d _ => by rw [hctx], fun d hd => ?_, fun d hd => ?_, fun d hd => ?_⟩
  · rw [Was, hctx, hnext]
    exact ⟨hd, .inl rfl⟩
  · rw [Was, hctx, hnext] at hd
    exact .inl hd
  · rw [hctx]
    exact .inl ⟨hlist ▸ hd, rfl⟩

variable (hacc : Accounts s.ledger (refsOf (ms.map (·.1))))
include hacc

theorem was_of_ref (hm : m ∈ ms) (h : .hold c ∈ m.1 ∨ .removed c ∈ m.1 ∨ .fin c ∈ m.1) :
    Was s c := by
  have hpos {t : Ref Nat} (ht : t ∈ m.1) : 0 < refsOf (ms.map (·.1)) t :=
    refsOf_pos.mpr ⟨m.1, List.mem_map_of_mem hm, ht⟩
  have hknown : s.ledger.known c = true := by
    rcases h with h | h | h <;> exact hacc.known_of_pos (hpos h)
  refine ⟨by simpa [Core.ledger] using hknown, (hacc.law c hknown).listedOnce ?_⟩
  rcases h with h | h | h
  all_goals
    have := hpos h
    omega

theorem was_of_listed (hc : c ∈ s.contextList) : Was s c := by
  have hlisted : 0 < s.ledger.listed c := List.count_pos_iff.mpr hc
  have hknown := hacc.known_of_listed hlisted
  refine ⟨by simpa [Core.ledger] using hknown, (hacc.law c hknown).listedOnce ?_⟩
  omega

theorem not_listed_of_ref (hm : m ∈ ms) (h : .own c ∈ m.1 ∨ .init c ∈ m.1 ∨ .fin c ∈ m.1) :
    c ∉ s.contextList := by
  intro hc
  have hlisted : 0 < s.ledger.listed c := List.count_pos_iff.mpr hc
  have hstage := (hacc.law c (hacc.known_of_listed hlisted)).stage
  have hpos {t : Ref Nat} (ht : t ∈ m.1) : 0 < refsOf (ms.map (·.1)) t :=
    refsOf_pos.mpr ⟨m.1, List.mem_map_of_mem hm, ht⟩
  rcases h with h | h | h
  all_goals
    have := hpos h
    omega

theorem moves_exec {env : Env Addr} {r : CoreResp a} (hm : m ∈ ms)
    (hexec : s.exec env a = some (r, s')) (hpre : RefUse (P := Addr) m.1 (.core a)) :
    Moves a s s' := by
  cases a
  case mallocContext owner =>
    simp only [Core.exec] at hexec
    split_ifs at hexec
    · obtain ⟨-, rfl⟩ := Prod.mk.inj (Option.some.inj hexec)
      have hctx (d : Nat) (hd : d < s.next) : (s.mallocContext owner).ctx d = s.ctx d := by
        simp [Core.mallocContext, hd.ne]
      refine ⟨Nat.le_succ _, fun d hd => by rw [hctx d hd],
        fun d hd => ⟨⟨hd.1.trans_le (Nat.le_succ _), ?_⟩, ?_⟩, fun d hd => .inl ?_,
        fun d hd => .inl ⟨hd, ?_⟩⟩
      · rw [hctx d hd.1]
        exact hd.2
      · rw [hctx d hd.1]
        exact .inl rfl
      · have hne : d ≠ s.next := by
          rintro rfl
          simp [Was, Core.mallocContext] at hd
        have hlt : d < s.next := lt_of_le_of_ne (Nat.le_of_lt_succ hd.1) hne
        exact ⟨hlt, hctx d hlt ▸ hd.2⟩
      · rw [hctx d (was_of_listed hacc hd).1]
    · obtain ⟨-, rfl⟩ := Prod.mk.inj (Option.some.inj hexec)
      exact moves_of_ctx rfl rfl rfl
  case setContext c fd =>
    obtain ⟨-, rfl⟩ := Prod.mk.inj (Option.some.inj hexec)
    have hown : .own c ∈ m.1 := (hpre.covered _ rfl r).1 _ rfl
    refine moves_of_update (c := c) rfl rfl (List.Sublist.refl _) rfl .inl (fun hwas => ?_)
      fun hc => ?_
    · cases (wasListed_eq_false hacc hm (.inl hown)).symm.trans hwas
    · exact absurd hc (not_listed_of_ref hacc hm (.inl hown))
  case insertContext c =>
    obtain ⟨-, rfl⟩ := Prod.mk.inj (Option.some.inj hexec)
    have h : Moves (.insertContext c) s (s.modify c fun x =>
        { x with opsCnt := x.opsCnt + 1, wasListed := true }) :=
      moves_of_update rfl rfl (List.Sublist.refl _) rfl (fun _ => .inr rfl)
        (fun _ => ⟨rfl, .inl rfl⟩) fun _ => rfl
    refine ⟨h.next, h.owner, h.was, h.new, fun d hd => ?_⟩
    rcases List.mem_append.mp hd with hd | hd
    · exact h.listed d hd
    · obtain rfl := List.mem_singleton.mp hd
      exact .inr rfl
  case closeContext c =>
    obtain ⟨-, rfl⟩ := Prod.mk.inj (Option.some.inj hexec)
    refine moves_of_update (c := c) rfl rfl (List.Sublist.refl _) rfl .inl
      (fun hwas => ⟨hwas, .inr ⟨rfl, rfl⟩⟩) fun hc => ?_
    exact absurd hc (not_listed_of_ref hacc hm (.inr (.inr (hpre.closes c rfl))))
  case getBnContext fd =>
    obtain ⟨-, rfl⟩ := Prod.mk.inj (Option.some.inj hexec)
    cases s.findBnContext fd with
    | none => exact moves_of_ctx rfl rfl rfl
    | some c =>
      exact moves_of_update (c := c) rfl rfl (List.Sublist.refl _) rfl .inl
        (fun hwas => ⟨hwas, .inl rfl⟩) fun _ => rfl
  case findAndRemoveBnContext fd =>
    obtain ⟨-, rfl⟩ := Prod.mk.inj (Option.some.inj hexec)
    cases s.findBnContext fd with
    | none => exact moves_of_ctx rfl rfl rfl
    | some c =>
      exact moves_of_update (c := c) rfl rfl List.erase_sublist rfl .inl
        (fun hwas => ⟨hwas, .inl rfl⟩) fun _ => rfl
  case setCallFromService c | freeContext c | atomDecContext c | freeFinalized c =>
    obtain ⟨-, rfl⟩ := Prod.mk.inj (Option.some.inj hexec)
    exact moves_of_update (c := c) rfl rfl (List.Sublist.refl _) rfl .inl
      (fun hwas => ⟨hwas, .inl rfl⟩) fun _ => rfl
  case openTzdriver | closeDupFd | lockReadContextList =>
    simp only [Core.exec] at hexec
    split_ifs at hexec
    all_goals
      obtain ⟨-, rfl⟩ := Prod.mk.inj (Option.some.inj hexec)
      exact moves_of_ctx rfl rfl rfl
  case closeFd | unlockReadContextList =>
    obtain ⟨-, rfl⟩ := Prod.mk.inj (Option.some.inj hexec)
    exact moves_of_ctx rfl rfl rfl
  all_goals
    have hidle := Core.exec_idle rfl hexec
    exact moves_of_ctx hidle.ctx hidle.next hidle.contextList

def Shut (s : Core) : Prop := ∀ c, Was s c → (s.ctx c).fd = -1 ∨ ((s.ctx c).fd, c) ∈ s.openFds

theorem open_exec {env : Env Addr} {r : CoreResp a} (hfds : FdInv s ms) (hshut : Shut s)
    (hm : m ∈ ms) (hexec : s.exec env a = some (r, s')) (hpre : RefUse (P := Addr) m.1 (.core a))
    (hopened : OpenedPre (P := Addr) m.2 (.core a)) (hspare : ∀ fd, a = .closeDupFd fd → s' = s)
    (hc : Was s c) (ha : a ≠ .closeContext c)
    (hopen : ((s.ctx c).fd, c) ∈ s.openFds) : ((s.ctx c).fd, c) ∈ s'.openFds := by
  cases a
  case closeDupFd fd =>
    obtain rfl := hspare fd rfl
    exact hopen
  case openTzdriver d =>
    simp only [Core.exec] at hexec
    split_ifs at hexec
    · obtain ⟨-, rfl⟩ := Prod.mk.inj (Option.some.inj hexec)
      exact List.mem_cons_of_mem _ hopen
    · obtain ⟨-, rfl⟩ := Prod.mk.inj (Option.some.inj hexec)
      exact hopen
  case closeFd fd =>
    obtain ⟨-, rfl⟩ := Prod.mk.inj (Option.some.inj hexec)
    obtain ⟨d, hd⟩ := hopened
    obtain ⟨hmem, hrefs⟩ := hfds.opened m hm d fd hd
    refine mem_closeFd hopen fun (heq : (s.ctx c).fd = fd) => ?_
    obtain rfl : c = d := hfds.unique (heq ▸ hopen) hmem
    cases (wasListed_eq_false hacc hm (hrefs.imp_right (·.1))).symm.trans hc.2
  case closeContext d =>
    obtain ⟨-, rfl⟩ := Prod.mk.inj (Option.some.inj hexec)
    refine mem_closeFd hopen fun (heq : (s.ctx c).fd = (s.ctx d).fd) => ?_
    rcases hshut d (was_of_ref hacc hm (.inr (.inr (hpre.closes d rfl)))) with hneg | hd
    · have := hfds.nonneg _ hopen
      simp only [heq, hneg] at this
      omega
    · obtain rfl : c = d := hfds.unique (heq ▸ hopen) hd
      exact ha rfl
  case mallocContext | lockReadContextList =>
    simp only [Core.exec] at hexec
    split_ifs at hexec
    all_goals
      obtain ⟨-, rfl⟩ := Prod.mk.inj (Option.some.inj hexec)
      exact hopen
  case getBnContext fd | findAndRemoveBnContext fd =>
    obtain ⟨-, rfl⟩ := Prod.mk.inj (Option.some.inj hexec)
    cases s.findBnContext fd <;> exact hopen
  case setContext | insertContext | setCallFromService | freeContext | atomDecContext
    | freeFinalized | unlockReadContextList =>
    obtain ⟨-, rfl⟩ := Prod.mk.inj (Option.some.inj hexec)
    exact hopen
  all_goals
    have hidle := Core.exec_idle rfl hexec
    rwa [hidle.openFds]

theorem shut_exec {env : Env Addr} {r : CoreResp a} (hfds : FdInv s ms) (hshut : Shut s)
    (hm : m ∈ ms) (hexec : s.exec env a = some (r, s')) (hpre : RefUse (P := Addr) m.1 (.core a))
    (hopened : OpenedPre (P := Addr) m.2 (.core a))
    (hspare : ∀ fd, a = .closeDupFd fd → s' = s) : Shut s' := by
  intro c hc
  have hmoves := moves_exec hacc hm hexec hpre
  rcases hmoves.new c hc with hwas | rfl
  · rcases (hmoves.was c hwas).2 with hsame | ⟨-, hneg⟩
    · by_cases hclose : a = .closeContext c
      · subst hclose
        obtain ⟨-, rfl⟩ := Prod.mk.inj (Option.some.inj hexec)
        exact .inl (by simp [Core.modify])
      · rw [hsame]
        exact (hshut c hwas).imp_right
          (open_exec hacc hfds hshut hm hexec hpre hopened hspare hwas hclose)
    · exact .inl hneg
  · obtain ⟨-, rfl⟩ := Prod.mk.inj (Option.some.inj hexec)
    obtain ⟨fd, hfd⟩ := hopened
    have hsame : ((s.insertContext c).ctx c).fd = fd := by
      rw [← fd_of_init hacc hfds hm hfd ((hpre.covered _ rfl r).1 _ rfl)]
      simp [Core.insertContext, Core.modify]
    rw [hsame]
    exact .inr (hfds.opened m hm c fd hfd).1

end Contexts

section Locks

structure LockInv (s : Core) (ws : List Watch) : Prop where
  held : ∀ w ∈ ws, w.locked = true → s.procLock = true
  alone : ∀ (i j : Nat) (w v : Watch), i ≠ j → ws[i]? = some w → ws[j]? = some v →
    w.locked = true → v.locked = false
  closing : ∀ w ∈ ws, w.closing ≠ none → w.locked = true

variable {s s' : Core} {ws : List Watch} {i : Nat} {w w' : Watch} {a : CoreAct}

theorem LockInv.step (h : LockInv s ws) (hi : ws[i]? = some w)
    (hlock : s'.procLock = s.procLock ∨
      ∀ (j : Nat) (v : Watch), i ≠ j → ws[j]? = some v → v.locked = false)
    (hmine : w'.locked = true → s'.procLock = true ∧
      ∀ (j : Nat) (v : Watch), i ≠ j → ws[j]? = some v → v.locked = false)
    (hclosing : w'.closing ≠ none → w'.locked = true) : LockInv s' (ws.set i w') := by
  refine ⟨fun v hv hvl => ?_, fun j k v u hjk hj hk hvl => ?_, fun v hv hvc => ?_⟩
  · rcases mem_set_cases hv with rfl | ⟨j, hij, hj⟩
    · exact (hmine hvl).1
    · rcases hlock with hsame | hfree
      · exact hsame ▸ h.held v (List.mem_of_getElem? hj) hvl
      · cases (hfree j v hij hj).symm.trans hvl
  · refine alone_set h.alone hi (fun j v hij hj hl => (hmine hl).2 j v hij hj) ?_
      j k v u hjk hj hk hvl
    intro j v hij hj hvl
    by_contra hul
    cases ((hmine (Bool.eq_true_of_not_eq_false hul)).2 j v hij hj).symm.trans hvl
  · rcases mem_set_cases hv with rfl | ⟨j, -, hj⟩
    · exact hclosing hvc
    · exact h.closing v (List.mem_of_getElem? hj) hvc

def onTable : CoreAct → Bool
  | .setContextToProcData _ _ | .releaseProcData _ _ | .takeProcData _ | .lockProcData
  | .unlockProcData => true
  | _ => false

theorem exec_offTable {env : Env Addr} {r : CoreResp a} (hexec : s.exec env a = some (r, s'))
    (ha : onTable a = false) : s'.procLock = s.procLock ∧ s'.procData = s.procData := by
  cases a
  case getBnContext fd | findAndRemoveBnContext fd =>
    obtain ⟨-, rfl⟩ := Prod.mk.inj (Option.some.inj hexec)
    cases s.findBnContext fd <;> exact ⟨rfl, rfl⟩
  case addClient pid =>
    simp only [Core.exec] at hexec
    split_ifs at hexec
    have hsnd : (s.addClient env.ok pid).2 = s' := congrArg Prod.snd (Option.some.inj hexec)
    obtain ⟨clients, hsame⟩ := Core.addClient_eq (s := s)
    rw [← hsnd, hsame]
    exact ⟨rfl, rfl⟩
  case lockReadContextList | mallocContext | openTzdriver | closeDupFd | isValidContext
    | lockClients =>
    simp only [Core.exec] at hexec
    split_ifs at hexec
    all_goals
      obtain ⟨-, rfl⟩ := Prod.mk.inj (Option.some.inj hexec)
      exact ⟨rfl, rfl⟩
  case setContextToProcData | releaseProcData | takeProcData | lockProcData | unlockProcData =>
    cases ha
  all_goals
    obtain ⟨-, rfl⟩ := Prod.mk.inj (Option.some.inj hexec)
    exact ⟨rfl, rfl⟩

theorem procLock_exec {env : Env Addr} {r : CoreResp a} (hexec : s.exec env a = some (r, s'))
    (hlock : a ≠ .lockProcData) (hunlock : a ≠ .unlockProcData) : s'.procLock = s.procLock := by
  cases a
  case lockProcData => exact absurd rfl hlock
  case unlockProcData => exact absurd rfl hunlock
  case setContextToProcData identity c =>
    simp only [Core.exec] at hexec
    split_ifs at hexec
    have hsnd : (s.setContextToProcData env.ok identity (s.ctx c).fd).2 = s' :=
      congrArg Prod.snd (Option.some.inj hexec)
    obtain ⟨procData, hsame⟩ := Core.setContextToProcData_eq (s := s)
    rw [← hsnd, hsame]
  case releaseProcData =>
    obtain ⟨-, rfl⟩ := Prod.mk.inj (Option.some.inj hexec)
    rfl
  case takeProcData =>
    simp only [Core.exec] at hexec
    split_ifs at hexec
    obtain ⟨-, rfl⟩ := Prod.mk.inj (Option.some.inj hexec)
    rfl
  all_goals exact (exec_offTable hexec rfl).1

theorem locked_updWatch (hlock : a ≠ .lockProcData) (hunlock : a ≠ .unlockProcData)
    (r : CoreResp a) : (updWatch w (.core a) r).locked = w.locked := by
  cases a
  case lockProcData => exact absurd rfl hlock
  case unlockProcData => exact absurd rfl hunlock
  case readContextFd c =>
    simp only [updWatch]
    split_ifs <;> rfl
  all_goals rfl

theorem lockInv_exec {env : Env Addr} {r : CoreResp a} (h : LockInv s ws) (hi : ws[i]? = some w)
    (hexec : s.exec env a = some (r, s'))
    (hpre : a = .unlockProcData → w.locked = true ∧ w.closing = none) :
    LockInv s' (ws.set i (updWatch w (.core a) r)) := by
  have hw := List.mem_of_getElem? hi
  by_cases hlock : a = .lockProcData
  · subst hlock
    simp only [Core.exec] at hexec
    split_ifs at hexec with hfree
    obtain ⟨-, rfl⟩ := Prod.mk.inj (Option.some.inj hexec)
    have hnone (j : Nat) (v : Watch) (_ : i ≠ j) (hj : ws[j]? = some v) : v.locked = false := by
      by_contra hvl
      exact hfree (h.held v (List.mem_of_getElem? hj) (Bool.eq_true_of_not_eq_false hvl))
    exact h.step hi (.inr hnone) (fun _ => ⟨rfl, hnone⟩) fun _ => rfl
  by_cases hunlock : a = .unlockProcData
  · subst hunlock
    obtain ⟨hlocked, hclosing⟩ := hpre rfl
    exact h.step hi (.inr fun j v hij hj => h.alone i j w v hij hi hj hlocked)
      (fun hl => by cases hl) fun hc => absurd hclosing hc
  have hsame := procLock_exec hexec hlock hunlock
  have hlocked := locked_updWatch (w := w) hlock hunlock r
  refine h.step hi (.inl hsame) (fun hl => ?_) fun hc => ?_
  · rw [hlocked] at hl
    exact ⟨hsame ▸ h.held w hw hl, fun j v hij hj => h.alone i j w v hij hi hj hl⟩
  · rw [hlocked]
    cases a
    case closeContext c =>
      by_contra hl
      simp only [updWatch, if_neg hl, ne_eq, not_true_eq_false] at hc
    case readContextFd c =>
      refine h.closing w hw ?_
      simp only [updWatch] at hc
      split_ifs at hc <;> exact hc
    case releaseProcData => exact absurd rfl hc
    case lockProcData => exact absurd rfl hlock
    case unlockProcData => exact absurd rfl hunlock
    all_goals exact h.closing w hw hc

end Locks

section Knowledge

structure Sound (s : Core) (l : Local) : Prop where
  known : ∀ c ∈ l.1.2.known, Was s c ∧ l.1.1.task.MayUse (s.ctx c).owner
  mine : ∀ c, .own c ∈ l.2.1 ∨ .init c ∈ l.2.1 →
    c < s.next ∧ l.1.1.task.MayUse (s.ctx c).owner
  fresh : ∀ c, l.1.2.fresh = some c → .hold c ∈ l.2.1 ∧ c ∈ l.1.2.known
  read : ∀ c fd, l.1.2.read = some (c, fd) →
    Was s c ∧ ((s.ctx c).fd = fd ∨ (s.ctx c).fd = -1)

def Pledge (s : Core) (l : Errand) : Prop :=
  ∀ fd, l.After fd → ∀ c ∈ s.contextList, (s.ctx c).fd = fd → l.task.MayUse (s.ctx c).owner

theorem Task.IsRequestOf.mayUse {task : Task} {identity : CallerIdentity}
    (h : task.IsRequestOf identity) : task.MayUse identity := by
  obtain ⟨message, rfl⟩ := h
  exact rfl

variable {s s' : Core} {l : Local} {a : CoreAct}

theorem Sound.moves (h : Sound s l) (hm : Moves a s s') : Sound s' l := by
  refine ⟨fun c hc => ?_, fun c hc => ?_, h.fresh, fun c fd hc => ?_⟩
  · obtain ⟨hwas, hmay⟩ := h.known c hc
    rw [hm.owner c hwas.1]
    exact ⟨(hm.was c hwas).1, hmay⟩
  · obtain ⟨hlt, hmay⟩ := h.mine c hc
    rw [hm.owner c hlt]
    exact ⟨hlt.trans_le hm.next, hmay⟩
  · obtain ⟨hwas, hfd⟩ := h.read c fd hc
    obtain ⟨hwas', hsame | ⟨-, hneg⟩⟩ := hm.was c hwas
    · rw [hsame]
      exact ⟨hwas', hfd⟩
    · exact ⟨hwas', .inr hneg⟩

theorem mem_of_mem_upd {refs : List (Ref Nat)} {e : Event Nat} {t : Ref Nat} (h : t ∈ upd refs e) :
    t ∈ refs ∨ produced e = some t := by
  rcases List.mem_append.mp h with h | h
  · exact .inr (by simpa using h)
  · cases hc : consumed refs e with
    | none =>
      rw [hc] at h
      exact .inl h
    | some u =>
      rw [hc] at h
      exact .inl (List.mem_of_mem_erase h)

theorem mine_of_upd {refs : List (Ref Nat)} {e : Event Nat} {c : Nat} (hcov : Covered refs [e])
    (hne : e ≠ .malloc c) (h : .own c ∈ upd refs e ∨ .init c ∈ upd refs e) :
    .own c ∈ refs ∨ .init c ∈ refs := by
  rcases h with h | h
  · rcases mem_of_mem_upd h with hold | hprod
    · exact .inl hold
    · cases e with
      | malloc d =>
        obtain rfl : d = c := by simpa [produced] using hprod
        exact absurd rfl hne
      | put d zero => cases zero <;> simp [produced] at hprod
      | _ => simp [produced] at hprod
  · rcases mem_of_mem_upd h with hold | hprod
    · exact .inr hold
    · cases e with
      | set d =>
        obtain rfl : d = c := by simpa [produced] using hprod
        exact .inl (hcov.1 _ rfl)
      | put d zero => cases zero <;> simp [produced] at hprod
      | _ => simp [produced] at hprod

variable {ms : List InitLocal} {env : Env Addr} {r : CoreResp a}
variable (hacc : Accounts s.ledger (refsOf (ms.map (·.1)))) (hm : l.2 ∈ ms)
include hacc hm

omit hm in
theorem met {fd : Int} {c : Nat} (hpledge : Pledge s l.1.1) (hafter : l.1.1.After fd)
    (hfind : s.findBnContext fd = some c) (hmoves : Moves a s s') :
    Was s' c ∧ l.1.1.task.MayUse (s'.ctx c).owner := by
  obtain ⟨hc, hfd⟩ := of_findBnContext hfind
  have hwas := was_of_listed hacc hc
  rw [hmoves.owner c hwas.1]
  exact ⟨(hmoves.was c hwas).1, hpledge fd hafter c hc hfd⟩

theorem sound_upd (h : Sound s l) (hpledge : Pledge s l.1.1) (hexec : s.exec env a = some (r, s'))
    (hpre : CarefulPre l (.core a)) : Sound s' (watched.upd l (.core a) r) := by
  have hmoves := moves_exec hacc hm hexec hpre.2.1
  have hcov := hpre.2.1.covered a rfl r
  have h' := h.moves hmoves
  cases a
  case mallocContext owner =>
    simp only [Core.exec] at hexec
    split_ifs at hexec
    · obtain ⟨rfl, rfl⟩ := Prod.mk.inj (Option.some.inj hexec)
      refine ⟨h'.known, fun c hc => ?_, fun c hc => ?_, h'.read⟩
      · by_cases hcn : c = s.next
        · subst hcn
          refine ⟨Nat.lt_succ_self _, ?_⟩
          have howner : ((s.mallocContext owner).ctx s.next).owner = owner := by
            simp [Core.mallocContext]
          rw [howner]
          exact Task.IsRequestOf.mayUse hpre.1
        · exact h'.mine c (mine_of_upd (e := .malloc s.next) hcov (by simpa using Ne.symm hcn) hc)
      · obtain ⟨hhold, hknown⟩ := h'.fresh c hc
        exact ⟨mem_upd_of_mem (e := .malloc s.next) hhold (by simp [consumed]), hknown⟩
    · obtain ⟨rfl, rfl⟩ := Prod.mk.inj (Option.some.inj hexec)
      exact ⟨h'.known, h'.mine, h'.fresh, h'.read⟩
  case setContext c fd =>
    refine ⟨h'.known, fun d hd => h'.mine d (mine_of_upd hcov (by simp) hd), fun d hd => ?_,
      h'.read⟩
    obtain ⟨hhold, hknown⟩ := h'.fresh d hd
    exact ⟨mem_upd_of_mem (e := .set c) hhold (by simp [consumed]), hknown⟩
  case insertContext c =>
    obtain ⟨-, rfl⟩ := Prod.mk.inj (Option.some.inj hexec)
    have hinit : .init c ∈ l.2.1 := hcov.1 _ rfl
    refine ⟨fun d hd => ?_, fun d hd => h'.mine d (mine_of_upd hcov (by simp) hd), fun d hd => ?_,
      h'.read⟩
    · rcases List.mem_cons.mp hd with rfl | hd
      · obtain ⟨hlt, hmay⟩ := h'.mine d (.inr hinit)
        exact ⟨⟨hlt, by simp [Core.insertContext, Core.modify]⟩, hmay⟩
      · exact h'.known d hd
    · obtain rfl : c = d := Option.some.inj hd
      exact ⟨List.mem_append_left _ (by simp [produced]), List.mem_cons_self⟩
  case getBnContext fd =>
    obtain ⟨rfl, rfl⟩ := Prod.mk.inj (Option.some.inj hexec)
    cases hfind : s.findBnContext fd with
    | none => 
      rw [hfind] at h'
      exact ⟨h'.known, h'.mine, h'.fresh, h'.read⟩
    | some c =>
      rw [hfind] at h' hcov hmoves
      have hmet := met hacc hpledge hpre.1 hfind hmoves
      refine ⟨List.forall_mem_cons.mpr ⟨hmet, h'.known⟩,
        fun d hd => h'.mine d (mine_of_upd hcov (by simp) hd), fun d hd => ?_, h'.read⟩
      obtain ⟨hhold, hknown⟩ := h'.fresh d hd
      exact ⟨mem_upd_of_mem (e := .get c) hhold (by simp [consumed]),
        List.mem_cons_of_mem _ hknown⟩
  case findAndRemoveBnContext fd =>
    obtain ⟨rfl, rfl⟩ := Prod.mk.inj (Option.some.inj hexec)
    cases hfind : s.findBnContext fd with
    | none =>
      rw [hfind] at h'
      exact ⟨h'.known, h'.mine, h'.fresh, h'.read⟩
    | some c =>
      rw [hfind] at h' hcov hmoves
      have hmet := met hacc hpledge hpre.1 hfind hmoves
      refine ⟨List.forall_mem_cons.mpr ⟨hmet, h'.known⟩,
        fun d hd => h'.mine d (mine_of_upd hcov (by simp) hd), fun d hd => ?_, h'.read⟩
      obtain ⟨hhold, hknown⟩ := h'.fresh d hd
      exact ⟨mem_upd_of_mem (e := .remove c) hhold (by simp [consumed]),
        List.mem_cons_of_mem _ hknown⟩
  case atomDecContext c =>
    have hnone : l.1.2.fresh = none := hpre.1
    refine ⟨h'.known, fun d hd => h'.mine d (mine_of_upd hcov (by simp) hd), fun d hd => ?_,
      h'.read⟩
    cases hnone.symm.trans hd
  case freeContext c =>
    refine ⟨h'.known, fun d hd => h'.mine d (mine_of_upd hcov (by simp) hd), fun d hd => ?_,
      h'.read⟩
    obtain ⟨hhold, hknown⟩ := h'.fresh d hd
    refine ⟨mem_upd_of_mem (e := .discard c) hhold ?_, hknown⟩
    simp only [consumed]
    split_ifs <;> simp
  case freeFinalized c =>
    refine ⟨h'.known, fun d hd => h'.mine d (mine_of_upd hcov (by simp) hd), fun d hd => ?_,
      h'.read⟩
    obtain ⟨hhold, hknown⟩ := h'.fresh d hd
    exact ⟨mem_upd_of_mem (e := .free c) hhold (by simp [consumed]), hknown⟩
  case readContextFd c =>
    obtain ⟨rfl, rfl⟩ := Prod.mk.inj (Option.some.inj hexec)
    have hknown : c ∈ l.1.2.known := hpre.1
    have hwatch : updWatch l.1.2 (.core (.readContextFd c)) (s.ctx c).fd =
        if l.1.2.locked then l.1.2 else { l.1.2 with read := some (c, (s.ctx c).fd) } := rfl
    by_cases hlocked : l.1.2.locked = true
    · have hsame : (watched.upd l (.core (.readContextFd c)) (s.ctx c).fd).1.2 = l.1.2 := by
        rw [if_pos hlocked] at hwatch
        exact hwatch
      refine ⟨?_, h.mine, ?_, ?_⟩
      all_goals rw [hsame]
      · exact h.known
      · exact h.fresh
      · exact h.read
    · have hset : (watched.upd l (.core (.readContextFd c)) (s.ctx c).fd).1.2 =
          { l.1.2 with read := some (c, (s.ctx c).fd) } := by
        rw [if_neg hlocked] at hwatch
        exact hwatch
      refine ⟨?_, h.mine, ?_, ?_⟩
      all_goals rw [hset]
      · exact h.known
      · exact h.fresh
      · intro d fd hd
        obtain ⟨rfl, rfl⟩ := Prod.mk.inj (Option.some.inj hd)
        exact ⟨(h.known c hknown).1, .inl rfl⟩
  case setContextToProcData identity c =>
    exact ⟨h'.known, h'.mine, (fun d hd => by cases hd), h'.read⟩
  all_goals exact ⟨h'.known, h'.mine, h'.fresh, h'.read⟩

end Knowledge

section Records

def Closing (ls : List Local) (pid fd : Int) : Prop :=
  ∃ l ∈ ls, l.1.2.closing = some fd ∧
    ∃ identity, identity.pid = pid ∧ l.1.1.task.IsRequestOf identity

def Apart (ls : List Local) : Prop :=
  ∀ (i j : Nat) (l k : Local) (c : Nat), i ≠ j → ls[i]? = some l → ls[j]? = some k →
    l.1.2.fresh = some c → k.1.2.fresh ≠ some c

/-- The process data records descriptors of contexts of its processes, and none of a context
that is not recorded yet. -/
structure RecInv (s : Core) (ls : List Local) : Prop where
  pids : (s.procData.map (·.callerIdentity.pid)).Nodup
  slots : ∀ e ∈ s.procData, (recorded e).Nodup
  backed : ∀ e ∈ s.procData, ∀ fd ∈ recorded e,
    (∃ c, Was s c ∧ (s.ctx c).fd = fd ∧ (s.ctx c).owner = e.callerIdentity) ∨
      Closing ls e.callerIdentity.pid fd
  fresh : ∀ l ∈ ls, ∀ c, l.1.2.fresh = some c → ∀ e ∈ s.procData, (s.ctx c).fd ∈ recorded e →
    Closing ls e.callerIdentity.pid (s.ctx c).fd
  apart : Apart ls

structure Guarded (s : Core) (ls : List Local) : Prop where
  accounts : Accounts s.ledger (refsOf ((ls.map (·.2)).map (·.1)))
  fds : FdInv s (ls.map (·.2))
  shut : Shut s
  locks : LockInv s (ls.map (·.1.2))
  sound : ∀ l ∈ ls, Sound s l
  pledge : ∀ l ∈ ls, Pledge s l.1.1
  records : RecInv s ls

variable {s s' : Core} {ls : List Local} {i : Nat} {l l' : Local} {a : CoreAct} {pid fd : Int}

theorem Closing.set (h : Closing ls pid fd) (hi : ls[i]? = some l)
    (hkept : ∀ fd, l.1.2.closing = some fd → l'.1.2.closing = some fd)
    (htask : l'.1.1.task = l.1.1.task) : Closing (ls.set i l') pid fd := by
  obtain ⟨k, hk, hclosing, hrequest⟩ := h
  rcases mem_cases hi hk with rfl | ⟨j, hij, hj⟩
  · exact ⟨l', mem_set_self hi, hkept fd hclosing, htask ▸ hrequest⟩
  · exact ⟨k, mem_set_of_ne hij hj, hclosing, hrequest⟩

theorem Apart.set (h : Apart ls) (hi : ls[i]? = some l)
    (hnew : ∀ c, l'.1.2.fresh = some c → l.1.2.fresh = some c ∨ ∀ k ∈ ls, k.1.2.fresh ≠ some c) :
    Apart (ls.set i l') := by
  intro j k m v c hjk hj hk hm
  refine alone_set (fun j k m v hjk hj hk => h j k m v c hjk hj hk) hi (fun j k hij hj hlc => ?_)
    (fun j k hij hj hkc hlc => ?_) j k m v hjk hj hk hm
  · rcases hnew c hlc with hlc | hnone
    · exact h i j l k c hij hi hj hlc
    · exact hnone k (List.mem_of_getElem? hj)
  · rcases hnew c hlc with hlc | hnone
    · exact h i j l k c hij hi hj hlc hkc
    · exact hnone k (List.mem_of_getElem? hj) hkc

theorem LockInv.not_closing (h : LockInv s (ls.map (·.1.2))) (hfree : s.procLock = false) :
    ¬ Closing ls pid fd := by
  rintro ⟨l, hl, hclosing, -⟩
  have hw : l.1.2 ∈ ls.map (·.1.2) := List.mem_map_of_mem hl
  have hlocked := h.closing l.1.2 hw (by simp [hclosing])
  cases hfree.symm.trans (h.held l.1.2 hw hlocked)

theorem RecInv.frame (h : RecInv s ls) (hi : ls[i]? = some l) (hmoves : Moves a s s')
    (hpids : (s'.procData.map (·.callerIdentity.pid)).Nodup)
    (hsub : ∀ e ∈ s'.procData, e ∈ s.procData)
    (hback : ∀ e ∈ s'.procData, ∀ c, Was s c → (s.ctx c).fd ∈ recorded e →
      (s.ctx c).owner = e.callerIdentity → (s'.ctx c).fd = (s.ctx c).fd ∨
        Closing (ls.set i l') e.callerIdentity.pid (s.ctx c).fd)
    (hclosing : ∀ fd, l.1.2.closing = some fd → l'.1.2.closing = some fd)
    (htask : l'.1.1.task = l.1.1.task)
    (hsame : ∀ k ∈ ls, ∀ c, k.1.2.fresh = some c → (s'.ctx c).fd = (s.ctx c).fd)
    (hnew : ∀ c, l'.1.2.fresh = some c → l.1.2.fresh = some c ∨
      (∀ k ∈ ls, k.1.2.fresh ≠ some c) ∧ ∀ e ∈ s'.procData, (s'.ctx c).fd ∈ recorded e →
        Closing ls e.callerIdentity.pid (s'.ctx c).fd) : RecInv s' (ls.set i l') := by
  have hl := List.mem_of_getElem? hi
  have hset {pid fd : Int} (hc : Closing ls pid fd) : Closing (ls.set i l') pid fd :=
    hc.set hi hclosing htask
  have hold (k : Local) (hk : k ∈ ls) (c : Nat) (hkc : k.1.2.fresh = some c) (e : DaemonProcdata)
      (he : e ∈ s'.procData) (hfd : (s'.ctx c).fd ∈ recorded e) :
      Closing (ls.set i l') e.callerIdentity.pid (s'.ctx c).fd := by
    rw [hsame k hk c hkc] at hfd ⊢
    exact hset (h.fresh k hk c hkc e (hsub e he) hfd)
  refine ⟨hpids, fun e he => h.slots e (hsub e he), fun e he fd hfd => ?_,
    fun k hk c hkc e he hfd => ?_,
    h.apart.set hi fun c hc => (hnew c hc).imp_right And.left⟩
  · rcases h.backed e (hsub e he) fd hfd with ⟨c, hwas, rfl, howner⟩ | hc
    · rcases hback e he c hwas hfd howner with hfdc | hc
      · refine .inl ⟨c, (hmoves.was c hwas).1, hfdc, ?_⟩
        rw [hmoves.owner c hwas.1, howner]
      · exact .inr hc
    · exact .inr (hset hc)
  · rcases mem_set_cases hk with rfl | ⟨j, -, hj⟩
    · rcases hnew c hkc with hkc | ⟨-, hnew⟩
      · exact hold l hl c hkc e he hfd
      · exact hset (hnew e he hfd)
    · exact hold k (List.mem_of_getElem? hj) c hkc e he hfd

theorem Moves.fd_eq {c : Nat} (h : Moves a s s') (ha : ∀ d, a ≠ .closeContext d) (hwas : Was s c) :
    (s'.ctx c).fd = (s.ctx c).fd := by
  rcases (h.was c hwas).2 with hsame | ⟨rfl, -⟩
  · exact hsame
  · exact absurd rfl (ha c)

namespace Guarded

variable {c : Nat}

theorem mem_refs (hl : l ∈ ls) : l.2 ∈ ls.map (·.2) := List.mem_map_of_mem hl

theorem fresh_ne (h : Guarded s ls) (hl : l ∈ ls)
    (href : .own c ∈ l.2.1 ∨ .init c ∈ l.2.1 ∨ .fin c ∈ l.2.1) {k : Local} (hk : k ∈ ls) :
    k.1.2.fresh ≠ some c := by
  intro hfresh
  have hpos {m : Local} (hm : m ∈ ls) {t : Ref Nat} (ht : t ∈ m.2.1) :
      0 < refsOf ((ls.map (·.2)).map (·.1)) t :=
    refsOf_pos.mpr ⟨m.2.1, List.mem_map_of_mem (mem_refs hm), ht⟩
  have hhold := hpos hk ((h.sound k hk).fresh c hfresh).1
  have halone := (h.accounts.law c (h.accounts.known_of_pos hhold)).alone
  rcases href with ht | ht | ht
  all_goals
    have := hpos hl ht
    omega

theorem fresh_open (h : Guarded s ls) (hl : l ∈ ls) (hfresh : l.1.2.fresh = some c) :
    Was s c ∧ ((s.ctx c).fd, c) ∈ s.openFds := by
  have hhold := ((h.sound l hl).fresh c hfresh).1
  have hwas := was_of_ref h.accounts (mem_refs hl) (.inl hhold)
  have hfrees : (s.ctx c).frees = 0 :=
    h.accounts.frees_eq_zero (refsOf_pos.mpr ⟨l.2.1, List.mem_map_of_mem (mem_refs hl), hhold⟩)
  refine ⟨hwas, (h.shut c hwas).resolve_left fun hneg => ?_⟩
  obtain ⟨m, hm, hfin⟩ := h.fds.closed c hwas.2 hfrees hneg
  obtain ⟨k, hk, rfl⟩ := List.mem_map.mp hm
  exact h.fresh_ne hk (.inr (.inr hfin)) hl hfresh

theorem fd_ne_of_open (h : Guarded s ls) (hopen : (fd, c) ∈ s.openFds) : fd ≠ -1 := by
  have := h.fds.nonneg _ hopen
  simp only at this
  omega

theorem recInv_insertContext (h : Guarded s ls) (hi : ls[i]? = some l)
    (hinit : .init c ∈ l.2.1) (hopened : l.2.2 = some (c, fd))
    (hmoves : Moves (.insertContext c) s (s.insertContext c)) :
    RecInv (s.insertContext c) (ls.set i (watched.upd l (.core (.insertContext c)) ())) := by
  have hl := List.mem_of_getElem? hi
  have hsame (d : Nat) (hd : Was s d) := hmoves.fd_eq (fun _ => by simp) hd
  refine h.records.frame hi hmoves h.records.pids (fun _ he => he)
    (fun _ _ d hd _ _ => .inl (hsame d hd)) (fun _ hc => hc) rfl
    (fun k hk d hkd => hsame d (h.fresh_open hk hkd).1) fun d hd => .inr ?_
  obtain rfl : c = d := Option.some.inj hd
  refine ⟨fun k hk => h.fresh_ne hl (.inr (.inl hinit)) hk, fun e he hmem => ?_⟩
  have hfd : ((s.insertContext c).ctx c).fd = (s.ctx c).fd := by
    simp [Core.insertContext, Core.modify]
  have hopen : ((s.ctx c).fd, c) ∈ s.openFds := by
    rw [fd_of_init h.accounts h.fds (mem_refs hl) hopened hinit]
    exact (h.fds.opened l.2 (mem_refs hl) c fd hopened).1
  rw [hfd] at hmem ⊢
  refine (h.records.backed e he _ hmem).resolve_left ?_
  rintro ⟨d, hwas, hd, -⟩
  rcases h.shut d hwas with hneg | hd'
  · exact (mem_recorded.mp hmem).2 (hd.symm.trans hneg)
  · obtain rfl : d = c := h.fds.unique (hd ▸ hd') hopen
    cases (wasListed_eq_false h.accounts (mem_refs hl) (.inr hinit)).symm.trans hwas.2

theorem recInv_closeContext (h : Guarded s ls) (hi : ls[i]? = some l) (hfin : .fin c ∈ l.2.1)
    (hpre : Careful l.1 (.core (.closeContext c)))
    (hmeets : (∃ pid, l.1.1.task = .caDied pid) → ∀ e ∈ s.procData, (s.ctx c).fd ∉ recorded e)
    (hmoves : Moves (.closeContext c) s s') (hproc : s'.procData = s.procData)
    (hctx : ∀ d, d ≠ c → s'.ctx d = s.ctx d) :
    RecInv s' (ls.set i (watched.upd l (.core (.closeContext c)) ())) := by
  have hl := List.mem_of_getElem? hi
  obtain ⟨hknown, hnone, hhow⟩ := hpre
  refine h.records.frame hi hmoves (hproc ▸ h.records.pids) (fun e he => hproc ▸ he)
    (fun e he d hwas hmem howner => ?_) (fun fd hc => by cases hnone.symm.trans hc) rfl
    (fun k hk d hkd => ?_) fun d hd => .inl hd
  · by_cases hdc : d = c
    · subst hdc
      refine .inr ?_
      have hwatch : (updWatch l.1.2 (.core (.closeContext d)) ()).closing =
          if l.1.2.locked then l.1.2.read.map (·.2) else none := rfl
      by_cases hlocked : l.1.2.locked = true
      · rw [if_pos hlocked] at hhow hwatch
        obtain ⟨⟨fd, hread⟩, identity, hrequest⟩ := hhow
        have hfd : (s.ctx d).fd = fd :=
          ((h.sound l hl).read d fd hread).2.resolve_right (mem_recorded.mp hmem).2
        rw [hread] at hwatch
        have hmine : (s.ctx d).owner = identity := by
          obtain ⟨message, hrequest⟩ := hrequest
          have hmay := ((h.sound l hl).known d hknown).2
          rw [hrequest] at hmay
          exact hmay
        refine ⟨_, mem_set_self hi, ?_, identity, ?_, hrequest⟩
        · exact hwatch.trans (congrArg some hfd.symm)
        · rw [← hmine, howner]
      · rw [if_neg hlocked] at hhow
        exact absurd hmem (hmeets hhow e (hproc ▸ he))
    · rw [hctx d hdc]
      exact .inl rfl
  · rw [hctx d]
    rintro rfl
    exact h.fresh_ne hl (.inr (.inr hfin)) hk hkd

theorem recInv_releaseProcData (h : Guarded s ls) (hi : ls[i]? = some l)
    (hpre : Careful l.1 (.core (.releaseProcData pid fd))) :
    RecInv (s.releaseProcData pid fd)
      (ls.set i (watched.upd l (.core (.releaseProcData pid fd)) ())) := by
  obtain ⟨hclosing, identity, rfl, hrequest⟩ := hpre
  obtain ⟨hpids, hspec⟩ := releaseProcData_spec identity.pid fd h.records.pids
  have hws {j : Nat} {k : Local} (hj : ls[j]? = some k) : (ls.map (·.1.2))[j]? = some k.1.2 := by
    simp [hj]
  have honly {pid fd' : Int} (hc : Closing ls pid fd') : fd' = fd ∧ pid = identity.pid := by
    obtain ⟨k, hk, hkc, identity', rfl, hrequest'⟩ := hc
    have hlocked {m : Local} {fd : Int} (hm : m ∈ ls) (hmc : m.1.2.closing = some fd) :
        m.1.2.locked = true :=
      h.locks.closing m.1.2 (List.mem_map_of_mem hm) (by simp [hmc])
    rcases mem_cases hi hk with rfl | ⟨j, hij, hj⟩
    · obtain ⟨message, hrequest⟩ := hrequest
      obtain ⟨message', hrequest'⟩ := hrequest'
      obtain ⟨rfl, -⟩ := Task.request.inj (hrequest.symm.trans hrequest')
      exact ⟨Option.some.inj (hkc.symm.trans hclosing), rfl⟩
    · have hfree := h.locks.alone i j _ _ hij (hws hi) (hws hj)
        (hlocked (List.mem_of_getElem? hi) hclosing)
      cases hfree.symm.trans (hlocked hk hkc)
  have hleft (e : DaemonProcdata) (he : e ∈ (s.releaseProcData identity.pid fd).procData)
      (fd' : Int) (hfd : fd' ∈ recorded e) : ∃ e₀ ∈ s.procData,
        e.callerIdentity = e₀.callerIdentity ∧ fd' ∈ recorded e₀ ∧
          ¬ Closing ls e₀.callerIdentity.pid fd' := by
    rcases hspec e he with ⟨he, hne⟩ | ⟨e₀, he₀, -, hid, -, -, herase⟩
    · exact ⟨e, he, rfl, hfd, fun hc => hne (honly hc).2⟩
    · rw [herase] at hfd
      refine ⟨e₀, he₀, hid, List.mem_of_mem_erase hfd, fun hc => ?_⟩
      rw [(honly hc).1] at hfd
      exact (h.records.slots e₀ he₀).not_mem_erase hfd
  refine ⟨hpids, fun e he => ?_, fun e he fd' hfd => ?_, fun k hk c hkc e he hfd => ?_,
    h.records.apart.set hi fun _ => .inl⟩
  · rcases hspec e he with ⟨he, -⟩ | ⟨e₀, he₀, -, -, -, -, herase⟩
    · exact h.records.slots e he
    · rw [herase]
      exact (h.records.slots e₀ he₀).erase fd
  · obtain ⟨e₀, he₀, hid, hfd₀, hnot⟩ := hleft e he fd' hfd
    rw [hid]
    exact .inl ((h.records.backed e₀ he₀ fd' hfd₀).resolve_right hnot)
  · obtain ⟨e₀, he₀, -, hfd₀, hnot⟩ := hleft e he _ hfd
    rcases mem_set_cases hk with rfl | ⟨j, -, hj⟩
    · exact absurd (h.records.fresh l (List.mem_of_getElem? hi) c hkc e₀ he₀ hfd₀) hnot
    · exact absurd (h.records.fresh k (List.mem_of_getElem? hj) c hkc e₀ he₀ hfd₀) hnot

theorem recInv_setContextToProcData (h : Guarded s ls) (hi : ls[i]? = some l)
    (hfree : s.procLock = false) {identity : CallerIdentity} {malloc : Bool} {r : Bool}
    (hpre : Careful l.1 (.core (.setContextToProcData identity c))) :
    RecInv (s.setContextToProcData malloc identity (s.ctx c).fd).2
      (ls.set i (watched.upd l (.core (.setContextToProcData identity c)) r)) := by
  have hl := List.mem_of_getElem? hi
  obtain ⟨hfresh, hrequest⟩ := hpre
  obtain ⟨hwas, hopen⟩ := h.fresh_open hl hfresh
  have hnot {pid fd : Int} : ¬ Closing ls pid fd := h.locks.not_closing hfree
  have howner : (s.ctx c).owner = identity := by
    obtain ⟨message, hrequest⟩ := hrequest
    have hmay := ((h.sound l hl).known c ((h.sound l hl).fresh c hfresh).2).2
    rw [hrequest] at hmay
    exact hmay
  have hunrec (e : DaemonProcdata) (he : e ∈ s.procData) : (s.ctx c).fd ∉ recorded e := fun hmem =>
    hnot (h.records.fresh l hl c hfresh e he hmem)
  obtain ⟨hpids, hspec⟩ := setContextToProcData_spec malloc identity (h.fd_ne_of_open hopen)
    h.records.pids
  obtain ⟨es, hsame⟩ : ∃ procData, (s.setContextToProcData malloc identity (s.ctx c).fd).2 =
      { s with procData } := Core.setContextToProcData_eq
  rw [hsame] at hpids hspec ⊢
  -- what is recorded was recorded before, or is the number of `c`
  have hleft (e : DaemonProcdata) (he : e ∈ es) (fd : Int) (hfd : fd ∈ recorded e) :
      fd = (s.ctx c).fd ∧ e.callerIdentity = identity ∨
        ∃ e₀ ∈ s.procData, e.callerIdentity = e₀.callerIdentity ∧ fd ∈ recorded e₀ := by
    rcases hspec e he with he | ⟨hid, ⟨-, hone⟩ | ⟨e₀, he₀, hid₀, -, hperm⟩⟩
    · exact .inr ⟨e, he, rfl, hfd⟩
    · rw [hone] at hfd
      exact .inl ⟨List.mem_singleton.mp hfd, hid⟩
    · rcases List.mem_cons.mp (hperm.mem_iff.mp hfd) with rfl | hfd
      · exact .inl ⟨rfl, hid⟩
      · exact .inr ⟨e₀, he₀, hid.trans hid₀.symm, hfd⟩
  refine ⟨hpids, fun e he => ?_, fun e he fd hfd => .inl ?_, fun k hk d hkd e he hfd => ?_,
    h.records.apart.set hi fun d hd => by cases hd⟩
  · rcases hspec e he with he | ⟨-, ⟨-, hone⟩ | ⟨e₀, he₀, -, -, hperm⟩⟩
    · exact h.records.slots e he
    · rw [hone]
      exact List.nodup_singleton _
    · exact hperm.nodup_iff.mpr (List.nodup_cons.mpr ⟨hunrec e₀ he₀, h.records.slots e₀ he₀⟩)
  · rcases hleft e he fd hfd with ⟨rfl, hid⟩ | ⟨e₀, he₀, hid, hfd⟩
    · exact ⟨c, hwas, rfl, howner.trans hid.symm⟩
    · rw [hid]
      exact (h.records.backed e₀ he₀ fd hfd).resolve_right hnot
  · rcases mem_set_cases hk with rfl | ⟨j, hij, hj⟩
    · cases hkd
    · have hk := List.mem_of_getElem? hj
      rcases hleft e he _ hfd with ⟨heq, -⟩ | ⟨e₀, he₀, -, hfd⟩
      · have hopen' := (h.fresh_open hk hkd).2
        have hfd' : (s.ctx d).fd = (s.ctx c).fd := heq
        rw [hfd'] at hopen'
        obtain rfl : d = c := h.fds.unique hopen' hopen
        exact absurd hkd (h.records.apart i j l k d hij hi hj hfresh)
      · exact absurd (h.records.fresh k hk d hkd e₀ he₀ hfd) hnot

end Guarded

end Records

section Runs

variable {s s' : Core} {ls : List Local} {i : Nat} {l : Local} {a : CoreAct} {c : Nat} {fd : Int}
variable {env : Env Addr} {r : CoreResp a}

namespace Guarded

theorem owner_of_recorded (h : Guarded s ls) (hfree : s.procLock = false) {e : DaemonProcdata}
    (he : e ∈ s.procData) (hfd : fd ∈ recorded e) (hc : c ∈ s.contextList)
    (hcfd : (s.ctx c).fd = fd) : (s.ctx c).owner = e.callerIdentity := by
  obtain ⟨d, hwas, hd, howner⟩ :=
    (h.records.backed e he fd hfd).resolve_right (h.locks.not_closing hfree)
  have hopen := open_of_listed h.accounts h.fds hc
  have hopen' := (h.shut d hwas).resolve_left fun hneg =>
    (mem_recorded.mp hfd).2 (hd.symm.trans hneg)
  rw [hcfd] at hopen
  rw [hd] at hopen'
  obtain rfl : c = d := h.fds.unique hopen hopen'
  exact howner

theorem pledge_moves (h : Guarded s ls) (hmoves : Moves a s s') {k : Errand} (hk : Pledge s k)
    (hinsert : ∀ c, a = .insertContext c → k.After (s'.ctx c).fd → k.task.MayUse (s'.ctx c).owner) :
    Pledge s' k := by
  intro fd hafter c hc hfd
  rcases hmoves.listed c hc with ⟨hc, hsame⟩ | hins
  · rw [hmoves.owner c (was_of_listed h.accounts hc).1]
    exact hk fd hafter c hc (hsame ▸ hfd)
  · exact hinsert c hins (hfd ▸ hafter)

theorem pledge_upd (h : Guarded s ls) (hl : l ∈ ls) (hexec : s.exec env a = some (r, s'))
    (hpre : Careful l.1 (.core a)) (hpledge : Pledge s' l.1.1) :
    Pledge s' (updErrand l.1.1 (.core a) r) := by
  have hfewer (k : Errand) (htask : k.task = l.1.1.task) (hlook : k.lookAt = none)
      (hsnap : k.snapshot ⊆ l.1.1.snapshot) : Pledge s' k := by
    intro fd hafter c hc hfd
    rw [htask]
    refine hpledge fd (hafter.imp (fun hlook' => ?_) fun hmem => hsnap hmem) c hc hfd
    cases hlook.symm.trans hlook'
  cases a
  case isValidContext fd identity =>
    simp only [Core.exec] at hexec
    split_ifs at hexec with hlock
    obtain ⟨rfl, rfl⟩ := Prod.mk.inj (Option.some.inj hexec)
    rintro fd' (hlook | hmem) c hc hfd
    · have hwatch : (if s.isValidContext fd identity then some fd else none) = some fd' := hlook
      split_ifs at hwatch with hvalid
      obtain rfl := Option.some.inj hwatch
      obtain ⟨e, he, rfl, hrec⟩ := recorded_of_isValidContext hvalid
      have howner := h.owner_of_recorded (Bool.eq_false_iff.mpr hlock) he hrec hc hfd
      rw [howner]
      exact Task.IsRequestOf.mayUse hpre
    · exact hpledge fd' (.inr hmem) c hc hfd
  case readContextFd d =>
    obtain ⟨rfl, rfl⟩ := Prod.mk.inj (Option.some.inj hexec)
    rintro fd (hlook | hmem) c hc hfd
    · have hread : (if l.1.1.put then some (s.ctx d).fd else none) = some fd := hlook
      split_ifs at hread
      have hlook' : (s.ctx d).fd = fd := Option.some.inj hread
      obtain ⟨hwas, hmay⟩ := (h.sound l hl).known d hpre
      have hopen := open_of_listed h.accounts h.fds hc
      rw [hfd] at hopen
      have hopen' := (h.shut d hwas).resolve_left fun hneg =>
        h.fd_ne_of_open hopen (hlook'.symm.trans hneg)
      rw [hlook'] at hopen'
      obtain rfl : c = d := h.fds.unique hopen hopen'
      exact hmay
    · exact hpledge fd (.inr hmem) c hc hfd
  case takeProcData pid =>
    simp only [Core.exec] at hexec
    split_ifs at hexec with hlock
    obtain ⟨rfl, rfl⟩ := Prod.mk.inj (Option.some.inj hexec)
    rintro fd (hlook | hmem) c hc hfd
    · cases hlook
    · have htake : fd ∈ Option.elim (s.getProcdataByPid pid) [] recorded := hmem
      cases hget : s.getProcdataByPid pid with
      | none =>
        rw [hget] at htake
        cases htake
      | some e =>
        rw [hget] at htake
        obtain ⟨he, hpid⟩ := mem_of_getProcdataByPid hget
        have howner := h.owner_of_recorded (Bool.eq_false_iff.mpr hlock) he htake hc hfd
        have htask : l.1.1.task = .caDied pid := hpre
        have hmay : (Task.caDied pid).MayUse (s.ctx c).owner := by
          rw [howner]
          exact hpid
        rw [← htask] at hmay
        exact hmay
  case findAndRemoveBnContext fd =>
    exact hfewer _ rfl rfl List.erase_subset
  all_goals exact hfewer _ rfl rfl (List.Subset.refl _)

theorem recInv_exec (h : Guarded s ls) (hi : ls[i]? = some l) (hexec : s.exec env a = some (r, s'))
    (hpre : CarefulPre l (.core a)) (hmeets : ∀ c, a = .closeContext c →
      (∃ pid, l.1.1.task = .caDied pid) → ∀ e ∈ s.procData, (s.ctx c).fd ∉ recorded e) :
    RecInv s' (ls.set i (watched.upd l (.core a) r)) := by
  have hl := List.mem_of_getElem? hi
  have hmoves := moves_exec h.accounts (mem_refs hl) hexec hpre.2.1
  have hframe (ha : ∀ c, a ≠ .closeContext c)
      (hpids : (s'.procData.map (·.callerIdentity.pid)).Nodup)
      (hsub : ∀ e ∈ s'.procData, e ∈ s.procData)
      (hclosing : (watched.upd l (.core a) r).1.2.closing = l.1.2.closing)
      (hfresh : (watched.upd l (.core a) r).1.2.fresh = l.1.2.fresh) :
      RecInv s' (ls.set i (watched.upd l (.core a) r)) := by
    refine h.records.frame hi hmoves hpids hsub (fun _ _ c hwas _ _ => .inl (hmoves.fd_eq ha hwas))
      (fun fd hfd => hclosing.trans hfd) ?_ (fun k hk c hkc => ?_)
      fun c hc => .inl (hfresh.symm.trans hc)
    · cases a <;> rfl
    · exact hmoves.fd_eq ha (h.fresh_open hk hkc).1
  have hrest (ha : ∀ c, a ≠ .closeContext c) (hproc : s'.procData = s.procData)
      (hclosing : (watched.upd l (.core a) r).1.2.closing = l.1.2.closing)
      (hfresh : (watched.upd l (.core a) r).1.2.fresh = l.1.2.fresh) :
      RecInv s' (ls.set i (watched.upd l (.core a) r)) :=
    hframe ha (hproc ▸ h.records.pids) (fun e he => hproc ▸ he) hclosing hfresh
  cases a
  case insertContext c =>
    obtain ⟨-, rfl⟩ := Prod.mk.inj (Option.some.inj hexec)
    obtain ⟨fd, hopened⟩ := hpre.2.2
    exact h.recInv_insertContext hi ((hpre.2.1.covered _ rfl r).1 _ rfl) hopened hmoves
  case closeContext c =>
    obtain ⟨-, rfl⟩ := Prod.mk.inj (Option.some.inj hexec)
    refine h.recInv_closeContext hi (hpre.2.1.closes c rfl) hpre.1 (hmeets c rfl) hmoves rfl ?_
    intro d hd
    simp [Core.modify, Core.closeFd, hd]
  case releaseProcData pid fd =>
    obtain ⟨-, rfl⟩ := Prod.mk.inj (Option.some.inj hexec)
    exact h.recInv_releaseProcData hi hpre.1
  case setContextToProcData identity c =>
    simp only [Core.exec] at hexec
    split_ifs at hexec with hlock
    obtain rfl : (s.setContextToProcData env.ok identity (s.ctx c).fd).2 = s' :=
      congrArg Prod.snd (Option.some.inj hexec)
    exact h.recInv_setContextToProcData hi (Bool.eq_false_iff.mpr hlock) hpre.1
  case takeProcData pid =>
    simp only [Core.exec] at hexec
    split_ifs at hexec with hlock
    obtain ⟨-, rfl⟩ := Prod.mk.inj (Option.some.inj hexec)
    refine hframe (by simp) (h.records.pids.sublist (pids_updateProcData ?_)) (fun e he => ?_)
      rfl rfl
    · intro e e' hnone
      cases hnone
    · rcases mem_updateProcData h.records.pids he with ⟨he, -⟩ | ⟨_, -, -, hnone⟩
      · exact he
      · cases hnone
  case readContextFd c =>
    have hproc := (exec_offTable hexec rfl).2
    have hwatch : (watched.upd l (.core (.readContextFd c)) r).1.2 =
        if l.1.2.locked then l.1.2 else { l.1.2 with read := some (c, r) } := rfl
    refine hrest (by simp) hproc ?_ ?_
    all_goals
      rw [hwatch]
      split_ifs <;> rfl
  case lockProcData =>
    simp only [Core.exec] at hexec
    split_ifs at hexec
    obtain ⟨-, rfl⟩ := Prod.mk.inj (Option.some.inj hexec)
    exact hrest (by simp) rfl rfl rfl
  case unlockProcData =>
    obtain ⟨-, rfl⟩ := Prod.mk.inj (Option.some.inj hexec)
    exact hrest (by simp) rfl rfl rfl
  all_goals exact hrest (by simp) (exec_offTable hexec rfl).2 rfl rfl

/-- Every action of a task that is careful keeps everything, when it keeps callers apart. -/
theorem exec (h : Guarded s ls) (hi : ls[i]? = some l) (hexec : s.exec env a = some (r, s'))
    (hpre : CarefulPre l (.core a)) {objs : Objects Addr}
    (hmeets : keepsApart ⟨s, objs⟩ (ls.map (·.1.1)) l.1.1 (.core a) r = true) :
    Guarded s' (ls.set i (watched.upd l (.core a) r)) := by
  have hl := List.mem_of_getElem? hi
  have hmoves := moves_exec h.accounts (mem_refs hl) hexec hpre.2.1
  have hspare : ∀ fd, a = .closeDupFd fd → s' = s := eq_of_spared hexec hmeets
  have hinsert (k : Local) (hk : k ∈ ls) (c : Nat) (ha : a = .insertContext c)
      (hafter : k.1.1.After (s'.ctx c).fd) : k.1.1.task.MayUse (s'.ctx c).owner := by
    subst ha
    obtain ⟨-, rfl⟩ := Prod.mk.inj (Option.some.inj hexec)
    have hsame : ((s.insertContext c).ctx c).fd = (s.ctx c).fd ∧
        ((s.insertContext c).ctx c).owner = (s.ctx c).owner := by
      simp [Core.insertContext, Core.modify]
    rw [hsame.1] at hafter
    rw [hsame.2]
    have hall : ∀ k ∈ ls.map (·.1.1), k.After (s.ctx c).fd → k.task.MayUse (s.ctx c).owner :=
      of_decide_eq_true hmeets
    exact hall k.1.1 (List.mem_map_of_mem hk) hafter
  have hpledge (k : Local) (hk : k ∈ ls) : Pledge s' k.1.1 :=
    h.pledge_moves hmoves (h.pledge k hk) (hinsert k hk)
  refine ⟨?_, ?_, ?_, ?_, ?_, ?_, ?_⟩
  · rw [List.map_set, List.map_set]
    exact h.accounts.follows (by simp [hi]) (follows_ctxEvents hexec) (hpre.2.1.covered a rfl r)
  · rw [List.map_set]
    exact fdInv_exec h.accounts h.fds (by simp [hi]) hexec hpre.2.1 hpre.2.2 hspare
  · exact shut_exec h.accounts h.fds h.shut (mem_refs hl) hexec hpre.2.1 hpre.2.2 hspare
  · rw [List.map_set]
    refine lockInv_exec h.locks (by simp [hi]) hexec ?_
    rintro rfl
    exact hpre.1
  · intro k hk
    rcases mem_set_cases hk with rfl | ⟨j, -, hj⟩
    · exact sound_upd h.accounts (mem_refs hl) (h.sound l hl) (h.pledge l hl) hexec hpre
    · exact (h.sound k (List.mem_of_getElem? hj)).moves hmoves
  · intro k hk
    rcases mem_set_cases hk with rfl | ⟨j, -, hj⟩
    · exact h.pledge_upd hl hexec hpre.1 (hpledge l hl)
    · exact hpledge k (List.mem_of_getElem? hj)
  · refine h.recInv_exec hi hexec hpre ?_
    rintro c rfl ⟨pid, htask⟩
    have hclean := hmeets
    simp only [keepsApart, htask] at hclean
    exact of_decide_eq_true hclean

end Guarded

theorem Guarded.start (h : Guarded s ls) (task : Task) :
    Guarded s (ls ++ [((⟨task, none, false, []⟩, Watch.start), [], none)]) := by
  have hmore {pid fd : Int} (hc : Closing ls pid fd) :
      Closing (ls ++ [((⟨task, none, false, []⟩, Watch.start), [], none)]) pid fd := by
    obtain ⟨k, hk, hclosing⟩ := hc
    exact ⟨k, List.mem_append_left _ hk, hclosing⟩
  refine ⟨?_, ?_, h.shut, ?_, ?_, ?_, h.records.pids, h.records.slots, fun e he fd hfd => ?_,
    ?_, ?_⟩
  · rw [List.map_append, List.map_append]
    simpa using h.accounts
  · rw [List.map_append]
    exact h.fds.start
  · rw [List.map_append]
    refine ⟨List.forall_mem_append.mpr ⟨h.locks.held, ?_⟩, alone_append h.locks.alone ?_ rfl,
      List.forall_mem_append.mpr ⟨h.locks.closing, ?_⟩⟩
    all_goals simp [Watch.start]
  · refine List.forall_mem_append.mpr ⟨h.sound, ?_⟩
    rw [List.forall_mem_singleton]
    constructor <;> simp [Watch.start]
  · refine List.forall_mem_append.mpr ⟨h.pledge, ?_⟩
    rw [List.forall_mem_singleton]
    rintro fd (hlook | hmem)
    · cases hlook
    · cases hmem
  · exact (h.records.backed e he fd hfd).imp_right hmore
  · refine List.forall_mem_append.mpr ⟨fun k hk c hkc e he hfd => ?_, ?_⟩
    · exact hmore (h.records.fresh k hk c hkc e he hfd)
    · rw [List.forall_mem_singleton]
      intro c hc
      cases hc
  · intro i j m v c hij hi hj hm
    refine alone_append (fun j k m v hjk hj hk => h.records.apart j k m v c hjk hj hk) ?_ ?_
      i j m v hij hi hj hm
    all_goals simp [Watch.start]

theorem guarded_act {w w' : World Addr} {a : Act Addr} {r : Resp a} (h : Guarded w.core ls)
    (hi : ls[i]? = some l) (hpre : CarefulPre l a) (hstep : watched.step w a r w')
    (hmeets : keepsApart w (ls.map (·.1.1)) l.1.1 a r = true) :
    Guarded w'.core (ls.set i (watched.upd l a r)) := by
  obtain ⟨env, hexec⟩ := hstep
  cases a with
  | obj a =>
    obtain ⟨x, -, hx⟩ := Option.map_eq_some_iff.mp hexec
    obtain ⟨-, rfl⟩ := Prod.mk.inj hx
    -- the task only forgets the number that it was after
    have hcore : w.core.exec env .outcome = some (env.ok, w.core) := rfl
    have happart : keepsApart ⟨w.core, w.objs⟩ (ls.map (·.1.1)) l.1.1 (.core .outcome) env.ok =
        true := rfl
    exact h.exec hi hcore (carefulPre_of_plain rfl) happart
  | core a =>
    obtain ⟨x, hcore, hx⟩ := Option.map_eq_some_iff.mp hexec
    obtain ⟨rfl, rfl⟩ := Prod.mk.inj hx
    exact h.exec hi hcore hpre hmeets

end Runs

section Interleavings

theorem guarded_init (objs : Objects Addr) : Guarded (init objs).core [] where
  accounts := accounts_nil (fun _ => rfl) fun _ => rfl
  fds := ⟨List.nodup_nil, List.forall_mem_nil _, List.forall_mem_nil _, (fun _ hw => by cases hw),
    fun _ hw => by cases hw⟩
  shut := fun _ hc => by cases hc.2
  locks := ⟨List.forall_mem_nil _, (fun _ _ _ _ _ hi => by cases hi), List.forall_mem_nil _⟩
  sound := List.forall_mem_nil _
  pledge := List.forall_mem_nil _
  records := ⟨List.nodup_nil, List.forall_mem_nil _, List.forall_mem_nil _, List.forall_mem_nil _,
    fun _ _ _ _ _ _ hi => by cases hi⟩

theorem guarded_reaches {objs : Objects Addr} {cfg : Config (Act Addr) Resp (World Addr) Local}
    (h : Reaches watched
      (fun k => (AnyTask k.fst.fst ∧ k.fst.loc.2 = Watch.start) ∧ k.loc.2 = ([], none))
      (fun s ls l a r => keepsApart s ((ls.map (·.1)).map (·.1)) l.1.1 a r) (init objs) cfg) :
    Guarded cfg.state.core cfg.locs ∧
      ∀ k ∈ cfg.calls, Safe watched CarefulPre k.loc k.prog fun _ _ => True := by
  have hstarts {k : Call (Act Addr) Resp Local}
      (hk : (AnyTask k.fst.fst ∧ k.fst.loc.2 = Watch.start) ∧ k.loc.2 = ([], none)) :
      ∃ task stack memory pointer teeVersion,
        k = ⟨((⟨task, none, false, []⟩, Watch.start), [], none),
          Task.program stack memory pointer teeVersion task⟩ := by
    obtain ⟨⟨⟨errand, watch⟩, init⟩, prog⟩ := k
    obtain ⟨⟨⟨task, stack, memory, pointer, teeVersion, hcall⟩, hwatch⟩, hinit⟩ := hk
    obtain ⟨rfl, rfl⟩ := Call.mk.inj hcall
    obtain rfl : watch = Watch.start := hwatch
    obtain rfl : init = ([], none) := hinit
    exact ⟨task, stack, memory, pointer, teeVersion, rfl⟩
  refine Reaches.invariant (I := fun w ls => Guarded w.core ls) (guarded_init objs)
    (fun w ls k hk hinv => ?_) (fun k hk => ?_)
    (fun w ls i l a r w' hinv hi hpre hstep hmeets => ?_) h
  · obtain ⟨task, _, _, _, _, rfl⟩ := hstarts hk
    exact hinv.start task
  · obtain ⟨task, _, _, _, _, rfl⟩ := hstarts hk
    exact careful_program task
  · rw [List.map_map] at hmeets
    exact guarded_act hinv hi hpre hstep hmeets

/-- In every run that keeps callers apart, a task takes up contexts of its caller only. -/
theorem isolated_reaches (objs : Objects Addr) (cfg : Errands)
    (h : Reaches errands AnyTask keepsApart (init objs) cfg) : Isolated cfg := by
  obtain ⟨calls, hwatch, hcalls⟩ := h.lift (f := updWatch) Watch.start
  obtain ⟨calls', hinit, hcalls'⟩ := hwatch.lift (f := updInit) ([], none)
  obtain ⟨hguard, hsafe⟩ := guarded_reaches hinit
  have hsame : (calls'.map Call.fst).map Call.fst = cfg.calls := by rw [hcalls', hcalls]
  rintro i l a c ⟨k, hk⟩ htakes
  rw [← hsame, List.map_map, List.getElem?_map, Option.map_eq_some_iff] at hk
  obtain ⟨⟨m, p⟩, hk, hcall⟩ := hk
  obtain ⟨rfl, rfl⟩ := Call.mk.inj hcall
  have hmem := List.mem_of_getElem? hk
  have hpledge : Pledge cfg.state.core m.1.1 := hguard.pledge m (List.mem_map_of_mem hmem)
  have hpre := (hsafe _ hmem).1.1
  cases a with
  | obj a => cases htakes
  | core a =>
    cases a
    case getBnContext fd | findAndRemoveBnContext fd =>
      obtain ⟨hc, hfd⟩ := of_findBnContext htakes
      exact hpledge fd hpre c hc hfd
    all_goals cases htakes

def nextTaken (cfg : Errands) (i : Nat) : Option (Nat × Bool) :=
  match cfg.calls[i]? with
  | some ⟨l, .act a _⟩ =>
    (takesUp cfg.state.core a).map fun c => (c, decide (l.task.MayUse (cfg.state.core.ctx c).owner))
  | _ => none

theorem not_isolated {cfg : Errands} {i c : Nat} (h : nextTaken cfg i = some (c, false)) :
    ¬ Isolated cfg := by
  intro hiso
  simp only [nextTaken] at h
  split at h
  case h_2 => cases h
  case h_1 l a k hi =>
    obtain ⟨d, htakes, heq⟩ := Option.map_eq_some_iff.mp h
    obtain ⟨rfl, hmay⟩ := Prod.mk.inj heq
    exact of_decide_eq_false hmay (hiso i l a d ⟨k, hi⟩ htakes)

def beginAll (tasks : List Task) : Errands :=
  ⟨init noObjects, tasks.map fun task => ⟨⟨task, none, false, []⟩, task.program (stackBytes 0 0) noMemory .raw 0⟩⟩

theorem reaches_beginAll
    {meets : World Addr → List Errand → Errand → (a : Act Addr) → Resp a → Bool} (tasks : List Task) :
    Reaches errands AnyTask meets (init noObjects) (beginAll tasks) := by
  induction tasks using List.reverseRecOn with
  | nil => exact .init
  | append_singleton tasks task ih =>
    have hstart := ih.start (k := ⟨⟨task, none, false, []⟩, task.program (stackBytes 0 0) noMemory .raw 0⟩)
      ⟨task, stackBytes 0 0, noMemory, .raw, 0, rfl⟩
    rw [beginAll, List.map_append]
    exact hstart

def sideBySide : List (Nat × Env Addr) :=
  List.replicate 18 (0, answer true 3) ++ List.replicate 18 (1, answer true 4) ++
    [(2, answer true 3)]

theorem isolated_sideBySide : ∃ cfg, Reaches errands AnyTask keepsApart (init noObjects) cfg ∧
    nextTaken cfg 2 = some (0, true) ∧ Isolated cfg := by
  have hrun : (replay errands keepsApart sideBySide (beginAll
      [.request ⟨1, 1, 1⟩ (.initContext true (some none)),
        .request ⟨2, 2, 2⟩ (.initContext true (some none)),
        .request ⟨1, 1, 1⟩ (.closeSession true (some 3) (some 0))])).map (nextTaken · 2) =
      some (some (0, true)) := by
    rfl
  obtain ⟨cfg, hreplay, htakes⟩ := Option.map_eq_some_iff.mp hrun
  have hreach := (reaches_beginAll _).replay sideBySide hreplay
  exact ⟨cfg, hreach, htakes, isolated_reaches noObjects cfg hreach⟩

/-- The process 1 has the number 3 accepted for closing a session; another of its threads
finalises the context, and the process 2 gets the number for a context of its own. -/
def handedOut : List (Nat × Env Addr) :=
  List.replicate 18 (0, answer true 3) ++ [(1, answer true 3)] ++
    List.replicate 12 (2, answer true 3) ++ List.replicate 10 (3, answer true 3)

theorem not_isolated_handedOut :
    ¬ ∀ (objs : Objects Addr) (cfg : Errands),
      Reaches errands AnyTask (fun _ _ _ _ _ => true) (init objs) cfg → Isolated cfg := by
  intro hall
  have hrun : (replay errands (fun _ _ _ _ _ => true) handedOut (beginAll
      [.request ⟨1, 1, 1⟩ (.initContext true (some none)),
        .request ⟨1, 1, 1⟩ (.closeSession true (some 3) (some 0)),
        .request ⟨1, 1, 1⟩ (.finalContext true (some 3)),
        .request ⟨2, 2, 2⟩ (.initContext true (some none))])).map (nextTaken · 1) =
      some (some (1, false)) := by
    rfl
  obtain ⟨cfg, hreplay, htakes⟩ := Option.map_eq_some_iff.mp hrun
  exact not_isolated htakes (hall noObjects cfg ((reaches_beginAll _).replay handedOut hreplay))

end Interleavings

end TeeClient.Daemon.Service
