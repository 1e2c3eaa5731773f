import Mathlib.Tactic
import TeeClient.Daemon.Lifetimes
import TeeClient.Daemon.Tending

/-! What is left of a CA that has died: nothing, for any interleaving of its requests with the
notification, as long as no context of it is recorded once the clean-up has taken its entry. -/

namespace TeeClient.Daemon.Service.CaDeath

open Vendor Vendor.Api Stub
open Resumption RefCount

section Statement

def pidOf : Task → Int
  | .request identity _ => identity.pid
  | .caDied pid => pid

abbrev Worker := (Errand × References.Holding) × Bool

abbrev workers : Machine (Act Addr) Resp (World Addr) (Env Addr) Worker :=
  (errands.prod References.holdings.upd).prod takes

def TaskOf (q : Task → Prop) (k : Call (Act Addr) Resp Worker) : Prop :=
  ∃ task stack memory pointer teeVersion, q task ∧
    k = ⟨((⟨task, none, false, []⟩, References.begin), false),
      Task.program stack memory pointer teeVersion task⟩

def OfCa (identity : CallerIdentity) : Task → Prop
  | .request caller _ => caller = identity
  | .caDied pid => pid = identity.pid

/-- Nothing is freed by hand too early, no reference is forgotten, and no context is recorded too
late. -/
def tidies (s : World Addr) (ws : List Worker) (w : Worker) (a : Act Addr) (r : Resp a) : Bool :=
  Lifetimes.byHand s a && !References.mallocFails w.1.2 a r && !References.forgets w.1.2 a r &&
    inTime (ws.map fun w => (w.1.1.task, w.2)) a r

def cleansUp (s : World Addr) (ws : List Worker) (w : Worker) (a : Act Addr) (r : Resp a) : Bool :=
  keepsApart s (ws.map (·.1.1)) w.1.1 a r && tidies s ws w a r

/-- What is asked of the steps when there are no other CAs to be kept apart from. -/
def cleansUpAlone (s : World Addr) (ws : List Worker) (w : Worker) (a : Act Addr) (r : Resp a) :
    Bool :=
  spares a r && tidies s ws w a r

structure CleanedUp (pid : Int) (s : Core) : Prop where
  contexts : ∀ c ∈ s.contextList, (s.ctx c).owner.pid ≠ pid
  openFds : ∀ p ∈ s.openFds, (s.ctx p.2).owner.pid ≠ pid
  procData : ∀ e ∈ s.procData, e.callerIdentity.pid ≠ pid

abbrev Deaths := Config (Act Addr) Resp (World Addr) Worker

/-- Once the death of a process has been processed and all that was begun for it has ended, nothing
of it is left. -/
def LeavesNothing (cfg : Deaths) : Prop :=
  ∀ pid, (∃ k ∈ cfg.calls, k.loc.1.1.task = .caDied pid ∧ k.loc.2 = true) →
    (∀ k ∈ cfg.calls, pidOf k.loc.1.1.task = pid → k.prog = .pure ()) → CleanedUp pid cfg.state.core

end Statement

section Runs

variable {w w' : World Addr} {ls : List Charge} {i : Nat} {l : Charge}

def atStart (task : Task) : Charge :=
  ⟨((⟨task, none, false, []⟩, Watch.start), [], none), false, none, none⟩

theorem tended_start {s : Core} (h : Tended s ls) (task : Task) :
    Tended s (ls ++ [atStart task]) := by
  have hclosing {pid fd : Int} (hnot : ¬ Closing (ls.map (·.care)) pid fd) :
      ¬ Closing ((ls ++ [atStart task]).map (·.care)) pid fd := by
    rintro ⟨k, hk, hclosing, hrequest⟩
    rw [List.map_append] at hk
    rcases List.mem_append.mp hk with hk | hk
    · exact hnot ⟨k, hk, hclosing, hrequest⟩
    · obtain rfl := List.mem_singleton.mp hk
      cases hclosing
  refine ⟨fun c hc => ?_, ?_, fun c hwas hfrees hneg => ?_, fun p hp => ?_, ?_⟩
  · rcases h.listed c hc with ⟨k, hk, hminds⟩ | ⟨e, he, hrec, hnot⟩
    · exact .inl ⟨k, List.mem_append_left _ hk, hminds⟩
    · exact .inr ⟨e, he, hrec, hclosing hnot⟩
  · refine List.forall_mem_append.mpr ⟨h.recalls, ?_⟩
    rw [List.forall_mem_singleton]
    exact ⟨(fun _ _ hx => by cases hx), (fun _ hx => by cases hx), List.forall_mem_nil _⟩
  · obtain ⟨k, hk, hclosed⟩ := h.closing c hwas hfrees hneg
    exact ⟨k, List.mem_append_left _ hk, hclosed⟩
  · refine (h.opened p hp).imp_left ?_
    rintro ⟨k, hk, hopened⟩
    exact ⟨k, List.mem_append_left _ hk, hopened⟩
  · refine List.forall_mem_append.mpr ⟨h.taken, ?_⟩
    rw [List.forall_mem_singleton]
    exact fun htaken => by cases htaken

theorem tended_act {a : Act Addr} {r : Resp a} (h : Tended w.core ls)
    (hguard : Guarded w.core (ls.map (·.care))) (hi : ls[i]? = some l)
    (hpre : CarefulPre l.care a) (hcharge : ChargePre l a) (hstep : charges.step w a r w')
    (happart : keepsApart w (ls.map (·.care.1.1)) l.care.1.1 a r = true)
    (htime : inTime (ls.map fun k => (k.care.1.1.task, k.taken)) a r = true) :
    Tended w'.core (ls.set i (charges.upd l a r)) := by
  obtain ⟨env, hexec⟩ := hstep
  cases a with
  | obj a =>
    obtain ⟨x, -, hx⟩ := Option.map_eq_some_iff.mp hexec
    obtain ⟨-, rfl⟩ := Prod.mk.inj hx
    have hcore : w.core.exec env .outcome = some (env.ok, w.core) := rfl
    have hsame : keepsApart ⟨w.core, w.objs⟩ (ls.map (·.care.1.1)) l.care.1.1 (.core .outcome)
        env.ok = true := rfl
    exact tended_exec h hguard hi hcore (carefulPre_of_plain rfl) trivial hsame rfl
  | core a =>
    obtain ⟨x, hcore, hx⟩ := Option.map_eq_some_iff.mp hexec
    obtain ⟨rfl, rfl⟩ := Prod.mk.inj hx
    exact tended_exec h hguard hi hcore hpre hcharge happart htime

abbrev Duty := Charge × References.Holding

abbrev duties : Machine (Act Addr) Resp (World Addr) (Env Addr) Duty :=
  charges.prod References.holdings.upd

def Duty.worker (l : Duty) : Worker := ((l.1.care.1.1, l.2), l.1.taken)

def DutyPre (l : Duty) (a : Act Addr) : Prop :=
  (CarefulPre l.1.care a ∧ ChargePre l.1 a) ∧ References.HoldPre l.2 a

def Done (l : Duty) : Prop := On blank l.1 ∧ References.Settled l.2

structure Governed (w : World Addr) (ls : List Duty) : Prop where
  guarded : Guarded w.core ((ls.map (·.1)).map (·.care))
  tended : Tended w.core (ls.map (·.1))
  kept : Lifetimes.Kept w (ls.map (·.2))
  same : ∀ l ∈ ls, l.1.care.2.1 = l.2.contexts
  found : ∀ l ∈ ls, l.2.lost = false

theorem done_program {stack : Operation Addr} {memory : BitVec 64 → SharedMemory Addr}
    {pointer : BitVec 64 → Addr} {teeVersion : U32} (task : Task) :
    Safe duties DutyPre (atStart task, References.begin)
      (task.program stack memory pointer teeVersion) fun _ => Done := by
  have hcare : Safe charges (fun l a => CarefulPre l.care a) (atStart task)
      (task.program stack memory pointer teeVersion) fun _ _ => True :=
    (careful_program task).view (φ := Charge.care) (N := charges) (g := atStart task)
      fun _ _ _ => rfl
  have hcharge : Safe charges ChargePre (atStart task)
      (task.program stack memory pointer teeVersion) fun _ => On blank :=
    keeps_program task (atStart task) ⟨rfl, rfl⟩
  have hrefs := References.safe_program stack memory pointer teeVersion task
  exact ((hcare.and hcharge).prod hrefs).mono fun _ l hl => ⟨hl.1.2, hl.2⟩

theorem governed_act {ls : List Duty} {l : Duty} {a : Act Addr} {r : Resp a} (h : Governed w ls)
    (hi : ls[i]? = some l) (hpre : DutyPre l a) (hstep : duties.step w a r w')
    (hmeets : cleansUp w (ls.map (·.worker)) l.worker a r = true) :
    Governed w' (ls.set i (duties.upd l a r)) := by
  simp only [cleansUp, tidies, Bool.and_eq_true, Bool.not_eq_true', List.map_map] at hmeets
  obtain ⟨happart, ⟨⟨hhand, hmalloc⟩, hforgets⟩, htime⟩ := hmeets
  have hi₁ : (ls.map (·.1))[i]? = some l.1 := by simp [hi]
  have hi₂ : (ls.map (·.2))[i]? = some l.2 := by simp [hi]
  have hcare : ((ls.map (·.1)).map (·.care))[i]? = some l.1.care := by simp [hi]
  refine ⟨?_, ?_, ?_, fun k hk => ?_, fun k hk => ?_⟩
  · rw [List.map_set, List.map_set]
    refine guarded_act h.guarded hcare hpre.1.1 hstep ?_
    rw [List.map_map, List.map_map]
    exact happart
  · rw [List.map_set]
    refine tended_act h.tended h.guarded hi₁ hpre.1.1 hpre.1.2 hstep ?_ ?_
    · rw [List.map_map]
      exact happart
    · rw [List.map_map]
      exact htime
  · rw [List.map_set]
    exact Lifetimes.kept_act h.kept hi₂ hpre.2 hstep hhand
  · rcases mem_set_cases hk with rfl | ⟨j, -, hj⟩
    · have hsame := h.same l (List.mem_of_getElem? hi)
      exact congrArg (fun refs => (refMachine Addr).upd refs a r) hsame
    · exact h.same k (List.mem_of_getElem? hj)
  · rcases mem_set_cases hk with rfl | ⟨j, -, hj⟩
    · have hlost := h.found l (List.mem_of_getElem? hi)
      have hmalloc' : References.mallocFails l.2 a r = false := hmalloc
      have hforgets' : References.forgets l.2 a r = false := hforgets
      simp [duties, Machine.prod, References.holdings, hlost, hmalloc', hforgets']
    · exact h.found k (List.mem_of_getElem? hj)

theorem governed_start {ls : List Duty} (h : Governed w ls) (task : Task) :
    Governed w (ls ++ [(atStart task, References.begin)]) := by
  refine ⟨?_, ?_, ?_, List.forall_mem_append.mpr ⟨h.same, ?_⟩,
    List.forall_mem_append.mpr ⟨h.found, ?_⟩⟩
  · simpa [atStart] using h.guarded.start task
  · simpa using tended_start h.tended task
  · simpa using Lifetimes.kept_start h.kept
  · rw [List.forall_mem_singleton]
    rfl
  · rw [List.forall_mem_singleton]
    rfl

theorem governed_init : Governed (init noObjects) [] where
  guarded := guarded_init noObjects
  tended := ⟨List.forall_mem_nil _, List.forall_mem_nil _, (fun _ hwas => by cases hwas.2),
    List.forall_mem_nil _, List.forall_mem_nil _⟩
  kept := Lifetimes.kept_init
  same := List.forall_mem_nil _
  found := List.forall_mem_nil _

theorem pidOf_eq {task : Task} {owner : CallerIdentity} (h : task.MayUse owner) :
    pidOf task = owner.pid := by
  cases task with
  | request identity message => exact congrArg CallerIdentity.pid h.symm
  | caDied pid => exact h.symm

/-- What is left of the process `pid` when all that is done for it has ended. -/
theorem cleanedUp {ls : List Duty} {pid : Int} (h : Governed w ls)
    (htaken : ∀ e ∈ w.core.procData, e.callerIdentity.pid ≠ pid)
    (hdone : ∀ l ∈ ls, pidOf l.1.care.1.1.task = pid → l.1.page = blank ∧ l.1.care.2.1 = []) :
    CleanedUp pid w.core := by
  have hmem {k : Charge} (hk : k ∈ ls.map (·.1)) (hpid : pidOf k.care.1.1.task = pid) :
      k.page = blank ∧ k.care.2.1 = [] := by
    obtain ⟨l, hl, rfl⟩ := List.mem_map.mp hk
    exact hdone l hl hpid
  have hcare {k : Charge} (hk : k ∈ ls.map (·.1)) : k.care ∈ (ls.map (·.1)).map (·.care) :=
    List.mem_map_of_mem hk
  have hcontexts (c : Nat) (hc : c ∈ w.core.contextList) : (w.core.ctx c).owner.pid ≠ pid := by
    intro howner
    have hmay {k : Charge} (hk : k ∈ ls.map (·.1))
        (hmay : k.care.1.1.task.MayUse (w.core.ctx c).owner) : k.page = blank :=
      (hmem hk ((pidOf_eq hmay).trans howner)).1
    rcases h.tended.listed c hc with ⟨k, hk, hfresh | hrefused | hsnap⟩ | ⟨e, he, hrec, hnot⟩
    · have hsound := h.guarded.sound _ (hcare hk)
      have hblank := hmay hk (hsound.known c (hsound.fresh c hfresh).2).2
      cases (congrArg Page.fresh hblank).symm.trans hfresh
    · obtain ⟨⟨_, x⟩, hx, rfl⟩ := Option.map_eq_some_iff.mp hrefused
      have hblank := hmay hk ((h.tended.recalls k hk).refused _ x hx).2.1
      cases (congrArg Page.refused hblank).symm.trans hrefused
    · have hblank := hmay hk (h.guarded.pledge _ (hcare hk) _ (.inr hsnap) c hc rfl)
      rw [hblank] at hsnap
      cases hsnap
    · obtain ⟨d, hwas, hd, hd'⟩ := (h.guarded.records.backed e he _ hrec).resolve_right hnot
      obtain rfl := eq_of_listed h.guarded hc hwas hd
      exact htaken e he (hd' ▸ howner)
  refine ⟨hcontexts, fun p hp howner => ?_, htaken⟩
  rcases h.tended.opened p hp with ⟨k, hk, hopened⟩ | ⟨hwas, hfrees, -⟩
  · have hrefs := (h.guarded.fds.opened k.care.2 (Guarded.mem_refs (hcare hk)) p.2 p.1 hopened).2
    have hmine := (h.guarded.sound _ (hcare hk)).mine p.2 (hrefs.imp_right (·.1))
    have hblank := (hmem hk ((pidOf_eq hmine.2).trans howner)).1
    cases (congrArg Page.opened hblank).symm.trans hopened
  · rcases h.guarded.accounts.listed_or_ref (decide_eq_true hwas.1) hfrees with hlisted | hrefs
    · exact hcontexts p.2 (List.count_pos_iff.mp hlisted) howner
    · obtain ⟨refs, hrefs, t, ht, hobj⟩ := hrefs
      obtain ⟨k, hk, rfl⟩ : ∃ k ∈ ls.map (·.1), k.care.2.1 = refs := by simpa using hrefs
      have hmay := (h.tended.recalls k hk).refs t ht
      rw [hobj] at hmay
      rw [(hmem hk ((pidOf_eq hmay).trans howner)).2] at ht
      cases ht

theorem leavesNothing {cfg : Deaths} {calls : List (Call (Act Addr) Resp Duty)}
    (hcalls : calls.map (Call.view Duty.worker) = cfg.calls)
    (hgov : Governed cfg.state (calls.map (·.loc)))
    (hsafe : ∀ k ∈ calls, Safe duties DutyPre k.loc k.prog fun _ => Done) : LeavesNothing cfg := by
  have hmem {k : Call (Act Addr) Resp Duty} (hk : k ∈ calls) : k.view Duty.worker ∈ cfg.calls :=
    hcalls ▸ List.mem_map_of_mem hk
  rintro pid ⟨death, hdeath, htask, htaken⟩ hended
  rw [← hcalls] at hdeath
  obtain ⟨k₀, hk₀, rfl⟩ := List.mem_map.mp hdeath
  refine cleanedUp hgov (hgov.tended.taken k₀.loc.1 ?_ htaken pid htask) fun l hl hpid => ?_
  · exact List.mem_map_of_mem (List.mem_map_of_mem hk₀)
  · obtain ⟨k, hk, rfl⟩ := List.mem_map.mp hl
    have hpure : k.prog = .pure () := hended _ (hmem hk) hpid
    have hdone := hsafe k hk
    rw [hpure] at hdone
    obtain ⟨hon, hsettled⟩ : Done k.loc := hdone
    refine ⟨hon.page, ?_⟩
    have hstray := hgov.kept.unstray k.loc.2 (List.mem_map_of_mem hl)
    rcases hsettled with hs | hlost | ⟨hnil, -⟩
    · cases hstray.symm.trans hs
    · cases (hgov.found k.loc hl).symm.trans hlost
    · exact (hgov.same k.loc hl).trans hnil

end Runs

section OneCa

variable {s s' : Core} {w w' : World Addr} {ls : List Duty} {i : Nat} {l : Charge}
variable {identity : CallerIdentity} {pid : Int}

theorem next_exec {env : Env Addr} {a : CoreAct} {r : CoreResp a}
    (hexec : s.exec env a = some (r, s')) (ha : ∀ owner, a ≠ .mallocContext owner) :
    s'.next = s.next := by
  cases a
  case mallocContext owner => exact absurd rfl (ha owner)
  case getBnContext fd | findAndRemoveBnContext fd =>
    obtain ⟨-, rfl⟩ := Prod.mk.inj (Option.some.inj hexec)
    cases s.findBnContext fd <;> rfl
  case openTzdriver | closeDupFd | lockReadContextList =>
    simp only [Core.exec] at hexec
    split_ifs at hexec
    all_goals
      obtain ⟨-, rfl⟩ := Prod.mk.inj (Option.some.inj hexec)
      rfl
  case setContext | insertContext | setCallFromService | freeContext | atomDecContext
    | freeFinalized | closeFd | closeContext | unlockReadContextList =>
    obtain ⟨-, rfl⟩ := Prod.mk.inj (Option.some.inj hexec)
    rfl
  all_goals exact (Core.exec_idle rfl hexec).next

/-- A clean-up that has not taken its entry has met nothing. -/
structure Idle (l : Charge) : Prop where
  known : l.care.1.2.known = []
  lookAt : l.care.1.1.lookAt = none
  snapshot : l.care.1.1.snapshot = []
  refs : l.care.2.1 = []

theorem idle_upd {a : Act Addr} {r : Resp a} (htask : l.care.1.1.task = .caDied pid)
    (hidle : l.taken = false → Idle l) (hpre : CarefulPre l.care a)
    (htaken : (charges.upd l a r).taken = false) : Idle (charges.upd l a r) := by
  have hnot (identity : CallerIdentity) : ¬ l.care.1.1.task.IsRequestOf identity := by
    rintro ⟨message, hrequest⟩
    cases htask.symm.trans hrequest
  cases a with
  | obj a =>
    have h := hidle htaken
    exact ⟨h.known, rfl, h.snapshot, h.refs⟩
  | core a =>
    cases a
    case takeProcData => cases htaken
    all_goals
      have h := hidle htaken
    case isValidContext fd identity => exact absurd hpre.1 (hnot identity)
    case mallocContext identity => exact absurd hpre.1 (hnot identity)
    case getBnContext fd | findAndRemoveBnContext fd =>
      rcases hpre.1 with hlook | hsnap
      · cases h.lookAt.symm.trans hlook
      · rw [h.snapshot] at hsnap
        cases hsnap
    case readContextFd c =>
      have hknown : c ∈ l.care.1.2.known := hpre.1
      rw [h.known] at hknown
      cases hknown
    case setContext c _ | insertContext c =>
      have href := (hpre.2.1.covered _ rfl r).1 _ rfl
      rw [h.refs] at href
      cases href
    case freeContext c | atomDecContext c | freeFinalized c =>
      have hcov := (hpre.2.1.covered _ rfl r).1
      rw [h.refs] at hcov
      simp [consumed] at hcov
    all_goals exact ⟨h.known, rfl, h.snapshot, h.refs⟩

structure OfOne (identity : CallerIdentity) (s : Core) (ls : List Duty) : Prop where
  tasks : ∀ l ∈ ls, OfCa identity l.1.care.1.1.task
  owners : ∀ c < s.next, (s.ctx c).owner = identity
  idle : ∀ l ∈ ls, ∀ pid, l.1.care.1.1.task = .caDied pid → l.1.taken = false → Idle l.1

theorem owners_exec {env : Env Addr} {a : CoreAct} {r : CoreResp a}
    (howners : ∀ c < s.next, (s.ctx c).owner = identity) (hexec : s.exec env a = some (r, s'))
    (hmoves : Moves a s s') (hmalloc : ∀ owner, a = .mallocContext owner → owner = identity) :
    ∀ c < s'.next, (s'.ctx c).owner = identity := by
  have hold (c : Nat) (hc : c < s.next) : (s'.ctx c).owner = identity :=
    (hmoves.owner c hc).trans (howners c hc)
  by_cases ha : ∃ owner, a = .mallocContext owner
  · obtain ⟨owner, rfl⟩ := ha
    obtain rfl := hmalloc owner rfl
    simp only [Core.exec] at hexec
    split_ifs at hexec
    · obtain ⟨-, rfl⟩ := Prod.mk.inj (Option.some.inj hexec)
      intro c hc
      rcases Nat.lt_succ_iff_lt_or_eq.mp hc with hlt | rfl
      · exact hold c hlt
      · simp [Core.mallocContext]
    · obtain ⟨-, rfl⟩ := Prod.mk.inj (Option.some.inj hexec)
      exact hold
  · rw [next_exec hexec fun owner heq => ha ⟨owner, heq⟩]
    exact hold

theorem ofOne_act {l : Duty} {a : Act Addr} {r : Resp a} (h : OfOne identity w.core ls)
    (hgov : Governed w ls) (hi : ls[i]? = some l) (hpre : DutyPre l a)
    (hstep : duties.step w a r w') : OfOne identity w'.core (ls.set i (duties.upd l a r)) := by
  have hl := List.mem_of_getElem? hi
  have htask : (duties.upd l a r).1.care.1.1.task = l.1.care.1.1.task := task_upd a r
  refine ⟨fun k hk => ?_, ?_, fun k hk pid hpid htaken => ?_⟩
  · rcases mem_set_cases hk with rfl | ⟨j, -, hj⟩
    · rw [htask]
      exact h.tasks l hl
    · exact h.tasks k (List.mem_of_getElem? hj)
  · obtain ⟨env, hexec⟩ := hstep
    cases a with
    | obj a =>
      obtain ⟨x, -, hx⟩ := Option.map_eq_some_iff.mp hexec
      obtain ⟨-, rfl⟩ := Prod.mk.inj hx
      exact h.owners
    | core a =>
      obtain ⟨x, hcore, hx⟩ := Option.map_eq_some_iff.mp hexec
      obtain ⟨rfl, rfl⟩ := Prod.mk.inj hx
      have hcare : ((ls.map (·.1)).map (·.care))[i]? = some l.1.care := by simp [hi]
      have hmoves := moves_exec hgov.guarded.accounts
        (Guarded.mem_refs (List.mem_of_getElem? hcare)) hcore hpre.1.1.2.1
      refine owners_exec h.owners hcore hmoves ?_
      rintro owner rfl
      obtain ⟨message, hrequest⟩ : l.1.care.1.1.task.IsRequestOf owner := hpre.1.1.1
      have hmine := h.tasks l hl
      rw [hrequest] at hmine
      exact hmine
  · rcases mem_set_cases hk with rfl | ⟨j, -, hj⟩
    · have hdied := htask.symm.trans hpid
      exact idle_upd hdied (h.idle l hl pid hdied) hpre.1.1 htaken
    · exact h.idle k (List.mem_of_getElem? hj) pid hpid htaken

theorem OfOne.mayUse (h : OfOne identity s ls) {k : Duty} (hk : k ∈ ls) :
    k.1.care.1.1.task.MayUse identity := by
  have htask := h.tasks k hk
  cases hk : k.1.care.1.1.task with
  | request caller message =>
    rw [hk] at htask
    exact htask.symm
  | caDied pid =>
    rw [hk] at htask
    exact htask.symm

/-- One CA is kept apart from the others. -/
theorem keepsApart_of_spares {l : Duty} {a : Act Addr} {r : Resp a}
    (h : OfOne identity w.core ls) (hgov : Governed w ls) (hi : ls[i]? = some l)
    (hpre : DutyPre l a) (hspares : spares a r = true) :
    keepsApart w ((ls.map Duty.worker).map (·.1.1)) l.worker.1.1 a r = true := by
  have hl := List.mem_of_getElem? hi
  have hcare : l.1.care ∈ (ls.map (·.1)).map (·.care) := by
    rw [List.map_map]
    exact List.mem_map_of_mem hl
  cases a with
  | obj a => rfl
  | core a =>
    cases a
    case closeDupFd => exact hspares
    case insertContext c =>
      have hinit : .init c ∈ l.1.care.2.1 := (hpre.1.1.2.1.covered _ rfl r).1 _ rfl
      have hlt := ((hgov.guarded.sound _ hcare).mine c (.inr hinit)).1
      refine decide_eq_true fun k hk _ => ?_
      rw [List.map_map] at hk
      obtain ⟨m, hm, rfl⟩ := List.mem_map.mp hk
      rw [h.owners c hlt]
      exact h.mayUse hm
    case closeContext c =>
      have hfin : .fin c ∈ l.1.care.2.1 := hpre.1.1.2.1.closes c rfl
      cases htask : l.1.care.1.1.task with
      | request _ _ => simp only [keepsApart, Duty.worker, htask]
      | caDied pid =>
        have hclean : keepsApart w ((ls.map Duty.worker).map (·.1.1)) l.worker.1.1
            (.core (.closeContext c)) r =
              decide (∀ e ∈ w.core.procData, (w.core.ctx c).fd ∉ recorded e) := by
          simp only [keepsApart, Duty.worker, htask]
        rw [hclean]
        refine decide_eq_true fun e he hrec => ?_
        have htaken : l.1.taken = true := by
          by_contra hnot
          have hidle := h.idle l hl pid htask (Bool.eq_false_of_not_eq_true hnot)
          rw [hidle.refs] at hfin
          cases hfin
        have hpid : pid = identity.pid := by
          have hmay := h.mayUse hl
          rw [htask] at hmay
          exact hmay.symm
        refine hgov.tended.taken l.1 (List.mem_map_of_mem hl) htaken pid htask e he ?_
        rcases hgov.guarded.records.backed e he _ hrec with ⟨d, hwas, -, howner⟩ | hclosing
        · rw [← howner, h.owners d hwas.1, hpid]
        · obtain ⟨k, hk, -, owner, hown, message, hrequest⟩ := hclosing
          rw [List.map_map] at hk
          obtain ⟨m, hm, rfl⟩ := List.mem_map.mp hk
          have hmay := h.mayUse hm
          have hrequest' : m.1.care.1.1.task = .request owner message := hrequest
          rw [hrequest'] at hmay
          have hsame : identity = owner := hmay
          rw [← hown, ← hsame, hpid]
    all_goals rfl

theorem ofOne_start (h : OfOne identity s ls) {task : Task} (htask : OfCa identity task) :
    OfOne identity s (ls ++ [(atStart task, References.begin)]) := by
  refine ⟨List.forall_mem_append.mpr ⟨h.tasks, ?_⟩, h.owners,
    List.forall_mem_append.mpr ⟨h.idle, ?_⟩⟩
  · rw [List.forall_mem_singleton]
    exact htask
  · rw [List.forall_mem_singleton]
    exact fun _ _ _ => ⟨rfl, rfl, rfl, rfl⟩

end OneCa

section Interleavings

/-- A run is governed when its condition implies `cleansUp`, as long as `J` holds. -/
theorem leavesNothing_of_governed {q : Task → Prop}
    {meets : World Addr → List Worker → Worker → (a : Act Addr) → Resp a → Bool}
    {J : World Addr → List Duty → Prop} {cfg : Deaths} (hinit : J (init noObjects) [])
    (hstart : ∀ w ls task, q task → J w ls → J w (ls ++ [(atStart task, References.begin)]))
    (hact : ∀ w ls i (l : Duty) a (r : Resp a) w', Governed w ls → J w ls → ls[i]? = some l →
      DutyPre l a → duties.step w a r w' → meets w (ls.map Duty.worker) l.worker a r = true →
        cleansUp w (ls.map Duty.worker) l.worker a r = true ∧ J w' (ls.set i (duties.upd l a r)))
    (h : Reaches workers (TaskOf q) meets (init noObjects) cfg) : LeavesNothing cfg := by
  let starts (k : Call (Act Addr) Resp Duty) : Prop := ∃ task stack memory pointer teeVersion,
    q task ∧ k = ⟨(atStart task, References.begin),
      Task.program stack memory pointer teeVersion task⟩
  have hstarts (k : Call (Act Addr) Resp Worker) (hk : TaskOf q k) :
      ∃ k', starts k' ∧ k'.view Duty.worker = k := by
    obtain ⟨task, stack, memory, pointer, teeVersion, hq, rfl⟩ := hk
    exact ⟨_, ⟨task, stack, memory, pointer, teeVersion, hq, rfl⟩, rfl⟩
  obtain ⟨calls, hreach, hcalls⟩ := h.unview (N := duties) (φ := Duty.worker) rfl
    (fun _ _ _ => rfl) hstarts
  have hrule : (Governed cfg.state (calls.map (·.loc)) ∧ J cfg.state (calls.map (·.loc))) ∧
      ∀ k ∈ calls, Safe duties DutyPre k.loc k.prog fun _ => Done := by
    refine Reaches.invariant (I := fun w ls => Governed w ls ∧ J w ls) ⟨governed_init, hinit⟩
      (fun w ls k hk hboth => ?_) (fun k hk => ?_)
      (fun w ls i l a r w' hboth hi hpre hstep hmeets => ?_) hreach
    · obtain ⟨task, _, _, _, _, hq, rfl⟩ := hk
      exact ⟨governed_start hboth.1 task, hstart w ls task hq hboth.2⟩
    · obtain ⟨task, stack, memory, pointer, teeVersion, -, rfl⟩ := hk
      exact done_program task
    · obtain ⟨hcleans, hj⟩ := hact w ls i l a r w' hboth.1 hboth.2 hi hpre hstep hmeets
      exact ⟨governed_act hboth.1 hi hpre hstep hcleans, hj⟩
  exact leavesNothing hcalls hrule.1.1 hrule.2

/-- In every run whose steps all meet `cleansUp`, and in every run of one CA whose steps all meet
`cleansUpAlone`, nothing of a CA is left once its death is processed and its requests have ended. -/
theorem leavesNothing_reaches (cfg : Deaths)
    (h : Reaches workers (TaskOf fun _ => True) cleansUp (init noObjects) cfg ∨
      ∃ identity, Reaches workers (TaskOf (OfCa identity)) cleansUpAlone (init noObjects) cfg) :
    LeavesNothing cfg := by
  rcases h with hmany | ⟨identity, hone⟩
  · exact leavesNothing_of_governed (J := fun _ _ => True) trivial (fun _ _ _ _ _ => trivial)
      (fun w ls i l a r w' _ _ _ _ _ hmeets => ⟨hmeets, trivial⟩) hmany
  · refine leavesNothing_of_governed (J := fun w ls => OfOne identity w.core ls)
      ⟨List.forall_mem_nil _, (fun _ hc => by cases hc), List.forall_mem_nil _⟩
      (fun w ls task htask hj => ofOne_start hj htask)
      (fun w ls i l a r w' hgov hj hi hpre hstep hmeets => ?_) hone
    obtain ⟨hspares, htidies⟩ := Bool.and_eq_true_iff.mp hmeets
    have happart := keepsApart_of_spares hj hgov hi hpre hspares
    exact ⟨Bool.and_eq_true_iff.mpr ⟨happart, htidies⟩, ofOne_act hj hgov hi hpre hstep⟩

def ended (k : Call (Act Addr) Resp Worker) : Bool :=
  match k.prog with
  | .pure _ => true
  | .act _ _ => false

/-- The death of `pid` has been processed, and all that was begun for it has ended. -/
def dead (pid : Int) (cfg : Deaths) : Bool :=
  cfg.calls.any (fun k => isDeathOf pid k.loc.1.1.task && k.loc.2) &&
    cfg.calls.all fun k => !decide (pidOf k.loc.1.1.task = pid) || ended k

theorem LeavesNothing.cleanedUp {cfg : Deaths} {pid : Int} (h : LeavesNothing cfg)
    (hdead : dead pid cfg = true) : CleanedUp pid cfg.state.core := by
  obtain ⟨hany, hall⟩ := Bool.and_eq_true_iff.mp hdead
  refine h pid ?_ fun k hk hpid => ?_
  · obtain ⟨k, hk, hdeath⟩ := List.any_eq_true.mp hany
    obtain ⟨hdeath, htaken⟩ := Bool.and_eq_true_iff.mp hdeath
    refine ⟨k, hk, ?_, htaken⟩
    cases htask : k.loc.1.1.task with
    | request identity message =>
      rw [htask] at hdeath
      cases hdeath
    | caDied died =>
      rw [htask] at hdeath
      exact congrArg Task.caDied (of_decide_eq_true hdeath)
  · have hended : ended k = true := by simpa [hpid] using List.all_eq_true.mp hall k hk
    obtain ⟨l, p⟩ := k
    cases p with
    | pure x => rfl
    | act a k => cases hended

def beginTasks (tasks : List Task) : Deaths :=
  ⟨init noObjects, tasks.map fun task =>
    ⟨((⟨task, none, false, []⟩, References.begin), false),
      task.program (stackBytes 0 0) noMemory .raw 0⟩⟩

theorem reaches_beginTasks {q : Task → Prop}
    {meets : World Addr → List Worker → Worker → (a : Act Addr) → Resp a → Bool} (tasks : List Task)
    (hq : ∀ task ∈ tasks, q task) :
    Reaches workers (TaskOf q) meets (init noObjects) (beginTasks tasks) := by
  induction tasks using List.reverseRecOn with
  | nil => exact .init
  | append_singleton tasks task ih =>
    obtain ⟨htasks, htask⟩ := List.forall_mem_append.mp hq
    have hstart := (ih htasks).start
      (k := ⟨((⟨task, none, false, []⟩, References.begin), false),
        task.program (stackBytes 0 0) noMemory .raw 0⟩)
      ⟨task, stackBytes 0 0, noMemory, .raw, 0, htask task List.mem_cons_self, rfl⟩
    rw [beginTasks, List.map_append]
    exact hstart

def initTask (pid : Int) : Task := .request ⟨pid, 1, 1⟩ (.initContext true (some none))

def ofOneCa : List Task :=
  [.request ⟨1, 1, 1⟩ (.setCallBack true true), initTask 1, initTask 1,
    .request ⟨1, 1, 1⟩ (.closeSession true (some 3) (some 0)), .caDied 1]

def turns (n i : Nat) (ok : Bool) (fd : Int) : List (Nat × Env Addr) :=
  List.replicate n (i, answer ok fd)

/-- One context is recorded and another one listed when the CA dies, and a request holds the first.
The second is refused, and the request has the first to itself when it puts it. -/
def diedMeanwhile : List (Nat × Env Addr) :=
  turns 1 0 true 3 ++ turns 11 1 true 3 ++ turns 10 2 true 4 ++ turns 2 3 true 0 ++
    turns 6 4 true 0 ++ turns 7 1 true 0 ++ turns 17 2 false 0 ++ turns 11 3 true 0

/-- Another CA is given the number of the first context. -/
def diedAndReused : List (Nat × Env Addr) := diedMeanwhile ++ turns 18 5 true 3

theorem leavesNothing_diedMeanwhile :
    (∃ cfg, Reaches workers (TaskOf fun _ => True) cleansUp (init noObjects) cfg ∧
      cfg.state.core.openFds = [(3, 2)] ∧ dead 1 cfg = true ∧ CleanedUp 1 cfg.state.core) ∧
    ∃ cfg, Reaches workers (TaskOf (OfCa ⟨1, 1, 1⟩)) cleansUpAlone (init noObjects) cfg ∧
      cfg.state.core.next = 2 ∧ dead 1 cfg = true ∧ CleanedUp 1 cfg.state.core := by
  have hmany : (replay workers cleansUp diedAndReused (beginTasks (ofOneCa ++ [initTask 2]))).map
      (fun cfg => (cfg.state.core.openFds, dead 1 cfg)) = some ([(3, 2)], true) := by
    rfl
  have hone : (replay workers cleansUpAlone diedMeanwhile (beginTasks ofOneCa)).map
      (fun cfg => (cfg.state.core.next, dead 1 cfg)) = some (2, true) := by
    rfl
  obtain ⟨cfg, hreplay, hend⟩ := Option.map_eq_some_iff.mp hmany
  obtain ⟨cfg', hreplay', hend'⟩ := Option.map_eq_some_iff.mp hone
  obtain ⟨hfds, hdead⟩ := Prod.mk.inj hend
  obtain ⟨hnext, hdead'⟩ := Prod.mk.inj hend'
  have hreach := (reaches_beginTasks (q := fun _ => True) _ fun _ _ => trivial).replay
    diedAndReused hreplay
  have hof : ∀ task ∈ ofOneCa, OfCa ⟨1, 1, 1⟩ task := by simp [ofOneCa, OfCa, initTask]
  have hreach' := (reaches_beginTasks _ hof).replay diedMeanwhile hreplay'
  exact ⟨⟨cfg, hreach, hfds, hdead, (leavesNothing_reaches cfg (.inl hreach)).cleanedUp hdead⟩,
    cfg', hreach', hnext, hdead',
    (leavesNothing_reaches cfg' (.inr ⟨_, hreach'⟩)).cleanedUp hdead'⟩

/-- The context is listed when the CA dies, and recorded after the clean-up has taken nothing. -/
def recordedLate : List (Nat × Env Addr) :=
  turns 1 0 true 3 ++ turns 10 1 true 3 ++ turns 4 2 true 3 ++ turns 8 1 true 3

theorem not_leavesNothing_recordedLate : ¬ ∀ cfg : Deaths,
    Reaches workers (TaskOf (OfCa ⟨1, 1, 1⟩)) (fun _ _ _ _ _ => true) (init noObjects) cfg →
      LeavesNothing cfg := by
  intro hall
  have hrun : (replay workers (fun _ _ _ _ _ => true) recordedLate (beginTasks
      [.request ⟨1, 1, 1⟩ (.setCallBack true true), initTask 1, .caDied 1])).map (fun cfg =>
        (cfg.state.core.contextList, (cfg.state.core.ctx 0).owner.pid, dead 1 cfg)) =
      some ([0], 1, true) := by
    rfl
  obtain ⟨cfg, hreplay, hend⟩ := Option.map_eq_some_iff.mp hrun
  obtain ⟨hlist, hend⟩ := Prod.mk.inj hend
  obtain ⟨howner, hdead⟩ := Prod.mk.inj hend
  have hreach := (reaches_beginTasks (q := OfCa ⟨1, 1, 1⟩) _ (by simp [OfCa, initTask])).replay
    recordedLate hreplay
  have hclean := (hall cfg hreach).cleanedUp hdead
  exact hclean.contexts 0 (by simp [hlist]) howner

end Interleavings

end TeeClient.Daemon.Service.CaDeath
