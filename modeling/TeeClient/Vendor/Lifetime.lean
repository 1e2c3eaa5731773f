import Mathlib.Tactic
import TeeClient.Lib.RefCount
import TeeClient.Vendor.World

/-! What the critical sections of `World` mean for the contexts as counted objects. -/

namespace TeeClient.Vendor

open RefCount

def ContextInner.life (x : ContextInner) : Life where
  opsCnt := x.opsCnt
  frees := x.frees
  wasListed := x.wasListed
  finalized := x.finalized

def Core.ledger (s : Core) : Ledger Nat where
  known c := c < s.next
  life c := (s.ctx c).life
  listed c := s.contextList.count c

def ctxEvents : (a : CoreAct) → CoreResp a → List (Event Nat)
  | .mallocContext _, r => (Option.toList r).map .malloc
  | .setContext c _, _ => [.set c]
  | .insertContext c, _ => [.insert c]
  | .getBnContext _, r => (Option.toList r).map .get
  | .findAndRemoveBnContext _, r => (Option.toList r).map .remove
  | .atomDecContext c, r => [.put c r]
  | .freeContext c, _ => [.discard c]
  | .freeFinalized c, _ => [.free c]
  | _, _ => []

variable {s s' : Core}

theorem Core.ledger_congr (hctx : ∀ c, (s'.ctx c).life = (s.ctx c).life) (hnext : s'.next = s.next)
    (hlist : s'.contextList = s.contextList) : s'.ledger = s.ledger := by
  simp [Core.ledger, hctx, hnext, hlist]

theorem Core.ledger_modify {c : Nat} {f : ContextInner → ContextInner} {g : Life → Life}
    (h : ∀ x, (f x).life = g x.life) : (s.modify c f).ledger = s.ledger.modify c g := by
  have hlife : (fun d => ((s.modify c f).ctx d).life) =
      Function.update (fun d => (s.ctx d).life) c (g (s.ctx c).life) := by
    funext d
    by_cases hd : d = c
    · subst hd
      simp [Core.modify, h]
    · simp [Core.modify, hd]
  simp only [Core.ledger, Ledger.modify, hlife]
  rfl

theorem Core.ledger_modify_event {c : Nat} {f : ContextInner → ContextInner} {e : Event Nat}
    (he : s.ledger.apply e = s.ledger.modify c e.onLife)
    (h : ∀ x, (f x).life = e.onLife x.life) : (s.modify c f).ledger = s.ledger.apply e :=
  (Core.ledger_modify h).trans he.symm

theorem Core.ledger_modify_of_life {c : Nat} {f : ContextInner → ContextInner}
    (h : ∀ x, (f x).life = x.life) : (s.modify c f).ledger = s.ledger := by
  rw [Core.ledger_modify (g := id) h]
  simp [Ledger.modify]

theorem Core.ledger_relist {c : Nat} {cs : List Nat}
    (h : ∀ d, d ≠ c → cs.count d = s.contextList.count d) :
    { s with contextList := cs }.ledger = s.ledger.relist c (cs.count c) := by
  have hlisted : (fun d => cs.count d) =
      Function.update (fun d => s.contextList.count d) c (cs.count c) := by
    funext d
    by_cases hd : d = c
    · subst hd
      simp
    · simp [hd, h d hd]
  simp only [Core.ledger, Ledger.relist, hlisted]

theorem Core.ledger_mallocContext {owner : CallerIdentity} :
    (s.mallocContext owner).ledger = s.ledger.apply (.malloc s.next) := by
  have hlife : (fun d => ((s.mallocContext owner).ctx d).life) =
      Function.update (fun d => (s.ctx d).life) s.next ⟨0, 0, false, 0⟩ := by
    funext d
    by_cases hd : d = s.next
    · subst hd
      simp [Core.mallocContext, ContextInner.life]
    · simp [Core.mallocContext, hd]
  have hknown : (fun d => decide (d < (s.mallocContext owner).next)) =
      Function.update (fun d => decide (d < s.next)) s.next true := by
    funext d
    by_cases hd : d = s.next
    · subst hd
      simp [Core.mallocContext]
    · have hlt : d < s.next + 1 ↔ d < s.next := by omega
      simp [Core.mallocContext, hd, hlt]
  simp only [Core.ledger, Ledger.apply, Ledger.modify, hlife, hknown]
  rfl

theorem Core.ledger_insertContext {c : Nat} :
    (s.insertContext c).ledger = s.ledger.apply (.insert c) := by
  have hmodify := Core.ledger_modify (s := s) (c := c)
    (f := fun x => { x with opsCnt := x.opsCnt + 1, wasListed := true })
    (g := fun x => { x with opsCnt := x.opsCnt + 1, wasListed := true }) fun _ => rfl
  refine (Core.ledger_relist (c := c) fun d hd => ?_).trans ?_
  · simp [List.count_append, hd.symm, Core.modify]
  · rw [hmodify, List.count_append, List.count_singleton_self]
    rfl

theorem Core.ledger_removeContext {c : Nat} :
    (s.removeContext c).ledger = s.ledger.apply (.remove c) := by
  refine (Core.ledger_relist (c := c) fun d hd => List.count_erase_of_ne hd).trans ?_
  have hsame := Core.ledger_modify_of_life (s := s) (c := c) (f := ({ · with takenOut := true }))
    fun _ => rfl
  rw [hsame, List.count_erase_self]
  simp [Ledger.apply, Event.onLife, Ledger.modify, Core.modify, Core.ledger, Event.obj]

theorem Core.mem_of_findBnContext {fd : Int} {c : Nat} (h : s.findBnContext fd = some c) :
    c ∈ s.contextList := List.mem_of_find?_eq_some h

theorem Core.listed_pos {fd : Int} {c : Nat} (h : s.findBnContext fd = some c) :
    0 < s.ledger.listed c :=
  List.count_pos_iff.mpr (Core.mem_of_findBnContext h)

theorem follows_found {fd : Int} {f : Nat → Core} {e : Nat → Event Nat} {r : Option Nat}
    (h : found (s.findBnContext fd) s f = some (r, s')) (hallows : ∀ c,
      0 < s.ledger.listed c → s.ledger.Allows (e c)) (hf : ∀ c, (f c).ledger = s.ledger.apply (e c)) :
    s.ledger.Follows ((Option.toList r).map e) s'.ledger := by
  obtain ⟨rfl, rfl⟩ := Prod.mk.inj (Option.some.inj h)
  cases hfind : s.findBnContext fd with
  | none => exact rfl
  | some c => exact Ledger.follows_one (hallows c (Core.listed_pos hfind)) (hf c)

theorem Core.setContextToProcData_eq {malloc : Bool} {identity : CallerIdentity} {fd : Int} :
    ∃ procData, (s.setContextToProcData malloc identity fd).2 = { s with procData } := by
  simp only [Core.setContextToProcData]
  split
  · split_ifs
    · split <;> exact ⟨_, rfl⟩
    · exact ⟨_, rfl⟩
  · split_ifs <;> exact ⟨_, rfl⟩

theorem Core.addClient_eq {linked : Bool} {pid : Int} :
    ∃ clients, (s.addClient linked pid).2 = { s with clients } := by
  simp only [Core.addClient]
  split_ifs <;> exact ⟨_, rfl⟩

def CoreAct.idle : CoreAct → Bool
  | .outcome | .writeParcel | .addTidData | .ioctl _ | .contextCountLimitCheck | .readContextFd _
  | .readCallFromService _ | .isValidContext _ _ | .setContextToProcData _ _ | .lockProcData
  | .unlockProcData | .releaseProcData _ _ | .takeProcData _ | .addClient _ | .lockClients _
  | .eraseClient _ | .unlockClients => true
  | _ => false

structure Core.SameContexts (s s' : Core) : Prop where
  ctx : s'.ctx = s.ctx
  next : s'.next = s.next
  contextList : s'.contextList = s.contextList
  openFds : s'.openFds = s.openFds
  readLock : s'.readLock = s.readLock

theorem Core.SameContexts.ledger (h : s.SameContexts s') : s'.ledger = s.ledger :=
  Core.ledger_congr (fun c => by rw [h.ctx]) h.next h.contextList

theorem Core.exec_idle {P : Type} [Zero P] {env : Env P} {a : CoreAct} {r : CoreResp a}
    (ha : a.idle = true) (h : s.exec env a = some (r, s')) : s.SameContexts s' := by
  cases a
  case setContextToProcData identity c =>
    simp only [Core.exec] at h
    split_ifs at h
    have hsnd : (s.setContextToProcData env.ok identity (s.ctx c).fd).2 = s' :=
      congrArg Prod.snd (Option.some.inj h)
    obtain ⟨procData, hsame⟩ := Core.setContextToProcData_eq (s := s)
    rw [hsame] at hsnd
    subst hsnd
    exact ⟨rfl, rfl, rfl, rfl, rfl⟩
  case addClient pid =>
    simp only [Core.exec] at h
    split_ifs at h
    have hsnd : (s.addClient env.ok pid).2 = s' := congrArg Prod.snd (Option.some.inj h)
    obtain ⟨clients, hsame⟩ := Core.addClient_eq (s := s)
    rw [hsame] at hsnd
    subst hsnd
    exact ⟨rfl, rfl, rfl, rfl, rfl⟩
  case lockProcData | isValidContext | takeProcData | lockClients =>
    simp only [Core.exec] at h
    split_ifs at h
    obtain ⟨-, rfl⟩ := Prod.mk.inj (Option.some.inj h)
    exact ⟨rfl, rfl, rfl, rfl, rfl⟩
  case outcome | writeParcel | addTidData | ioctl | contextCountLimitCheck | readContextFd
    | readCallFromService | unlockProcData | releaseProcData | eraseClient | unlockClients =>
    obtain ⟨-, rfl⟩ := Prod.mk.inj (Option.some.inj h)
    exact ⟨rfl, rfl, rfl, rfl, rfl⟩
  all_goals cases ha

theorem follows_ctxEvents {P : Type} [Zero P] {env : Env P} {a : CoreAct} {r : CoreResp a}
    (h : s.exec env a = some (r, s')) : s.ledger.Follows (ctxEvents a r) s'.ledger := by
  cases a
  case mallocContext owner =>
    simp only [Core.exec] at h
    split_ifs at h
    · obtain ⟨rfl, rfl⟩ := Prod.mk.inj (Option.some.inj h)
      exact Ledger.follows_one (by simp [Ledger.Allows, Core.ledger]) Core.ledger_mallocContext
    · obtain ⟨rfl, rfl⟩ := Prod.mk.inj (Option.some.inj h)
      exact rfl
  case getBnContext fd =>
    exact follows_found h (fun c hc => hc) fun c => Core.ledger_modify_event rfl fun _ => rfl
  case findAndRemoveBnContext fd =>
    exact follows_found h (fun c hc => hc) fun c => Core.ledger_removeContext
  case insertContext c =>
    obtain ⟨-, rfl⟩ := Prod.mk.inj (Option.some.inj h)
    exact Ledger.follows_one trivial Core.ledger_insertContext
  case setContext | freeContext | freeFinalized =>
    obtain ⟨-, rfl⟩ := Prod.mk.inj (Option.some.inj h)
    exact Ledger.follows_one trivial (Core.ledger_modify_event rfl fun _ => rfl)
  case atomDecContext c =>
    obtain ⟨rfl, rfl⟩ := Prod.mk.inj (Option.some.inj h)
    exact Ledger.follows_one rfl (Core.ledger_modify_event rfl fun _ => rfl)
  case setCallFromService c =>
    obtain ⟨-, rfl⟩ := Prod.mk.inj (Option.some.inj h)
    exact Core.ledger_modify_of_life fun _ => rfl
  case closeContext c =>
    obtain ⟨-, rfl⟩ := Prod.mk.inj (Option.some.inj h)
    exact Core.ledger_modify_of_life (s := s.closeFd _) fun _ => rfl
  case openTzdriver c =>
    simp only [Core.exec] at h
    split_ifs at h
    all_goals
      obtain ⟨-, rfl⟩ := Prod.mk.inj (Option.some.inj h)
      exact rfl
  case closeDupFd fd =>
    simp only [Core.exec] at h
    split_ifs at h
    all_goals
      obtain ⟨-, rfl⟩ := Prod.mk.inj (Option.some.inj h)
      exact rfl
  case lockReadContextList =>
    simp only [Core.exec] at h
    split_ifs at h
    obtain ⟨-, rfl⟩ := Prod.mk.inj (Option.some.inj h)
    exact rfl
  case unlockReadContextList | closeFd =>
    obtain ⟨-, rfl⟩ := Prod.mk.inj (Option.some.inj h)
    exact rfl
  all_goals exact (Core.exec_idle rfl h).ledger

end TeeClient.Vendor
