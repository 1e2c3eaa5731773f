import Mathlib.Tactic
import TeeClient.Daemon.References

/-! Every request of `cadaemon` and every notification of a death, program by program: each
action finds the references that it uses up, and none is left at the end. -/

namespace TeeClient.Daemon.References

open Vendor Vendor.Api Stub Service
open Resumption RefCount

section Finalising

variable {c : Nat} {os : List (Ref Shared)} {u : Option Nat} {past : Past}

theorem safe_stray {α : Type} {p : Program Addr α} {l : Holding} (h : l.stray = true) :
    Safe holdings HoldPre l p fun _ l' => l'.stray = true := by
  induction p generalizing l with
  | pure x => exact h
  | act a k ih => exact ⟨.inl h, fun r => ih r (stray_upd h a r)⟩

/-- A context that is finalised is marked as the service's, or the call is stray. -/
theorem Leads.marked {α : Type} {g : Stage} {k : Bool → Program Addr α} {post : α → Stage}
    (hc : .fin c ∈ g.contexts) (hk : Leads g (k true) post) :
    Leads g (.act (.core (.readCallFromService c)) k) post := by
  intro l hl
  have hread : Moves g (.core (.readCallFromService c)) fun _ => g :=
    moves_core_keep (fun _ => rfl) (reach_of_mem rfl hc rfl) (by simp)
  refine ⟨(hread.stands hl).1, fun r => ?_⟩
  cases r with
  | true => exact hk _ ((hread.stands hl).2 true)
  | false =>
    have hstray : (holdings.upd l (.core (.readCallFromService c)) false).stray = true := by
      rcases hl with hl | hl
      · exact stray_upd hl _ _
      · have hfin : .fin c ∈ l.contexts := hl.contexts ▸ hc
        simp [holdings, strays, hfin]
    exact (safe_stray hstray).mono fun _ _ h => .inl h

theorem reads_teecCloseSessionInner {n : Nat} :
    Reads c (.session c n) (teecCloseSessionInner n c) := by
  refine ⟨by simp [reads], fun _ => ⟨rfl, fun _ => .ite ?_ trivial⟩⟩
  refine ⟨by simp [reads], fun _ => ⟨rfl, fun reply => .ite ?_ trivial⟩⟩
  exact ⟨by simp [reads], fun _ => trivial⟩

def takenSession (c n : Nat) : Ref Shared := .removed (.session c n)

def takenShm (c b : Nat) : Ref Shared := .removed (.shm c b)

theorem perm_takeAll (e : Nat → Shared) (ns : List Nat) :
    (updAll os (ns.map fun n => .remove (e n))).Perm (ns.map (fun n => .removed (e n)) ++ os) := by
  induction ns generalizing os with
  | nil => exact List.Perm.refl _
  | cons n ns ih =>
    have hrest : (updAll (.removed (e n) :: os) (ns.map fun n => .remove (e n))).Perm _ := ih
    exact hrest.trans List.perm_middle

theorem leads_finalizeSessions (hput : past.put = past) (ns : List Nat) :
    Leads ⟨[.fin c], ns.map (takenSession c) ++ os, u, past⟩
      (Prog.each (finalizeSession c true) ns) fun _ => ⟨[.fin c], os, u, past⟩ := by
  induction ns with
  | nil => exact .pure rfl
  | cons n ns ih =>
    have hclose : Leads ⟨[.fin c], (n :: ns).map (takenSession c) ++ os, u, past⟩
        (teecCloseSessionInner n c) fun _ => _ :=
      reads_teecCloseSessionInner.leads ⟨_, List.mem_cons_self, rfl⟩ ⟨_, List.mem_cons_self, rfl⟩
    have hnext : Leads ⟨[.fin c], takenSession c n :: (ns.map (takenSession c) ++ os), u, past⟩
        (putBnSession c n) fun _ => _ := leads_putBnSession (.inl rfl)
    rw [hput] at hnext
    exact .bind (.bind hclose fun _ => hnext) fun _ => ih

theorem leads_teecFinalizeContextInner (hput : past.put = past) :
    Leads ⟨[.fin c], os, u, past⟩ (teecFinalizeContextInner c) fun _ => ⟨[], os, u, past⟩ := by
  have hreach (a : Act Addr) (os : List (Ref Shared)) (ha : pointees a = [c]) :
      Reach ⟨[.fin c], os, u, past⟩ a := reach_of_mem ha List.mem_cons_self rfl
  have hsessions : Moves ⟨[.fin c], os, u, past⟩ (.obj (.takeSessions c)) fun ns =>
      ⟨[.fin c], ns.map (takenSession c) ++ os, u, past⟩ :=
    moves_obj trivial (hreach _ _ rfl) (by simp) (by simp) fun ns =>
      ⟨_, perm_takeAll (.session c) ns, rfl⟩
  have hshms : Moves ⟨[.fin c], os, u, past⟩ (.obj (.takeShms c)) fun bs =>
      ⟨[.fin c], bs.map (takenShm c) ++ os, u, past⟩ :=
    moves_obj trivial (hreach _ _ rfl) (by simp) (by simp) fun bs =>
      ⟨_, perm_takeAll (.shm c) bs, rfl⟩
  have hclose : Moves ⟨[.fin c], os, u, past⟩ (.core (.closeContext c)) fun _ =>
      ⟨[.fin c], os, u, past⟩ := moves_core_keep (fun _ => rfl) (hreach _ _ rfl) (by simp)
  have hfree : Moves ⟨[.fin c], os, u, past⟩ (.core (.freeFinalized c)) fun _ =>
      ⟨[], os, u, past⟩ := by
    refine moves_core (by simp) (fun _ => ⟨?_, trivial⟩) (hreach _ _ rfl) (by simp) (fun _ => ?_)
      (fun _ => rfl) (fun _ => rfl) fun _ => rfl
    · rintro t ht
      obtain rfl := Option.some.inj ht
      exact List.mem_cons_self
    · simp [ctxEvents, upd, consumed, produced]
  simp only [teecFinalizeContextInner, core, obj, Prog.bind_eq, Prog.bind_act, Prog.bind_pure]
  refine .act hsessions fun ns => .marked List.mem_cons_self ?_
  refine .bind (leads_finalizeSessions hput ns) fun _ => .act hshms fun bs => ?_
  refine .bind (leads_putBlocks (fun b bs => .inl rfl) (.inr ⟨_, List.mem_cons_self, rfl⟩) bs)
    fun _ => ?_
  exact .act hclose fun _ => .act hfree fun _ => .pure rfl

def PutsContext (c : Nat) (t : Ref Nat) : Prop := t = .hold c ∨ t = .removed c

theorem leads_putBnContext {t : Ref Nat} (ht : PutsContext c t) (hput : past.put = past) :
    Leads ⟨[t], os, none, past⟩ (putBnContext (some c)) fun _ => ⟨[], os, none, past⟩ := by
  have hdec : Moves ⟨[t], os, none, past⟩ (.core (.atomDecContext c)) fun zero =>
      ⟨if zero then [.fin c] else [], os, none, past⟩ := by
    have hcons (zero : Bool) : consumed [t] (.put c zero) = some t := by
      rcases ht with rfl | rfl <;> simp [consumed]
    refine moves_core (by simp) (fun zero => ⟨?_, trivial⟩)
      (reach_of_mem rfl List.mem_cons_self ?_) (by simp) (fun zero => ?_) (fun _ => rfl)
      (fun _ => rfl) fun _ => rfl
    · rintro s hs
      obtain rfl := Option.some.inj ((hcons zero).symm.trans hs)
      exact List.mem_cons_self
    · rcases ht with rfl | rfl <;> rfl
    · rw [ctxEvents, updAll_cons, updAll_nil, upd_cons (hcons zero)]
      cases zero <;> rfl
  simp only [putBnContext, core, Prog.bind_eq, Prog.bind_act, Prog.bind_pure]
  refine .act hdec fun zero => ?_
  cases zero with
  | false => exact .pure rfl
  | true => exact .bind (leads_teecFinalizeContextInner hput) fun _ => .pure rfl

theorem leads_putBnContextAndReleaseFd {pid : Int} {t : Ref Nat} (ht : PutsContext c t)
    (hput : past.put = past) :
    Leads ⟨[t], os, none, past⟩ (putBnContextAndReleaseFd pid (some c)) fun _ =>
      ⟨[], os, none, past⟩ := by
  have hobj : t.obj = c := by rcases ht with rfl | rfl <;> rfl
  have hread : Moves ⟨[t], os, none, past⟩ (.core (.readContextFd c)) fun _ =>
      ⟨[t], os, none, past⟩ :=
    moves_core_keep (fun _ => rfl) (reach_of_mem rfl List.mem_cons_self hobj) (by simp)
  simp only [putBnContextAndReleaseFd, core, Prog.bind_eq, Prog.bind_act, Prog.bind_pure]
  refine .act hread fun fd => .act (moves_bare rfl) fun _ => ?_
  refine .bind (leads_putBnContext ht hput) fun cleared => .ite (fun _ => ?_) fun _ => ?_
  · exact .act (moves_bare rfl) fun _ => .act (moves_bare rfl) fun _ => .pure rfl
  · exact .act (moves_bare rfl) fun _ => .pure rfl

theorem updAll_found {α O : Type} [DecidableEq O] {l : List (Ref O)} {e : α → Event O}
    {f : α → Ref O} (he : ∀ x, consumed l (e x) = none) (hf : ∀ x, produced (e x) = some (f x))
    (r : Option α) : updAll l (r.toList.map e) = r.toList.map f ++ l := by
  cases r with
  | none => rfl
  | some x => simp [upd, he, hf]

theorem updAll_found_nil {e : Nat → Event Nat} {f : Nat → Ref Nat}
    (he : ∀ c, consumed [] (e c) = none) (hf : ∀ c, produced (e c) = some (f c)) (r : Option Nat) :
    r.toList.map f = updAll [] (r.toList.map e) :=
  ((updAll_found he hf r).trans (List.append_nil _)).symm

theorem moves_findAndRemoveBnContext {fd : Int} :
    Moves ⟨[], os, none, past⟩ (.core (.findAndRemoveBnContext fd)) fun r =>
      ⟨(Option.toList r).map .removed, os, none, past⟩ :=
  moves_core (by simp) (covered_found fun _ => rfl) (reach_of_nil rfl) (by simp)
    (updAll_found_nil (fun _ => rfl) fun _ => rfl) (fun _ => rfl) (fun _ => rfl)
    fun _ => rfl

theorem leads_callFinalizeContext {pid fd : Int} (hput : past.put = past) :
    Leads ⟨[], os, none, past⟩ (callFinalizeContext pid fd) fun _ => ⟨[], os, none, past⟩ := by
  simp only [callFinalizeContext, core, Prog.bind_eq, Prog.bind_act, Prog.bind_pure]
  refine .act moves_findAndRemoveBnContext fun outContext => ?_
  cases outContext with
  | none => exact .pure rfl
  | some c => exact .bind (leads_putBnContextAndReleaseFd (.inr rfl) hput) fun _ => .pure rfl

theorem leads_releaseContext {pid : Int} (hput : past.put = past) :
    Leads ⟨[.hold c], os, none, past⟩ (releaseContext pid c) fun _ => ⟨[], os, none, past⟩ := by
  have hread : Moves ⟨[], os, none, past⟩ (.core (.readContextFd c)) fun _ =>
      ⟨[], os, none, past⟩ :=
    moves_core_keep (fun _ => rfl) (Near.reach (.inl rfl) rfl rfl) (by simp)
  simp only [releaseContext, core, Prog.bind_eq, Prog.bind_act, Prog.bind_pure]
  refine .bind (leads_putBnContextAndReleaseFd (.inl rfl) hput) fun _ => .act hread fun fd => ?_
  exact .bind (leads_callFinalizeContext hput) fun _ => .pure rfl

end Finalising

section Contexts

variable {α : Type} {c : Nat}

theorem moves_one {a : CoreAct} {e : Event Nat} {t : Ref Nat} {os : List (Ref Shared)}
    {u u' : Option Nat} {past : Past} (hadd : a ≠ .addTidData) (hev : ∀ r, ctxEvents a r = [e])
    (hcons : consumed [t] e = some t) (hreach : Reach ⟨[t], os, u, past⟩ (.core a))
    (hmarked : ∀ c, a = .atomDecContext c ∨ a = .insertContext c → u = none)
    (hun : updUnmarked u (.core a) = u') :
    Moves ⟨[t], os, u, past⟩ (.core a) fun _ => ⟨(produced e).toList, os, u', past⟩ := by
  refine moves_core hadd (fun r => ?_) hreach hmarked (fun r => ?_) (fun _ => rfl)
    (fun _ => hun.symm) fun _ => rfl
  · rw [hev r]
    refine ⟨fun s hs => ?_, trivial⟩
    obtain rfl := Option.some.inj (hcons.symm.trans hs)
    exact List.mem_cons_self
  · rw [hev r, updAll_cons, updAll_nil, upd_cons hcons, List.append_nil]

theorem leads_teecInitializeContextInner {f : TeecResult → Program Addr α} {post : α → Stage}
    (hok : Leads ⟨[.hold c], [], some c, .begun⟩ (f .success) post)
    (hfail : ∀ t ret, t = .own c ∨ t = .init c → ret ≠ .success →
      Leads (having [t] []) (f ret) post) :
    Leads (having [.own c] []) ((teecInitializeContextInner false c).bind f) post := by
  have hreach (t : Ref Nat) (a : Act Addr) (ht : t.obj = c) (ha : pointees a = [c]) :
      Reach (having [t] []) a := reach_of_mem ha List.mem_cons_self ht
  have hopen : Moves (having [.own c] []) (.core (.openTzdriver c)) fun _ => having [.own c] [] :=
    moves_core_keep (fun _ => rfl) (hreach _ _ rfl rfl) (by simp)
  have hset (fd : Int) : Moves (having [.own c] []) (.core (.setContext c fd)) fun _ =>
      having [.init c] [] :=
    moves_one (e := .set c) (by simp) (fun _ => rfl) rfl (hreach _ _ rfl rfl) (by simp) rfl
  have hlists : Moves (having [.init c] []) (.obj (.initLists c)) fun _ => having [.init c] [] := by
    refine moves_obj trivial (hreach _ _ rfl rfl) (fun d hd => ?_) (by simp) fun _ =>
      ⟨[], List.Perm.refl _, rfl⟩
    obtain rfl := ObjAct.initLists.inj hd
    exact List.mem_cons_self
  have hinsert : Moves (having [.init c] []) (.core (.insertContext c)) fun _ =>
      ⟨[.hold c], [], some c, .begun⟩ :=
    moves_one (e := .insert c) (by simp) (fun _ => rfl) rfl (hreach _ _ rfl rfl)
      (fun _ _ => rfl) rfl
  have hcloseFd (g : Stage) (fd : Int) : Moves g (.core (.closeFd fd)) fun _ => g :=
    moves_core_keep (fun _ => rfl) (reach_of_nil rfl) (by simp)
  simp only [teecInitializeContextInner, core, obj, Prog.bind_eq, Prog.bind_act, Prog.bind_pure]
  refine .act hopen fun connected => ?_
  cases connected with
  | none => exact hfail _ _ (.inl rfl) (by simp)
  | some fd =>
    refine .act (moves_bare rfl) fun loggedIn => ?_
    cases loggedIn with
    | false => exact .act (hcloseFd _ fd) fun _ => hfail _ _ (.inl rfl) (by simp)
    | true =>
      refine .act (hset fd) fun _ => .act hlists fun _ => .act (moves_bare rfl) fun cleared => ?_
      cases cleared with
      | false => exact .act (hcloseFd _ fd) fun _ => hfail _ _ (.inr rfl) (by simp)
      | true => exact .act hinsert fun _ => hok

theorem leads_recordContext {identity : CallerIdentity} :
    Leads ⟨[.hold c], [], some c, .begun⟩ (recordContext identity c) fun _ => having [] [] := by
  have hmark : Moves ⟨[.hold c], [], some c, .begun⟩ (.core (.setCallFromService c)) fun _ =>
      having [.hold c] [] := by
    refine moves_core (by simp) (fun _ => covered_nil _)
      (reach_of_mem rfl List.mem_cons_self rfl) (by simp) (fun _ => rfl) (fun _ => rfl)
      (fun _ => ?_) fun _ => rfl
    simp [updUnmarked, having]
  have hrecord : Moves (having [.hold c] []) (.core (.setContextToProcData identity c)) fun _ =>
      having [.hold c] [] :=
    moves_core_keep (fun _ => rfl) (reach_of_mem rfl List.mem_cons_self rfl) (by simp)
  have hread : Moves (having [.hold c] []) (.core (.readContextFd c)) fun _ =>
      having [.hold c] [] :=
    moves_core_keep (fun _ => rfl) (reach_of_mem rfl List.mem_cons_self rfl) (by simp)
  have hrelease (x : TeecResult × Reply) : Leads (having [.hold c] [])
      ((releaseContext identity.pid c).bind fun _ => .pure x) fun _ => having [] [] :=
    .bind (leads_releaseContext rfl) fun _ => .pure rfl
  have hput (x : TeecResult × Reply) : Leads (having [.hold c] [])
      ((putBnContextAndReleaseFd identity.pid (some c)).bind fun _ => .pure x)
      fun _ => having [] [] :=
    .bind (leads_putBnContextAndReleaseFd (.inl rfl) rfl) fun _ => .pure rfl
  simp only [recordContext, core, Prog.bind_eq, Prog.bind_act, Prog.bind_pure]
  refine .act hmark fun _ => .act hrecord fun recorded => .ite (fun _ => ?_) fun _ => hrelease _
  refine .bind (leads_works fun _ => works_writeItems _) fun x => .ite (fun _ => ?_) fun _ =>
    hrelease _
  refine .act hread fun fd => ?_
  refine .bind (leads_works fun _ => works_writeItems _) fun y => .ite (fun _ => ?_) fun _ =>
    hrelease _
  exact hput _

theorem leads_initializeContext {identity : CallerIdentity} :
    Leads (having [] []) (initializeContext identity) fun _ => having [] [] := by
  have hmalloc : Moves (having [] []) (.core (.mallocContext identity)) fun r =>
      having ((Option.toList r).map .own) [] :=
    moves_core (by simp) (covered_found fun _ => rfl) (reach_of_nil rfl) (by simp)
      (updAll_found_nil (fun _ => rfl) fun _ => rfl) (fun _ => rfl) (fun _ => rfl)
      fun _ => rfl
  have hfree (t : Ref Nat) (c : Nat) (ht : t = .own c ∨ t = .init c) :
      Moves (having [t] []) (.core (.freeContext c)) fun _ => having [] [] := by
    refine moves_one (e := .discard c) (by simp) (fun _ => rfl) ?_ ?_ (by simp) rfl
    · rcases ht with rfl | rfl <;> simp [consumed]
    · exact reach_of_mem rfl List.mem_cons_self (by rcases ht with rfl | rfl <;> rfl)
  simp only [initializeContext, core, Prog.bind_eq, Prog.bind_act, Prog.bind_pure]
  refine .act hmalloc fun contextInner => .act (moves_bare rfl) fun caInfo => ?_
  cases contextInner with
  | none => exact .pure rfl
  | some c =>
    have hfail (x : TeecResult × Reply) : Leads (having [.own c] [])
        (.act (.core (.freeContext c)) fun _ => .pure x) fun _ => having [] [] :=
      .act (hfree _ c (.inl rfl)) fun _ => .pure rfl
    have hinit : Leads (having [.own c] [])
        ((teecInitializeContextInner false c).bind fun ret => if ret = .success then
          recordContext identity c else .act (.core (.freeContext c)) fun _ => .pure (ret, []))
        fun _ => having [] [] := by
      refine leads_teecInitializeContextInner ?_ fun t ret ht hret => ?_
      · rw [if_pos rfl]
        exact leads_recordContext
      · rw [if_neg hret]
        exact .act (hfree t c ht) fun _ => .pure rfl
    refine .ite (fun _ => .act (moves_bare rfl) fun authInfo => ?_) fun _ => hfail _
    exact .ite (fun _ => hinit) fun _ => hfail _

theorem leads_finalizeContext {identity : CallerIdentity} {fd : Int} :
    Leads (having [] []) (finalizeContext identity fd) fun _ => having [] [] := by
  simp only [Service.finalizeContext, core, Prog.bind_eq, Prog.bind_act, Prog.bind_pure]
  refine .act (moves_bare rfl) fun valid => .ite (fun _ => ?_) fun _ => .pure rfl
  exact leads_callFinalizeContext rfl

theorem moves_getBnContext {fd : Int} : Moves (having [] []) (.core (.getBnContext fd)) fun r =>
    having ((Option.toList r).map .hold) [] :=
  moves_core (by simp) (covered_found fun _ => rfl) (reach_of_nil rfl) (by simp)
    (updAll_found_nil (fun _ => rfl) fun _ => rfl) (fun _ => rfl) (fun _ => rfl)
    fun _ => rfl

theorem leads_processCaDied {pid : Int} :
    Leads (having [] []) (processCaDied pid) fun _ => having [] [] := by
  have hclean (fds : List Int) :
      Leads (having [] []) (Prog.each cleanContext fds) fun _ => having [] [] := by
    induction fds with
    | nil => exact .pure rfl
    | cons fd fds ih =>
      refine .bind (m := fun _ => having [] []) ?_ fun _ => ih
      simp only [cleanContext, core, Prog.bind_eq, Prog.bind_act, Prog.bind_pure]
      refine .act moves_findAndRemoveBnContext fun outContext => ?_
      cases outContext with
      | none => exact .pure rfl
      | some c => exact .bind (leads_putBnContext (.inr rfl) rfl) fun _ => .pure rfl
  simp only [processCaDied, core, Prog.bind_eq, Prog.bind_act, Prog.bind_pure]
  refine .act (moves_bare rfl) fun outProcData => ?_
  cases outProcData with
  | none => exact .pure rfl
  | some procData => exact hclean _

theorem leads_onRemoteDied {pid : Int} :
    Leads (having [] []) (onRemoteDied pid) fun _ => having [] [] := by
  have hall (us : List Unit) : Leads (having [] []) (Prog.each (fun _ =>
      (processCaDied pid).bind fun _ => core (.eraseClient pid)) us) fun _ => having [] [] := by
    induction us with
    | nil => exact .pure rfl
    | cons x us ih =>
      refine .bind (m := fun _ => having [] []) ?_ fun _ => ih
      exact .bind leads_processCaDied fun _ => .act (moves_bare rfl) fun _ => .pure rfl
  simp only [onRemoteDied, core, Prog.bind_eq, Prog.bind_act, Prog.bind_pure]
  refine .act (moves_bare rfl) fun clients => .bind (hall _) fun _ => ?_
  exact .act (moves_bare rfl) fun _ => .pure rfl

end Contexts

section Sessions

variable {c : Nat} {os : List (Ref Shared)} {lost : Bool}

theorem moves_gives {α : Type} {a : ObjAct Addr} {g : Stage} {e : α → Event Shared}
    {f : α → Ref Shared} (hr : ObjResp a → Option α)
    (hev : ∀ l r, objEvents l a r = (hr r).toList.map e) (he : ∀ l x, consumed l (e x) = none)
    (hf : ∀ x, produced (e x) = some (f x)) (hheld : Held g.objects a)
    (hreach : Reach g (.obj a)) (hinits : ∀ c, a ≠ .initLists c)
    (hmallocs : ∀ c, a = .mallocSession c ∨ a = .mallocShm c → .hold c ∈ g.contexts) :
    Moves g (.obj a) fun r => { g with objects := (hr r).toList.map f ++ g.objects } := by
  refine moves_obj hheld hreach (fun c h => absurd h (hinits c)) hmallocs fun r => ⟨_, ?_, rfl⟩
  rw [hev, updAll_found (he _) hf]

def sessionStage (t : Shared → Ref Shared) : Except TeecResult (Nat × Nat) → Stage
  | .error _ => having [] []
  | .ok (c, session) => having [.hold c] [t (.session c session)]

theorem leads_givesUp {α : Type} {pid : Int} {x : α} {post : α → Stage}
    (hx : post x = having [] []) : Leads (having [.hold c] [])
      ((putBnContextAndReleaseFd pid (some c)).bind fun _ => .pure x) post :=
  .bind (leads_putBnContextAndReleaseFd (.inl rfl) rfl) fun _ => .pure hx

theorem leads_callGetBnContext {identity : CallerIdentity} {fd : Int} :
    Leads (having [] []) (callGetBnContext identity fd) (sessionStage .own) := by
  have hmalloc (c : Nat) : Moves (having [.hold c] []) (.obj (.mallocSession c)) fun r =>
      having [.hold c] ((Option.toList r).map (fun n => .own (.session c n)) ++ []) :=
    moves_gives (a := .mallocSession c) (g := having [.hold c] []) id (fun _ _ => rfl)
      (fun _ _ => rfl) (fun _ => rfl) trivial (reach_of_nil rfl) (by simp) (by simp [having])
  simp only [callGetBnContext, core, obj, Prog.bind_eq, Prog.bind_act, Prog.bind_pure]
  refine .act (moves_bare rfl) fun valid => .ite (fun _ => ?_) fun _ => .pure rfl
  refine .act moves_getBnContext fun tempContext => ?_
  cases tempContext with
  | none => exact .pure rfl
  | some c =>
    refine .act (hmalloc c) fun tempSession => ?_
    cases tempSession with
    | none => exact leads_givesUp rfl
    | some session => exact .pure rfl

theorem leads_callGetBnSession {identity : CallerIdentity} {fd : Int} {sessionId : U32} :
    Leads (having [] []) (callGetBnSession identity fd sessionId) (sessionStage .hold) := by
  have hget (c : Nat) : Moves (having [.hold c] []) (.obj (.getBnSession c sessionId)) fun r =>
      having [.hold c] ((Option.toList r).map (fun n => .hold (.session c n)) ++ []) :=
    moves_gives (a := .getBnSession c sessionId) (g := having [.hold c] []) id (fun _ _ => rfl)
      (fun _ _ => rfl) (fun _ => rfl) trivial (reach_of_mem rfl List.mem_cons_self rfl) (by simp)
      (by simp)
  simp only [callGetBnSession, core, obj, Prog.bind_eq, Prog.bind_act, Prog.bind_pure]
  refine .act (moves_bare rfl) fun valid => .ite (fun _ => ?_) fun _ => .pure rfl
  refine .act moves_getBnContext fun tmpContext => ?_
  cases tmpContext with
  | none => exact .pure rfl
  | some c =>
    refine .act (hget c) fun tmpSession => ?_
    cases tmpSession with
    | none => exact leads_givesUp rfl
    | some session => exact .pure rfl

section Decode

def allocShrMem (para : DecodePara) : List Nat :=
  paramIndices.filterMap fun i => (para.shmInner i).map (·.id)

def holdsAll (c : Nat) (bs : List Nat) : List (Ref Shared) := bs.map fun b => .hold (.shm c b)

theorem perm_filterMap_update {ι β : Type} [DecidableEq ι] {is : List ι} (hnodup : is.Nodup)
    {f : ι → Option β} {i : ι} (hi : i ∈ is) (hf : f i = none) (x : β) :
    (is.filterMap (Function.update f i (some x))).Perm (x :: is.filterMap f) := by
  induction is with
  | nil => cases hi
  | cons j js ih =>
    obtain ⟨hj, hjs⟩ := List.nodup_cons.mp hnodup
    by_cases hij : j = i
    · subst hij
      have hrest : js.filterMap (Function.update f j (some x)) = js.filterMap f :=
        List.filterMap_congr fun k hk => Function.update_of_ne (fun h : k = j => hj (h ▸ hk)) _ _
      simp [hf, hrest]
    · have hmem : i ∈ js := (List.mem_cons.mp hi).resolve_left fun h => hij h.symm
      rw [List.filterMap_cons, List.filterMap_cons, Function.update_of_ne hij]
      cases f j with
      | none => exact ih hjs hmem
      | some y => exact ((ih hjs hmem).cons y).trans (List.Perm.swap x y _)

theorem perm_allocShrMem {para para' : DecodePara} {i : Fin 4} {shm : SharedMemoryInner}
    (hfree : para.shmInner i = none)
    (h : para'.shmInner = Function.update para.shmInner i (some shm)) :
    (allocShrMem para').Perm (shm.id :: allocShrMem para) := by
  have hids : (fun j => (para'.shmInner j).map (·.id)) =
      Function.update (fun j => (para.shmInner j).map (·.id)) i (some shm.id) := by
    funext j
    by_cases hj : j = i
    · subst hj
      simp [h]
    · simp [h, hj]
  rw [allocShrMem, hids]
  exact perm_filterMap_update (by decide) (mem_paramIndices i) (by simp [hfree]) shm.id

variable {α : Type}

def decoding (c : Nat) (os : List (Ref Shared)) (bs : List Nat) : Stage :=
  ⟨[.hold c], holdsAll c bs ++ os, none, if bs.isEmpty then .begun else .found⟩

theorem decoding_past {bs : List Nat} {l : Holding} (h : (decoding c os bs).past.Of l) :
    l.served = false := by
  cases bs with
  | nil => exact h
  | cons b bs => exact h.1

theorem Ends.decoding_perm {bs bs' : List Nat} {p : Program Addr α} (h : bs.Perm bs')
    (hp : Ends (decoding c os bs') p) : Ends (decoding c os bs) p := by
  have hsame : bs.isEmpty = bs'.isEmpty := by
    rw [Bool.eq_iff_iff, List.isEmpty_iff_length_eq_zero, List.isEmpty_iff_length_eq_zero,
      h.length_eq]
  rw [decoding, hsame]
  exact .perm ((h.map _).append_right os) hp

theorem moves_getBnShmByOffset {bs : List Nat} {shmOffset : U32} :
    Moves (decoding c os bs) (.obj (.getBnShmByOffset c shmOffset)) fun r =>
      decoding c os ((Option.toList r).map (·.id) ++ bs) := by
  refine moves_obj_past trivial (reach_of_mem rfl List.mem_cons_self rfl) (by simp) (by simp)
    (fun _ => rfl) (fun r => ?_) (fun _ => rfl) fun r l hl => ?_
  · cases r with
    | none => exact List.Perm.refl _
    | some shm => exact List.Perm.refl _
  · have hserved := served_upd (a := .obj (.getBnShmByOffset c shmOffset))
      (decoding_past hl.past) (by simp) r
    cases r with
    | none => exact hl.past.upd (.obj (.getBnShmByOffset c shmOffset)) none (by simp)
    | some shm => exact ⟨hserved, by simp [holdings, findsBlock]⟩

structure Continues (c : Nat) (os : List (Ref Shared)) (i : Fin 4) (st : DecodeState)
    (k : TeecResult × DecodeState → Program Addr α) : Prop where
  success : ∀ st' bs, (∀ j ≠ i, st'.para.shmInner j = st.para.shmInner j) →
    (allocShrMem st'.para).Perm bs → Ends (decoding c os bs) (k (.success, st'))
  failure : ∀ ret st' bs, ret ≠ .success → Ends (decoding c os bs) (k (ret, st'))

theorem ends_teecOptDecodePartialMem {data : ByteMemory.Mem} {totalSize : U32} {i : Fin 4}
    {st : DecodeState} {k : TeecResult × DecodeState → Program Addr α} (hk : Continues c os i st k)
    (hfree : st.para.shmInner i = none) :
    Ends (decoding c os (allocShrMem st.para)) ((teecOptDecodePartialMem
      (fun shmOffset => obj (.getBnShmByOffset c shmOffset)) data totalSize i st).bind k) := by
  simp only [teecOptDecodePartialMem, obj, Prog.bind_eq, Prog.bind_act, Prog.bind_pure]
  split_ifs
  · exact hk.failure _ _ _ (by simp)
  · exact hk.failure _ _ _ (by simp)
  · refine .act moves_getBnShmByOffset fun found => ?_
    cases found with
    | none => exact hk.failure _ _ _ (by simp)
    | some shmTemp =>
      dsimp only
      split_ifs
      · exact hk.failure _ _ (shmTemp.id :: allocShrMem st.para) (by simp)
      · exact hk.success _ (shmTemp.id :: allocShrMem st.para)
          (fun j hj => Function.update_of_ne hj _ _) (perm_allocShrMem hfree rfl)
  · exact hk.success _ _ (fun j hj => rfl) (List.Perm.refl _)

theorem bind_decodeParams_cons {find : U32 → Program Addr (Option SharedMemoryInner)}
    {data : ByteMemory.Mem} {totalSize : U32} {i : Fin 4} {is : List (Fin 4)} {st : DecodeState}
    {k : TeecResult × DecodeState → Program Addr α} :
    (decodeParams find data totalSize (i :: is) st).bind k =
      (decodeParam find data totalSize i st).bind fun x => if x.1 = .success then
        (decodeParams find data totalSize is x.2).bind k else k x := by
  simp only [decodeParams, Prog.bind_eq, Prog.bind_assoc]
  congr 1
  funext x
  obtain ⟨ret, st'⟩ := x
  cases ret <;> rfl

theorem ends_decodeParams {data : ByteMemory.Mem} {totalSize : U32} {is : List (Fin 4)}
    {st : DecodeState} {bs : List Nat} {k : TeecResult × DecodeState → Program Addr α}
    (hsuccess : ∀ st', Ends (decoding c os (allocShrMem st'.para)) (k (.success, st')))
    (hfailure : ∀ ret st' bs, ret ≠ .success → Ends (decoding c os bs) (k (ret, st')))
    (hnodup : is.Nodup) (hfree : ∀ i ∈ is, st.para.shmInner i = none)
    (hbs : (allocShrMem st.para).Perm bs) :
    Ends (decoding c os bs) ((decodeParams
      (fun shmOffset => obj (.getBnShmByOffset c shmOffset)) data totalSize is st).bind k) := by
  induction is generalizing st bs with
  | nil => exact .decoding_perm hbs.symm (hsuccess st)
  | cons i is ih =>
    obtain ⟨hi, his⟩ := List.nodup_cons.mp hnodup
    refine .decoding_perm hbs.symm ?_
    rw [bind_decodeParams_cons, decodeParam]
    generalize hrest : (fun x : TeecResult × DecodeState => if x.1 = .success then
        (decodeParams (fun shmOffset => obj (.getBnShmByOffset c shmOffset)) data totalSize is
          x.2).bind k else k x) = rest
    have hstep : Continues c os i st rest := by
      subst hrest
      refine ⟨fun st' bs' hsame hbs' => ?_, fun ret st' bs' hret => ?_⟩
      · rw [if_pos rfl]
        refine ih his (fun j hj => ?_) hbs'
        rw [hsame j fun h => hi (h ▸ hj)]
        exact hfree j (List.mem_cons_of_mem _ hj)
      · rw [if_neg hret]
        exact hfailure _ _ _ hret
    split_ifs
    · rw [teecOptDecodeTempMem]
      split_ifs
      · exact hstep.failure .fail _ _ (by simp)
      · exact hstep.success _ _ (fun j hj => rfl) (List.Perm.refl _)
      · exact hstep.success _ _ (fun j hj => rfl) (List.Perm.refl _)
    · exact ends_teecOptDecodePartialMem hstep (hfree i List.mem_cons_self)
    · exact hstep.success _ _ (fun j hj => rfl) (List.Perm.refl _)

/-- The blocks that a request holds after `GetTeecOptMem` are those that `PutAllocShrMem` puts,
unless it failed. -/
theorem ends_decode {operation : Option (Operation Addr)} {optMemSize : U32}
    {optMem : Option Ashmem}
    {k : TeecResult × Option (Operation Addr) × DecodePara → Program Addr α}
    (hsuccess : ∀ op para, Ends (decoding c os (allocShrMem para)) (k (.success, op, para)))
    (hfailure : ∀ ret op para bs, ret ≠ .success → Ends (decoding c os bs) (k (ret, op, para))) :
    Ends (having [.hold c] os) ((decode c operation optMemSize optMem).bind k) := by
  cases operation with
  | none => exact hsuccess none .zeroed
  | some op =>
    simp only [decode, getTeecOptMem, Prog.bind_eq, Prog.bind_assoc]
    split_ifs
    · exact hsuccess (some op) .zeroed
    · cases optMem.bind (·.data) with
      | none => exact hfailure _ _ _ [] (by simp)
      | some data =>
        have hnodup : paramIndices.Nodup := by decide
        change Ends (decoding c os []) _
        exact ends_decodeParams (fun st => hsuccess _ _)
          (fun ret st bs hret => hfailure _ _ _ _ hret) hnodup (fun _ _ => rfl) (List.Perm.refl _)

end Decode

section Inner

variable {α : Type} {session : Nat} {shm : Addr → SharedMemory Addr}
variable {operation : Option (Operation Addr)}

theorem reads_teecCheckOperation {o : Shared} :
    Reads c o (teecCheckOperation shm (fun p => obj (.checkSharedBufferExist c p)) operation) :=
  all_teecCheckOperation fun _ => ⟨by simp [reads], fun _ => trivial⟩

theorem reads_openSessionIoctl {o : Shared} {fd : Int} {n : Nat} {last : IoctlReply} :
    Reads c o (openSessionIoctl fd n last) := by
  induction n generalizing last with
  | zero => exact trivial
  | succ n ih => exact ⟨rfl, fun reply => .ite ih trivial⟩

theorem reads_teecInvokeCommandInner :
    Reads c (.session c session) (teecInvokeCommandInner shm c session operation) := by
  refine Prog.All.bind reads_teecCheckOperation fun checked => .ite ?_ trivial
  refine ⟨by simp [reads], fun _ => ⟨rfl, fun _ => .ite ?_ trivial⟩⟩
  exact ⟨by simp [reads], fun _ => ⟨rfl, fun _ => trivial⟩⟩

theorem ioctlError_ne_success (ret : Int) (reply : IoctlReply) :
    ioctlError ret reply ≠ .success := by
  simp only [ioctlError, translateRetValue]
  split_ifs <;> nofun

def serving (cs : List (Ref Nat)) (os : List (Ref Shared)) : Stage := ⟨cs, os, none, .served⟩

theorem moves_addTidData {bs : List Nat} : Moves (decoding c os bs) (.core .addTidData) fun r =>
    if r then serving [.hold c] (holdsAll c bs ++ os) else decoding c os bs := by
  refine ⟨fun l hl => ⟨?_, nofun, nofun, nofun, by simp, by simp⟩, fun l r hl => .inr ?_⟩
  · rintro b hb r
    cases hb
    exact covered_nil _
  · cases r with
    | true => exact ⟨hl.contexts, hl.objects, hl.unmarked, trivial⟩
    | false =>
      refine ⟨hl.contexts, hl.objects, hl.unmarked, ?_⟩
      have hserved : (holdings.upd l (.core .addTidData) false).served = false := by
        simp [holdings, addsTidData, decoding_past hl.past]
      cases bs with
      | nil => exact hserved
      | cons b bs => exact ⟨hserved, by simp [holdings, hl.past.2]⟩

theorem moves_addSessionList {sessionId : U32} :
    Moves (serving [.hold c] (.own (.session c session) :: os))
      (.obj (.addSessionList c session sessionId)) fun _ =>
      serving [.hold c] (.hold (.session c session) :: os) := by
  refine moves_obj List.mem_cons_self (reach_of_mem rfl List.mem_cons_self rfl) (by simp) (by simp)
    fun _ => ⟨_, ?_, rfl⟩
  exact updAll_setInsert ▸ List.Perm.refl _

theorem ends_teecOpenSessionInner {connectionMethod : U32} {connectionData : Bool}
    {f : InnerResult Addr → Program Addr α}
    (hopened : ∀ x, x.ret = .success →
      Ends (serving [.hold c] (.hold (.session c session) :: os)) (f x))
    (hfailed : ∀ x, x.ret ≠ .success →
      Ends (serving [.hold c] (.own (.session c session) :: os)) (f x)) :
    Ends (serving [.hold c] (.own (.session c session) :: os))
      ((teecOpenSessionInner shm c session connectionMethod connectionData operation).bind f) := by
  have hreads {β : Type} {p : Program Addr β} (h : Reads c (.session c session) p) :
      Leads (serving [.hold c] (.own (.session c session) :: os)) p fun _ => _ :=
    h.leads ⟨_, List.mem_cons_self, rfl⟩ ⟨_, List.mem_cons_self, rfl⟩
  have hread {a : Act Addr} (h : reads c (.session c session) a = true) :
      Moves (serving [.hold c] (.own (.session c session) :: os)) a fun _ => _ :=
    moves_reads h ⟨_, List.mem_cons_self, rfl⟩ ⟨_, List.mem_cons_self, rfl⟩
  simp only [teecOpenSessionInner, teecDoOpenSession, core, obj, Prog.bind_eq]
  split_ifs
  · exact hfailed _ (by simp [InnerResult.failed])
  · rw [Prog.bind_assoc]
    refine .bind (hreads reads_teecCheckOperation) fun checked => ?_
    split_ifs with hchecked
    · refine .act (hread (by simp [reads])) fun _ => .act (hread rfl) fun encoded => ?_
      dsimp only [Prog.bind_pure]
      split_ifs
      · refine .act (hread rfl) fun gotApp => ?_
        dsimp only [Prog.bind_pure]
        split_ifs
        · refine .act (hread (by simp [reads])) fun fd => ?_
          dsimp only [Prog.bind_pure]
          rw [Prog.bind_assoc]
          refine .bind (hreads reads_openSessionIoctl) fun reply => ?_
          split_ifs
          · exact .act moves_addSessionList fun _ => hopened _ rfl
          · exact hfailed _ (ioctlError_ne_success _ _)
        · exact hfailed _ (by simp [InnerResult.failed])
      · exact hfailed _ (by simp [InnerResult.failed])
    · exact hfailed _ hchecked

end Inner

section Requests

variable {α : Type} {session : Nat} {memory : BitVec 64 → SharedMemory Addr}
variable {identity : CallerIdentity} {operation : Option (Operation Addr)} {optMemSize : U32}
variable {optMem : Option Ashmem} {connectionMethod : U32}

theorem ends_recOpenReply {g : Stage} {t : Ref Shared} {returnOrigin : U32} {ret : TeecResult}
    {serviceId : BitVec 128} {f : Bool × Reply → Program Addr α} (ht : t ∈ g.objects)
    (hobj : t.obj = .session c session)
    (hwritten : ret = .success → ∀ reply, Ends g (f (true, reply)))
    (hnot : ∀ reply, Ends g (f (false, reply))) :
    Ends g ((recOpenReply returnOrigin ret c session serviceId operation).bind f) := by
  have hread : Moves g (.obj (.readSession c session)) fun _ => g :=
    moves_obj_keep (fun _ _ => rfl) ⟨t, ht, hobj⟩ (reach_of_nil rfl) (by simp)
  have hwrite (items : List ReplyItem) : Leads g (writeItems items) fun _ => g :=
    leads_works fun _ => works_writeItems items
  simp only [recOpenReply, writeSession, obj, Prog.bind_eq, Prog.bind_assoc]
  refine .bind (hwrite _) fun x => ?_
  split_ifs with hx
  · rw [Prog.bind_assoc]
    refine .bind (hwrite _) fun y => ?_
    split_ifs
    · simp only [Prog.bind_act, Prog.bind_pure, Prog.bind_assoc]
      refine .act hread fun retSession => .bind (hwrite _) fun z => ?_
      simp only [Prog.pure_eq, Prog.bind_pure]
      split_ifs
      · rw [Prog.bind_assoc]
        refine .bind (leads_works fun _ => works_writeOperation _) fun w => ?_
        cases hw : w.1 with
        | false => exact hw ▸ hnot _
        | true => exact hw ▸ hwritten hx.2 _
      · exact hnot _
    · exact hnot _
  · exact hnot _

theorem ends_works {p : Program Addr α} {g : Stage} (h : ∀ c, Works c p)
    (hg : g.past = .lost ∨ g.contexts = [] ∧ g.objects = []) : Ends g p :=
  fun l hl => (leads_works h l hl).mono fun _ _ hl' => hl'.settled hg

theorem ends_openSessionError {returnOrigin : U32} {ret : TeecResult} {reply : Reply} {g : Stage}
    (hg : g.past = .lost ∨ g.contexts = [] ∧ g.objects = []) :
    Ends g (openSessionError returnOrigin ret reply) :=
  ends_works (fun _ => works_openSessionError) hg

theorem moves_freeSession {t : Ref Shared} (ht : t = .own (.session c session) ∨
    t = .hold (.session c session)) :
    Moves (serving [] [t]) (.obj (.freeSession c session)) fun _ => serving [] [] := by
  refine moves_obj ?_ (reach_of_nil rfl) (by simp) (by simp) fun _ => ⟨[], ?_, rfl⟩
  · rcases ht with rfl | rfl <;> simp [Held, serving]
  · rcases ht with rfl | rfl <;> simp [serving, objEvents, upd, consumed, produced]

theorem ends_forgetsContext {bs : List Nat} {returnOrigin : U32} {ret : TeecResult} :
    Ends (decoding c [.own (.session c session)] bs)
      (.act (.obj (.freeSession c session)) fun _ => openSessionError returnOrigin ret []) := by
  have hown : Ref.own (.session c session) ∈ holdsAll c bs ++ [.own (.session c session)] :=
    List.mem_append_right _ List.mem_cons_self
  have hperm := List.perm_append_singleton (Ref.own (.session c session)) (holdsAll c bs)
  have hfree : Moves (decoding c [.own (.session c session)] bs) (.obj (.freeSession c session))
      fun _ => ⟨[.hold c], holdsAll c bs, none, .lost⟩ := by
    refine moves_obj_past (.inl hown) (reach_of_nil rfl) (by simp) (by simp) (fun _ => rfl)
      (fun _ => ?_) (fun _ => rfl) fun r l hl => ?_
    · refine (updAll_perm hperm _).trans ?_
      simp [decoding, objEvents, upd, consumed, produced]
    · simp [Past.Of, holdings, forgets, decoding_past hl.past]
  exact .act hfree fun _ => ends_openSessionError (.inl rfl)

theorem leads_putAllocShrMem {para : DecodePara} {t : Ref Shared}
    (ht : ∀ b, t ≠ .removed (.shm c b)) :
    Leads (serving [.hold c] (holdsAll c (allocShrMem para) ++ [t])) (putAllocShrMem c para)
      fun _ => serving [.hold c] [t] := by
  refine leads_putBlocks (fun b bs => .inr ⟨rfl, fun hmem => ?_⟩)
    (.inr ⟨_, List.mem_cons_self, rfl⟩) _
  rcases List.mem_append.mp hmem with hmem | hmem
  · obtain ⟨d, -, hd⟩ := List.mem_map.mp hmem
    cases hd
  · exact ht b (List.mem_singleton.mp hmem).symm

theorem ends_openSessionReply {para : DecodePara} {t : Ref Shared} {result : InnerResult Addr}
    {destination : BitVec 128} (ht : t = .own (.session c session) ∧ result.ret ≠ .success ∨
      t = .hold (.session c session)) :
    Ends (serving [.hold c] (t :: holdsAll c (allocShrMem para))) (do
      putAllocShrMem c para
      putBnContextAndReleaseFd identity.pid (some c)
      let (writeRet, reply) ← recOpenReply result.returnOrigin result.ret c session destination
        (afterInner result)
      if writeRet then
        putBnSession c session
        pure (TeecResult.success, reply)
      else
        obj (.freeSession c session)
        openSessionError result.returnOrigin result.ret reply) := by
  have hobj : t.obj = .session c session := by rcases ht with ⟨rfl, -⟩ | rfl <;> rfl
  have hshm (b : Nat) : t ≠ .removed (.shm c b) := by rcases ht with ⟨rfl, -⟩ | rfl <;> nofun
  refine .perm (List.perm_append_singleton t _).symm ?_
  simp only [obj, Prog.bind_eq, Prog.bind_act, Prog.bind_pure]
  refine .bind (leads_putAllocShrMem hshm) fun _ => ?_
  refine .bind (leads_putBnContextAndReleaseFd (.inl rfl) rfl) fun _ => ?_
  refine ends_recOpenReply List.mem_cons_self hobj (fun hret reply => ?_) fun reply => ?_
  · obtain rfl := ht.resolve_left fun h => h.2 hret
    exact .bind (leads_putBnSession (.inr ⟨rfl, List.not_mem_nil⟩)) fun _ => .pure (.inr ⟨rfl, rfl⟩)
  · refine .act (moves_freeSession (ht.imp_left (·.1))) fun _ => ?_
    exact ends_openSessionError (.inr ⟨rfl, rfl⟩)

theorem ends_openSession {fd : Int} {destination : BitVec 128} :
    Ends (having [] []) (openSession memory identity fd destination connectionMethod operation
      optMemSize optMem) := by
  simp only [Service.openSession, core, obj, Prog.bind_eq, Prog.bind_act, Prog.bind_pure]
  refine .bind leads_callGetBnContext fun x => ?_
  cases x with
  | error ret => exact ends_openSessionError (.inr ⟨rfl, rfl⟩)
  | ok found =>
    obtain ⟨c, session⟩ := found
    refine ends_decode (fun op para => ?_) fun ret op para bs hret => ?_
    · rw [if_pos rfl]
      refine .act moves_addTidData fun addTidData => ?_
      cases addTidData with
      | true =>
        refine .perm (List.perm_append_singleton _ _) ?_
        refine ends_teecOpenSessionInner (fun result hret => ?_) fun result hret => ?_
        · exact ends_openSessionReply (.inr rfl)
        · exact ends_openSessionReply (.inl ⟨rfl, hret⟩)
      | false => exact ends_forgetsContext
    · rw [if_neg hret]
      exact ends_forgetsContext

theorem ends_invokeCommandStops {bs : List Nat} {returnOrigin : U32} {ret : TeecResult} :
    Ends (decoding c [.hold (.session c session)] bs) (do
      putBnSession c session
      putBnContextAndReleaseFd identity.pid (some c)
      invokeCommandEnd returnOrigin ret operation) := by
  have hnot : Ref.removed (Shared.session c session) ∉ holdsAll c bs := by
    rintro hmem
    obtain ⟨d, -, hd⟩ := List.mem_map.mp hmem
    cases hd
  refine .perm (List.perm_append_singleton _ _) ?_
  refine .bind (leads_putBnSession (.inr ⟨rfl, hnot⟩)) fun _ => ?_
  refine .bind (leads_putBnContextAndReleaseFd (.inl rfl) ?_) fun _ => ?_
  · cases bs <;> rfl
  refine ends_works (fun _ => works_invokeCommandEnd) ?_
  cases bs with
  | nil => exact .inr ⟨rfl, rfl⟩
  | cons b bs => exact .inl rfl

theorem ends_invokeCommand {fd : Int} {sessionId : U32} :
    Ends (having [] [])
      (invokeCommand memory identity fd sessionId operation optMemSize optMem) := by
  simp only [Service.invokeCommand, core, Prog.bind_eq, Prog.bind_act, Prog.bind_pure]
  refine .bind leads_callGetBnSession fun x => ?_
  cases x with
  | error ret => exact ends_works (fun _ => works_invokeCommandEnd) (.inr ⟨rfl, rfl⟩)
  | ok found =>
    obtain ⟨c, session⟩ := found
    refine ends_decode (fun op para => ?_) fun ret op para bs hret => ?_
    · rw [if_pos rfl]
      refine .act moves_addTidData fun addTidData => ?_
      cases addTidData with
      | true =>
        refine .bind (reads_teecInvokeCommandInner.leads ⟨_, List.mem_cons_self, rfl⟩
          ⟨_, List.mem_append_right _ List.mem_cons_self, rfl⟩) fun result => ?_
        refine .bind (leads_putAllocShrMem (by simp)) fun _ => ?_
        refine .bind (leads_putBnSession (.inr ⟨rfl, List.not_mem_nil⟩)) fun _ => ?_
        refine .bind (leads_putBnContextAndReleaseFd (.inl rfl) rfl) fun _ => ?_
        exact ends_works (fun _ => works_invokeCommandEnd) (.inr ⟨rfl, rfl⟩)
      | false => exact ends_invokeCommandStops
    · rw [if_neg hret]
      exact ends_invokeCommandStops

theorem Ends.act_took {g : Stage} {a : Act Addr} {k : Resp a → Program Addr α}
    {next : Resp a → Stage} (h : Moves g a next)
    (hk : ∀ r l, Stands (next r) l → l.took = tookBy a r →
      Safe holdings HoldPre l (k r) fun _ l' => Settled l') : Ends g (.act a k) :=
  fun _ hl => ⟨(h.stands hl).1, fun r => hk r _ ((h.stands hl).2 r) rfl⟩

theorem safe_loses {g : Stage} {a : Act Addr} {k : Resp a → Program Addr α} {l : Holding}
    {next : Resp a → Stage} (h : Moves g a next) (hl : Stands g l)
    (hk : ∀ r, Ends (next r) (k r) ∨
      (holdings.upd l a r).lost = true ∧ Ends { next r with past := .lost } (k r)) :
    Safe holdings HoldPre l (.act a k) fun _ l' => Settled l' := by
  refine ⟨(h.stands hl).1, fun r => ?_⟩
  have hstands := (h.stands hl).2 r
  rcases hk r with hgo | ⟨hlost, hforget⟩
  · exact hgo _ hstands
  · exact hforget _ (hstands.imp_right fun hat => ⟨hat.1, hat.2, hat.3, hlost⟩)

theorem ends_closeSession {fd : Int} {sessionId : U32} :
    Ends (having [] []) (closeSession identity fd sessionId) := by
  have htake (c : Nat) : Moves (having [.hold c] []) (.obj (.findAndRemoveSession c sessionId))
      fun r => having [.hold c] ((Option.toList r).map (fun n => .removed (.session c n)) ++ []) :=
    moves_gives (a := .findAndRemoveSession c sessionId) (g := having [.hold c] []) id
      (fun _ _ => rfl) (fun _ _ => rfl) (fun _ => rfl) trivial
      (reach_of_mem rfl List.mem_cons_self rfl) (by simp) (by simp)
  have hsettled (x : TeecResult) : Ends (having [] []) (.pure x) := .pure (.inr ⟨rfl, rfl⟩)
  simp only [Service.closeSession, core, obj, Prog.bind_eq, Prog.bind_act, Prog.bind_pure]
  refine .act (moves_bare rfl) fun valid => .ite (fun _ => ?_) fun _ => hsettled _
  refine .act moves_getBnContext fun outContext => ?_
  cases outContext with
  | none => exact hsettled _
  | some c =>
    refine .act_took (htake c) fun outSession l hl htook => ?_
    cases outSession with
    | none =>
      exact Ends.bind (leads_putBnContextAndReleaseFd (.inl rfl) rfl)
        (fun _ => hsettled _) l hl
    | some session =>
      refine safe_loses (moves_addTidData : Moves (decoding c _ []) _ _) hl fun addTidData => ?_
      cases addTidData with
      | false => exact .inr ⟨by simp [holdings, forgets, htook, tookBy], .pure (.inl rfl)⟩
      | true =>
        refine .inl (.bind (reads_teecCloseSessionInner.leads ⟨_, List.mem_cons_self, rfl⟩
          ⟨_, List.mem_cons_self, rfl⟩) fun _ => ?_)
        refine .bind (leads_putBnSession (.inl rfl)) fun _ => ?_
        refine .bind (leads_putBnContextAndReleaseFd (.inl rfl) rfl) fun _ => ?_
        exact .pure (.inr ⟨rfl, rfl⟩)

end Requests

end Sessions

section SharedMemories

variable {α : Type} {c b : Nat} {pointer : BitVec 64 → Addr} {identity : CallerIdentity}
variable {fd : Int} {sharedMem : ShmData} {shm : ShmArgs Addr}

theorem moves_mallocShm : Moves (having [.hold c] []) (.obj (.mallocShm c)) fun b =>
    having [.hold c] [.own (.shm c b)] := by
  refine moves_obj trivial (reach_of_nil rfl) (by simp) (by simp [having]) fun b =>
    ⟨_, List.Perm.refl _, rfl⟩

theorem moves_insertShm {isAllocated : Bool} {offset : U32} :
    Moves (having [.hold c] [.own (.shm c b)]) (.obj (.insertShm c b shm isAllocated offset))
      fun _ => having [.hold c] [.hold (.shm c b)] := by
  refine moves_obj List.mem_cons_self (reach_of_mem rfl List.mem_cons_self rfl) (by simp) (by simp)
    fun _ => ⟨_, ?_, rfl⟩
  exact updAll_setInsert ▸ List.Perm.refl _

theorem moves_freeShm : Moves (having [.hold c] [.own (.shm c b)]) (.obj (.freeShm c b)) fun _ =>
    having [.hold c] [] := by
  refine moves_obj List.mem_cons_self (reach_of_nil rfl) (by simp) (by simp) fun _ =>
    ⟨[], ?_, rfl⟩
  simp [having, objEvents, upd, consumed, produced]

def shmStage (c b : Nat) (ret : TeecResult) : Stage :=
  having [.hold c] (if ret = .success then [.hold (.shm c b)] else [.own (.shm c b)])

theorem shmStage_of_ne {ret : TeecResult} (h : ret ≠ .success) :
    shmStage c b ret = having [.hold c] [.own (.shm c b)] := by
  rw [shmStage, if_neg h]

theorem leads_teecRegisterSharedMemoryInner :
    Leads (having [.hold c] [.own (.shm c b)]) (teecRegisterSharedMemoryInner c b shm)
      (shmStage c b) := by
  simp only [Api.teecRegisterSharedMemoryInner, obj, Prog.bind_eq, Prog.bind_act, Prog.bind_pure]
  refine .ite (fun _ => .pure (shmStage_of_ne (by simp))) fun _ => ?_
  exact .act moves_insertShm fun _ => .pure rfl

theorem leads_teecAllocateSharedMemoryInner :
    Leads (having [.hold c] [.own (.shm c b)]) (teecAllocateSharedMemoryInner c b shm)
      (shmStage c b) := by
  have hread {a : Act Addr} (h : reads c (.shm c b) a = true) :
      Moves (having [.hold c] [.own (.shm c b)]) a fun _ => having [.hold c] [.own (.shm c b)] :=
    moves_reads h ⟨_, List.mem_cons_self, rfl⟩ ⟨_, List.mem_cons_self, rfl⟩
  simp only [Api.teecAllocateSharedMemoryInner, core, obj, Prog.bind_eq, Prog.bind_act,
    Prog.bind_pure]
  refine .ite (fun _ => ?_) fun _ => .pure (shmStage_of_ne (by simp))
  refine .act (hread (by simp [reads])) fun validBit => ?_
  cases validBit with
  | none => exact .pure (shmStage_of_ne (by simp))
  | some bit =>
    refine .act (hread (by simp [reads])) fun buffer => .act (hread rfl) fun memset => ?_
    cases hbuffer : allocateBuffer { mallocInner := true, buffer, memset } shm with
    | error e =>
      refine .act (hread (by simp [reads])) fun _ => .pure ?_
      exact shmStage_of_ne (allocateBuffer_error hbuffer)
    | ok p => exact .act moves_insertShm fun _ => .pure rfl

theorem ends_shmError {ret : TeecResult} {g : Stage}
    (hg : g.past = .lost ∨ g.contexts = [] ∧ g.objects = []) : Ends g (shmError ret) :=
  ends_works (fun _ => works_shmError) hg

theorem ends_freesShm {ret : TeecResult} : Ends (having [.hold c] [.own (.shm c b)])
    (.act (.obj (.freeShm c b)) fun _ =>
      (putBnContextAndReleaseFd identity.pid (some c)).bind fun _ => shmError ret) := by
  refine .act moves_freeShm fun _ => ?_
  refine .bind (leads_putBnContextAndReleaseFd (.inl rfl) rfl) fun _ => ?_
  exact ends_shmError (.inr ⟨rfl, rfl⟩)

theorem moves_readShm {g : Stage} : Moves g (.obj (.readShm c b)) fun _ => g :=
  moves_obj_keep (fun _ _ => rfl) trivial (reach_of_nil rfl) (by simp)

theorem ends_registerSharedMemory :
    Ends (having [] []) (registerSharedMemory pointer identity fd sharedMem) := by
  have hwrite {β : Type} {f : Bool × Reply → Program Addr β} (items : List ReplyItem)
      (hf : ∀ x, Ends (having [] []) (f x)) : Ends (having [] []) ((writeItems items).bind f) :=
    .bind (leads_works fun _ => works_writeItems items) hf
  have hsettled (x : TeecResult × Reply) : Ends (having [] []) (.pure x) := .pure (.inr ⟨rfl, rfl⟩)
  simp only [registerSharedMemory, registerSharedMemoryReply, core, obj, Prog.bind_eq,
    Prog.bind_act, Prog.bind_pure]
  refine .act (moves_bare rfl) fun valid => .ite (fun _ => ?_) fun _ =>
    ends_shmError (.inr ⟨rfl, rfl⟩)
  refine .act_took moves_getBnContext fun outContext l hl htook => ?_
  cases outContext with
  | none => exact ends_shmError (.inr ⟨rfl, rfl⟩) l hl
  | some c =>
    refine safe_loses (moves_bare rfl) hl fun mallocInner => ?_
    cases mallocInner with
    | false => exact .inr ⟨by simp [holdings, mallocFails, htook, tookBy], ends_shmError (.inl rfl)⟩
    | true =>
      refine .inl (.act moves_mallocShm fun outShm => ?_)
      refine .bind leads_teecRegisterSharedMemoryInner fun ret => ?_
      split_ifs with hret
      · rw [shmStage, if_pos hret]
        refine .bind (leads_putBnShrMem (.inr ⟨rfl, List.not_mem_nil⟩)
          (.inr ⟨_, List.mem_cons_self, rfl⟩)) fun _ => ?_
        refine .bind (leads_putBnContextAndReleaseFd (.inl rfl) rfl) fun _ => ?_
        refine .act moves_readShm fun shm => hwrite _ fun x =>
          .ite (fun _ => ?_) fun _ => hsettled _
        exact .act moves_readShm fun shm => hwrite _ fun y => hsettled _
      · rw [shmStage_of_ne hret]
        exact ends_freesShm

theorem ends_allocateReply {items : List ReplyItem} :
    Ends (having [.hold c] [.hold (.shm c b)]) (do
      let (writeRet, reply) ← writeItems items
      putBnShrMem c b
      putBnContextAndReleaseFd identity.pid (some c)
      if writeRet then pure (TeecResult.success, reply)
      else
        obj (.unlinkShm c b)
        putBnShrMem c b
        pure (.fail, reply)) := by
  have hunlink : Moves (having [] []) (.obj (.unlinkShm c b)) fun _ =>
      having [] [.removed (.shm c b)] := by
    refine moves_obj trivial (Near.reach (.inl rfl) rfl rfl) (by simp) (by simp) fun _ =>
      ⟨_, List.Perm.refl _, rfl⟩
  simp only [obj, Prog.bind_eq, Prog.bind_act, Prog.bind_pure]
  refine .bind (leads_works fun _ => works_writeItems _) fun x => ?_
  refine .bind (leads_putBnShrMem (.inr ⟨rfl, List.not_mem_nil⟩)
    (.inr ⟨_, List.mem_cons_self, rfl⟩)) fun _ => ?_
  refine .bind (leads_putBnContextAndReleaseFd (.inl rfl) rfl) fun _ => ?_
  refine .ite (fun _ => .pure (.inr ⟨rfl, rfl⟩)) fun _ => .act hunlink fun _ => ?_
  exact .bind (leads_putBnShrMem (.inl rfl) (.inl rfl)) fun _ => .pure (.inr ⟨rfl, rfl⟩)

theorem ends_allocateSharedMemory :
    Ends (having [] []) (allocateSharedMemory pointer identity fd sharedMem) := by
  simp only [allocateSharedMemory, core, obj, Prog.bind_eq, Prog.bind_act, Prog.bind_pure]
  refine .act (moves_bare rfl) fun valid => .ite (fun _ => ?_) fun _ =>
    ends_shmError (.inr ⟨rfl, rfl⟩)
  refine .act moves_getBnContext fun outContext => ?_
  cases outContext with
  | none => exact ends_shmError (.inr ⟨rfl, rfl⟩)
  | some c =>
    refine .act (moves_bare rfl) fun mallocInner => .ite (fun _ => ?_) fun _ => ?_
    · refine .act moves_mallocShm fun outShm => ?_
      refine .bind leads_teecAllocateSharedMemoryInner fun ret => ?_
      split_ifs with hret
      · rw [shmStage, if_pos hret]
        refine .act moves_readShm fun shm => ?_
        refine .act (moves_core_keep (fun _ => rfl) (reach_of_mem rfl List.mem_cons_self rfl)
          (by simp)) fun fd => ?_
        exact ends_allocateReply
      · rw [shmStage_of_ne hret]
        exact ends_freesShm
    · refine .bind (leads_putBnContextAndReleaseFd (.inl rfl) rfl) fun _ => ?_
      exact ends_shmError (.inr ⟨rfl, rfl⟩)

theorem leads_releaseSharedMemory {shmOffset : U32} : Leads (having [] [])
    (releaseSharedMemory pointer identity fd sharedMem shmOffset) fun _ => having [] [] := by
  have htake (c : Nat) (callFromService : Bool) (shm : ShmArgs Addr) :
      Moves (having [.hold c] []) (.obj (.findAndRemoveShrMem c callFromService shm)) fun r =>
        having [.hold c] ((Option.toList r).map (fun b => .removed (.shm c b)) ++ []) :=
    moves_gives (a := .findAndRemoveShrMem c callFromService shm) (g := having [.hold c] []) id
      (fun _ _ => rfl) (fun _ _ => rfl) (fun _ => rfl) trivial
      (reach_of_mem rfl List.mem_cons_self rfl) (by simp) (by simp)
  have hread (c : Nat) : Moves (having [.hold c] []) (.core (.readCallFromService c)) fun _ =>
      having [.hold c] [] :=
    moves_core_keep (fun _ => rfl) (reach_of_mem rfl List.mem_cons_self rfl) (by simp)
  have hput (c : Nat) : Leads (having [.hold c] [])
      ((putBnContextAndReleaseFd identity.pid (some c)).bind fun _ => .pure TeecResult.success)
      fun _ => having [] [] :=
    .bind (leads_putBnContextAndReleaseFd (.inl rfl) rfl) fun _ => .pure rfl
  simp only [Service.releaseSharedMemory, Api.teecReleaseSharedMemoryInner, core, obj, Prog.bind_eq,
    Prog.bind_act, Prog.bind_pure]
  refine .act (moves_bare rfl) fun valid => .ite (fun _ => ?_) fun _ => .pure rfl
  refine .act moves_getBnContext fun outContext => ?_
  cases outContext with
  | none => exact .pure rfl
  | some c =>
    refine .act (hread c) fun callFromService => .act (htake c _ _) fun found => ?_
    cases found with
    | none => exact hput c
    | some b =>
      exact .bind (leads_putBnShrMem (.inl rfl) (.inr ⟨_, List.mem_cons_self, rfl⟩)) fun _ => hput c

end SharedMemories

section Tasks

variable {α : Type} {g : Stage} {p : Program Addr α} {post : α → Stage}
variable {stack : Operation Addr}

theorem Leads.ends (h : Leads g p post)
    (hpost : ∀ x, (post x).past = .lost ∨ (post x).contexts = [] ∧ (post x).objects = []) :
    Ends g p := fun l hl => (h l hl).mono fun x _ hl' => hl'.settled (hpost x)

theorem Settled.stage {l : Holding} (h : Settled l) : ∃ g, Stands g l ∧
    (g.past = .lost ∨ g.contexts = [] ∧ g.objects = []) := by
  rcases h with hstray | hlost | ⟨hctx, hobj⟩
  · exact ⟨having [] [], .inl hstray, .inr ⟨rfl, rfl⟩⟩
  · exact ⟨⟨l.contexts, l.objects, l.unmarked, .lost⟩, .inr ⟨rfl, .refl _, rfl, hlost⟩, .inl rfl⟩
  · refine ⟨⟨[], [], l.unmarked, .served⟩, .inr ⟨hctx, ?_, rfl, trivial⟩, .inr ⟨rfl, rfl⟩⟩
    rw [hobj]

theorem Ends.answering (h : Ends g p) (f : α → StubResult × Reply) :
    Ends g (answering p f) := fun l hl => safe_bind.mpr (h l hl)

theorem leads_closeDupIonFd {opFlag : Option Bool} :
    Leads g (closeDupIonFd stack opFlag) fun _ => g := by
  have hbare : Prog.All (fun a => ∃ b, a = .core b ∧ bare b = true)
      (closeDupIonFd stack opFlag) :=
    .ite (Prog.All.each fun fd => ⟨⟨_, rfl, rfl⟩, fun _ => trivial⟩) trivial
  refine leads_all hbare ?_
  rintro a ⟨b, rfl, hb⟩
  exact moves_bare hb

theorem Ends.closing (h : Ends g p) (opFlag : Option Bool) (f : α → StubResult × Reply) :
    Ends g (closing stack opFlag p f) := by
  refine fun l hl => safe_bind.mpr ((h l hl).mono fun x l' hl' => ?_)
  obtain ⟨g', hstands, hnone⟩ := hl'.stage
  exact Ends.bind leads_closeDupIonFd (fun _ => .pure hnone) l' hstands

def begin : Holding where
  contexts := []
  objects := []
  took := .nothing
  unmarked := none
  found := false
  served := false
  lost := false
  stray := false

theorem stands_begin : Stands (having [] []) begin :=
  .inr ⟨rfl, List.Perm.refl _, rfl, rfl⟩

variable (stack) (memory : BitVec 64 → SharedMemory Addr) (pointer : BitVec 64 → Addr)
variable (teeVersion : U32)

theorem safe_program (task : Task) : Safe holdings HoldPre begin
    (task.program stack memory pointer teeVersion) fun _ l => Settled l := by
  have hleads {α : Type} {p : Program Addr α} (h : Leads (having [] []) p fun _ => having [] []) :
      Ends (having [] []) p := h.ends fun _ => .inr ⟨rfl, rfl⟩
  refine (?_ : Ends (having [] []) (task.program stack memory pointer teeVersion)) _ stands_begin
  cases task with
  | caDied pid => exact hleads leads_onRemoteDied
  | request identity message =>
    refine fun l hl => safe_bind.mpr ?_
    refine (?_ : Ends (having [] []) _) l hl
    exact Served.onRemoteRequest {
      nothing := fun x => .pure (.inr ⟨rfl, rfl⟩)
      unmapped := fun _ f => (hleads leads_closeDupIonFd).answering f
      initContext := fun f => (hleads leads_initializeContext).answering f
      finalContext := fun fd f => (hleads leads_finalizeContext).answering f
      openSession := fun _ _ _ _ _ _ opFlag f => ends_openSession.closing opFlag f
      closeSession := fun _ _ f => ends_closeSession.answering f
      invokeCommand := fun _ _ _ _ _ opFlag f => ends_invokeCommand.closing opFlag f
      registerMem := fun _ _ f => ends_registerSharedMemory.answering f
      allocMem := fun _ _ f => ends_allocateSharedMemory.answering f
      releaseMem := fun _ _ _ f => (hleads leads_releaseSharedMemory).answering f
      setCallBack := fun f => Ends.act (moves_bare rfl) fun _ => .pure (.inr ⟨rfl, rfl⟩)
      other := fun p h => ends_works h (.inr ⟨rfl, rfl⟩) } teeVersion message

end Tasks

end TeeClient.Daemon.References
