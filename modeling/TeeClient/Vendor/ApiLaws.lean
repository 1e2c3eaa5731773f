import Mathlib.Tactic
import TeeClient.Vendor.Api
import TeeClient.Vendor.Lifetime

/-! A context lives exactly as long as somebody refers to it, for any interleaving of
the calls of a CA. -/

namespace TeeClient.Vendor.Api

open Resumption RefCount

variable {P : Type} [DecidableEq P] [Zero P]

def pointees : Act P → List Nat
  | .core a =>
    match a with
    | .openTzdriver c | .setContext c _ | .insertContext c | .setCallFromService c
    | .freeContext c | .atomDecContext c | .readContextFd c | .readCallFromService c
    | .closeContext c | .freeFinalized c | .setContextToProcData _ c => [c]
    | _ => []
  | .obj a =>
    match a with
    | .initLists c | .takeSessions c | .takeShms c | .addSessionList c _ _ | .getBnSession c _
    | .findAndRemoveSession c _ | .getAndSetBit c | .clearBit c _ | .mapBuffer c
    | .insertShm c _ _ _ _ | .getBnShmByOffset c _ | .checkSharedBufferExist c _
    | .findAndRemoveShrMem c _ _ | .unlinkShm c _ | .releaseShm c _ => [c]
    | _ => []

def suits : Act P → Ref Nat → Bool
  | .core (.openTzdriver _), .own _ => true
  | .core (.openTzdriver _), _ => false
  | .obj (.initLists _), .init _ => true
  | .obj (.initLists _), _ => false
  | .core (.closeContext _), .fin _ | .obj (.takeSessions _), .fin _
  | .obj (.takeShms _), .fin _ => true
  | .core (.closeContext _), _ | .obj (.takeSessions _), _ | .obj (.takeShms _), _ => false
  | _, _ => true

def traverses : Act P → Bool
  | .core (.getBnContext _) | .core (.findAndRemoveBnContext _)
  | .core .contextCountLimitCheck => true
  | _ => false

def touched (s : World P) (a : Act P) : List Nat :=
  pointees a ++ if traverses a then s.core.contextList else []

def refMachine (P : Type) [DecidableEq P] [Zero P] :
    Machine (Act P) Resp (World P) (Env P) (List (Ref Nat)) where
  exec := exec
  upd
    | l, .core a, r => updAll l (ctxEvents a r)
    | l, .obj _, _ => l

def takes : CoreAct → Bool
  | .mallocContext _ | .getBnContext _ | .findAndRemoveBnContext _ => true
  | _ => false

/-- An action finds the reference it uses up, takes another only when there is none,
and reaches only contexts that the call refers to. -/
structure RefPre (l : List (Ref Nat)) (a : Act P) : Prop where
  covered : ∀ b, a = .core b → ∀ r, Covered l (ctxEvents b r)
  takes : ∀ b, a = .core b → takes b = true → l = []
  pointees : ∀ c ∈ pointees a, ∃ t ∈ l, t.obj = c ∧ suits a t = true

/-- What an action needs so that no reference is used twice, whatever the call reaches without
one. -/
structure RefUse (l : List (Ref Nat)) (a : Act P) : Prop where
  covered : ∀ b, a = .core b → ∀ r, Covered l (ctxEvents b r)
  opens : ∀ c, a = .core (.openTzdriver c) → .own c ∈ l
  closes : ∀ c, a = .core (.closeContext c) → .fin c ∈ l

def Keeps {α : Type} (l : List (Ref Nat)) (p : Program P α) : Prop :=
  Safe (refMachine P) RefPre l p fun _ l' => l' = l

section Keeps

variable {α β : Type} {l : List (Ref Nat)} {t : Ref Nat}

theorem Keeps.pure {x : α} : Keeps l (Prog.pure x : Program P α) := rfl

theorem Keeps.bind {p : Program P α} {f : α → Program P β} (hp : Keeps l p)
    (hf : ∀ x, Keeps l (f x)) : Keeps l (p.bind f) := by
  rw [Keeps, safe_bind]
  exact Safe.mono hp fun x l' hl => hl ▸ hf x

theorem Keeps.safe {p : Program P α} {Q : α → List (Ref Nat) → Prop} (hp : Keeps l p)
    (hQ : ∀ x, Q x l) : Safe (refMachine P) RefPre l p Q :=
  Safe.mono hp fun x _ hl => hl ▸ hQ x

theorem Keeps.andThen {p : Program P α} {f : α → Program P β} {Q : β → List (Ref Nat) → Prop}
    (hp : Keeps l p) (hf : ∀ x, Safe (refMachine P) RefPre l (f x) Q) :
    Safe (refMachine P) RefPre l (p.bind f) Q :=
  safe_bind.mpr (hp.safe hf)

theorem safe_core {a : CoreAct} {k : CoreResp a → Program P α} {Q : α → List (Ref Nat) → Prop}
    (hcov : ∀ r, Covered l (ctxEvents a r)) (htakes : takes a = true → l = [])
    (hpoint : ∀ c ∈ pointees (P := P) (.core a), ∃ t ∈ l, t.obj = c ∧ suits (P := P) (.core a) t = true)
    (hk : ∀ r, Safe (refMachine P) RefPre (updAll l (ctxEvents a r)) (k r) Q) :
    Safe (refMachine P) RefPre l (.act (.core a) k) Q := by
  refine ⟨⟨fun b hb r => ?_, fun b hb ht => ?_, hpoint⟩, hk⟩
  · obtain rfl := Act.core.inj hb
    exact hcov r
  · obtain rfl := Act.core.inj hb
    exact htakes ht

theorem safe_keep {a : CoreAct} {k : CoreResp a → Program P α} {Q : α → List (Ref Nat) → Prop}
    (hev : ∀ r, ctxEvents a r = []) (htakes : takes a = false)
    (hpoint : ∀ c ∈ pointees (P := P) (.core a), ∃ t ∈ l, t.obj = c ∧ suits (P := P) (.core a) t = true)
    (hk : ∀ r, Safe (refMachine P) RefPre l (k r) Q) :
    Safe (refMachine P) RefPre l (.act (.core a) k) Q := by
  refine safe_core (fun r => ?_) (fun ht => nomatch htakes.symm.trans ht) hpoint fun r => ?_
  · rw [hev r]
    exact covered_nil l
  · rw [hev r]
    exact hk r

theorem safe_use {a : CoreAct} {k : CoreResp a → Program P α} {Q : α → List (Ref Nat) → Prop}
    (e : CoreResp a → Event Nat) (hev : ∀ r, ctxEvents a r = [e r])
    (hcons : ∀ r, consumed [t] (e r) = some t) (htakes : takes a = false)
    (hpoint : ∀ c ∈ pointees (P := P) (.core a), t.obj = c ∧ suits (P := P) (.core a) t = true)
    (hk : ∀ r, Safe (refMachine P) RefPre (produced (e r)).toList (k r) Q) :
    Safe (refMachine P) RefPre [t] (.act (.core a) k) Q := by
  refine safe_core (fun r => ?_) (fun ht => nomatch htakes.symm.trans ht)
    (fun c hc => ⟨t, List.mem_singleton_self t, hpoint c hc⟩) fun r => ?_
  · rw [hev r, covered_cons]
    refine ⟨fun t' ht => ?_, covered_nil _⟩
    obtain rfl := Option.some.inj ((hcons r).symm.trans ht)
    exact List.mem_singleton_self _
  · have hupd : upd [t] (e r) = (produced (e r)).toList := by simp [upd, hcons r]
    rw [hev r, updAll_cons, updAll_nil, hupd]
    exact hk r

theorem safe_take {a : CoreAct} {k : CoreResp a → Program P α} {Q : α → List (Ref Nat) → Prop}
    (hcov : ∀ r, Covered [] (ctxEvents a r)) (hpoint : pointees (P := P) (.core a) = [])
    (hk : ∀ r, Safe (refMachine P) RefPre (updAll [] (ctxEvents a r)) (k r) Q) :
    Safe (refMachine P) RefPre [] (.act (.core a) k) Q :=
  safe_core hcov (fun _ => rfl) (by simp [hpoint]) hk

omit [DecidableEq P] [Zero P] in
theorem covered_found {e : Nat → Event Nat} (he : ∀ c, consumed [] (e c) = none)
    (r : Option Nat) : Covered [] ((Option.toList r).map e) := by
  cases r with
  | none => exact covered_nil []
  | some c =>
    refine covered_cons.mpr ⟨fun t ht => ?_, covered_nil _⟩
    cases (he c).symm.trans ht

theorem safe_getBnContext {fd : Int} {k : Option Nat → Program P α}
    {Q : α → List (Ref Nat) → Prop} (hnone : Safe (refMachine P) RefPre [] (k none) Q)
    (hsome : ∀ c, Safe (refMachine P) RefPre [.hold c] (k (some c)) Q) :
    Safe (refMachine P) RefPre [] (.act (.core (.getBnContext fd)) k) Q := by
  refine safe_take (covered_found fun _ => rfl) rfl fun r => ?_
  cases r with
  | none => exact hnone
  | some c => exact hsome c

theorem safe_findAndRemoveBnContext {fd : Int} {k : Option Nat → Program P α}
    {Q : α → List (Ref Nat) → Prop} (hnone : Safe (refMachine P) RefPre [] (k none) Q)
    (hsome : ∀ c, Safe (refMachine P) RefPre [.removed c] (k (some c)) Q) :
    Safe (refMachine P) RefPre [] (.act (.core (.findAndRemoveBnContext fd)) k) Q := by
  refine safe_take (covered_found fun _ => rfl) rfl fun r => ?_
  cases r with
  | none => exact hnone
  | some c => exact hsome c

theorem safe_mallocContext {owner : CallerIdentity} {k : Option Nat → Program P α}
    {Q : α → List (Ref Nat) → Prop} (hnone : Safe (refMachine P) RefPre [] (k none) Q)
    (hsome : ∀ c, Safe (refMachine P) RefPre [.own c] (k (some c)) Q) :
    Safe (refMachine P) RefPre [] (.act (.core (.mallocContext owner)) k) Q := by
  refine safe_take (covered_found fun _ => rfl) rfl fun r => ?_
  cases r with
  | none => exact hnone
  | some c => exact hsome c

theorem safe_obj {a : ObjAct P} {k : ObjResp a → Program P α} {Q : α → List (Ref Nat) → Prop}
    (hpoint : ∀ c ∈ pointees (P := P) (.obj a), ∃ t ∈ l, t.obj = c ∧ suits (.obj a) t = true)
    (hk : ∀ r, Safe (refMachine P) RefPre l (k r) Q) :
    Safe (refMachine P) RefPre l (.act (.obj a) k) Q :=
  ⟨⟨nofun, nofun, hpoint⟩, hk⟩

theorem Keeps.ite {b : Prop} [Decidable b] {p q : Program P α} (hp : Keeps l p)
    (hq : Keeps l q) : Keeps l (if b then p else q) := by
  split_ifs
  · exact hp
  · exact hq

theorem Keeps.each {f : β → Program P Unit} (xs : List β) (hf : ∀ x, Keeps l (f x)) :
    Keeps l (Prog.each f xs) :=
  Safe.each (fun x _ _ hl => by subst hl; exact hf x) rfl

omit [DecidableEq P] [Zero P] in
theorem points_of {a : Act P} {c : Nat} (h : t.obj = c) (hs : suits a t = true) :
    ∀ d ∈ [c], ∃ t' ∈ [t], t'.obj = d ∧ suits a t' = true := by
  simp [h, hs]

end Keeps

section Programs

variable {c : Nat} {t : Ref Nat} {l : List (Ref Nat)}

theorem keeps_putBnSession {session : Nat} :
    Keeps l (putBnSession c session : Program P Unit) := by
  refine safe_obj (List.forall_mem_nil _) fun zero => ?_
  cases zero with
  | false => exact Keeps.pure
  | true => exact safe_obj (List.forall_mem_nil _) fun _ => Keeps.pure

theorem keeps_putBnShrMem (h : t.obj = c) {b : Nat} :
    Keeps [t] (putBnShrMem c b : Program P Unit) := by
  refine safe_obj (List.forall_mem_nil _) fun zero => ?_
  cases zero with
  | false => exact Keeps.pure
  | true => exact safe_obj (points_of h rfl) fun _ => Keeps.pure

theorem keeps_teecCloseSessionInner (h : t.obj = c) {session : Nat} :
    Keeps [t] (teecCloseSessionInner session c : Program P TeecResult) := by
  refine safe_obj (List.forall_mem_nil _) fun _ => ?_
  refine safe_keep (fun _ => rfl) rfl (List.forall_mem_nil _) fun encoded => ?_
  cases encoded with
  | false => exact Keeps.pure
  | true =>
    refine safe_keep (fun _ => rfl) rfl (points_of h rfl) fun fd => ?_
    refine safe_keep (fun _ => rfl) rfl (List.forall_mem_nil _) fun reply => ?_
    exact Keeps.ite (safe_obj (List.forall_mem_nil _) fun _ => Keeps.pure) Keeps.pure

theorem safe_teecFinalizeContextInner :
    Safe (refMachine P) RefPre [.fin c] (teecFinalizeContextInner c) fun _ l => l = [] := by
  have hsession (callFromService : Bool) (session : Nat) :
      Keeps [.fin c] (finalizeSession c callFromService session : Program P Unit) := by
    refine Keeps.bind (keeps_teecCloseSessionInner rfl) fun _ => ?_
    exact Keeps.ite keeps_putBnSession Keeps.pure
  simp only [teecFinalizeContextInner, core, obj, Prog.bind_eq, Prog.bind_act, Prog.bind_pure]
  refine safe_obj (points_of rfl rfl) fun sessions => ?_
  refine safe_keep (fun _ => rfl) rfl (points_of rfl rfl) fun callFromService => ?_
  refine Keeps.andThen (Keeps.each sessions (hsession callFromService)) fun _ => ?_
  refine safe_obj (points_of rfl rfl) fun shms => ?_
  refine Keeps.andThen (Keeps.each shms fun b => keeps_putBnShrMem rfl) fun _ => ?_
  refine safe_keep (fun _ => rfl) rfl (points_of rfl rfl) fun _ => ?_
  exact safe_use (fun _ => .free c) (fun _ => rfl) (fun _ => rfl) rfl (by simp [pointees, suits, Ref.obj])
    fun _ => rfl

theorem safe_putBnContext (h : t = .hold c ∨ t = .removed c) :
    Safe (refMachine P) RefPre [t] (putBnContext (some c)) fun _ l => l = [] := by
  have hcons (zero : Bool) : consumed [t] (.put c zero) = some t := by
    rcases h with rfl | rfl <;> simp [consumed]
  have hobj : t.obj = c := by rcases h with rfl | rfl <;> rfl
  simp only [putBnContext, core, Prog.bind_eq, Prog.bind_act, Prog.bind_pure]
  refine safe_use (.put c ·) (fun _ => rfl) hcons rfl (by simp [pointees, suits, hobj]) fun zero => ?_
  cases zero with
  | false => exact rfl
  | true =>
    simp only [if_true]
    exact safe_bind.mpr (safe_teecFinalizeContextInner.mono fun _ l hl => hl)

theorem all_teecCheckOperation {q : Act P → Prop} {shm : P → SharedMemory P}
    {exist : P → Program P Bool} {op : Option (Operation P)} (hexist : ∀ p, Prog.All q (exist p)) :
    Prog.All q (teecCheckOperation shm exist op) := by
  have hmem (memref : Parameter P) (paramType : ParamType) :
      Prog.All q (teecCheckMemRef shm exist memref paramType) := by
    refine .ite trivial (.ite trivial (.ite trivial (.ite trivial (.ite ?_ trivial))))
    exact .bind (hexist _) fun found => .ite trivial trivial
  have hparam (op : Operation P) (i : Fin 4) : Prog.All q (teecCheckParam shm exist op i) :=
    .ite trivial (.ite (hmem _ _) (.ite trivial (.ite (.ite trivial trivial)
      (.ite trivial trivial))))
  have hloop (op : Operation P) (is : List (Fin 4)) :
      Prog.All q (firstFailure (teecCheckParam shm exist op) is) := by
    induction is with
    | nil => trivial
    | cons i is ih =>
      refine .bind (hparam op i) fun ret => ?_
      cases ret
      case success => exact ih
      all_goals trivial
  cases op with
  | none => trivial
  | some op => exact .ite trivial (hloop op _)

theorem keeps_teecCheckOperation (h : t.obj = c) {shm : P → SharedMemory P}
    {op : Option (Operation P)} :
    Keeps [t] (teecCheckOperation shm (fun p => obj (.checkSharedBufferExist c p)) op) := by
  let q (a : Act P) := RefPre [t] a ∧ ∃ b, a = .obj b
  have hpre (p : P) : RefPre [t] (.obj (.checkSharedBufferExist c p)) :=
    ⟨fun _ hb => (by cases hb), fun _ hb => (by cases hb), points_of h rfl⟩
  have hexist (p : P) : Prog.All q (obj (.checkSharedBufferExist c p)) :=
    ⟨⟨hpre p, _, rfl⟩, fun _ => trivial⟩
  refine Safe.of_all (all_teecCheckOperation hexist) (fun _ ha => ha.1) fun a r ha => ?_
  obtain ⟨b, rfl⟩ := ha.2
  rfl

theorem safe_teecInitializeContextInner {vendor : Bool} :
    Safe (refMachine P) RefPre [.own c] (teecInitializeContextInner vendor c) fun ret l =>
      ret = .success ∧ l = [.hold c] ∨ ret ≠ .success ∧ (l = [.own c] ∨ l = [.init c]) := by
  simp only [teecInitializeContextInner, core, obj, Prog.bind_eq, Prog.bind_act, Prog.bind_pure]
  refine safe_keep (fun _ => rfl) rfl (points_of rfl rfl) fun connected => ?_
  cases connected with
  | none => exact .inr ⟨by cases vendor <;> simp, .inl rfl⟩
  | some fd =>
    refine safe_keep (fun _ => rfl) rfl (List.forall_mem_nil _) fun loggedIn => ?_
    by_cases hlogin : (vendor || loggedIn) = true
    · simp only [if_pos hlogin]
      refine safe_use (fun _ => .set c) (fun _ => rfl) (fun _ => rfl) rfl
        (by simp [pointees, suits, Ref.obj]) fun _ => ?_
      refine safe_obj (points_of rfl rfl) fun _ => ?_
      refine safe_keep (fun _ => rfl) rfl (List.forall_mem_nil _) fun cleared => ?_
      cases cleared with
      | true =>
        exact safe_use (fun _ => .insert c) (fun _ => rfl) (fun _ => rfl) rfl
          (by simp [pointees, suits, Ref.obj]) fun _ => .inl ⟨rfl, rfl⟩
      | false =>
        exact safe_keep (fun _ => rfl) rfl (List.forall_mem_nil _) fun _ => .inr ⟨by simp, .inr rfl⟩
    · simp only [if_neg hlogin]
      exact safe_keep (fun _ => rfl) rfl (List.forall_mem_nil _) fun _ => .inr ⟨by simp, .inl rfl⟩

def Balanced {α : Type} (p : Program P α) : Prop :=
  Safe (refMachine P) RefPre [] p fun _ l => l = []

theorem safe_freeContext {α : Type} (h : t = .own c ∨ t = .init c) {x : α} :
    Safe (refMachine P) RefPre [t] (.act (.core (.freeContext c)) fun _ => .pure x)
      fun _ l => l = [] := by
  have hcons : consumed [t] (.discard c) = some t := by
    rcases h with rfl | rfl <;> simp [consumed]
  have hobj : t.obj = c := by rcases h with rfl | rfl <;> rfl
  exact safe_use (fun _ => .discard c) (fun _ => rfl) (fun _ => hcons) rfl
    (by simp [pointees, suits, hobj]) fun _ => rfl

theorem balanced_initializeLocked (self : CallerIdentity) :
    Balanced (initializeLocked self : Program P TeecResult) := by
  simp only [Balanced, initializeLocked, core, Prog.bind_eq, Prog.bind_act, Prog.bind_pure,
    Prog.pure_eq]
  refine safe_mallocContext rfl fun c => ?_
  refine safe_keep (fun _ => rfl) rfl (List.forall_mem_nil _) fun cleared => ?_
  cases cleared with
  | false => exact safe_freeContext (.inl rfl)
  | true =>
    simp only [if_true]
    refine safe_bind.mpr (safe_teecInitializeContextInner.mono fun ret l hl => ?_)
    rcases hl with ⟨rfl, rfl⟩ | ⟨hret, hl⟩
    · simp only [if_true]
      refine safe_keep (fun _ => rfl) rfl (points_of rfl rfl) fun _ => ?_
      exact safe_bind.mpr ((safe_putBnContext (.inl rfl)).mono fun _ l hl => hl)
    · simp only [if_neg hret]
      rcases hl with rfl | rfl
      · exact safe_freeContext (.inl rfl)
      · exact safe_freeContext (.inr rfl)

theorem balanced_teecInitializeContext (self : CallerIdentity) :
    Balanced (teecInitializeContext self : Program P TeecResult) := by
  have hend (ret : TeecResult) : Balanced (P := P) (.act (.core .unlockReadContextList) fun _ =>
      .pure ret) :=
    safe_keep (fun _ => rfl) rfl (List.forall_mem_nil _) fun _ => rfl
  simp only [Balanced, teecInitializeContext, core, Prog.bind_eq, Prog.bind_act, Prog.bind_pure,
    Prog.pure_eq]
  refine safe_keep (fun _ => rfl) rfl (List.forall_mem_nil _) fun _ => ?_
  refine safe_keep (fun _ => rfl) rfl (List.forall_mem_nil _) fun below => ?_
  cases below with
  | false => exact hend _
  | true =>
    refine safe_bind.mpr ((balanced_initializeLocked self).mono fun ret l hl => ?_)
    subst hl
    exact hend ret

theorem balanced_teecFinalizeContext (fd : Int) :
    Balanced (teecFinalizeContext fd : Program P Unit) := by
  simp only [Balanced, teecFinalizeContext, core, Prog.bind_eq, Prog.bind_act, Prog.bind_pure]
  refine safe_findAndRemoveBnContext rfl fun c => ?_
  exact safe_bind.mpr ((safe_putBnContext (.inr rfl)).mono fun _ _ hl => hl)

theorem safe_putThen {α : Type} {x : α} :
    Safe (refMachine P) RefPre [.hold c] ((putBnContext (some c)).bind fun _ => .pure x)
      fun _ l => l = [] :=
  safe_bind.mpr ((safe_putBnContext (.inl rfl)).mono fun _ _ hl => hl)

theorem keeps_openSessionIoctl {fd : Int} {n : Nat} {last : IoctlReply} :
    Keeps l (openSessionIoctl fd n last : Program P IoctlReply) := by
  induction n generalizing last with
  | zero => exact Keeps.pure
  | succ n ih =>
    simp only [openSessionIoctl, core, Prog.bind_eq, Prog.bind_act, Prog.bind_pure]
    exact safe_keep (fun _ => rfl) rfl (List.forall_mem_nil _) fun reply => Keeps.ite ih Keeps.pure

section Sessions

variable [HAdd P Nat P]

theorem keeps_teecOpenSessionInner (h : t.obj = c) {shm : P → SharedMemory P} {session : Nat}
    {connectionMethod : U32} {connectionData : Bool} {operation : Option (Operation P)} :
    Keeps [t] (teecOpenSessionInner shm c session connectionMethod connectionData operation) := by
  have hdo (operation : Option (Operation P)) :
      Keeps [t] (teecDoOpenSession c session operation : Program P (InnerResult P)) := by
    simp only [teecDoOpenSession, core, obj, Prog.bind_eq, Prog.bind_act, Prog.bind_pure]
    refine safe_keep (fun _ => rfl) rfl (points_of h rfl) fun fd => ?_
    refine Keeps.bind keeps_openSessionIoctl fun reply => ?_
    exact Keeps.ite (safe_obj (points_of h rfl) fun _ => Keeps.pure) Keeps.pure
  refine Keeps.ite Keeps.pure ?_
  refine Keeps.bind (keeps_teecCheckOperation h) fun checked => ?_
  refine Keeps.ite ?_ Keeps.pure
  refine safe_obj (List.forall_mem_nil _) fun _ => ?_
  refine safe_keep (fun _ => rfl) rfl (List.forall_mem_nil _) fun encoded => ?_
  refine Keeps.ite ?_ Keeps.pure
  exact safe_keep (fun _ => rfl) rfl (List.forall_mem_nil _) fun gotApp => Keeps.ite (hdo _) Keeps.pure

theorem keeps_teecInvokeCommandInner (h : t.obj = c) {shm : P → SharedMemory P} {session : Nat}
    {operation : Option (Operation P)} :
    Keeps [t] (teecInvokeCommandInner shm c session operation) := by
  have hdo (operation : Option (Operation P)) :
      Keeps [t] (processInvokeCommand c operation : Program P (InnerResult P)) := by
    refine safe_keep (fun _ => rfl) rfl (points_of h rfl) fun fd => ?_
    exact safe_keep (fun _ => rfl) rfl (List.forall_mem_nil _) fun reply => Keeps.pure
  refine Keeps.bind (keeps_teecCheckOperation h) fun checked => ?_
  refine Keeps.ite ?_ Keeps.pure
  refine safe_obj (List.forall_mem_nil _) fun _ => ?_
  exact safe_keep (fun _ => rfl) rfl (List.forall_mem_nil _) fun encoded => Keeps.ite (hdo _) Keeps.pure

theorem balanced_teecOpenSession {shm : P → SharedMemory P} {fd : Int} {session : Nat}
    {connectionMethod : U32} {connectionData : Bool} {operation : Option (Operation P)} :
    Balanced (teecOpenSession shm fd session connectionMethod connectionData operation) := by
  simp only [Balanced, teecOpenSession, core, Prog.bind_eq, Prog.bind_act, Prog.bind_pure]
  exact safe_getBnContext rfl fun c =>
    (keeps_teecOpenSessionInner rfl).andThen fun _ => safe_putThen

theorem balanced_teecInvokeCommand {shm : P → SharedMemory P} {fd : Int} {session : Nat}
    {operation : Option (Operation P)} : Balanced (teecInvokeCommand shm fd session operation) := by
  simp only [Balanced, teecInvokeCommand, core, Prog.bind_eq, Prog.bind_act, Prog.bind_pure]
  exact safe_getBnContext rfl fun c =>
    (keeps_teecInvokeCommandInner rfl).andThen fun _ => safe_putThen

end Sessions

theorem balanced_teecCloseSession {fd : Int} {session : Nat} {sessionId : U32} :
    Balanced (teecCloseSession fd session sessionId : Program P Unit) := by
  simp only [Balanced, teecCloseSession, core, obj, Prog.bind_eq, Prog.bind_act, Prog.bind_pure]
  refine safe_getBnContext rfl fun c => ?_
  refine safe_obj (points_of rfl rfl) fun sessionInList => ?_
  cases sessionInList with
  | none => exact safe_putThen
  | some _ => exact (keeps_teecCloseSessionInner rfl).andThen fun _ => safe_putThen

theorem keeps_teecRegisterSharedMemoryInner {shmInner : Nat} {shm : ShmArgs P} :
    Keeps [.hold c] (teecRegisterSharedMemoryInner c shmInner shm) := by
  refine Keeps.ite Keeps.pure ?_
  exact safe_obj (points_of rfl rfl) fun _ => Keeps.pure

theorem keeps_teecAllocateSharedMemoryInner [OfNat P 16] {shmInner : Nat} {shm : ShmArgs P} :
    Keeps [.hold c] (teecAllocateSharedMemoryInner c shmInner shm) := by
  simp only [teecAllocateSharedMemoryInner, core, obj, Prog.bind_eq, Prog.bind_act, Prog.bind_pure]
  refine Keeps.ite ?_ Keeps.pure
  refine safe_obj (points_of rfl rfl) fun validBit => ?_
  cases validBit with
  | none => exact Keeps.pure
  | some bit =>
    refine safe_obj (points_of rfl rfl) fun buffer => ?_
    refine safe_keep (fun _ => rfl) rfl (List.forall_mem_nil _) fun memset => ?_
    cases allocateBuffer { mallocInner := true, buffer, memset } shm with
    | error e => exact safe_obj (points_of rfl rfl) fun _ => Keeps.pure
    | ok p => exact safe_obj (points_of rfl rfl) fun b => Keeps.pure

theorem balanced_addSharedMemory {inner : Nat → Nat → Program P TeecResult} {fd : Int}
    (hinner : ∀ c shmInner, Keeps [.hold c] (inner c shmInner)) :
    Balanced (addSharedMemory inner fd) := by
  simp only [Balanced, addSharedMemory, core, obj, Prog.bind_eq, Prog.bind_act, Prog.bind_pure]
  refine safe_keep (fun _ => rfl) rfl (List.forall_mem_nil _) fun mallocInner => ?_
  cases mallocInner with
  | false => exact rfl
  | true =>
    refine safe_getBnContext rfl fun c => ?_
    refine safe_obj (List.forall_mem_nil _) fun shmInner => ?_
    refine (hinner c shmInner).andThen fun ret => ?_
    split_ifs
    · refine safe_obj (List.forall_mem_nil _) fun _ => ?_
      exact (keeps_putBnShrMem rfl).andThen fun _ => safe_putThen
    · refine safe_bind.mpr ((safe_putBnContext (.inl rfl)).mono fun _ l hl => ?_)
      exact safe_obj (List.forall_mem_nil _) fun _ => hl

theorem balanced_teecReleaseSharedMemory {fd : Int} {shm : ShmArgs P} :
    Balanced (teecReleaseSharedMemory fd shm : Program P Unit) := by
  have hinner (c : Nat) : Keeps [.hold c] (teecReleaseSharedMemoryInner c shm) := by
    refine safe_keep (fun _ => rfl) rfl (points_of rfl rfl) fun callFromService => ?_
    refine safe_obj (points_of rfl rfl) fun found => ?_
    cases found with
    | none => exact Keeps.pure
    | some b => exact keeps_putBnShrMem rfl
  simp only [Balanced, teecReleaseSharedMemory, core, Prog.bind_eq, Prog.bind_act, Prog.bind_pure]
  exact safe_getBnContext rfl fun c => (hinner c).andThen fun _ => safe_putThen

end Programs

section Calls

variable [HAdd P Nat P] [OfNat P 16]

inductive ApiCall (P : Type)
  | initializeContext (self : CallerIdentity)
  | finalizeContext (fd : Int)
  | openSession (shm : P → SharedMemory P) (fd : Int) (session : Nat) (connectionMethod : U32)
      (connectionData : Bool) (operation : Option (Operation P))
  | closeSession (fd : Int) (session : Nat) (sessionId : U32)
  | invokeCommand (shm : P → SharedMemory P) (fd : Int) (session : Nat)
      (operation : Option (Operation P))
  | registerSharedMemory (fd : Int) (shm : ShmArgs P)
  | allocateSharedMemory (fd : Int) (shm : ShmArgs P)
  | releaseSharedMemory (fd : Int) (shm : ShmArgs P)

def forget {α : Type} (p : Program P α) : Program P Unit := p.bind fun _ => .pure ()

def ApiCall.program : ApiCall P → Program P Unit
  | .initializeContext self => forget (teecInitializeContext self)
  | .finalizeContext fd => teecFinalizeContext fd
  | .openSession shm fd session connectionMethod connectionData operation =>
    forget (teecOpenSession shm fd session connectionMethod connectionData operation)
  | .closeSession fd session sessionId => teecCloseSession fd session sessionId
  | .invokeCommand shm fd session operation => forget (teecInvokeCommand shm fd session operation)
  | .registerSharedMemory fd shm => forget (teecRegisterSharedMemory fd shm)
  | .allocateSharedMemory fd shm => forget (teecAllocateSharedMemory fd shm)
  | .releaseSharedMemory fd shm => teecReleaseSharedMemory fd shm

omit [HAdd P Nat P] [OfNat P 16] in
theorem Balanced.forget {α : Type} {p : Program P α} (h : Balanced p) : Balanced (forget p) :=
  safe_bind.mpr (Safe.mono h fun _ _ hl => hl)

theorem balanced_program (call : ApiCall P) : Balanced call.program := by
  cases call with
  | initializeContext self => exact (balanced_teecInitializeContext self).forget
  | finalizeContext fd => exact balanced_teecFinalizeContext fd
  | openSession => exact balanced_teecOpenSession.forget
  | closeSession => exact balanced_teecCloseSession
  | invokeCommand => exact balanced_teecInvokeCommand.forget
  | registerSharedMemory =>
    exact (balanced_addSharedMemory fun _ _ => keeps_teecRegisterSharedMemoryInner).forget
  | allocateSharedMemory =>
    exact (balanced_addSharedMemory fun _ _ => keeps_teecAllocateSharedMemoryInner).forget
  | releaseSharedMemory => exact balanced_teecReleaseSharedMemory

end Calls

section Lifetime

def init (objs : Objects P) : World P where
  core := {
    ctx := fun _ => {
      owner := ⟨0, 0, 0⟩
      fd := -1
      opsCnt := 0
      callFromService := false
      frees := 0
      wasListed := false
      takenOut := false
      finalized := 0 }
    next := 0
    contextList := []
    openFds := []
    procData := []
    clients := []
    procLock := false
    clientLock := false
    readLock := false }
  objs

structure RefInv (s : World P) (ls : List (List (Ref Nat))) : Prop where
  accounts : Accounts s.core.ledger (refsOf ls)
  single : ∀ l ∈ ls, l.length ≤ 1

omit [DecidableEq P] [Zero P] in
theorem length_upd {l : List (Ref Nat)} {e : Event Nat} (hcov : Covered l [e])
    (hl : l.length ≤ 1) (htakes : consumed l e = none → l = []) : (upd l e).length ≤ 1 := by
  have hprod : (produced e).toList.length ≤ 1 := by cases produced e <;> simp
  rw [upd, List.length_append]
  cases hcons : consumed l e with
  | some t =>
    have := List.length_erase_of_mem (hcov.1 t hcons)
    have := List.length_pos_of_mem (hcov.1 t hcons)
    simp only [Option.elim_some]
    omega
  | none =>
    obtain rfl := htakes hcons
    simp only [Option.elim_none, List.length_nil, Nat.add_zero]
    exact hprod

omit [DecidableEq P] [Zero P] in
theorem length_updAll {l : List (Ref Nat)} {a : CoreAct} (r : CoreResp a)
    (hpre : RefPre (P := P) l (.core a)) (hl : l.length ≤ 1) :
    (updAll l (ctxEvents a r)).length ≤ 1 := by
  have hcov := hpre.covered a rfl r
  have htakes := hpre.takes a rfl
  cases a
  case mallocContext | getBnContext | findAndRemoveBnContext =>
    obtain rfl := htakes rfl
    cases r with
    | none => simp [ctxEvents]
    | some c => exact length_upd hcov hl fun _ => rfl
  case setContext | insertContext | freeFinalized =>
    exact length_upd hcov hl nofun
  case atomDecContext | freeContext =>
    refine length_upd hcov hl fun h => ?_
    simp only [consumed] at h
    split_ifs at h
  all_goals exact hl

theorem refInv_act {s s' : World P} {ls : List (List (Ref Nat))} {i : Nat} {l : List (Ref Nat)}
    {a : Act P} {r : Resp a} (h : RefInv s ls) (hi : ls[i]? = some l) (hpre : RefPre l a)
    (hstep : (refMachine P).step s a r s') : RefInv s' (ls.set i ((refMachine P).upd l a r)) := by
  obtain ⟨env, hexec⟩ := hstep
  have hl := List.mem_of_getElem? hi
  cases a with
  | obj a =>
    obtain ⟨x, -, hx⟩ := Option.map_eq_some_iff.mp hexec
    obtain ⟨-, rfl⟩ := Prod.mk.inj hx
    have hsame : ls.set i ((refMachine P).upd l (.obj a) r) = ls := by
      obtain ⟨hlt, rfl⟩ := List.getElem?_eq_some_iff.mp hi
      exact List.set_getElem_self hlt
    rw [hsame]
    exact ⟨h.accounts, h.single⟩
  | core a =>
    obtain ⟨x, hcore, hx⟩ := Option.map_eq_some_iff.mp hexec
    obtain ⟨rfl, rfl⟩ := Prod.mk.inj hx
    constructor
    · exact h.accounts.follows hi (follows_ctxEvents hcore) (hpre.covered a rfl x.1)
    · intro l' hl'
      rcases List.mem_or_eq_of_mem_set hl' with hl' | rfl
      · exact h.single l' hl'
      · exact length_updAll x.1 hpre (h.single l hl)

abbrev Threads (P : Type) [Zero P] := Config (Act P) Resp (World P) (List (Ref Nat))

def Removing (cfg : Threads P) (c : Nat) : Prop := ∃ l ∈ cfg.locs, .removed c ∈ l

instance (cfg : Threads P) (c : Nat) : Decidable (Removing cfg c) :=
  inferInstanceAs (Decidable (∃ l ∈ cfg.locs, .removed c ∈ l))

def holders (cfg : Threads P) (c : Nat) : Nat :=
  cfg.locs.countP fun l => .hold c ∈ l ∨ .init c ∈ l

/-- The runs of `TEEC_FinalizeContextInner` on `c`, ended or not. -/
def finalizeRuns (cfg : Threads P) (c : Nat) : Nat :=
  (cfg.state.core.ctx c).finalized + cfg.locs.countP (.fin c ∈ ·)

/-- The count of a context says who refers to it, and decides when it is finalised.  A call that
has returned refers to nothing, so that `holders` counts calls that are still running. -/
structure ContextLifetime (cfg : Threads P) (c : Nat) : Prop where
  ended : ∀ k ∈ cfg.calls, k.prog = .pure () → k.loc = []
  opsCnt : (cfg.state.core.ctx c).frees = 0 → (cfg.state.core.ctx c).opsCnt =
    (if c ∈ cfg.state.core.contextList ∨ Removing cfg c then 1 else 0) + holders cfg c
  once : finalizeRuns cfg c ≤ 1
  only : 0 < finalizeRuns cfg c →
    c ∉ cfg.state.core.contextList ∧ ¬ Removing cfg c ∧ holders cfg c = 0
  exactly : (cfg.state.core.ctx c).wasListed = true → c ∉ cfg.state.core.contextList →
    ¬ Removing cfg c → holders cfg c = 0 → finalizeRuns cfg c = 1
  untouched : ∀ i l a, cfg.Pending i l a → c ∈ touched cfg.state a →
    (cfg.state.core.ctx c).frees = 0 ∧ (0 < finalizeRuns cfg c → .fin c ∈ l)

abbrev ApiReaches [HAdd P Nat P] [OfNat P 16] (objs : Objects P) (cfg : Threads P) : Prop :=
  Reaches (refMachine P) (fun k => ∃ call : ApiCall P, k = ⟨[], call.program⟩)
    (fun _ _ _ _ _ => true) (init objs) cfg

theorem refInv_reaches [HAdd P Nat P] [OfNat P 16] {objs : Objects P} {cfg : Threads P}
    (h : ApiReaches objs cfg) :
    RefInv cfg.state cfg.locs ∧
      ∀ k ∈ cfg.calls, Safe (refMachine P) RefPre k.loc k.prog fun _ l => l = [] := by
  refine Reaches.invariant (I := RefInv) ⟨accounts_nil (fun _ => rfl) fun _ => rfl, by simp⟩
    (fun s ls k hk hinv => ?_) (fun k hk => ?_)
    (fun s ls i l a r s' hinv hi hpre hstep _ => refInv_act hinv hi hpre hstep) h
  · obtain ⟨call, rfl⟩ := hk
    constructor
    · rw [refsOf_append_nil]
      exact hinv.accounts
    · intro l hl
      rcases List.mem_append.mp hl with hl | hl
      · exact hinv.single l hl
      · simp [List.mem_singleton.mp hl]
  · obtain ⟨call, rfl⟩ := hk
    exact balanced_program call

section Counts

variable {cfg : Threads P} {c : Nat}

omit [DecidableEq P] in
theorem RefInv.holders_eq (h : RefInv cfg.state cfg.locs) :
    refsOf cfg.locs (.hold c) + refsOf cfg.locs (.init c) = holders cfg c := by
  rw [refsOf_eq_countP h.single, refsOf_eq_countP h.single,
    countP_or_of_single h.single (by simp), holders]

variable (cfg c) in
omit [DecidableEq P] in
theorem removing_iff : 0 < refsOf cfg.locs (.removed c) ↔ Removing cfg c := refsOf_pos

omit [DecidableEq P] in
theorem RefInv.finalizeRuns_eq (h : RefInv cfg.state cfg.locs) :
    (cfg.state.core.ctx c).finalized + refsOf cfg.locs (.fin c) = finalizeRuns cfg c := by
  rw [refsOf_eq_countP h.single, finalizeRuns]

variable (cfg c) in
omit [DecidableEq P] in
theorem listed_iff : 0 < cfg.state.core.ledger.listed c ↔ c ∈ cfg.state.core.contextList :=
  List.count_pos_iff

omit [DecidableEq P] in
/-- What an action is about to touch is not freed, and only the call that finalises a
context touches it then. -/
theorem untouched_of_refPre (h : RefInv cfg.state cfg.locs) (hc : c < cfg.state.core.next)
    {l : List (Ref Nat)} {a : Act P} (hl : l ∈ cfg.locs) (hpre : RefPre l a)
    (htouch : c ∈ touched cfg.state a) :
    (cfg.state.core.ctx c).frees = 0 ∧ (0 < finalizeRuns cfg c → .fin c ∈ l) := by
  have hlaw := h.accounts.law c (by simpa [Core.ledger] using hc)
  rw [← h.finalizeRuns_eq]
  have hzero (hfrees : (cfg.state.core.ctx c).frees = 0) : (cfg.state.core.ctx c).finalized = 0 := by
    have := hlaw.finalized
    simp only [Core.ledger, ContextInner.life, hfrees, ite_self] at this
    exact this
  rcases List.mem_append.mp htouch with hpoint | hwalk
  · obtain ⟨t, ht, rfl, -⟩ := hpre.pointees c hpoint
    have hpos := refsOf_pos.mpr ⟨l, hl, ht⟩
    have hfrees := h.accounts.frees_eq_zero hpos
    refine ⟨hfrees, fun hruns => ?_⟩
    rw [hzero hfrees, Nat.zero_add] at hruns
    have hstage := hlaw.stage
    have halone := hlaw.alone (by omega)
    cases t with
    | fin c => exact ht
    | own c | init c | hold c | removed c =>
      simp only [Ref.obj] at hpos hstage halone hruns
      omega
  · have hlisted : 0 < cfg.state.core.ledger.listed c := by
      split_ifs at hwalk
      · exact (listed_iff cfg c).mpr hwalk
      · cases hwalk
    have hfrees := h.accounts.frees_eq_zero_of_listed hlisted
    refine ⟨hfrees, fun hruns => ?_⟩
    rw [hzero hfrees, Nat.zero_add] at hruns
    have hstage := hlaw.stage
    omega

end Counts

/-- In every state that threads calling the library can reach. -/
theorem contextLifetime_reaches [HAdd P Nat P] [OfNat P 16] (objs : Objects P) (cfg : Threads P)
    (h : ApiReaches objs cfg) (c : Nat) (hc : c < cfg.state.core.next) : ContextLifetime cfg c := by
  obtain ⟨hinv, hsafe⟩ := refInv_reaches h
  obtain ⟨stage, alone, dead, once, opsCnt, live, listedOnce, notYet, finalized⟩ :=
    hinv.accounts.law c (by simpa [Core.ledger] using hc)
  have hholders := hinv.holders_eq (c := c)
  have hruns := hinv.finalizeRuns_eq (c := c)
  have hremoving := removing_iff cfg c
  have hlisted := listed_iff cfg c
  simp only [Core.ledger, ContextInner.life] at *
  refine ⟨fun k hk hended => ?_, fun hfrees => ?_, ?_, fun hpos => ?_,
    fun hwas hout hput hhold => ?_, fun i l a hpend htouch => ?_⟩
  · have hnone := hsafe k hk
    rw [hended] at hnone
    exact hnone
  · have hcnt := opsCnt hfrees
    split_ifs with hheld
    · rcases hheld with hheld | hheld
      · have := hlisted.mpr hheld
        omega
      · have := hremoving.mpr hheld
        omega
    · rw [not_or, ← hlisted, ← hremoving] at hheld
      omega
  · grind
  · rw [← hlisted, ← hremoving]
    grind
  · rw [← hlisted] at hout
    rw [← hremoving] at hput
    grind
  · obtain ⟨k, hk⟩ := hpend
    have hmem := List.mem_of_getElem? hk
    exact untouched_of_refPre hinv hc (List.mem_map_of_mem hmem) (hsafe _ hmem).1 htouch

section Runs

def noObjects : Objects Nat where
  session _ := { sessionId := 0, opsCnt := 0, home := 0, frees := 0, wasListed := false }
  nextSession := 0
  sessionList _ := []
  shm _ := .init
  shmFate _ _ := { frees := 0, wasListed := false }

def obliging (fd : Int) : Env Nat where
  ok := true
  fd
  reply := noReply
  buffer := none

/-- The first actions of `TEEC_InitializeContext`, up to the insertion into the list, while a
`TEEC_FinalizeContext` of another thread finds the context and takes it out. -/
def initializeAndFinalize : List (Nat × Env Nat) :=
  List.replicate 10 (0, obliging 5) ++ [(1, obliging 0)]

theorem contextLifetime_removing : ∃ cfg : Threads Nat, ApiReaches noObjects cfg ∧
    0 < cfg.state.core.next ∧ Removing cfg 0 ∧ holders cfg 0 = 1 ∧ ContextLifetime cfg 0 := by
  have hstart : ApiReaches noObjects ⟨init noObjects, [⟨[], (ApiCall.initializeContext (P := Nat)
      ⟨1, 1, 1⟩).program⟩, ⟨[], (ApiCall.finalizeContext (P := Nat) 5).program⟩]⟩ :=
    (Reaches.init.start ⟨_, rfl⟩).start ⟨_, rfl⟩
  have hrun := Reaches.replay initializeAndFinalize hstart rfl
  refine ⟨_, hrun, ?_, ?_, ?_, contextLifetime_reaches noObjects _ hrun 0 ?_⟩
  · decide
  · decide
  · decide
  · decide

end Runs

end Lifetime

end TeeClient.Vendor.Api
