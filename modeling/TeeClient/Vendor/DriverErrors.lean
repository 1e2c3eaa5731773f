import Mathlib.Tactic
import TeeClient.Vendor.ApiLaws

/-! What a call tells its caller about the answer of the driver. -/

namespace TeeClient.Vendor.Api

open Resumption Prog

variable {P : Type} [DecidableEq P] [Zero P]

/-- What an action can be answered, whatever the other calls of the process did before. -/
def Answers (a : Act P) (r : Resp a) : Prop := ∃ s e s', exec s e a = some (r, s')

def ioctlReply : Sigma (Resp (P := P)) → Option IoctlReply
  | ⟨.core (.ioctl _), reply⟩ => some reply
  | _ => none

def finalIoctl (t : List (Sigma (Resp (P := P)))) : Option IoctlReply :=
  (t.filterMap ioctlReply).getLast?

def Reports (p : Program P (InnerResult P)) (f : IoctlReply → TeecResult) : Prop :=
  ∀ t x, Traced Answers p t x → ∀ reply, finalIoctl t = some reply →
    x.ret = f reply ∧ x.returnOrigin = ioctlOrigin reply

def NoIoctl (a : Act P) : Prop := ∀ fd, a ≠ .core (.ioctl fd)

section Reports

variable {α : Type} {t : List (Sigma (Resp (P := P)))} {f : IoctlReply → TeecResult}

theorem replies_of_noIoctl {p : Program P α} {x : α} (h : Traced Answers p t x)
    (hp : All NoIoctl p) : t.filterMap ioctlReply = [] := by
  rw [List.filterMap_eq_nil_iff]
  rintro ⟨a, r⟩ hmem
  have ha : NoIoctl a := h.mem hp hmem
  cases a with
  | obj a => rfl
  | core a =>
    cases a
    case ioctl fd => exact absurd rfl (ha fd)
    all_goals rfl

theorem Reports.of_noIoctl {p : Program P (InnerResult P)} (hp : All NoIoctl p) : Reports p f := by
  intro t x h reply hreply
  rw [finalIoctl, replies_of_noIoctl h hp] at hreply
  cases hreply

theorem Reports.bind {p : Program P α} {k : α → Program P (InnerResult P)} (hp : All NoIoctl p)
    (hk : ∀ x, Reports (k x) f) : Reports (p.bind k) f := by
  intro t y h reply hreply
  obtain ⟨t₁, t₂, x, rfl, h₁, h₂⟩ := traced_bind.mp h
  refine hk x t₂ y h₂ reply ?_
  rwa [finalIoctl, List.filterMap_append, replies_of_noIoctl h₁ hp, List.nil_append] at hreply

theorem Reports.ite {b : Prop} [Decidable b] {p q : Program P (InnerResult P)}
    (hp : Reports p f) (hq : Reports q f) : Reports (if b then p else q) f := by
  split_ifs
  · exact hp
  · exact hq

end Reports

theorem traced_openSessionIoctl {fd : Int} {n : Nat} {last reply : IoctlReply}
    {t : List (Sigma (Resp (P := P)))} (h : Traced Answers (openSessionIoctl fd n last) t reply) :
    reply = (finalIoctl t).getD last := by
  induction n generalizing last t with
  | zero =>
    obtain ⟨rfl, rfl⟩ := traced_pure.mp h
    rfl
  | succ n ih =>
    obtain ⟨r, t', rfl, _, hrest⟩ := traced_act.mp h
    simp only [bind_pure] at hrest
    by_cases hretry : checkOpensessionRetryStatus r.code = true
    · rw [if_pos hretry] at hrest
      have := ih hrest
      simp only [finalIoctl, List.filterMap_cons, ioctlReply, List.getLast?_cons] at this ⊢
      simpa using this
    · rw [if_neg hretry] at hrest
      obtain ⟨rfl, rfl⟩ := traced_pure.mp hrest
      rfl

omit [DecidableEq P] in
theorem noIoctl_core {a : CoreAct} (h : ∀ fd, a ≠ .ioctl fd) :
    All NoIoctl (core a : Program P (CoreResp a)) :=
  ⟨fun fd hfd => h fd (Act.core.inj hfd), fun _ => trivial⟩

omit [DecidableEq P] in
theorem noIoctl_obj (a : ObjAct P) : All NoIoctl (obj a) :=
  ⟨fun _ h => (by cases h), fun _ => trivial⟩

theorem reports_teecDoOpenSession {c session : Nat} {operation : Option (Operation P)} :
    Reports (teecDoOpenSession c session operation) fun reply =>
      if reply.ret = 0 then .success else ioctlError reply.ret reply := by
  refine Reports.bind (noIoctl_core fun fd h => by cases h) fun fd t x h reply hreply => ?_
  obtain ⟨t₁, t₂, last, rfl, hloop, hend⟩ := traced_bind.mp h
  -- what follows the loop asks the driver nothing
  have hquiet : t₂.filterMap ioctlReply = [] := by
    refine replies_of_noIoctl hend ?_
    refine All.ite (All.bind (noIoctl_obj _) fun _ => trivial) trivial
  have hlast : last = reply := by
    rw [traced_openSessionIoctl hloop]
    rw [finalIoctl, List.filterMap_append, hquiet, List.append_nil] at hreply
    simp [finalIoctl, hreply]
  subst hlast
  by_cases hret : last.ret = 0
  · rw [if_pos hret] at hend ⊢
    obtain ⟨_, _, rfl, _, hend⟩ := traced_act.mp hend
    obtain ⟨rfl, rfl⟩ := traced_pure.mp hend
    exact ⟨rfl, rfl⟩
  · rw [if_neg hret] at hend ⊢
    obtain ⟨rfl, rfl⟩ := traced_pure.mp hend
    exact ⟨rfl, rfl⟩

theorem reports_processInvokeCommand {c : Nat} {operation : Option (Operation P)} :
    Reports (processInvokeCommand c operation) fun reply =>
      if reply.ret = 0 then .success else ioctlError (-reply.errno) reply := by
  refine Reports.bind (noIoctl_core fun fd h => by cases h) fun fd t x h reply hreply => ?_
  obtain ⟨r, t', rfl, _, hend⟩ := traced_act.mp h
  obtain ⟨rfl, rfl⟩ := traced_pure.mp hend
  obtain rfl : r = reply := Option.some.inj hreply
  exact ⟨rfl, rfl⟩

section Runs

def answering (reply : IoctlReply) : Env P where
  ok := true
  fd := 0
  reply
  buffer := none

def idle : World P :=
  init {
    session := fun _ => { sessionId := 0, opsCnt := 0, home := 0, frees := 0, wasListed := false }
    nextSession := 0
    sessionList := fun _ => []
    shm := fun _ => .init
    shmFate := fun _ _ => { frees := 0, wasListed := false } }

omit [DecidableEq P] in
theorem finalIoctl_append {t t' : List (Sigma (Resp (P := P)))} {reply : IoctlReply}
    (h : finalIoctl t' = some reply) : finalIoctl (t ++ t') = some reply := by
  rw [finalIoctl] at h
  rw [finalIoctl, List.filterMap_append, List.getLast?_append, h]
  rfl

/-- However often the driver has the loop go round, it can go on with the same answer. -/
theorem exists_loop (fd : Int) (reply : IoctlReply) (n : Nat) (last : IoctlReply) :
    ∃ t, Traced Answers (openSessionIoctl fd (n + 1) last : Program P IoctlReply) t reply ∧
      finalIoctl t = some reply := by
  have hask : Answers (P := P) (.core (.ioctl fd)) reply := ⟨idle, answering reply, idle, rfl⟩
  have hlast : finalIoctl (P := P) [⟨.core (.ioctl fd), reply⟩] = some reply := rfl
  by_cases hretry : checkOpensessionRetryStatus reply.code = true
  · induction n generalizing last with
    | zero =>
      refine ⟨_, .act hask ?_, hlast⟩
      simp only [bind_pure, if_pos hretry]
      exact .pure reply
    | succ n ih =>
      obtain ⟨t, ht, hfinal⟩ := ih reply
      refine ⟨_, .act hask ?_, finalIoctl_append (t := [_]) hfinal⟩
      simp only [bind_pure, if_pos hretry]
      exact ht
  · refine ⟨_, .act hask ?_, hlast⟩
    simp only [bind_pure, if_neg hretry]
    exact .pure reply

theorem exists_teecDoOpenSession (reply : IoctlReply) :
    ∃ t x, Traced Answers (teecDoOpenSession 0 0 none : Program P _) t x ∧
      finalIoctl t = some reply := by
  obtain ⟨t, ht, hfinal⟩ := exists_loop (P := P) (-1) reply 199 noReply
  have hfd : Answers (P := P) (.core (.readContextFd 0)) (-1 : Int) :=
    ⟨idle, answering reply, idle, rfl⟩
  simp only [teecDoOpenSession, core, obj, bind_eq, bind_act, bind_pure]
  let ending : Program P (InnerResult P) :=
    if reply.ret = 0 then do
      obj (.addSessionList 0 0 reply.sessionId)
      .pure (.answered .success reply none)
    else .pure (.answered (ioctlError reply.ret reply) reply none)
  obtain ⟨t', x, hend, hquiet⟩ :
      ∃ t' x, Traced Answers ending t' x ∧ t'.filterMap ioctlReply = [] := by
    simp only [ending]
    by_cases hret : reply.ret = 0
    · have hadd : Answers (P := P) (.obj (.addSessionList 0 0 reply.sessionId)) () :=
        ⟨idle, answering reply, _, rfl⟩
      rw [if_pos hret]
      exact ⟨_, _, .act hadd (.pure _), rfl⟩
    · rw [if_neg hret]
      exact ⟨_, _, .pure _, rfl⟩
  refine ⟨_, x, .act hfd (traced_bind.mpr ⟨t, t', reply, rfl, ht, hend⟩), ?_⟩
  rw [finalIoctl] at hfinal ⊢
  rwa [List.filterMap_cons_none rfl, List.filterMap_append, hquiet, List.append_nil]

theorem exists_processInvokeCommand (reply : IoctlReply) :
    ∃ t x, Traced Answers (processInvokeCommand 0 none : Program P _) t x ∧
      finalIoctl t = some reply := by
  have hfd : Answers (P := P) (.core (.readContextFd 0)) (-1 : Int) :=
    ⟨idle, answering reply, idle, rfl⟩
  have hask : Answers (P := P) (.core (.ioctl (-1))) reply := ⟨idle, answering reply, idle, rfl⟩
  simp only [processInvokeCommand, core, bind_eq, bind_act, bind_pure]
  exact ⟨_, _, .act hfd (.act hask (.pure _)), rfl⟩

end Runs

section Inner

variable [HAdd P Nat P] {shm : P → SharedMemory P}

theorem reports_teecOpenSessionInner {c session : Nat} {connectionMethod : U32}
    {connectionData : Bool} {operation : Option (Operation P)} :
    Reports (teecOpenSessionInner shm c session connectionMethod connectionData operation)
      fun reply => if reply.ret = 0 then .success else ioctlError reply.ret reply := by
  refine .ite (.of_noIoctl trivial) ?_
  refine .bind (all_teecCheckOperation fun p => noIoctl_obj _) fun checked => ?_
  refine .ite ?_ (.of_noIoctl trivial)
  refine .bind (noIoctl_obj _) fun _ => ?_
  refine .bind (noIoctl_core fun fd h => by cases h) fun encoded => ?_
  refine .ite ?_ (.of_noIoctl trivial)
  refine .bind (noIoctl_core fun fd h => by cases h) fun gotApp => ?_
  exact .ite reports_teecDoOpenSession (.of_noIoctl trivial)

theorem reports_teecInvokeCommandInner {c session : Nat} {operation : Option (Operation P)} :
    Reports (teecInvokeCommandInner shm c session operation) fun reply =>
      if reply.ret = 0 then .success else ioctlError (-reply.errno) reply := by
  refine .bind (all_teecCheckOperation fun p => noIoctl_obj _) fun checked => ?_
  refine .ite ?_ (.of_noIoctl trivial)
  refine .bind (noIoctl_obj _) fun _ => ?_
  refine .bind (noIoctl_core fun fd h => by cases h) fun encoded => ?_
  exact .ite reports_processInvokeCommand (.of_noIoctl trivial)

variable (shm) in
/-- Every session that is opened and every command that is invoked with `reply` as the
last answer of the driver gets the same result and the same origin. -/
def ReportAlike (reply : IoctlReply) : Prop :=
  ∀ (c session : Nat) (connectionMethod : U32) (connectionData : Bool)
    (operation : Option (Operation P)) (c' session' : Nat) (operation' : Option (Operation P))
    (t t' : List (Sigma (Resp (P := P)))) (opened invoked : InnerResult P),
    Traced Answers
      (teecOpenSessionInner shm c session connectionMethod connectionData operation) t opened →
    Traced Answers (teecInvokeCommandInner shm c' session' operation') t' invoked →
    finalIoctl t = some reply → finalIoctl t' = some reply →
    opened.ret = invoked.ret ∧ opened.returnOrigin = invoked.returnOrigin

def hasCase (ret : Int) : Prop := ret = -14 ∨ ret = -12 ∨ ret = -22

theorem translateRetValue_eq_iff {m n : Int} :
    translateRetValue m = translateRetValue n ↔ m = n ∨ ¬ hasCase m ∧ ¬ hasCase n := by
  simp only [translateRetValue, hasCase]
  split_ifs <;> simp only [true_iff, false_iff] <;> omega

theorem exists_opened (shm : P → SharedMemory P) (reply : IoctlReply) :
    ∃ t x, Traced Answers (teecOpenSessionInner shm 0 0 teecLoginIdentify false none) t x ∧
      finalIoctl t = some reply := by
  obtain ⟨t, x, ht, hfinal⟩ := exists_teecDoOpenSession (P := P) reply
  have hread : Answers (P := P) (.obj (.readSession 0 0)) (idle.objs.session 0) :=
    ⟨idle, answering reply, idle, rfl⟩
  have hok : Answers (P := P) (.core .outcome) true := ⟨idle, answering reply, idle, rfl⟩
  let before : List (Sigma (Resp (P := P))) :=
    [⟨.obj (.readSession 0 0), (idle (P := P)).objs.session 0⟩, ⟨.core .outcome, true⟩, ⟨.core .outcome, true⟩]
  exact ⟨before ++ t, x, .act hread (.act hok (.act hok ht)), finalIoctl_append hfinal⟩

theorem exists_invoked (shm : P → SharedMemory P) (reply : IoctlReply) :
    ∃ t x, Traced Answers (teecInvokeCommandInner shm 0 0 none) t x ∧
      finalIoctl t = some reply := by
  obtain ⟨t, x, ht, hfinal⟩ := exists_processInvokeCommand (P := P) reply
  have hread : Answers (P := P) (.obj (.readSession 0 0)) (idle.objs.session 0) :=
    ⟨idle, answering reply, idle, rfl⟩
  have hok : Answers (P := P) (.core .outcome) true := ⟨idle, answering reply, idle, rfl⟩
  let before : List (Sigma (Resp (P := P))) :=
    [⟨.obj (.readSession 0 0), (idle (P := P)).objs.session 0⟩, ⟨.core .outcome, true⟩]
  exact ⟨before ++ t, x, .act hread (.act hok ht), finalIoctl_append hfinal⟩

/-- Both calls report the same exactly when the driver did not fail, or failed with a
return value that `TranslateRetValue` maps as it maps the `errno`. -/
theorem reportAlike_iff (shm : P → SharedMemory P) (reply : IoctlReply) :
    ReportAlike shm reply ↔
      (reply.ret < 0 →
        reply.ret = -reply.errno ∨ ¬ hasCase reply.ret ∧ ¬ hasCase (-reply.errno)) := by
  rw [← translateRetValue_eq_iff]
  constructor
  · intro halike hneg
    obtain ⟨t, x, ht, hfinal⟩ := exists_opened shm reply
    obtain ⟨t', y, ht', hfinal'⟩ := exists_invoked shm reply
    have hret := (halike _ _ _ _ _ _ _ _ _ _ _ _ ht ht' hfinal hfinal').1
    rw [(reports_teecOpenSessionInner t x ht reply hfinal).1,
      (reports_teecInvokeCommandInner t' y ht' reply hfinal').1] at hret
    beta_reduce at hret
    rwa [if_neg (by omega), if_neg (by omega), ioctlError, ioctlError, if_pos hneg,
      if_pos hneg] at hret
  · intro hcase c session connectionMethod connectionData operation c' session' operation' t t' x y
      ht ht' hfinal hfinal'
    obtain ⟨hret, horigin⟩ := reports_teecOpenSessionInner t x ht reply hfinal
    obtain ⟨hret', horigin'⟩ := reports_teecInvokeCommandInner t' y ht' reply hfinal'
    refine ⟨?_, horigin.trans horigin'.symm⟩
    rw [hret, hret']
    beta_reduce
    rw [ioctlError, ioctlError]
    by_cases hneg : reply.ret < 0
    · rw [if_pos hneg, if_pos hneg, hcase hneg]
    · rw [if_neg hneg, if_neg hneg]

end Inner

def outOfMemory : IoctlReply := { noReply with ret := -1, errno := 12 }

theorem not_reportAlike_outOfMemory :
    ¬ ReportAlike (P := Nat) (fun _ => ⟨0, 0, 0, 0, false⟩) outOfMemory := by
  intro h
  obtain ⟨t, x, ht, hfinal⟩ := exists_opened (P := Nat) (fun _ => ⟨0, 0, 0, 0, false⟩) outOfMemory
  obtain ⟨t', y, ht', hfinal'⟩ :=
    exists_invoked (P := Nat) (fun _ => ⟨0, 0, 0, 0, false⟩) outOfMemory
  have hret := (h _ _ _ _ _ _ _ _ _ _ _ _ ht ht' hfinal hfinal').1
  rw [(reports_teecOpenSessionInner t x ht _ hfinal).1,
    (reports_teecInvokeCommandInner t' y ht' _ hfinal').1] at hret
  revert hret
  decide

end TeeClient.Vendor.Api
