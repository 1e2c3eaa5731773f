import Mathlib.Tactic
import TeeClient.Tui.Daemon

/-! What the TUI thread keeps while callbacks run beside it: the library is never left while
something is registered with it, and whenever the thread waits for an event, what it has registered
is what its variables say. -/

namespace TeeClient.Tui.Daemon

open Resumption

section Threads

/-- The TUI thread's own variables; `started` says that it was the last to set `mTUIStatus`, and to
true. -/
structure Owner where
  own : Own
  started : Bool

def Owner.upd (o : Owner) (a : Act) (r : Resp a) : Owner :=
  ⟨o.own.step a r, nextStatus o.started a r⟩

structure Local where
  owner : Option Owner
  inside : Bool

def waiting : Local := ⟨none, false⟩

def ownerOf (o : Owner) : Local := ⟨some o, false⟩

def Local.upd (l : Local) : (a : Act) → Resp a → Local
  | .spawn, _ => ownerOf ⟨.init, false⟩
  | .invoke _, _ => { l with inside := true }
  | a, r => { l with owner := l.owner.map (·.upd a r) }

def threads : Machine Act Resp State Env Local where
  exec := State.exec
  upd := Local.upd

/-- What is registered is what the flags say, and the running lock that is locked is the one that
would be unlocked.  `first` is the first loop, where nothing is registered. -/
structure Tidy (last : Option Event) (first : Bool) (o : Owner) : Prop where
  loaded : o.own.get .dlHandle = true
  func : o.own.get .tuiDaemonFunc = true
  callBacks : o.own.callBacks = (o.own.get .tuiCallBackRegisted).toNat
  listeners : o.own.listeners = (o.own.get .tuiDisplayListenerRegisted).toNat
  listener : o.own.get .tuiDisplayListenerRegisted = true → o.own.get .mTUIDisplayListener = true
  held : o.own.held = true → o.own.get .mRunningLock = true
  first : first = true → o.own.ever = false ∧ o.own.held = false ∧ o.started = false ∧
    o.own.callBacks = 0 ∧ o.own.listeners = 0
  last : o.own.last = last

structure Ready (o : Owner) : Prop where
  tuiDaemon : o.own.get .tuiDaemon = true
  tuiDaemonInit : o.own.get .tuiDaemonInit = true

structure Opening (o : Owner) : Prop where
  tuiDaemon : o.own.get .tuiDaemon = true
  held : o.own.held = false
  started : o.started = false

structure Cleared (o : Owner) : Prop where
  tuiDaemon : o.own.get .tuiDaemon = false
  tuiDaemonInit : o.own.get .tuiDaemonInit = false
  callBack : o.own.get .tuiCallBackRegisted = false
  listener : o.own.get .mTUIDisplayListener = false
  held : o.own.held = false
  started : o.started = false

structure Unloaded (last : Option Event) (o : Owner) : Prop where
  get : ∀ f, o.own.get f = false
  callBacks : o.own.callBacks = 0
  listeners : o.own.listeners = 0
  ever : o.own.ever = false
  held : o.own.held = false
  started : o.started = false
  last : o.own.last = last

structure Loaded (last : Option Event) (first : Bool) (o : Owner) : Prop where
  tidy : Tidy last first o
  settled : Ready o ∨ Cleared o

def Rest (last : Option Event) (o : Owner) : Prop := Loaded last false o ∨ Unloaded last o

def Owner.Permits (o : Owner) : Act → Prop
  | .spawn | .invoke _ => False
  | .getEvent => Rest o.own.last o ∧
      (o.own.last = some .unused → o.own.get .tuiDaemonInit = false)
  | .dlopen => o.own.get .dlHandle = false
  | .dlsym => True
  | .dlclose => o.own.ever = false
  | .read f => f.inLibrary = true → o.own.get .dlHandle = true
  | .write f _ => f ≠ .dlHandle ∧ (f.inLibrary = true → o.own.get .dlHandle = true)
  | .registerCallBack => o.own.get .dlHandle = true ∧ o.own.callBacks = 0
  | .registerFoldStatusListener => o.own.get .dlHandle = true ∧ o.own.listeners = 0
  | _ => o.own.get .dlHandle = true

def Act.shared : Act → Bool
  | .readStatus | .setStatus false | .readSendHashSuccess | .setSendHashSuccess
  | .sendEventToTz _ | .outcome => true
  | _ => false

def Pre (l : Local) : Act → Prop
  | .spawn | .invoke _ => l = waiting
  | a => (∀ o, l.owner = some o → o.Permits a) ∧
      (l.owner = none → l.inside = true ∧ a.shared = true)

/-- `TeeTuiDaemonWork` is not found without `TeeTuiIsFoldable`, and what is registered can be
unregistered. -/
def obliging (s : State) : (a : Act) → Resp a → Bool
  | .dlsym, r => !r.1 || r.2
  | .unRegisterCallBack, r => r || decide (s.own.callBacks = 0)
  | .unregisterFoldStatusListener, r => r || decide (s.own.listeners = 0)
  | _, _ => true

def Can (l : Local) : (a : Act) → Resp a → Prop
  | .read f, r => ∀ o, l.owner = some o → r = o.own.get f
  | .dlsym, r => r.1 = true → r.2 = true
  | .unRegisterCallBack, r => r = false → ∀ o, l.owner = some o → o.own.callBacks = 0
  | .unregisterFoldStatusListener, r => r = false → ∀ o, l.owner = some o → o.own.listeners = 0
  | _, _ => True

end Threads

section Work

variable {α β : Type} {o o' : Owner} {p : Program α} {Q Q' : α → Owner → Prop} {a : Act}
variable {last : Option Event} {first : Bool}

def Works (o : Owner) (p : Program α) (Q : α → Owner → Prop) : Prop :=
  SafeIf threads Pre Can (ownerOf o) p fun x l => ∃ o', l = ownerOf o' ∧ Q x o'

theorem works_pure {x : α} (h : Q x o) : Works o (.pure x) Q := ⟨o, rfl, h⟩

theorem works_bind {f : α → Program β} {Q : β → Owner → Prop}
    (h : Works o p fun x o' => Works o' (f x) Q) : Works o (p.bind f) Q := by
  refine safeIf_bind.mpr (SafeIf.mono h fun x l hl => ?_)
  obtain ⟨o', rfl, ho'⟩ := hl
  exact ho'

theorem Works.mono (h : Works o p Q) (hQ : ∀ x o', Q x o' → Q' x o') : Works o p Q' := by
  refine SafeIf.mono h fun x l hl => ?_
  obtain ⟨o', rfl, ho'⟩ := hl
  exact ⟨o', rfl, hQ x o' ho'⟩

theorem works_act {k : Resp a → Program α} (hpermits : o.Permits a)
    (h : ∀ r, Can (ownerOf o) a r → Works (o.upd a r) (k r) Q) : Works o (.act a k) Q := by
  have hpre : Pre (ownerOf o) a := by
    cases a
    case spawn | invoke => exact hpermits.elim
    all_goals exact ⟨fun o' ho' => Option.some.inj ho' ▸ hpermits, by simp [ownerOf]⟩
  refine ⟨hpre, fun r hr => ?_⟩
  have hupd : (ownerOf o).upd a r = ownerOf (o.upd a r) := by
    cases a
    case spawn | invoke => exact hpermits.elim
    all_goals rfl
  have hrest := h r hr
  rw [Works, ← hupd] at hrest
  exact hrest

theorem works_read {f : Field} {k : Bool → Program α}
    (hf : f.inLibrary = true → o.own.get .dlHandle = true) (h : Works o (k (o.own.get f)) Q) :
    Works o (.act (.read f) k) Q := by
  refine works_act hf fun r hr => ?_
  obtain rfl := hr o rfl
  exact h

def Act.quiet : Act → Bool
  | .readStatus | .readSendHashSuccess | .setSendHashSuccess | .sendEventToTz _ | .outcome => true
  | _ => false

theorem works_quiet {k : Resp a → Program α} (ha : a.quiet = true)
    (hloaded : o.own.get .dlHandle = true) (h : ∀ r, Works o (k r) Q) : Works o (.act a k) Q := by
  cases a
  case readStatus | readSendHashSuccess | setSendHashSuccess | sendEventToTz | outcome =>
    exact works_act hloaded fun r _ => h r
  all_goals cases ha

end Work

section Programs

variable {o : Owner} {last : Option Event} {first : Bool} (hashLen : Bool)

theorem works_tuiSendCmd (e : TuiPoll) (h : o.own.get .dlHandle = true) :
    Works o (tuiSendCmd hashLen e) fun _ o' => o' = o := by
  have hsend : Works o (tuiSendTTFHashToTeeos hashLen) fun _ o' => o' = o := by
    simp only [tuiSendTTFHashToTeeos, act, Prog.bind_eq, Prog.pure_eq, Prog.bind_act,
      Prog.bind_pure]
    refine works_quiet rfl h fun sent => ?_
    cases sent with
    | true => exact works_pure rfl
    | false =>
      cases hashLen with
      | false => exact works_pure rfl
      | true =>
        refine works_quiet rfl h fun sent => ?_
        cases sent with
        | false => exact works_pure rfl
        | true => exact works_quiet rfl h fun _ => works_pure rfl
  rw [tuiSendCmd, Prog.bind_eq]
  refine works_bind (hsend.mono fun _ o' ho' => ?_)
  subst ho'
  exact works_quiet rfl h fun _ => works_pure rfl

theorem Tidy.write {f : Field} {b : Bool} (h : Tidy last first o)
    (hf : f = .tuiDaemon ∨ f = .tuiDaemonInit) : Tidy last first (o.upd (.write f b) ()) := by
  rcases hf with rfl | rfl
  all_goals exact ⟨h.loaded, h.func, h.callBacks, h.listeners, h.listener, h.held, h.first, h.last⟩

structure Keeps (o o' : Owner) : Prop where
  tuiDaemon : o'.own.get .tuiDaemon = o.own.get .tuiDaemon
  tuiDaemonInit : o'.own.get .tuiDaemonInit = o.own.get .tuiDaemonInit
  held : o'.own.held = o.own.held
  started : o'.started = o.started

theorem Keeps.refl (o : Owner) : Keeps o o := ⟨rfl, rfl, rfl, rfl⟩

theorem works_tuiRegisteCallBack (h : Tidy last false o) :
    Works o tuiRegisteCallBack fun _ o' => Tidy last false o' ∧ Keeps o o' := by
  simp only [tuiRegisteCallBack, act, Prog.bind_eq, Prog.pure_eq]
  refine works_read (fun _ => h.loaded) ?_
  cases hregisted : o.own.get .tuiCallBackRegisted with
  | true => exact works_pure ⟨h, .refl o⟩
  | false =>
    refine works_quiet rfl h.loaded fun ready => ?_
    cases ready with
    | false => exact works_pure ⟨h, .refl o⟩
    | true =>
      have hnone : o.own.callBacks = 0 := by rw [h.callBacks, hregisted]; rfl
      refine works_act ⟨h.loaded, hnone⟩ fun ret _ => ?_
      cases ret with
      | false => exact works_pure ⟨h, .refl o⟩
      | true =>
        refine works_act ⟨by simp, fun _ => h.loaded⟩ fun _ _ => works_pure ⟨?_, ?_⟩
        · constructor <;>
            simp [Owner.upd, Own.step, Own.set, hnone, h.loaded, h.func, h.listeners, h.last]
          · exact h.listener
          · exact h.held
        · exact ⟨rfl, rfl, rfl, rfl⟩

theorem works_tuiRegisteDisplayListener (h : Tidy last false o) :
    Works o tuiRegisteDisplayListener fun _ o' => Tidy last false o' ∧ Keeps o o' := by
  simp only [tuiRegisteDisplayListener, act, Prog.bind_eq, Prog.pure_eq, Prog.bind_act,
    Prog.bind_pure]
  refine works_read (fun _ => h.loaded) ?_
  cases hregisted : o.own.get .tuiDisplayListenerRegisted with
  | true => exact works_pure ⟨h, .refl o⟩
  | false =>
    refine works_quiet rfl h.loaded fun ready => ?_
    cases ready with
    | false => exact works_pure ⟨h, .refl o⟩
    | true =>
      have hnone : o.own.listeners = 0 := by rw [h.listeners, hregisted]; rfl
      have hrest : Works o (Prog.act (.write .mTUIDisplayListener true) fun _ =>
          Prog.act .registerFoldStatusListener fun result =>
            Prog.act (.write .tuiDisplayListenerRegisted result) fun x => .pure x)
          fun _ o' => Tidy last false o' ∧ Keeps o o' := by
        refine works_act ⟨by simp, fun _ => h.loaded⟩ fun _ _ => ?_
        refine works_act ⟨h.loaded, hnone⟩ fun result _ => ?_
        cases result with
        | false =>
          refine works_act ⟨by simp, fun _ => h.loaded⟩ fun _ _ => works_pure ⟨?_, ?_⟩
          · constructor <;>
              simp [Owner.upd, Own.step, Own.set, hnone, h.loaded, h.func, h.callBacks, h.last]
            exact h.held
          · exact ⟨rfl, rfl, rfl, rfl⟩
        | true =>
          refine works_act ⟨by simp, fun _ => h.loaded⟩ fun _ _ => works_pure ⟨?_, ?_⟩
          · constructor <;>
              simp [Owner.upd, Own.step, Own.set, hnone, h.loaded, h.func, h.callBacks, h.last]
            exact h.held
          · exact ⟨rfl, rfl, rfl, rfl⟩
      refine works_read (fun _ => h.loaded) ?_
      cases o.own.get .mTUIDisplayListener with
      | true => exact hrest
      | false =>
        refine works_quiet rfl h.loaded fun created => ?_
        cases created with
        | false => exact works_pure ⟨h, .refl o⟩
        | true => exact hrest

theorem Opening.of_keeps {o' : Owner} (h : Opening o) (hk : Keeps o o') : Opening o' :=
  ⟨hk.tuiDaemon.trans h.tuiDaemon, hk.held.trans h.held, hk.started.trans h.started⟩

theorem works_initDaemon (h : Tidy last first o) (hopening : Opening o) :
    Works o (initDaemon first) fun _ o' => Tidy last first o' ∧ Opening o' := by
  simp only [initDaemon, act, Prog.bind_eq, Prog.pure_eq, Prog.bind_act, Prog.bind_pure]
  refine works_act h.loaded fun _ _ => ?_
  have htidy : Tidy last first (o.upd .tuiEventInit ()) := by
    refine ⟨h.loaded, h.func, h.callBacks, h.listeners, h.listener, fun hheld => ?_,
      fun hfirst => ?_, h.last⟩
    · exact absurd hheld (Bool.eq_false_iff.mp hopening.held)
    · obtain ⟨hever, hheld, -, hnone⟩ := h.first hfirst
      exact ⟨hever, hheld, rfl, hnone⟩
  have hopen : Opening (o.upd .tuiEventInit ()) := ⟨hopening.tuiDaemon, hopening.held, rfl⟩
  cases first with
  | true => exact works_pure ⟨htidy, hopen⟩
  | false =>
    refine works_bind ((works_tuiRegisteCallBack htidy).mono fun _ o₁ h₁ => ?_)
    refine (works_tuiRegisteDisplayListener h₁.1).mono fun _ o₂ h₂ => ⟨h₂.1, ?_⟩
    exact (hopen.of_keeps h₁.2).of_keeps h₂.2

theorem works_deleteDaemon (h : Tidy last first o) :
    Works o deleteDaemon fun _ o' => Tidy last first o' ∧ Keeps o o' ∧
      o'.own.get .tuiCallBackRegisted = false ∧ o'.own.get .mTUIDisplayListener = false := by
  simp only [deleteDaemon, act, Prog.bind_eq, Prog.pure_eq, Prog.bind_act, Prog.bind_pure]
  -- What follows the listener, from where there is none.
  have hrest (o₁ : Owner)
      (h₁ : Tidy last first (o₁.upd (.write .tuiDisplayListenerRegisted false) ()))
      (hk : Keeps o o₁) (hlistener : o₁.own.get .mTUIDisplayListener = false) :
      Works o₁ (Prog.act (.write .tuiDisplayListenerRegisted false) fun _ =>
        Prog.act (.read .tuiCallBackRegisted) fun registed =>
          if registed = true then Prog.act .unRegisterCallBack fun _ =>
            Prog.act (.write .tuiCallBackRegisted false) fun x => .pure x
          else .pure ()) fun _ o' => Tidy last first o' ∧ Keeps o o' ∧
        o'.own.get .tuiCallBackRegisted = false ∧ o'.own.get .mTUIDisplayListener = false := by
    refine works_act ⟨by simp, fun _ => h₁.loaded⟩ fun _ _ => works_read (fun _ => h₁.loaded) ?_
    generalize ho₂ : o₁.upd (.write .tuiDisplayListenerRegisted false) () = o₂ at h₁
    have hk₂ : Keeps o o₂ := ho₂ ▸ ⟨hk.tuiDaemon, hk.tuiDaemonInit, hk.held, hk.started⟩
    have hnone : o₂.own.get .mTUIDisplayListener = false := ho₂ ▸ hlistener
    cases hregisted : o₂.own.get .tuiCallBackRegisted with
    | false => exact works_pure ⟨h₁, hk₂, hregisted, hnone⟩
    | true =>
      have hone := h₁.callBacks
      rw [hregisted] at hone
      refine works_act h₁.loaded fun unregistered hcan => ?_
      cases unregistered with
      | false => exact absurd (hone.symm.trans (hcan rfl o₂ rfl)) (by decide)
      | true =>
        refine works_act ⟨by simp, fun _ => h₁.loaded⟩ fun _ _ => works_pure ⟨?_, ?_, rfl, hnone⟩
        · have hnone : o₂.own.callBacks - 1 = 0 := by rw [hone]; rfl
          refine ⟨h₁.loaded, h₁.func, hnone, h₁.listeners, h₁.listener, h₁.held, fun hfirst => ?_,
            h₁.last⟩
          obtain ⟨hever, hheld, hstarted, -, hlisteners⟩ := h₁.first hfirst
          exact ⟨hever, hheld, hstarted, hnone, hlisteners⟩
        · exact ⟨hk₂.tuiDaemon, hk₂.tuiDaemonInit, hk₂.held, hk₂.started⟩
  refine works_read (fun _ => h.loaded) ?_
  cases hlistener : o.own.get .mTUIDisplayListener with
  | true =>
    refine works_act h.loaded fun unregistered hcan => ?_
    cases unregistered with
    | false =>
      -- there was no listener to unregister
      refine works_act ⟨by simp, fun _ => h.loaded⟩ fun _ _ => ?_
      refine hrest _ ?_ ⟨rfl, rfl, rfl, rfl⟩ rfl
      exact ⟨h.loaded, h.func, h.callBacks, hcan rfl o rfl,
        by simp [Owner.upd, Own.step, Own.set], h.held, h.first, h.last⟩
    | true =>
      refine works_act ⟨by simp, fun _ => h.loaded⟩ fun _ _ => ?_
      refine hrest _ ?_ ⟨rfl, rfl, rfl, rfl⟩ rfl
      have hnone : o.own.listeners - 1 = 0 := by
        have hone := h.listeners
        have hbound := Bool.toNat_le (o.own.get .tuiDisplayListenerRegisted)
        omega
      refine ⟨h.loaded, h.func, h.callBacks, hnone, by simp [Owner.upd, Own.step, Own.set], h.held,
        fun hfirst => ?_, h.last⟩
      obtain ⟨hever, hheld, hstarted, hcallBacks, -⟩ := h.first hfirst
      exact ⟨hever, hheld, hstarted, hcallBacks, hnone⟩
  | false =>
    refine hrest o ?_ (.refl o) hlistener
    have hunregistered : o.own.get .tuiDisplayListenerRegisted = false :=
      Bool.eq_false_iff.mpr fun htrue => Bool.eq_false_iff.mp hlistener (h.listener htrue)
    have hnone := h.listeners
    rw [hunregistered] at hnone
    exact ⟨h.loaded, h.func, h.callBacks, hnone, by simp [Owner.upd, Own.step, Own.set], h.held,
      h.first, h.last⟩

theorem works_tuiDaemonClear (h : Tidy last first o) (hopening : Opening o) :
    Works o tuiDaemonClear fun _ o' => Tidy last first o' ∧ Cleared o' := by
  simp only [tuiDaemonClear, act, Prog.bind_eq, Prog.bind_act, Prog.bind_pure]
  refine works_read (fun _ => h.loaded) ?_
  rw [if_pos hopening.tuiDaemon]
  refine works_bind ((works_deleteDaemon h).mono fun _ o₁ h₁ => ?_)
  obtain ⟨htidy, hk, hcallBack, hlistener⟩ := h₁
  have hopen := hopening.of_keeps hk
  refine works_act ⟨by simp, fun _ => htidy.loaded⟩ fun _ _ => ?_
  refine works_act ⟨by simp, fun _ => htidy.loaded⟩ fun _ _ => works_pure ⟨?_, ?_⟩
  · exact (htidy.write (.inl rfl)).write (.inr rfl)
  · exact ⟨rfl, rfl, hcallBack, hlistener, hopen.held, hopen.started⟩

theorem works_tuiDaemonInit (h : Loaded last first o) :
    Works o (tuiDaemonInit hashLen first) fun x o' =>
      Tidy last first o' ∧ if x then Ready o' else Cleared o' := by
  simp only [tuiDaemonInit, act, Prog.bind_eq, Prog.pure_eq, Prog.bind_act, Prog.bind_pure]
  refine works_read (fun _ => h.tidy.loaded) ?_
  rcases h.settled with hready | hcleared
  · rw [if_pos hready.tuiDaemonInit]
    exact works_pure ⟨h.tidy, hready⟩
  · rw [hcleared.tuiDaemonInit, if_neg Bool.false_ne_true]
    refine works_act ⟨by simp, fun _ => h.tidy.loaded⟩ fun _ _ => ?_
    have htidy : Tidy last first (o.upd (.write .tuiDaemon true) ()) := h.tidy.write (.inl rfl)
    have hopening : Opening (o.upd (.write .tuiDaemon true) ()) :=
      ⟨rfl, hcleared.held, hcleared.started⟩
    refine works_bind ((works_initDaemon htidy hopening).mono fun _ o₁ h₁ => ?_)
    have hclear (o₁ : Owner) (h₁ : Tidy last first o₁ ∧ Opening o₁) :
        Works o₁ (tuiDaemonClear.bind fun _ => .pure false) fun x o' =>
          Tidy last first o' ∧ if x then Ready o' else Cleared o' :=
      works_bind ((works_tuiDaemonClear h₁.1 h₁.2).mono fun _ o₂ h₂ => works_pure h₂)
    refine works_quiet rfl h₁.1.loaded fun pannelInfo => ?_
    cases pannelInfo with
    | false => exact hclear o₁ h₁
    | true =>
      refine works_bind ((works_tuiSendCmd hashLen .fold h₁.1.loaded).mono fun sent o₂ h₂ => ?_)
      subst h₂
      cases sent with
      | false => exact hclear o₂ h₁
      | true =>
        refine works_act ⟨by simp, fun _ => h₁.1.loaded⟩ fun _ _ => works_pure ⟨?_, ?_⟩
        · exact h₁.1.write (.inr rfl)
        · exact ⟨h₁.2.tuiDaemon, rfl⟩

theorem works_tuiGetRunningLock (h : Tidy last false o) (hready : Ready o) :
    Works o tuiGetRunningLock fun _ o' => Tidy last false o' ∧ Ready o' := by
  simp only [tuiGetRunningLock, act, Prog.bind_eq, Prog.pure_eq, Prog.bind_act, Prog.bind_pure]
  refine works_read (fun _ => h.loaded) ?_
  cases hlock : o.own.get .mRunningLock with
  | true =>
    refine works_act h.loaded fun _ _ => works_pure ⟨?_, hready.tuiDaemon, hready.tuiDaemonInit⟩
    exact ⟨h.loaded, h.func, h.callBacks, h.listeners, h.listener, fun _ => hlock, by simp, h.last⟩
  | false =>
    refine works_quiet rfl h.loaded fun created => ?_
    refine works_act ⟨by simp, fun _ => h.loaded⟩ fun _ _ => ?_
    have hunheld : o.own.held = false :=
      Bool.eq_false_iff.mpr fun hheld => Bool.eq_false_iff.mp hlock (h.held hheld)
    cases created with
    | false =>
      refine works_pure ⟨?_, hready.tuiDaemon, hready.tuiDaemonInit⟩
      exact ⟨h.loaded, h.func, h.callBacks, h.listeners, h.listener,
        fun hheld => absurd hheld (Bool.eq_false_iff.mp hunheld), by simp, h.last⟩
    | true =>
      refine works_act h.loaded fun _ _ => works_pure ⟨?_, hready.tuiDaemon, hready.tuiDaemonInit⟩
      exact ⟨h.loaded, h.func, h.callBacks, h.listeners, h.listener, fun _ => rfl, by simp, h.last⟩

theorem works_tuiReleaseRunningLock (h : Tidy last false o) (hready : Ready o) :
    Works o tuiReleaseRunningLock fun _ o' =>
      Tidy last false o' ∧ Ready o' ∧ o'.own.held = false := by
  simp only [tuiReleaseRunningLock, act, Prog.bind_eq, Prog.pure_eq, Prog.bind_act, Prog.bind_pure]
  refine works_read (fun _ => h.loaded) ?_
  cases hlock : o.own.get .mRunningLock with
  | true =>
    refine works_act h.loaded fun _ _ =>
      works_pure ⟨?_, ⟨hready.tuiDaemon, hready.tuiDaemonInit⟩, rfl⟩
    exact ⟨h.loaded, h.func, h.callBacks, h.listeners, h.listener, fun _ => hlock, by simp, h.last⟩
  | false =>
    exact works_pure ⟨h, hready,
      Bool.eq_false_iff.mpr fun hheld => Bool.eq_false_iff.mp hlock (h.held hheld)⟩

theorem Tidy.setStatus {status : Bool} (h : Tidy last false o) :
    Tidy last false (o.upd (.setStatus status) ()) :=
  ⟨h.loaded, h.func, h.callBacks, h.listeners, h.listener, h.held, by simp, h.last⟩

theorem works_tuiDealWithEvent (state : Bool) (h : Tidy last false o) (hready : Ready o) :
    Works o (tuiDealWithEvent hashLen state) fun _ o' =>
      Tidy last false o' ∧ Ready o' ∧ (state = false → Opening o') := by
  cases state with
  | true =>
    simp only [tuiDealWithEvent, act, Prog.bind_eq, Prog.pure_eq, Prog.bind_act, Prog.bind_pure]
    refine works_bind ((works_tuiGetRunningLock h hready).mono fun _ o₁ h₁ => ?_)
    refine works_quiet rfl h₁.1.loaded fun _ => works_act h₁.1.loaded fun _ _ => ?_
    have h₂ : Tidy last false (o₁.upd (.setStatus true) ()) := h₁.1.setStatus
    refine works_bind ((works_tuiSendCmd hashLen .fold h₂.loaded).mono fun _ o₃ h₃ => ?_)
    subst h₃
    exact works_pure ⟨h₂, ⟨h₁.2.tuiDaemon, h₁.2.tuiDaemonInit⟩, by simp⟩
  | false =>
    simp only [tuiDealWithEvent, act, Prog.bind_eq, Prog.pure_eq, Prog.bind_act, Prog.bind_pure]
    refine works_bind ((works_tuiReleaseRunningLock h hready).mono fun _ o₁ h₁ => ?_)
    obtain ⟨htidy, hready₁, hheld⟩ := h₁
    refine works_act htidy.loaded fun _ _ => works_pure ⟨htidy.setStatus, ?_, fun _ => ?_⟩
    · exact ⟨hready₁.tuiDaemon, hready₁.tuiDaemonInit⟩
    · exact ⟨hready₁.tuiDaemon, hheld, rfl⟩

theorem works_teeTuiDaemonWork (tuiState : TuiState)
    (h : Loaded last (decide (tuiState = .init)) o) :
    Works o (teeTuiDaemonWork hashLen tuiState) fun _ o' =>
      Loaded last (decide (tuiState = .init)) o' ∧ (tuiState = .tuiEnd → Cleared o') := by
  simp only [teeTuiDaemonWork, Prog.bind_eq, Prog.pure_eq]
  refine works_bind ((works_tuiDaemonInit hashLen h).mono fun ready o₁ h₁ => ?_)
  obtain ⟨htidy, hsettled⟩ := h₁
  cases ready with
  | false => exact works_pure ⟨⟨htidy, .inr hsettled⟩, fun _ => hsettled⟩
  | true =>
    cases tuiState with
    | init => exact works_pure ⟨⟨htidy, .inl hsettled⟩, by simp⟩
    | tuiStart =>
      have hwork := works_tuiDealWithEvent hashLen true htidy hsettled
      refine works_bind (hwork.mono fun _ o₂ h₂ => ?_)
      exact works_pure ⟨⟨h₂.1, .inl h₂.2.1⟩, by simp⟩
    | tuiEnd =>
      have hwork := works_tuiDealWithEvent hashLen false htidy hsettled
      refine works_bind (hwork.mono fun _ o₂ h₂ => ?_)
      obtain ⟨htidy₂, -, hopening⟩ := h₂
      refine works_bind ((works_tuiDaemonClear htidy₂ (hopening rfl)).mono fun _ o₃ h₃ => ?_)
      exact works_pure ⟨⟨h₃.1, .inr h₃.2⟩, fun _ => h₃.2⟩

theorem works_openLibrary (h : Loaded last first o ∨ Unloaded last o) :
    Works o openLibrary fun x o' => if x then Loaded last first o' else Unloaded last o' := by
  simp only [openLibrary, act, Prog.bind_eq, Prog.pure_eq, Prog.bind_act, Prog.bind_pure]
  refine works_read (by simp [Field.inLibrary]) ?_
  rcases h with h | h
  · rw [if_pos h.tidy.loaded]
    exact works_pure h
  · rw [h.get, if_neg Bool.false_ne_true]
    refine works_act (h.get _) fun opened _ => ?_
    cases opened with
    | false =>
      refine works_pure ⟨h.get, h.callBacks, h.listeners, h.ever, h.held, ?_, h.last⟩
      simp [Owner.upd, nextStatus, h.started]
    | true =>
      refine works_act trivial fun found hfound => ?_
      refine works_act ⟨by simp, by simp [Field.inLibrary]⟩ fun _ _ => ?_
      obtain ⟨func, foldable⟩ := found
      cases func with
      | true =>
        obtain rfl : foldable = true := hfound rfl
        refine works_pure ⟨?_, .inr ?_⟩
        · constructor <;>
            simp [Owner.upd, Own.step, Own.set, Own.reload, Field.inLibrary, h.callBacks,
              h.listeners, h.held, h.ever, h.last, nextStatus]
        · constructor <;>
            simp [Owner.upd, Own.step, Own.set, Own.reload, Field.inLibrary, h.held, nextStatus]
      | false =>
        refine works_act h.ever fun _ _ => works_pure ⟨fun f => ?_, h.callBacks, h.listeners,
          h.ever, h.held, by simp [Owner.upd, nextStatus], h.last⟩
        cases f <;> simp [Owner.upd, Own.step, Own.set, Own.reload, Field.inLibrary]

theorem works_tuiDaemonClean (h : Loaded last true o) :
    Works o tuiDaemonClean fun _ o' => Unloaded last o' := by
  simp only [tuiDaemonClean, act, Prog.bind_eq, Prog.pure_eq, Prog.bind_act, Prog.bind_pure]
  refine works_read (by simp [Field.inLibrary]) ?_
  rw [if_pos h.tidy.loaded]
  obtain ⟨hever, hheld, hstarted, hcallBacks, hlisteners⟩ := h.tidy.first rfl
  refine works_act ⟨by simp, by simp [Field.inLibrary]⟩ fun _ _ => ?_
  refine works_act hever fun _ _ => works_pure ⟨fun f => ?_, hcallBacks, hlisteners, hever, hheld,
    hstarted, h.tidy.last⟩
  cases f <;> simp [Owner.upd, Own.step, Own.set, Own.reload, Field.inLibrary]

theorem works_tryInit (n : Nat) (h : Unloaded last o) :
    Works o (tryInit hashLen n) fun _ o' => Unloaded last o' := by
  induction n generalizing o with
  | zero => exact works_pure h
  | succ tries ih =>
    simp only [tryInit, Prog.bind_eq, Prog.pure_eq]
    have hopen : Works o openLibrary fun x o' =>
        if x then Loaded last true o' else Unloaded last o' := works_openLibrary (.inr h)
    refine works_bind (hopen.mono fun opened o₁ h₁ => ?_)
    cases opened with
    | false => exact ih h₁
    | true =>
      refine works_bind ((works_teeTuiDaemonWork hashLen .init h₁).mono fun initFlag o₂ h₂ => ?_)
      refine works_bind ((works_tuiDaemonClean h₂.1).mono fun _ o₃ h₃ => ?_)
      cases initFlag with
      | true => exact works_pure h₃
      | false => exact ih h₃

theorem works_handleEvent (event : Event) (h : Rest last o) :
    Works o (handleEvent hashLen event) fun _ o' =>
      Rest last o' ∧ (event = .unused → o'.own.get .tuiDaemonInit = false) := by
  cases event with
  | other => exact works_pure ⟨h, by simp⟩
  | config =>
    simp only [handleEvent, Prog.bind_eq, Prog.pure_eq]
    refine works_bind ((works_openLibrary h).mono fun opened o₁ h₁ => ?_)
    cases opened with
    | false => exact works_pure ⟨.inr h₁, by simp⟩
    | true =>
      refine works_bind ((works_teeTuiDaemonWork hashLen .tuiStart h₁).mono fun _ o₂ h₂ => ?_)
      exact works_pure ⟨.inl h₂.1, by simp⟩
  | unused =>
    simp only [handleEvent, act, Prog.bind_eq, Prog.pure_eq, Prog.bind_act, Prog.bind_pure]
    refine works_read (by simp [Field.inLibrary]) ?_
    rcases h with h | h
    · rw [if_pos h.tidy.func]
      refine works_bind ((works_teeTuiDaemonWork hashLen .tuiEnd h).mono fun _ o₁ h₁ => ?_)
      exact works_pure ⟨.inl h₁.1, fun _ => (h₁.2 rfl).tuiDaemonInit⟩
    · rw [h.get, if_neg Bool.false_ne_true]
      exact works_pure ⟨.inr h, fun _ => h.get _⟩

theorem Rest.getEvent {r : Option Event} (h : Rest last o) : Rest r (o.upd .getEvent r) := by
  rcases h with h | h
  · refine .inl ⟨?_, h.settled.imp (fun h => ⟨h.tuiDaemon, h.tuiDaemonInit⟩) fun h => ?_⟩
    · have ht := h.tidy
      exact ⟨ht.loaded, ht.func, ht.callBacks, ht.listeners, ht.listener, ht.held, ht.first, rfl⟩
    · exact ⟨h.tuiDaemon, h.tuiDaemonInit, h.callBack, h.listener, h.held, h.started⟩
  · exact .inr ⟨h.get, h.callBacks, h.listeners, h.ever, h.held, h.started, rfl⟩

theorem Rest.last_eq (h : Rest last o) : o.own.last = last := by
  rcases h with h | h
  · exact h.tidy.last
  · exact h.last

theorem works_handleEvents (rounds : Nat) (h : Rest last o)
    (hunused : last = some .unused → o.own.get .tuiDaemonInit = false) :
    Works o (handleEvents hashLen rounds) fun _ _ => True := by
  induction rounds generalizing o last with
  | zero => exact works_pure trivial
  | succ rounds ih =>
    simp only [handleEvents, act, Prog.bind_eq, Prog.bind_act, Prog.bind_pure]
    refine works_act ⟨h.last_eq.symm ▸ h, h.last_eq.symm ▸ hunused⟩ fun event _ => ?_
    cases event with
    | none => exact works_pure trivial
    | some event =>
      refine works_bind ((works_handleEvent hashLen event h.getEvent).mono fun _ o₁ h₁ => ?_)
      exact ih h₁.1 fun hevent => h₁.2 (Option.some.inj hevent)

theorem safe_teeTuiThreadWork (rounds : Nat) :
    SafeIf threads Pre Can waiting (teeTuiThreadWork hashLen rounds) fun _ _ => True := by
  simp only [teeTuiThreadWork, act, Prog.bind_eq, Prog.bind_act, Prog.bind_pure]
  refine ⟨rfl, fun _ _ => ?_⟩
  have hbegin : Unloaded none ⟨.init, false⟩ := ⟨fun _ => rfl, rfl, rfl, rfl, rfl, rfl, rfl⟩
  have hwork : Works ⟨.init, false⟩ ((tryInit hashLen (tuiInitRetryTimes + 1)).bind fun _ =>
      handleEvents hashLen rounds) fun _ _ => True :=
    works_bind ((works_tryInit hashLen _ hbegin).mono fun _ o₁ h₁ =>
      works_handleEvents hashLen rounds (.inr h₁) (by simp))
  exact SafeIf.mono hwork fun _ _ _ => trivial

end Programs

section Callbacks

variable (hashLen : Bool)

def calledBack : Local := ⟨none, true⟩

theorem safe_of_shared {α : Type} {p : Program α} (h : Prog.All (fun a => a.shared = true) p) :
    SafeIf threads Pre Can calledBack p fun _ _ => True := by
  induction p with
  | pure x => exact trivial
  | act a k ih =>
    obtain ⟨ha, hrest⟩ := h
    refine ⟨?_, fun r _ => ?_⟩
    · cases a
      case spawn | invoke => cases ha
      all_goals exact ⟨by simp [calledBack], fun _ => ⟨rfl, ha⟩⟩
    · have hupd : threads.upd calledBack a r = calledBack := by
        cases a
        case spawn | invoke => cases ha
        all_goals rfl
      rw [hupd]
      exact ih r (hrest r)

theorem shared_tuiSendCmd (e : TuiPoll) :
    Prog.All (fun a => a.shared = true) (tuiSendCmd hashLen e) := by
  have hsend : Prog.All (fun a => a.shared = true) (tuiSendTTFHashToTeeos hashLen) := by
    refine ⟨rfl, fun sent => Prog.All.ite trivial (Prog.All.ite ?_ trivial)⟩
    exact ⟨rfl, fun _ => Prog.All.ite ⟨rfl, fun _ => trivial⟩ trivial⟩
  exact hsend.bind fun _ => ⟨rfl, fun _ => trivial⟩

theorem safe_onFoldStatusChanged :
    SafeIf threads Pre Can waiting (onFoldStatusChanged hashLen) fun _ _ => True := by
  refine ⟨rfl, fun _ _ => safe_of_shared ⟨rfl, fun _ => ⟨rfl, fun pannelInfo => ?_⟩⟩⟩
  have hsend (e : TuiPoll) : Prog.All (fun a => a.shared = true)
      ((tuiSendCmd hashLen e).bind fun _ => .pure ()) :=
    (shared_tuiSendCmd hashLen e).bind fun _ => trivial
  have hcancel : Prog.All (fun a => a.shared = true) (Prog.act .readStatus fun status : Bool =>
      if status = true then (tuiSendCmd hashLen .cancel).bind fun _ => .pure () else .pure ()) :=
    ⟨rfl, fun _ => Prog.All.ite (hsend .cancel) trivial⟩
  cases pannelInfo with
  | true => exact (shared_tuiSendCmd hashLen .fold).bind fun _ => hcancel
  | false => exact hcancel

theorem safe_onCallDetailsChange (incoming : Bool) :
    SafeIf threads Pre Can waiting (onCallDetailsChange hashLen incoming) fun _ _ => True := by
  refine ⟨rfl, fun _ _ => safe_of_shared ?_⟩
  cases incoming with
  | false => exact trivial
  | true =>
    refine ⟨rfl, fun status => ?_⟩
    cases status with
    | false => exact trivial
    | true => exact ⟨rfl, fun _ => (shared_tuiSendCmd hashLen .cancel).bind fun _ => trivial⟩

end Callbacks

section Invariant

variable {s s' : State} {ls : List Local} {l l' : Local} {i j : Nat} {a : Act} {r : Resp a}
variable {e : Env} {o o' : Owner} {own : Own}

/-- Where something has been registered the library stays, and nothing is registered twice. -/
structure Sound (own : Own) : Prop where
  loaded : own.ever = true → own.get .dlHandle = true
  none : own.ever = false → own.listeners = 0 ∧ own.callBacks = 0
  listeners : own.listeners ≤ 1
  callBacks : own.callBacks ≤ 1

theorem loaded_of_permits (hp : o.Permits a) (ha : a.inLibrary = true) :
    o.own.get .dlHandle = true := by
  cases a
  case spawn | getEvent | dlopen | dlsym | dlclose => cases ha
  case invoke => exact hp.elim
  case read f => exact hp ha
  case write f b => exact hp.2 ha
  case registerCallBack | registerFoldStatusListener => exact hp.1
  all_goals exact hp

theorem ever_step (h : own.ever = true) : (own.step a r).ever = true := by
  cases a
  case dlopen | registerCallBack | unRegisterCallBack | registerFoldStatusListener |
      unregisterFoldStatusListener =>
    simp only [Own.step]
    split_ifs
    all_goals first | exact h | rfl
  all_goals exact h

theorem Sound.step (h : Sound o.own) (hp : o.Permits a) : Sound (o.own.step a r) := by
  cases a
  case spawn | invoke => exact hp.elim
  case write f b =>
    refine ⟨fun hever => ?_, h.none, h.listeners, h.callBacks⟩
    have hloaded := h.loaded hever
    simpa [Own.step, Own.set, Function.update_apply, hp.1.symm] using hloaded
  case tuiEventInit =>
    refine ⟨fun hever => ?_, h.none, h.listeners, h.callBacks⟩
    have hloaded := h.loaded hever
    simpa [Own.step, Own.set, Function.update_apply] using hloaded
  case dlopen =>
    cases r with
    | false => exact h
    | true => exact ⟨fun _ => rfl, h.none, h.listeners, h.callBacks⟩
  case dlclose =>
    have hever : o.own.ever = false := hp
    refine ⟨fun htrue => ?_, h.none, h.listeners, h.callBacks⟩
    cases hever.symm.trans htrue
  case registerCallBack =>
    obtain ⟨hloaded, hnone⟩ := hp
    cases r with
    | false => exact h
    | true => exact ⟨fun _ => hloaded, by simp [Own.step], h.listeners, by simp [Own.step, hnone]⟩
  case registerFoldStatusListener =>
    obtain ⟨hloaded, hnone⟩ := hp
    cases r with
    | false => exact h
    | true => exact ⟨fun _ => hloaded, by simp [Own.step], by simp [Own.step, hnone], h.callBacks⟩
  case unRegisterCallBack =>
    have hone := h.callBacks
    cases r with
    | false => exact h
    | true =>
      refine ⟨h.loaded, fun hever => ⟨(h.none hever).1, ?_⟩, h.listeners, ?_⟩
      · simp [Own.step, (h.none hever).2]
      · exact (Nat.sub_le _ _).trans hone
  case unregisterFoldStatusListener =>
    have hone := h.listeners
    cases r with
    | false => exact h
    | true =>
      refine ⟨h.loaded, fun hever => ⟨?_, (h.none hever).2⟩, ?_, h.callBacks⟩
      · simp [Own.step, (h.none hever).1]
      · exact (Nat.sub_le _ _).trans hone
  all_goals exact ⟨h.loaded, h.none, h.listeners, h.callBacks⟩

theorem nextStatus_mono {b b' : Bool} (h : b = true → b' = true) (ha : nextStatus b a r = true) :
    nextStatus b' a r = true := by
  cases a
  case setStatus | tuiEventInit => exact ha
  case dlopen =>
    simp only [nextStatus, Bool.and_eq_true] at ha ⊢
    exact ⟨h ha.1, ha.2⟩
  all_goals exact h ha

/-- The thread knows its variables, and nobody else sets `mTUIStatus` to true. -/
structure Inv (s : State) (ls : List Local) : Prop where
  sound : Sound s.own
  mirror : ∀ l ∈ ls, ∀ o, l.owner = some o → o.own = s.own ∧ (s.status = true → o.started = true)
  owners : total (fun l => l.owner.isSome.toNat) ls = s.spawned.toNat
  idle : s.spawned = false → s.own = .init ∧ s.status = false
  inside : ∀ l ∈ ls, l.inside = true → s.own.ever = true
  crashes : s.crashes = 0

theorem Inv.alone (h : Inv s ls) (hi : ls[i]? = some l) (hl : l.owner = some o) (hij : i ≠ j)
    (hj : ls[j]? = some l') : l'.owner = none := by
  by_contra hl'
  have hle := add_le_total (fun l => l.owner.isSome.toNat) hij hi hj
  have howners := h.owners
  have hbound := Bool.toNat_le s.spawned
  have hsome : l'.owner.isSome = true := Option.isSome_iff_ne_none.mpr hl'
  simp only [hl, hsome, Option.isSome_some, Bool.toNat_true] at hle
  omega

theorem exec_eq (h : s.exec e a = some (r, s')) : s.answer e a = some r ∧ s' = {
    spawned := s.spawned || a.isSpawn
    own := s.own.step a r
    status := nextStatus s.status a r
    sendHashSuccess := nextSendHashSuccess s.sendHashSuccess a r
    crashes := if a.inLibrary && !s.own.get .dlHandle then s.crashes + 1 else s.crashes } := by
  obtain ⟨r', hr', heq⟩ := Option.map_eq_some_iff.mp h
  obtain ⟨rfl, rfl⟩ := Prod.mk.inj heq
  exact ⟨hr', rfl⟩

theorem Inv.set (h : Inv s ls) (hi : ls[i]? = some l) (hsound : Sound s'.own)
    (hown : ∀ o, l'.owner = some o → o.own = s'.own ∧ (s'.status = true → o.started = true))
    (hothers : ∀ (j : Nat) (m : Local), i ≠ j → ls[j]? = some m → ∀ o, m.owner = some o →
      o.own = s'.own ∧ (s'.status = true → o.started = true))
    (howners : l'.owner.isSome.toNat + s.spawned.toNat =
      l.owner.isSome.toNat + s'.spawned.toNat)
    (hidle : s'.spawned = false → s'.own = .init ∧ s'.status = false)
    (hever : s.own.ever = true → s'.own.ever = true)
    (hinside : l'.inside = true → s'.own.ever = true) (hcrashes : s'.crashes = 0) :
    Inv s' (ls.set i l') := by
  have hlen := (List.getElem?_eq_some_iff.mp hi).1
  refine ⟨hsound, fun m hm => ?_, ?_, hidle, fun m hm hin => ?_, hcrashes⟩
  · obtain ⟨j, hj⟩ := List.mem_iff_getElem?.mp hm
    by_cases hij : i = j
    · subst hij
      rw [List.getElem?_set_self hlen] at hj
      exact Option.some.inj hj ▸ hown
    · rw [List.getElem?_set_ne hij] at hj
      exact hothers j m hij hj
  · have htotal := total_set (fun l => l.owner.isSome.toNat) hi l'
    have hbefore := h.owners
    omega
  · rcases List.mem_or_eq_of_mem_set hm with hm | rfl
    · exact hever (h.inside m hm hin)
    · exact hinside hin

theorem inv_owner (h : Inv s ls) (hi : ls[i]? = some l) (hl : l.owner = some o)
    (hpermits : o.Permits a) (hexec : s.exec e a = some (r, s')) :
    Inv s' (ls.set i { l with owner := some (o.upd a r) }) := by
  obtain ⟨-, rfl⟩ := exec_eq hexec
  obtain ⟨hmirror, hstarted⟩ := h.mirror l (List.mem_of_getElem? hi) o hl
  have hsound : Sound o.own := hmirror ▸ h.sound
  have hspawn : a.isSpawn = false := by
    cases a
    case spawn => exact hpermits.elim
    all_goals rfl
  have hspawned : s.spawned = true := by
    by_contra hs
    have hle := le_total (fun l => l.owner.isSome.toNat) (List.mem_of_getElem? hi)
    have howners := h.owners
    simp only [Bool.not_eq_true] at hs
    simp only [hl, Option.isSome_some, Bool.toNat_true] at hle
    simp only [hs, Bool.toNat_false] at howners
    omega
  refine h.set hi ?_ ?_ ?_ ?_ ?_ ever_step ?_ ?_
  · exact hmirror ▸ hsound.step hpermits
  · rintro o' ho'
    obtain rfl := Option.some.inj ho'
    exact ⟨congrArg (·.step a r) hmirror, nextStatus_mono hstarted⟩
  · intro j m hij hj o' ho'
    cases (h.alone hi hl hij hj).symm.trans ho'
  · simp [hl, hspawn]
  · simp [hspawned]
  · exact fun hin => ever_step (h.inside l (List.mem_of_getElem? hi) hin)
  · by_cases ha : a.inLibrary = true
    · have hloaded := loaded_of_permits hpermits ha
      rw [hmirror] at hloaded
      simp [hloaded, h.crashes]
    · simp [ha, h.crashes]

theorem inv_shared (h : Inv s ls) (hi : ls[i]? = some l) (hl : l.owner = none)
    (hin : l.inside = true) (ha : a.shared = true) (hexec : s.exec e a = some (r, s')) :
    Inv s' (ls.set i l) := by
  obtain ⟨-, rfl⟩ := exec_eq hexec
  have hever := h.inside l (List.mem_of_getElem? hi) hin
  have hloaded := h.sound.loaded hever
  have hown : s.own.step a r = s.own := by
    cases a
    case readStatus | setStatus | readSendHashSuccess | setSendHashSuccess | sendEventToTz |
      outcome => rfl
    all_goals cases ha
  have hstatus : nextStatus s.status a r = true → s.status = true := by
    intro hstatus
    cases a
    case setStatus b =>
      cases b with
      | false => cases hstatus
      | true => cases ha
    case readStatus | readSendHashSuccess | setSendHashSuccess | sendEventToTz | outcome =>
      exact hstatus
    all_goals cases ha
  have hspawn : a.isSpawn = false := by
    cases a
    case spawn => cases ha
    all_goals rfl
  refine h.set hi ?_ ?_ (fun j m hij hj o' ho' => ?_) ?_ ?_ ?_ ?_ ?_
  · exact hown.symm ▸ h.sound
  · simp [hl]
  · obtain ⟨hmirror, hstarted⟩ := h.mirror m (List.mem_of_getElem? hj) o' ho'
    exact ⟨hmirror.trans hown.symm, fun hs => hstarted (hstatus hs)⟩
  · simp [hspawn]
  · intro hspawned
    obtain ⟨hinit, hs⟩ := h.idle (Bool.or_eq_false_iff.mp hspawned).1
    exact ⟨hown.trans hinit, Bool.eq_false_iff.mpr fun htrue =>
      Bool.eq_false_iff.mp hs (hstatus htrue)⟩
  · exact fun hever => ever_step hever
  · exact fun _ => ever_step hever
  · simp [hloaded, h.crashes]

theorem inv_spawn {r : Unit} (h : Inv s ls) (hi : ls[i]? = some l) (hl : l = waiting)
    (hexec : s.exec e .spawn = some (r, s')) :
    Inv s' (ls.set i (ownerOf ⟨.init, false⟩)) := by
  obtain ⟨hanswer, rfl⟩ := exec_eq hexec
  have hspawned : s.spawned = false := by
    by_contra hs
    simp [State.answer, hs] at hanswer
  obtain ⟨hinit, hstatus⟩ := h.idle hspawned
  refine h.set hi h.sound ?_ (fun j m hij hj o' ho' => ?_) ?_ ?_ (fun hever => hever) ?_ ?_
  · rintro o' ho'
    obtain rfl := Option.some.inj ho'
    exact ⟨hinit.symm, fun hs => absurd hs (Bool.eq_false_iff.mp hstatus)⟩
  · have hle := le_total (fun l => l.owner.isSome.toNat) (List.mem_of_getElem? hj)
    have howners := h.owners
    simp only [ho', Option.isSome_some, Bool.toNat_true] at hle
    simp only [hspawned, Bool.toNat_false] at howners
    omega
  · simp [hl, hspawned, ownerOf, waiting, Act.isSpawn]
  · simp [Act.isSpawn]
  · simp [ownerOf]
  · simp [Act.inLibrary, h.crashes]

/-- The library calls back only where something is registered, so it is loaded. -/
theorem inv_invoke {c : Callback} {r : Unit} (h : Inv s ls) (hi : ls[i]? = some l)
    (hl : l = waiting) (hexec : s.exec e (.invoke c) = some (r, s')) :
    Inv s' (ls.set i { l with inside := true }) := by
  obtain ⟨hanswer, rfl⟩ := exec_eq hexec
  have hever : s.own.ever = true := by
    by_contra hnever
    obtain ⟨hlisteners, hcallBacks⟩ := h.sound.none (Bool.eq_false_iff.mpr hnever)
    cases c <;> simp [State.answer, hlisteners, hcallBacks] at hanswer
  have hloaded := h.sound.loaded hever
  refine h.set hi h.sound (by simp [hl, waiting])
    (fun j m _ hj => h.mirror m (List.mem_of_getElem? hj)) (by simp [Act.isSpawn]) ?_
    (fun hever => hever) (fun _ => hever) (by simp [hloaded, h.crashes])
  intro hspawned
  exact h.idle (Bool.or_eq_false_iff.mp hspawned).1

theorem inv_work (h : Inv s ls) (hi : ls[i]? = some l)
    (hpre : (∀ o, l.owner = some o → o.Permits a) ∧
      (l.owner = none → l.inside = true ∧ a.shared = true))
    (hexec : s.exec e a = some (r, s')) :
    Inv s' (ls.set i { l with owner := l.owner.map (·.upd a r) }) := by
  cases howner : l.owner with
  | none =>
    obtain ⟨hin, ha⟩ := hpre.2 howner
    have hsame : ({ l with owner := none } : Local) = l := by rw [← howner]
    rw [Option.map_none, hsame]
    exact inv_shared h hi howner hin ha hexec
  | some o => exact inv_owner h hi howner (hpre.1 o howner) hexec

theorem inv_step (h : Inv s ls) (hi : ls[i]? = some l) (hpre : Pre l a)
    (hexec : s.exec e a = some (r, s')) (hobliging : obliging s a r = true) :
    Can l a r ∧ Inv s' (ls.set i (l.upd a r)) := by
  cases a
  case spawn => exact ⟨trivial, inv_spawn h hi hpre hexec⟩
  case invoke c => exact ⟨trivial, inv_invoke h hi hpre hexec⟩
  case read f =>
    refine ⟨fun o ho => ?_, inv_work h hi hpre hexec⟩
    have hanswer := Option.some.inj (exec_eq hexec).1
    rw [(h.mirror l (List.mem_of_getElem? hi) o ho).1]
    exact hanswer.symm
  case dlsym =>
    refine ⟨fun hfunc => ?_, inv_work h hi hpre hexec⟩
    simpa [obliging, hfunc] using hobliging
  case unRegisterCallBack | unregisterFoldStatusListener =>
    refine ⟨fun hfails o ho => ?_, inv_work h hi hpre hexec⟩
    rw [(h.mirror l (List.mem_of_getElem? hi) o ho).1]
    simpa [obliging, hfails] using hobliging
  all_goals exact ⟨trivial, inv_work h hi hpre hexec⟩

end Invariant

section Runs

abbrev Threads := Config Act Resp State Local

def AnyThread (k : Call Act Resp Local) : Prop :=
  ∃ hashLen : Bool, (∃ rounds, k = ⟨waiting, teeTuiThreadWork hashLen rounds⟩) ∨
    k = ⟨waiting, onFoldStatusChanged hashLen⟩ ∨
    ∃ incoming, k = ⟨waiting, onCallDetailsChange hashLen incoming⟩

/-- One TUI thread and any number of callbacks, with a library that exports both functions or not
the first, and with services that unregister what is registered. -/
abbrev ThreadsReach (cfg : Threads) : Prop :=
  Reaches threads AnyThread (fun s _ _ a r => obliging s a r) .init cfg

theorem inv_reaches {cfg : Threads} (h : ThreadsReach cfg) :
    Inv cfg.state cfg.locs ∧
      ∀ k ∈ cfg.calls, SafeIf threads Pre Can k.loc k.prog fun _ _ => True := by
  refine Reaches.invariantIf ?_ (fun s ls k hk hinv => ?_) (fun k hk => ?_)
    (fun s ls i l a r s' hinv hi hpre hstep hobliging => ?_) h
  · exact ⟨⟨by simp [State.init, Own.init], by simp [State.init, Own.init],
      by simp [State.init, Own.init], by simp [State.init, Own.init]⟩, by simp,
      by simp [State.init], by simp [State.init], by simp, rfl⟩
  · have hloc : k.loc = waiting := by
      obtain ⟨hashLen, ⟨rounds, rfl⟩ | rfl | ⟨incoming, rfl⟩⟩ := hk
      all_goals rfl
    refine ⟨hinv.sound, fun l hl => ?_, ?_, hinv.idle, fun l hl => ?_, hinv.crashes⟩
    · rcases List.mem_append.mp hl with hl | hl
      · exact hinv.mirror l hl
      · obtain rfl := List.mem_singleton.mp hl
        simp [hloc, waiting]
    · simpa [hloc, waiting] using hinv.owners
    · rcases List.mem_append.mp hl with hl | hl
      · exact hinv.inside l hl
      · obtain rfl := List.mem_singleton.mp hl
        simp [hloc, waiting]
  · obtain ⟨hashLen, ⟨rounds, rfl⟩ | rfl | ⟨incoming, rfl⟩⟩ := hk
    · exact safe_teeTuiThreadWork hashLen rounds
    · exact safe_onFoldStatusChanged hashLen
    · exact safe_onCallDetailsChange hashLen incoming
  · obtain ⟨e, hexec⟩ := hstep
    exact inv_step hinv hi hpre hexec hobliging

structure Settled (s : State) : Prop where
  tuiDaemon : s.own.get .tuiDaemon = s.own.get .tuiDaemonInit
  callBacks : s.own.callBacks = (s.own.get .tuiCallBackRegisted).toNat
  listeners : s.own.listeners = (s.own.get .tuiDisplayListenerRegisted).toNat
  cleared : s.own.get .tuiDaemonInit = false →
    s.own.callBacks = 0 ∧ s.own.listeners = 0 ∧ s.own.held = false ∧ s.status = false
  unused : s.own.last = some .unused → s.own.get .tuiDaemonInit = false

/-- No code of the library runs while it is not loaded, and nothing is ever registered twice; when
the TUI thread waits, what is registered is what the flags say.  A library that is not initialised
then has nothing registered and no lock, and the event before was not `unused` if it is. -/
structure Attended (cfg : Threads) : Prop where
  crashes : cfg.state.crashes = 0
  listeners : cfg.state.own.listeners ≤ 1
  callBacks : cfg.state.own.callBacks ≤ 1
  waits : ∀ i l, cfg.Pending i l .getEvent → Settled cfg.state

theorem attended_reaches (cfg : Threads) (h : ThreadsReach cfg) : Attended cfg := by
  obtain ⟨hinv, hsafe⟩ := inv_reaches h
  refine ⟨hinv.crashes, hinv.sound.listeners, hinv.sound.callBacks, fun i l hpending => ?_⟩
  obtain ⟨k, hk⟩ := hpending
  have hmem := List.mem_of_getElem? hk
  have hpre : Pre l .getEvent := (hsafe _ hmem).1
  have hl : l ∈ cfg.locs := List.mem_map.mpr ⟨_, hmem, rfl⟩
  obtain ⟨o, ho⟩ : ∃ o, l.owner = some o := by
    cases howner : l.owner with
    | none => cases (hpre.2 howner).2
    | some o => exact ⟨o, rfl⟩
  obtain ⟨hmirror, hstarted⟩ := hinv.mirror l hl o ho
  obtain ⟨hrest, hunused⟩ := hpre.1 o ho
  have hstatus : o.started = false → cfg.state.status = false := fun hno =>
    Bool.eq_false_iff.mpr fun hs => Bool.eq_false_iff.mp hno (hstarted hs)
  rw [hmirror] at hunused
  rcases hrest with hloaded | hunloaded
  · have hcallBacks := hmirror ▸ hloaded.tidy.callBacks
    have hlisteners := hmirror ▸ hloaded.tidy.listeners
    have hlistener := hmirror ▸ hloaded.tidy.listener
    rcases hloaded.settled with hready | hcleared
    · have hinit := hmirror ▸ hready.tuiDaemonInit
      refine ⟨?_, hcallBacks, hlisteners, fun hno => ?_, hunused⟩
      · exact (hmirror ▸ hready.tuiDaemon).trans hinit.symm
      · cases hno.symm.trans hinit
    · have hinit := hmirror ▸ hcleared.tuiDaemonInit
      have hcallBack := hmirror ▸ hcleared.callBack
      refine ⟨(hmirror ▸ hcleared.tuiDaemon).trans hinit.symm, hcallBacks, hlisteners,
        fun _ => ⟨?_, ?_, hmirror ▸ hcleared.held, hstatus hcleared.started⟩, hunused⟩
      · rw [hcallBacks, hcallBack]
        rfl
      · have hno : cfg.state.own.get .tuiDisplayListenerRegisted = false :=
          Bool.eq_false_iff.mpr fun hyes =>
            Bool.eq_false_iff.mp (hmirror ▸ hcleared.listener) (hlistener hyes)
        rw [hlisteners, hno]
        rfl
  · have hget := hmirror ▸ hunloaded.get
    have hcallBacks := hmirror ▸ hunloaded.callBacks
    have hlisteners := hmirror ▸ hunloaded.listeners
    refine ⟨by rw [hget, hget], by rw [hcallBacks, hget]; rfl, by rw [hlisteners, hget]; rfl,
      fun _ => ⟨hcallBacks, hlisteners, hmirror ▸ hunloaded.held, hstatus hunloaded.started⟩,
      fun _ => hget _⟩

def phone : Threads :=
  ⟨.init, [⟨waiting, teeTuiThreadWork true 3⟩, ⟨waiting, onFoldStatusChanged true⟩,
    ⟨waiting, onCallDetailsChange true true⟩]⟩

def shown : List (Nat × Env) :=
  List.replicate 17 (0, ⟨true, true, none⟩) ++ List.replicate 33 (0, ⟨true, true, some .config⟩) ++
    List.replicate 4 (1, ⟨true, true, none⟩) ++ List.replicate 5 (2, ⟨true, true, none⟩)

def closed : List (Nat × Env) := List.replicate 16 (0, ⟨true, true, some .unused⟩)

theorem attended_phone : ∃ cfg cfg' : Threads, ThreadsReach cfg ∧ ThreadsReach cfg' ∧
    cfg.state.own.callBacks = 1 ∧ cfg.state.own.held = true ∧ cfg.state.status = false ∧
    cfg'.state.own.callBacks = 0 ∧ cfg'.state.own.held = false ∧ Attended cfg ∧ Attended cfg' := by
  have hrun : (replay threads (fun s _ _ a r => obliging s a r) shown phone).map
      (fun cfg => (cfg.state.own.callBacks, cfg.state.own.held, cfg.state.status)) =
        some (1, true, false) := by
    rfl
  have hrun' : (replay threads (fun s _ _ a r => obliging s a r) (shown ++ closed) phone).map
      (fun cfg => (cfg.state.own.callBacks, cfg.state.own.held)) = some (0, false) := by
    rfl
  have hbegin : ThreadsReach phone :=
    ((Reaches.init.start ⟨true, .inl ⟨3, rfl⟩⟩).start ⟨true, .inr (.inl rfl)⟩).start
      ⟨true, .inr (.inr ⟨true, rfl⟩)⟩
  obtain ⟨cfg, hreplay, hview⟩ := Option.map_eq_some_iff.mp hrun
  obtain ⟨hcallBacks, hview⟩ := Prod.mk.inj hview
  obtain ⟨hheld, hstatus⟩ := Prod.mk.inj hview
  obtain ⟨cfg', hreplay', hview'⟩ := Option.map_eq_some_iff.mp hrun'
  obtain ⟨hcallBacks', hheld'⟩ := Prod.mk.inj hview'
  have hreach := hbegin.replay shown hreplay
  have hreach' := hbegin.replay (shown ++ closed) hreplay'
  exact ⟨cfg, cfg', hreach, hreach', hcallBacks, hheld, hstatus, hcallBacks', hheld',
    attended_reaches cfg hreach, attended_reaches cfg' hreach'⟩

end Runs

end TeeClient.Tui.Daemon
