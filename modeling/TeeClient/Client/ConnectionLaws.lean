import Mathlib.Tactic
import TeeClient.Client.Connection

/-! What `mServiceValid` says, over whole runs: a connection that counts as valid has a service that
will notice the CA's death, but only the first service that is ever watched can be found dead, and
until then no call goes through a null pointer. -/

namespace TeeClient.Client.Connection

open Resumption

section Threads

/-- What a thread knows while it has `mServiceLock`: that the connection is not valid, that there is
no notifier yet, that there is one, that it has made it and not used it, that there is a service,
and that the service took the CA's own notice.  `ready` stays after the lock: the connection was
valid; `never` is set when a notifier is missed that was there. -/
structure Local where
  inside : Bool
  down : Bool
  free : Bool
  notifier : Bool
  fresh : Bool
  got : Bool
  called : Bool
  ready : Bool
  never : Bool

def outside : Local := ⟨false, false, false, false, false, false, false, false, false⟩

def Local.upd (l : Local) : (a : Act) → Resp a → Local
  | .lock, _ => { outside with inside := true }
  | .unlock, _ => { outside with ready := l.ready }
  | .readServiceValid, r =>
    if r then { l with notifier := true, ready := true } else { l with down := true }
  | .setServiceValid, _ => { l with down := false, free := false, ready := true }
  | .readDeathNotifier, r =>
    if r then { l with notifier := true }
    else { l with down := true, free := true, never := l.notifier }
  | .newDeathNotifier, r => { l with free := false, notifier := l.notifier || r, fresh := r }
  | .addDeathRecipient, _ => { l with fresh := false }
  | .getSystemAbility, r => { l with got := r, called := false }
  | .clearTeecService, _ => { l with got := false, called := false }
  | .readTeecService, r => { l with got := l.got || r }
  | .sendSetCallBack, r => { l with called := l.called || r }
  | .sendRequest, _ => { l with ready := false }
  | .readNotify, _ | .newNotify, _ | .getSystemAbilityManager, _ | .onRemoteDied _, _
  | .die _, _ | .publish, _ => l

def threads : Machine Act Resp State Bool Local where
  exec := State.exec
  upd := Local.upd

def Pre (l : Local) : Act → Prop
  | .lock => l = outside
  | .unlock => l.inside = true ∧ l.fresh = false
  | .readServiceValid | .readDeathNotifier | .readTeecService => l.inside = true
  | .sendSetCallBack => l.inside = true ∧ l.got = true
  | .setServiceValid => l.inside = true ∧ l.called = true ∧ l.notifier = true
  | .newDeathNotifier => l.inside = true ∧ l.free = true ∧ l.fresh = false
  | .addDeathRecipient => l.fresh = true ∧ (l.got = true ∨ l.never = true)
  | .getSystemAbility | .clearTeecService => l.inside = true ∧ l.down = true
  | .sendRequest => l.ready = true
  | .readNotify | .newNotify | .getSystemAbilityManager | .onRemoteDied _ | .die _
  | .publish => True

end Threads

section Invariant

variable {s s' : State} {ls : List Local} {l l' : Local} {i j : Nat} {a : Act} {r : Resp a}
variable {ok : Bool}

def Attached (s : State) : Prop :=
  s.mDeathNotifier = true ∧ ∃ service ∈ s.mTeecService, service ∈ s.accepted

structure Fits (s : State) (l : Local) : Prop where
  down : l.inside = true → l.down = true → s.mServiceValid = false
  free : l.inside = true → l.free = true → s.mDeathNotifier = false
  notifier : l.notifier = true → s.mDeathNotifier = true
  got : l.inside = true → l.got = true → s.mTeecService.isSome
  called : l.inside = true → l.called = true → ∃ service ∈ s.mTeecService, service ∈ s.accepted
  fresh : l.fresh = true → l.inside = true
  ready : l.ready = true → s.resets = 0 → s.mServiceValid = true
  never : l.never = false

structure Inv (s : State) (ls : List Local) : Prop where
  fits : ∀ l ∈ ls, Fits s l
  locked : total (fun l => l.inside.toNat) ls = s.locked.toNat
  attempts : s.attempts + total (fun l => l.fresh.toNat) ls ≤ s.mDeathNotifier.toNat
  watched : s.watched.length ≤ s.attempts
  noticed : s.noticed.Nodup ∧ ∀ service ∈ s.noticed, service ∈ s.watched
  resets : s.resets = s.noticed.length
  valid : s.mServiceValid = true → Attached s
  nullCalls : s.resets = 0 → s.nullCalls = 0

theorem Inv.alone (h : Inv s ls) (hi : ls[i]? = some l) (hl : l.inside = true) (hij : i ≠ j)
    (hj : ls[j]? = some l') : l'.inside = false := by
  by_contra hl'
  have hle := add_le_total (fun l => l.inside.toNat) hij hi hj
  have hlocked := h.locked
  have hbound := Bool.toNat_le s.locked
  simp only [hl, Bool.not_eq_false] at hle hl'
  simp only [hl', Bool.toNat_true] at hle
  omega

theorem Inv.locked_of_inside (h : Inv s ls) (hi : ls[i]? = some l) (hl : l.inside = true) :
    s.locked = true := by
  by_contra hs
  have hle := le_total (fun l => l.inside.toNat) (List.mem_of_getElem? hi)
  have hlocked := h.locked
  simp only [hl, Bool.toNat_true] at hle
  simp only [Bool.not_eq_true] at hs
  simp only [hs, Bool.toNat_false] at hlocked
  omega

end Invariant

section Steps

variable {s s' : State} {ls : List Local} {l l' : Local} {i j : Nat} {a : Act} {r : Resp a}
variable {ok : Bool}

def Told (s s' : State) : Prop :=
  (s'.mServiceValid = s.mServiceValid ∧ s'.noticed = s.noticed ∧ s'.resets = s.resets) ∨
    (∃ service ∈ s.watched, service ∉ s.noticed ∧ s'.noticed = service :: s.noticed) ∧
      s'.mServiceValid = false ∧ s'.resets = s.resets + 1

structure Kept (s s' : State) : Prop where
  notifier : s'.mDeathNotifier = s.mDeathNotifier
  service : s'.mTeecService = s.mTeecService
  accepted : ∀ x ∈ s.accepted, x ∈ s'.accepted
  dead : ∀ x ∈ s.dead, x ∈ s'.dead
  told : Told s s'

theorem Kept.of_eq (hnotifier : s'.mDeathNotifier = s.mDeathNotifier)
    (hservice : s'.mTeecService = s.mTeecService) (haccepted : s'.accepted = s.accepted)
    (hdead : s'.dead = s.dead) (htold : Told s s') : Kept s s' :=
  ⟨hnotifier, hservice, by simp [haccepted], by simp [hdead], htold⟩

theorem Kept.valid (h : Kept s s') (hvalid : s'.mServiceValid = true) :
    s.mServiceValid = true ∧ s'.noticed = s.noticed := by
  obtain ⟨hsame, hnoticed, -⟩ | ⟨-, hfalse, -⟩ := h.told
  · exact ⟨hsame.symm.trans hvalid, hnoticed⟩
  · rw [hfalse] at hvalid
    cases hvalid

theorem Kept.resets (h : Kept s s') (hresets : s'.resets = 0) :
    s.resets = 0 ∧ s'.mServiceValid = s.mServiceValid := by
  obtain ⟨hsame, -, heq⟩ | ⟨-, -, heq⟩ := h.told
  · exact ⟨heq.symm.trans hresets, hsame⟩
  · omega

def changes : Act → Bool
  | .setServiceValid | .newDeathNotifier | .getSystemAbility | .clearTeecService => true
  | _ => false

theorem kept_exec (h : s.exec ok a = some (r, s')) (ha : changes a = false) : Kept s s' := by
  cases a
  case setServiceValid | newDeathNotifier | getSystemAbility | clearTeecService => cases ha
  case lock =>
    simp only [State.exec] at h
    split_ifs at h
    obtain ⟨-, rfl⟩ := Prod.mk.inj (Option.some.inj h)
    exact Kept.of_eq rfl rfl rfl rfl (.inl ⟨rfl, rfl, rfl⟩)
  case addDeathRecipient =>
    simp only [State.exec] at h
    split at h
    · split_ifs at h
      all_goals
        obtain ⟨-, rfl⟩ := Prod.mk.inj (Option.some.inj h)
        exact Kept.of_eq rfl rfl rfl rfl (.inl ⟨rfl, rfl, rfl⟩)
    · obtain ⟨-, rfl⟩ := Prod.mk.inj (Option.some.inj h)
      exact Kept.of_eq rfl rfl rfl rfl (.inl ⟨rfl, rfl, rfl⟩)
  case sendSetCallBack =>
    simp only [State.exec] at h
    split at h
    · split_ifs at h
      all_goals obtain ⟨-, rfl⟩ := Prod.mk.inj (Option.some.inj h)
      · exact ⟨rfl, rfl, fun _ h => List.mem_cons_of_mem _ h, fun _ h => h, .inl ⟨rfl, rfl, rfl⟩⟩
      · exact Kept.of_eq rfl rfl rfl rfl (.inl ⟨rfl, rfl, rfl⟩)
    · obtain ⟨-, rfl⟩ := Prod.mk.inj (Option.some.inj h)
      exact Kept.of_eq rfl rfl rfl rfl (.inl ⟨rfl, rfl, rfl⟩)
  case sendRequest =>
    simp only [State.exec] at h
    split at h
    all_goals
      obtain ⟨-, rfl⟩ := Prod.mk.inj (Option.some.inj h)
      exact Kept.of_eq rfl rfl rfl rfl (.inl ⟨rfl, rfl, rfl⟩)
  case onRemoteDied service =>
    simp only [State.exec] at h
    split_ifs at h with hdied
    obtain ⟨hwatched, -, hnew⟩ := hdied
    obtain ⟨-, rfl⟩ := Prod.mk.inj (Option.some.inj h)
    exact Kept.of_eq rfl rfl rfl rfl (.inr ⟨⟨service, hwatched, hnew, rfl⟩, rfl, rfl⟩)
  case die service =>
    obtain ⟨-, rfl⟩ := Prod.mk.inj (Option.some.inj h)
    exact ⟨rfl, rfl, fun _ h => h, fun _ h => List.mem_cons_of_mem _ h, .inl ⟨rfl, rfl, rfl⟩⟩
  all_goals
    obtain ⟨-, rfl⟩ := Prod.mk.inj (Option.some.inj h)
    exact Kept.of_eq rfl rfl rfl rfl (.inl ⟨rfl, rfl, rfl⟩)

theorem Fits.of_kept (h : Fits s l) (hk : Kept s s') : Fits s' l where
  down hin hdown := Bool.eq_false_iff.mpr fun hvalid =>
    Bool.eq_false_iff.mp (h.down hin hdown) (hk.valid hvalid).1
  free hin hfree := hk.notifier.trans (h.free hin hfree)
  notifier hn := hk.notifier.trans (h.notifier hn)
  got hin hgot := hk.service ▸ h.got hin hgot
  called hin hcalled := by
    obtain ⟨service, hservice, haccepted⟩ := h.called hin hcalled
    exact ⟨service, hk.service ▸ hservice, hk.accepted _ haccepted⟩
  fresh := h.fresh
  ready hready hresets := by
    obtain ⟨hbefore, hsame⟩ := hk.resets hresets
    rw [hsame]
    exact h.ready hready hbefore
  never := h.never

theorem fits_outside : Fits s outside := by
  constructor <;> simp [outside]

theorem notifier_exec (h : s.exec ok a = some (r, s')) (hn : s.mDeathNotifier = true) :
    s'.mDeathNotifier = true := by
  by_cases ha : changes a = true
  · cases a
    case setServiceValid | newDeathNotifier | getSystemAbility | clearTeecService =>
      obtain ⟨rfl, rfl⟩ := Prod.mk.inj (Option.some.inj h)
      simp [hn]
    all_goals cases ha
  · rw [(kept_exec h (Bool.eq_false_iff.mpr ha)).notifier, hn]

theorem valid_exec (h : s.exec ok a = some (r, s')) (hresets : s'.resets = 0) :
    s.resets = 0 ∧ (s.mServiceValid = true → s'.mServiceValid = true) := by
  by_cases ha : changes a = true
  · cases a
    case setServiceValid | newDeathNotifier | getSystemAbility | clearTeecService =>
      obtain ⟨rfl, rfl⟩ := Prod.mk.inj (Option.some.inj h)
      exact ⟨hresets, by simp⟩
    all_goals cases ha
  · obtain ⟨hbefore, hsame⟩ := (kept_exec h (Bool.eq_false_iff.mpr ha)).resets hresets
    exact ⟨hbefore, fun hvalid => hsame.trans hvalid⟩

theorem Fits.of_outside (h : Fits s l) (hl : l.inside = false)
    (hexec : s.exec ok a = some (r, s')) : Fits s' l where
  down hin := absurd hin (by simp [hl])
  free hin := absurd hin (by simp [hl])
  notifier hn := notifier_exec hexec (h.notifier hn)
  got hin := absurd hin (by simp [hl])
  called hin := absurd hin (by simp [hl])
  fresh := h.fresh
  ready hready hresets := by
    obtain ⟨hbefore, hstays⟩ := valid_exec hexec hresets
    exact hstays (h.ready hready hbefore)
  never := h.never

theorem fits_own (h : Inv s ls) (hi : ls[i]? = some l) (hpre : Pre l a)
    (hexec : s.exec ok a = some (r, s')) : Fits s' (l.upd a r) := by
  have hl := h.fits l (List.mem_of_getElem? hi)
  cases a
  case setServiceValid =>
    obtain ⟨rfl, rfl⟩ := Prod.mk.inj (Option.some.inj hexec)
    exact ⟨by simp [Local.upd], by simp [Local.upd], hl.notifier, hl.got, hl.called, hl.fresh,
      fun _ _ => rfl, hl.never⟩
  case newDeathNotifier =>
    obtain ⟨hin, hfree, hfresh⟩ := hpre
    obtain ⟨rfl, rfl⟩ := Prod.mk.inj (Option.some.inj hexec)
    refine ⟨hl.down, by simp [Local.upd], fun hn => ?_, hl.got, hl.called, fun _ => hin, hl.ready,
      hl.never⟩
    rcases Bool.or_eq_true_iff.mp hn with hn | hn
    · exact Bool.or_eq_true_iff.mpr (.inl (hl.notifier hn))
    · exact Bool.or_eq_true_iff.mpr (.inr hn)
  case getSystemAbility =>
    obtain ⟨rfl, rfl⟩ := Prod.mk.inj (Option.some.inj hexec)
    exact ⟨hl.down, hl.free, hl.notifier, fun _ hgot => hgot, by simp [Local.upd], hl.fresh,
      hl.ready, hl.never⟩
  case clearTeecService =>
    obtain ⟨rfl, rfl⟩ := Prod.mk.inj (Option.some.inj hexec)
    exact ⟨hl.down, hl.free, hl.notifier, by simp [Local.upd], by simp [Local.upd], hl.fresh,
      hl.ready, hl.never⟩
  case lock =>
    have hk := kept_exec hexec rfl
    refine Fits.of_kept (s := s) ?_ hk
    constructor <;> simp [Local.upd, outside]
  case unlock =>
    have hl' := hl.of_kept (kept_exec hexec rfl)
    refine ⟨?_, ?_, ?_, ?_, ?_, ?_, hl'.ready, rfl⟩ <;> simp [Local.upd, outside]
  case readServiceValid =>
    obtain ⟨rfl, rfl⟩ := Prod.mk.inj (Option.some.inj hexec)
    by_cases hvalid : s.mServiceValid = true
    · simp only [Local.upd, hvalid, if_true]
      -- A connection that is valid has a notifier.
      exact ⟨hl.down, hl.free, fun _ => (h.valid hvalid).1, hl.got, hl.called, hl.fresh,
        fun _ _ => hvalid, hl.never⟩
    · simp only [Local.upd, hvalid, Bool.false_eq_true, if_false]
      exact ⟨fun _ _ => Bool.eq_false_iff.mpr hvalid, hl.free, hl.notifier, hl.got, hl.called,
        hl.fresh, hl.ready, hl.never⟩
  case readDeathNotifier =>
    obtain ⟨rfl, rfl⟩ := Prod.mk.inj (Option.some.inj hexec)
    by_cases hn : s.mDeathNotifier = true
    · simp only [Local.upd, hn, if_true]
      exact ⟨hl.down, hl.free, fun _ => hn, hl.got, hl.called, hl.fresh, hl.ready, hl.never⟩
    · simp only [Local.upd, hn, Bool.false_eq_true, if_false]
      refine ⟨fun _ _ => Bool.eq_false_iff.mpr fun hvalid => hn (h.valid hvalid).1,
        fun _ _ => Bool.eq_false_iff.mpr hn, hl.notifier, hl.got, hl.called, hl.fresh, hl.ready, ?_⟩
      exact Bool.eq_false_iff.mpr fun hnotifier => hn (hl.notifier hnotifier)
  case readTeecService =>
    obtain ⟨rfl, rfl⟩ := Prod.mk.inj (Option.some.inj hexec)
    refine ⟨hl.down, hl.free, hl.notifier, fun hin hgot => ?_, hl.called, hl.fresh, hl.ready,
      hl.never⟩
    rcases Bool.or_eq_true_iff.mp hgot with hgot | hr
    · exact hl.got hin hgot
    · exact hr
  case addDeathRecipient =>
    have hl' := hl.of_kept (kept_exec hexec rfl)
    exact ⟨hl'.down, hl'.free, hl'.notifier, hl'.got, hl'.called, by simp [Local.upd], hl'.ready,
      hl'.never⟩
  case sendSetCallBack =>
    have hl' := hl.of_kept (kept_exec hexec rfl)
    refine ⟨hl'.down, hl'.free, hl'.notifier, hl'.got, fun hin hcalled => ?_, hl'.fresh, hl'.ready,
      hl'.never⟩
    rcases Bool.or_eq_true_iff.mp hcalled with hcalled | hr
    · exact hl'.called hin hcalled
    · simp only [State.exec] at hexec
      split at hexec
      case h_1 service hservice =>
        split_ifs at hexec
        all_goals obtain ⟨rfl, rfl⟩ := Prod.mk.inj (Option.some.inj hexec)
        · exact ⟨service, hservice, List.mem_cons_self⟩
        · cases hr
      case h_2 =>
        obtain ⟨rfl, rfl⟩ := Prod.mk.inj (Option.some.inj hexec)
        cases hr
  case sendRequest =>
    have hl' := hl.of_kept (kept_exec hexec rfl)
    exact ⟨hl'.down, hl'.free, hl'.notifier, hl'.got, hl'.called, hl'.fresh, by simp [Local.upd],
      hl'.never⟩
  all_goals exact hl.of_kept (kept_exec hexec rfl)

theorem inside_of_changes (hpre : Pre l a) (ha : changes a = true) :
    l.inside = true := by
  cases a
  case setServiceValid | newDeathNotifier | getSystemAbility | clearTeecService => exact hpre.1
  all_goals cases ha

theorem fits_other (h : Inv s ls) (hi : ls[i]? = some l) (hpre : Pre l a)
    (hexec : s.exec ok a = some (r, s')) (hij : i ≠ j) (hj : ls[j]? = some l') : Fits s' l' := by
  have hl' := h.fits l' (List.mem_of_getElem? hj)
  by_cases ha : changes a = true
  · have hin := inside_of_changes hpre ha
    exact hl'.of_outside (h.alone hi hin hij hj) hexec
  · exact hl'.of_kept (kept_exec hexec (Bool.eq_false_iff.mpr ha))

structure Counted (s : State) (ls : List Local) : Prop where
  locked : total (fun l => l.inside.toNat) ls = s.locked.toNat
  attempts : s.attempts + total (fun l => l.fresh.toNat) ls ≤ s.mDeathNotifier.toNat
  watched : s.watched.length ≤ s.attempts
  noticed : s.noticed.Nodup ∧ ∀ service ∈ s.noticed, service ∈ s.watched
  resets : s.resets = s.noticed.length

theorem counted_set (h : Inv s ls) (hi : ls[i]? = some l)
    (hlocked : l'.inside.toNat + s.locked.toNat = l.inside.toNat + s'.locked.toNat)
    (hattempts : s'.attempts + l'.fresh.toNat + s.mDeathNotifier.toNat ≤
      s.attempts + l.fresh.toNat + s'.mDeathNotifier.toNat)
    (hwatched : s'.watched.length ≤ s'.attempts)
    (hnoticed : s'.noticed.Nodup ∧ ∀ service ∈ s'.noticed, service ∈ s'.watched)
    (hresets : s'.resets = s'.noticed.length) : Counted s' (ls.set i l') := by
  have hinside := total_set (fun l => l.inside.toNat) hi l'
  have hfresh := total_set (fun l => l.fresh.toNat) hi l'
  have hlocked' := h.locked
  have hattempts' := h.attempts
  exact ⟨by omega, by omega, hwatched, hnoticed, hresets⟩

theorem counted_same (h : Inv s ls) (hi : ls[i]? = some l) (hin : l'.inside = l.inside)
    (hfr : l'.fresh = l.fresh) (hlocked : s'.locked = s.locked)
    (hnotifier : s'.mDeathNotifier = s.mDeathNotifier)
    (hcounts : s'.attempts = s.attempts ∧ s'.watched = s.watched ∧ s'.noticed = s.noticed ∧
      s'.resets = s.resets) : Counted s' (ls.set i l') := by
  obtain ⟨hattempts, hwatched, hnoticed, hresets⟩ := hcounts
  refine counted_set h hi ?_ ?_ ?_ ?_ ?_
  · rw [hin, hlocked]
  · rw [hfr, hnotifier, hattempts]
  · rw [hwatched, hattempts]
    exact h.watched
  · rw [hnoticed, hwatched]
    exact h.noticed
  · rw [hnoticed, hresets]
    exact h.resets

theorem counted_step (h : Inv s ls) (hi : ls[i]? = some l) (hpre : Pre l a)
    (hexec : s.exec ok a = some (r, s')) : Counted s' (ls.set i (l.upd a r)) := by
  cases a
  case lock =>
    simp only [State.exec] at hexec
    split_ifs at hexec with hfree
    obtain ⟨-, rfl⟩ := Prod.mk.inj (Option.some.inj hexec)
    obtain rfl : l = outside := hpre
    exact counted_set h hi (by simp [hfree, Local.upd, outside]) le_rfl h.watched h.noticed h.resets
  case unlock =>
    obtain ⟨hin, hfr⟩ := hpre
    have hs := h.locked_of_inside hi hin
    obtain ⟨-, rfl⟩ := Prod.mk.inj (Option.some.inj hexec)
    refine counted_set h hi ?_ ?_ h.watched h.noticed h.resets
    · simp [hs, hin, Local.upd, outside]
    · simp [hfr, Local.upd, outside]
  case newDeathNotifier =>
    obtain ⟨hin, hfree, hfr⟩ := hpre
    have hnone := (h.fits l (List.mem_of_getElem? hi)).free hin hfree
    obtain ⟨rfl, rfl⟩ := Prod.mk.inj (Option.some.inj hexec)
    refine counted_set h hi rfl ?_ h.watched h.noticed h.resets
    simp [hnone, hfr, Local.upd]
  case addDeathRecipient =>
    have hfr : l.fresh = true := hpre.1
    have hnew : (l.upd .addDeathRecipient r).fresh = false := rfl
    simp only [State.exec] at hexec
    split at hexec
    case h_1 service hservice =>
      split_ifs at hexec
      all_goals obtain ⟨-, rfl⟩ := Prod.mk.inj (Option.some.inj hexec)
      · refine counted_set h hi rfl ?_ (Nat.succ_le_succ h.watched) ⟨h.noticed.1, ?_⟩ h.resets
        · simp [hfr, hnew]
        · exact fun x hx => List.mem_cons_of_mem _ (h.noticed.2 x hx)
      · refine counted_set h hi rfl ?_ (Nat.le_succ_of_le h.watched) h.noticed h.resets
        simp [hfr, hnew]
    case h_2 =>
      obtain ⟨-, rfl⟩ := Prod.mk.inj (Option.some.inj hexec)
      refine counted_set h hi rfl ?_ (Nat.le_succ_of_le h.watched) h.noticed h.resets
      simp [hfr, hnew]
  case onRemoteDied service =>
    simp only [State.exec] at hexec
    split_ifs at hexec with hdied
    obtain ⟨hwatched, -, hnew⟩ := hdied
    obtain ⟨-, rfl⟩ := Prod.mk.inj (Option.some.inj hexec)
    refine counted_set h hi rfl le_rfl h.watched ⟨List.nodup_cons.mpr ⟨hnew, h.noticed.1⟩, ?_⟩ ?_
    · exact List.forall_mem_cons.mpr ⟨hwatched, h.noticed.2⟩
    · simp [h.resets]
  case sendSetCallBack =>
    simp only [State.exec] at hexec
    split at hexec
    · split_ifs at hexec
      all_goals
        obtain ⟨-, rfl⟩ := Prod.mk.inj (Option.some.inj hexec)
        exact counted_same h hi rfl rfl rfl rfl ⟨rfl, rfl, rfl, rfl⟩
    · obtain ⟨-, rfl⟩ := Prod.mk.inj (Option.some.inj hexec)
      exact counted_same h hi rfl rfl rfl rfl ⟨rfl, rfl, rfl, rfl⟩
  case sendRequest =>
    simp only [State.exec] at hexec
    split at hexec
    all_goals
      obtain ⟨-, rfl⟩ := Prod.mk.inj (Option.some.inj hexec)
      exact counted_same h hi rfl rfl rfl rfl ⟨rfl, rfl, rfl, rfl⟩
  case readServiceValid | readDeathNotifier =>
    obtain ⟨-, rfl⟩ := Prod.mk.inj (Option.some.inj hexec)
    refine counted_same h hi ?_ ?_ rfl rfl ⟨rfl, rfl, rfl, rfl⟩
    all_goals
      simp only [Local.upd]
      split_ifs <;> rfl
  all_goals
    obtain ⟨-, rfl⟩ := Prod.mk.inj (Option.some.inj hexec)
    exact counted_same h hi rfl rfl rfl rfl ⟨rfl, rfl, rfl, rfl⟩

theorem valid_step (h : Inv s ls) (hi : ls[i]? = some l) (hpre : Pre l a)
    (hexec : s.exec ok a = some (r, s')) (hvalid : s'.mServiceValid = true) : Attached s' := by
  have hl := h.fits l (List.mem_of_getElem? hi)
  by_cases ha : changes a = true
  · cases a
    case setServiceValid =>
      obtain ⟨hin, hcalled, hnotifier⟩ := hpre
      obtain ⟨-, rfl⟩ := Prod.mk.inj (Option.some.inj hexec)
      exact ⟨hl.notifier hnotifier, hl.called hin hcalled⟩
    case newDeathNotifier =>
      obtain ⟨hin, hfree, -⟩ := hpre
      obtain ⟨-, rfl⟩ := Prod.mk.inj (Option.some.inj hexec)
      have hnone := hl.free hin hfree
      rw [(h.valid hvalid).1] at hnone
      cases hnone
    case getSystemAbility | clearTeecService =>
      obtain ⟨hin, hdown⟩ := hpre
      obtain ⟨-, rfl⟩ := Prod.mk.inj (Option.some.inj hexec)
      have hnot := hl.down hin hdown
      rw [hvalid] at hnot
      cases hnot
    all_goals cases ha
  · have hk := kept_exec hexec (Bool.eq_false_iff.mpr ha)
    obtain ⟨hnotifier, service, hservice, haccepted⟩ := h.valid (hk.valid hvalid).1
    exact ⟨hk.notifier.trans hnotifier, service, hk.service ▸ hservice, hk.accepted _ haccepted⟩

def calls : Act → Bool
  | .addDeathRecipient | .sendSetCallBack | .sendRequest => true
  | _ => false

theorem nullCalls_exec (h : s.exec ok a = some (r, s'))
    (hsome : calls a = true → s.mTeecService.isSome) : s'.nullCalls = s.nullCalls := by
  cases a
  case addDeathRecipient | sendSetCallBack | sendRequest =>
    obtain ⟨service, hservice⟩ := Option.isSome_iff_exists.mp (hsome rfl)
    simp only [State.exec, hservice] at h
    first
      | obtain ⟨-, rfl⟩ := Prod.mk.inj (Option.some.inj h)
        rfl
      | split_ifs at h
        all_goals
          obtain ⟨-, rfl⟩ := Prod.mk.inj (Option.some.inj h)
          rfl
  case lock | onRemoteDied =>
    simp only [State.exec] at h
    split_ifs at h
    obtain ⟨-, rfl⟩ := Prod.mk.inj (Option.some.inj h)
    rfl
  all_goals
    obtain ⟨-, rfl⟩ := Prod.mk.inj (Option.some.inj h)
    rfl

/-- Until the first death is announced, a thread that calls the service has one. -/
theorem service_of_calls (h : Inv s ls) (hi : ls[i]? = some l) (hpre : Pre l a)
    (hresets : s.resets = 0) (ha : calls a = true) : s.mTeecService.isSome := by
  have hl := h.fits l (List.mem_of_getElem? hi)
  cases a
  case addDeathRecipient =>
    obtain ⟨hfresh, hgot | hnever⟩ := hpre
    · exact hl.got (hl.fresh hfresh) hgot
    · rw [hl.never] at hnever
      cases hnever
  case sendSetCallBack => exact hl.got hpre.1 hpre.2
  case sendRequest =>
    obtain ⟨-, service, hservice, -⟩ := h.valid (hl.ready hpre hresets)
    exact Option.isSome_of_mem hservice
  all_goals cases ha

theorem inv_step (h : Inv s ls) (hi : ls[i]? = some l) (hpre : Pre l a)
    (hexec : s.exec ok a = some (r, s')) : Inv s' (ls.set i (l.upd a r)) := by
  obtain ⟨hlocked, hattempts, hwatched, hnoticed, hresets⟩ := counted_step h hi hpre hexec
  refine ⟨fun l' hl' => ?_, hlocked, hattempts, hwatched, hnoticed, hresets, fun hvalid =>
    valid_step h hi hpre hexec hvalid, fun hzero => ?_⟩
  · obtain ⟨j, hj⟩ := List.mem_iff_getElem?.mp hl'
    by_cases hij : i = j
    · subst hij
      rw [List.getElem?_set_self (List.getElem?_eq_some_iff.mp hi).1] at hj
      obtain rfl := Option.some.inj hj
      exact fits_own h hi hpre hexec
    · rw [List.getElem?_set_ne hij] at hj
      exact fits_other h hi hpre hexec hij hj
  · have hbefore := (valid_exec hexec hzero).1
    rw [nullCalls_exec hexec (service_of_calls h hi hpre hbefore)]
    exact h.nullCalls hbefore

end Steps

section Programs

variable {l : Local}

theorem safe_addCaDeathRecipient (hin : l.inside = true) (hfresh : l.fresh = false)
    (hgot : l.got = true ∨ l.notifier = true) :
    Safe threads Pre l addCaDeathRecipient fun added l' => l'.inside = true ∧ l'.fresh = false ∧
      (l.down = true → l'.down = true) ∧ l'.ready = l.ready ∧
      (added = true → l'.notifier = true) := by
  simp only [addCaDeathRecipient, act, Prog.bind_eq, Prog.pure_eq, Prog.bind_act, Prog.bind_pure]
  refine ⟨hin, fun notifier => ?_⟩
  cases notifier with
  | true => exact ⟨hin, hfresh, fun h => h, rfl, fun _ => rfl⟩
  | false =>
    refine ⟨⟨hin, rfl, hfresh⟩, fun created => ?_⟩
    cases created with
    | false => exact ⟨⟨hin, rfl⟩, fun _ => ⟨hin, rfl, fun _ => rfl, rfl, by simp⟩⟩
    | true =>
      refine ⟨⟨rfl, hgot⟩, fun added => ?_⟩
      cases added with
      | true => exact ⟨hin, rfl, fun _ => rfl, rfl, fun _ => Bool.or_true _⟩
      | false => exact ⟨⟨hin, rfl⟩, fun _ => ⟨hin, rfl, fun _ => rfl, rfl, by simp⟩⟩

theorem safe_setCallBack (hin : l.inside = true) :
    Safe threads Pre l setCallBack fun result l' => l'.inside = l.inside ∧ l'.fresh = l.fresh ∧
      l'.down = l.down ∧ l'.notifier = l.notifier ∧ (result = true → l'.called = true) := by
  simp only [setCallBack, act, Prog.bind_eq, Prog.pure_eq, Prog.bind_act, Prog.bind_pure]
  refine ⟨trivial, fun notify => ⟨hin, fun service => ?_⟩⟩
  dsimp only
  split_ifs with hboth
  · have hgot : (l.got || service) = true :=
      Bool.or_eq_true_iff.mpr (.inr (Bool.and_eq_true_iff.mp hboth).2)
    refine ⟨⟨hin, hgot⟩, fun result => ⟨rfl, rfl, rfl, rfl, ?_⟩⟩
    rintro rfl
    exact Bool.or_true _
  · exact ⟨rfl, rfl, rfl, rfl, by simp⟩

theorem safe_connect (hin : l.inside = true) (hfresh : l.fresh = false) (hdown : l.down = true) :
    Safe threads Pre l connect fun ret l' => l'.inside = true ∧ l'.fresh = false ∧
      (ret = true → l'.ready = true) := by
  simp only [connect, act, Prog.bind_eq, Prog.pure_eq, Prog.bind_act, Prog.bind_pure]
  refine ⟨trivial, fun manager => ?_⟩
  cases manager with
  | false => exact ⟨hin, hfresh, by simp⟩
  | true =>
    refine ⟨⟨hin, hdown⟩, fun service => ?_⟩
    cases service with
    | false => exact ⟨hin, hfresh, by simp⟩
    | true =>
      have hadd := safe_addCaDeathRecipient (l := { l with got := true, called := false }) hin
        hfresh (.inl rfl)
      refine safe_bind.mpr (hadd.mono fun added l₁ h₁ => ?_)
      obtain ⟨hin₁, hfresh₁, hdown₁, -, hnotifier₁⟩ := h₁
      cases added with
      | false => exact ⟨hin₁, hfresh₁, by simp⟩
      | true =>
        refine safe_bind.mpr ((safe_setCallBack hin₁).mono fun result l₂ h₂ => ?_)
        obtain ⟨hin₂, hfresh₂, hdown₂, hnotifier₂, hcalled⟩ := h₂
        cases result with
        | false =>
          exact ⟨⟨hin₂.trans hin₁, hdown₂.trans (hdown₁ hdown)⟩, fun _ =>
            ⟨hin₂.trans hin₁, hfresh₂.trans hfresh₁, by simp⟩⟩
        | true =>
          exact ⟨⟨hin₂.trans hin₁, hcalled rfl, hnotifier₂.trans (hnotifier₁ rfl)⟩, fun _ =>
            ⟨hin₂.trans hin₁, hfresh₂.trans hfresh₁, fun _ => rfl⟩⟩

theorem safe_initLocked (hin : l.inside = true) (hfresh : l.fresh = false) :
    Safe threads Pre l initLocked fun ret l' => l'.inside = true ∧ l'.fresh = false ∧
      (ret = true → l'.ready = true) := by
  simp only [initLocked, act, Prog.bind_eq, Prog.pure_eq, Prog.bind_act, Prog.bind_pure]
  refine ⟨hin, fun valid => ?_⟩
  cases valid with
  | true =>
    have hadd := safe_addCaDeathRecipient (l := { l with notifier := true, ready := true }) hin
      hfresh (.inr rfl)
    refine safe_bind.mpr (hadd.mono fun added l' h => ?_)
    obtain ⟨hin', hfresh', -, hready, -⟩ := h
    exact ⟨hin', hfresh', fun _ => hready⟩
  | false =>
    refine ⟨trivial, fun notify => ?_⟩
    cases notify with
    | true => exact safe_connect hin hfresh rfl
    | false =>
      refine ⟨trivial, fun created => ?_⟩
      cases created with
      | true => exact safe_connect hin hfresh rfl
      | false => exact ⟨hin, hfresh, by simp⟩

theorem safe_request : Safe threads Pre outside request fun _ _ => True := by
  simp only [request, initTeecService, act, Prog.bind_eq, Prog.pure_eq, Prog.bind_act,
    Prog.bind_pure]
  refine ⟨rfl, fun _ => safe_bind.mpr ?_⟩
  refine safe_bind.mpr ((safe_initLocked rfl rfl).mono fun ret l' h => ?_)
  obtain ⟨hin, hfresh, hready⟩ := h
  refine ⟨⟨hin, hfresh⟩, fun _ => ?_⟩
  cases ret with
  | true => exact ⟨hready rfl, fun _ => trivial⟩
  | false => exact trivial

end Programs

section Runs

def AnyStep (k : Call Act Resp Local) : Prop :=
  k = ⟨outside, request⟩ ∨ ∃ a : Act, (a = .publish ∨ ∃ x, a = .die x ∨ a = .onRemoteDied x) ∧
    k = ⟨outside, .act a fun _ => .pure ()⟩

abbrev Connections := Config Act Resp State Local

abbrev ConnectionReaches (meets : State → Act → Bool) (cfg : Connections) : Prop :=
  Reaches threads AnyStep (fun s _ _ a _ => meets s a) .init cfg

theorem inv_safe {meets : State → Act → Bool} {P : State → Prop} (hinit : P .init)
    (hstep : ∀ (s : State) (ls : List Local) (i : Nat) (l : Local) (a : Act) (r : Resp a)
      (s' : State), Inv s ls → ls[i]? = some l → Pre l a → threads.step s a r s' →
      meets s a = true → P s → P s') {cfg : Connections} (h : ConnectionReaches meets cfg) :
    (Inv cfg.state cfg.locs ∧ P cfg.state) ∧
      ∀ k ∈ cfg.calls, Safe threads Pre k.loc k.prog fun _ _ => True := by
  have hsafe : ∀ k : Call Act Resp Local, AnyStep k →
      Safe threads Pre k.loc k.prog fun _ _ => True := by
    rintro k (rfl | ⟨a, ha, rfl⟩)
    · exact safe_request
    · rcases ha with rfl | ⟨x, rfl | rfl⟩
      all_goals exact ⟨trivial, fun _ => trivial⟩
  refine Reaches.invariant (I := fun s ls => Inv s ls ∧ P s) ⟨?_, hinit⟩
    (fun s ls k hk hI => ⟨?_, hI.2⟩) hsafe
    (fun s ls i l a r s' hI hi hpre hexec hmeets => ⟨?_, ?_⟩) h
  · constructor <;> simp [State.init]
  · have hloc : k.loc = outside := by rcases hk with rfl | ⟨a, -, rfl⟩ <;> rfl
    obtain ⟨hinv, -⟩ := hI
    rw [hloc]
    refine ⟨fun l hl => ?_, ?_, ?_, hinv.watched, hinv.noticed, hinv.resets, hinv.valid,
      hinv.nullCalls⟩
    · rcases List.mem_append.mp hl with hl | hl
      · exact hinv.fits l hl
      · rw [List.mem_singleton.mp hl]
        exact fits_outside
    · simpa [outside] using hinv.locked
    · simpa [outside] using hinv.attempts
  · obtain ⟨ok, hok⟩ := hexec
    exact inv_step hI.1 hi hpre hok
  · exact hstep s ls i l a r s' hI.1 hi hpre hexec hmeets hI.2

/-- A connection that counts as valid is to a service that has taken the CA's notice.  The client
asks once in its life to be told of a death, and is told of one at most; until then no call goes
through a null pointer. -/
structure Connected (s : State) : Prop where
  attached : s.mServiceValid = true → Attached s
  attempts : s.attempts ≤ 1
  watched : s.watched.length ≤ 1
  noticed : ∀ service ∈ s.noticed, service ∈ s.watched
  resets : s.resets ≤ 1
  nullCalls : s.noticed = [] → s.nullCalls = 0

theorem connected_reaches (cfg : Connections) (h : ConnectionReaches (fun _ _ => true) cfg) :
    Connected cfg.state := by
  obtain ⟨⟨hinv, -⟩, -⟩ := inv_safe (P := fun _ => True) trivial (by simp) h
  have hattempts : cfg.state.attempts ≤ 1 := by
    have hle := hinv.attempts
    have hone := Bool.toNat_le cfg.state.mDeathNotifier
    omega
  have hwatched := hinv.watched.trans hattempts
  have hsub : cfg.state.noticed.length ≤ cfg.state.watched.length :=
    (hinv.noticed.1.subperm hinv.noticed.2).length_le
  refine ⟨hinv.valid, hattempts, hwatched, hinv.noticed.2, ?_, fun hnone => hinv.nullCalls ?_⟩
  · rw [hinv.resets]
    omega
  · rw [hinv.resets, hnone]
    rfl

def twoServices : Connections :=
  ⟨.init, [⟨outside, .act .publish fun _ => .pure ()⟩, ⟨outside, request⟩,
    ⟨outside, .act (.die 0) fun _ => .pure ()⟩,
    ⟨outside, .act (.onRemoteDied 0) fun _ => .pure ()⟩,
    ⟨outside, .act .publish fun _ => .pure ()⟩, ⟨outside, request⟩,
    ⟨outside, .act (.die 1) fun _ => .pure ()⟩]⟩

def inTurn : List (Nat × Bool) :=
  (0, true) :: List.replicate 15 (1, true) ++ [(2, true), (3, true), (4, true)] ++
    List.replicate 12 (5, true) ++ [(6, true)]

def State.view (s : State) : Bool × Option Nat × List Nat × List Nat :=
  (s.mServiceValid, s.mTeecService, s.noticed, s.dead)

theorem reaches_twoServices (meets : State → Act → Bool)
    (hrun : (replay threads (fun s _ _ a _ => meets s a) inTurn twoServices).map
      (fun cfg => cfg.state.view) = some (true, some 1, [0], [1, 0])) :
    ∃ cfg : Connections, ConnectionReaches meets cfg ∧
      cfg.state.view = (true, some 1, [0], [1, 0]) := by
  have happens (a : Act) (ha : a = .publish ∨ ∃ x, a = .die x ∨ a = .onRemoteDied x) :
      AnyStep ⟨outside, .act a fun _ => .pure ()⟩ := .inr ⟨a, ha, rfl⟩
  have hbegin : ConnectionReaches meets twoServices :=
    ((((((Reaches.init.start (happens .publish (.inl rfl))).start (.inl rfl)).start
      (happens (.die 0) (.inr ⟨0, .inl rfl⟩))).start
      (happens (.onRemoteDied 0) (.inr ⟨0, .inr rfl⟩))).start
      (happens .publish (.inl rfl))).start (.inl rfl)).start
      (happens (.die 1) (.inr ⟨1, .inl rfl⟩))
  obtain ⟨cfg, hreplay, hview⟩ := Option.map_eq_some_iff.mp hrun
  exact ⟨cfg, hbegin.replay inTurn hreplay, hview⟩

theorem connected_twoServices : ∃ cfg : Connections, ConnectionReaches (fun _ _ => true) cfg ∧
    cfg.state.view = (true, some 1, [0], [1, 0]) ∧ Connected cfg.state := by
  obtain ⟨cfg, hreach, hview⟩ := reaches_twoServices (fun _ _ => true) (by rfl)
  exact ⟨cfg, hreach, hview, connected_reaches cfg hreach⟩

theorem Inv.told_once {s : State} {ls : List Local} (h : Inv s ls) (hnoticed : s.noticed ≠ []) :
    ∀ service ∈ s.watched, service ∈ s.noticed := by
  intro service hservice
  by_contra hnew
  have hattempts := h.attempts
  have hone := Bool.toNat_le s.mDeathNotifier
  have hwatched := h.watched
  have hnodup : (service :: s.noticed).Nodup := List.nodup_cons.mpr ⟨hnew, h.noticed.1⟩
  have hsub : (service :: s.noticed).length ≤ s.watched.length :=
    (hnodup.subperm (List.forall_mem_cons.mpr ⟨hservice, h.noticed.2⟩)).length_le
  have hpos := List.length_pos_iff.mpr hnoticed
  simp only [List.length_cons] at hsub
  omega

/-- The connection counts as valid, and the death of a service was announced before. -/
structure Settled (service : Option Nat) (noticed : List Nat) (dead : List Nat) (s : State) :
    Prop where
  valid : s.mServiceValid = true
  service : s.mTeecService = service
  noticed : s.noticed = noticed
  dead : ∀ x ∈ dead, x ∈ s.dead

theorem settled_exec {s s' : State} {ls : List Local} {i : Nat} {l : Local} {a : Act} {r : Resp a}
    {ok : Bool} {service : Option Nat} {noticed dead : List Nat} (hne : noticed ≠ [])
    (hinv : Inv s ls) (h : Settled service noticed dead s) (hi : ls[i]? = some l) (hpre : Pre l a)
    (hexec : s.exec ok a = some (r, s')) : Settled service noticed dead s' := by
  have hl := hinv.fits l (List.mem_of_getElem? hi)
  by_cases ha : changes a = true
  · cases a
    case setServiceValid | newDeathNotifier =>
      obtain ⟨-, rfl⟩ := Prod.mk.inj (Option.some.inj hexec)
      exact ⟨by simp [h.valid], h.service, h.noticed, h.dead⟩
    case getSystemAbility | clearTeecService =>
      obtain ⟨hin, hdown⟩ := hpre
      exact absurd h.valid (Bool.eq_false_iff.mp (hl.down hin hdown))
    all_goals cases ha
  · have hk := kept_exec hexec (Bool.eq_false_iff.mpr ha)
    obtain ⟨hvalid, hnoticed, -⟩ | ⟨⟨x, hx, hnew, -⟩, -⟩ := hk.told
    · exact ⟨hvalid.trans h.valid, hk.service.trans h.service, hnoticed.trans h.noticed,
        fun y hy => hk.dead y (h.dead y hy)⟩
    · exact absurd (hinv.told_once (h.noticed ▸ hne) x hx) hnew

/-- After the first announced death the next valid connection is for ever: it stays valid, and to
the same service, and once that one is dead every request is sent to it in vain. -/
theorem settled_continues (cfg cfg' : Connections)
    (h : ConnectionReaches (fun _ _ => true) cfg) (hnoticed : cfg.state.noticed ≠ [])
    (hvalid : cfg.state.mServiceValid = true)
    (hlater : Continues threads AnyStep (fun _ _ _ _ _ => true) cfg cfg') :
    Settled cfg.state.mTeecService cfg.state.noticed cfg.state.dead cfg'.state ∧
      ((∃ service ∈ cfg.state.mTeecService, service ∈ cfg.state.dead) → ∀ (ok : Bool) (s : State),
        cfg'.state.exec ok .sendRequest ≠ some (true, s)) := by
  have hsettled : Settled cfg.state.mTeecService cfg.state.noticed cfg.state.dead cfg'.state := by
    refine hlater.invariant (I := fun s ls => Inv s ls ∧ True) (J := fun s _ =>
      Settled cfg.state.mTeecService cfg.state.noticed cfg.state.dead s) h
      (fun c hc => inv_safe (P := fun _ => True) trivial (by simp) hc)
      ⟨hvalid, rfl, rfl, fun _ hx => hx⟩ (fun s ls k _ hs => hs) ?_
    rintro s ls i l a r s' hI hs hi hpre ⟨ok, hexec⟩ -
    exact settled_exec hnoticed hI.1 hs hi hpre hexec
  refine ⟨hsettled, ?_⟩
  rintro ⟨service, hservice, hdead⟩ ok s hexec
  have hsome : cfg'.state.mTeecService = some service := hsettled.service.trans hservice
  simp only [State.exec, hsome] at hexec
  have hboth := Bool.and_eq_true_iff.mp (Prod.mk.inj (Option.some.inj hexec)).1
  exact of_decide_eq_true hboth.2 (hsettled.dead service hdead)

theorem settled_twoServices : ∃ cfg cfg' : Connections,
    ConnectionReaches (fun _ _ => true) cfg ∧ cfg.state.view = (true, some 1, [0], [1, 0]) ∧
      cfg'.calls.length = cfg.calls.length + 1 ∧ Settled (some 1) [0] [1, 0] cfg'.state ∧
      ∀ (ok : Bool) (s : State), cfg'.state.exec ok .sendRequest ≠ some (true, s) := by
  obtain ⟨cfg, hreach, hview⟩ := reaches_twoServices (fun _ _ => true) (by rfl)
  have hlater : Continues threads AnyStep (fun _ _ _ _ _ => true) cfg
      { cfg with calls := cfg.calls ++ [⟨outside, request⟩] } := Continues.refl.start (.inl rfl)
  obtain ⟨hvalid, hservice, hnoticed, hdead⟩ : cfg.state.mServiceValid = true ∧
      cfg.state.mTeecService = some 1 ∧ cfg.state.noticed = [0] ∧ cfg.state.dead = [1, 0] := by
    simpa [State.view] using hview
  obtain ⟨hsettled, hvain⟩ := settled_continues cfg _ hreach (by simp [hnoticed]) hvalid hlater
  rw [hservice, hnoticed, hdead] at hsettled
  exact ⟨cfg, _, hreach, hview, by simp, hsettled, hvain ⟨1, hservice, by simp [hdead]⟩⟩

/-- No death is announced between `SET_CALL_BACK` and `mServiceValid = true`. -/
def inTime (s : State) : Act → Bool
  | .setServiceValid => s.mTeecService.all fun service => decide (service ∉ s.noticed)
  | _ => true

/-- In such a run a connection that counts as valid is to a service of which no death was
announced. -/
theorem unannounced_reaches (cfg : Connections) (h : ConnectionReaches inTime cfg)
    (hvalid : cfg.state.mServiceValid = true) :
    ∃ service ∈ cfg.state.mTeecService, service ∈ cfg.state.accepted ∧
      service ∉ cfg.state.noticed := by
  have hP := inv_safe (P := fun s => s.mServiceValid = true →
    ∀ service ∈ s.mTeecService, service ∉ s.noticed) (by simp [State.init]) ?_ h
  · obtain ⟨⟨hinv, hnot⟩, -⟩ := hP
    obtain ⟨-, service, hservice, haccepted⟩ := hinv.valid hvalid
    exact ⟨service, hservice, haccepted, hnot hvalid service hservice⟩
  · rintro s ls i l a r s' hinv hi hpre ⟨ok, hexec⟩ hmeets hbefore hvalid' service hservice
    have hl := hinv.fits l (List.mem_of_getElem? hi)
    by_cases ha : changes a = true
    · cases a
      case setServiceValid =>
        obtain ⟨-, rfl⟩ := Prod.mk.inj (Option.some.inj hexec)
        have hall := Option.all_eq_true _ _ |>.mp hmeets service hservice
        exact of_decide_eq_true hall
      case newDeathNotifier =>
        obtain ⟨-, rfl⟩ := Prod.mk.inj (Option.some.inj hexec)
        exact hbefore hvalid' service hservice
      case getSystemAbility | clearTeecService =>
        obtain ⟨hin, hdown⟩ := hpre
        obtain ⟨-, rfl⟩ := Prod.mk.inj (Option.some.inj hexec)
        exact absurd hvalid' (Bool.eq_false_iff.mp (hl.down hin hdown))
      all_goals cases ha
    · have hk := kept_exec hexec (Bool.eq_false_iff.mpr ha)
      obtain ⟨hvalid₀, hnoticed⟩ := hk.valid hvalid'
      rw [hnoticed]
      exact hbefore hvalid₀ service (hk.service ▸ hservice)

theorem unannounced_twoServices : ∃ cfg : Connections, ConnectionReaches inTime cfg ∧
    cfg.state.view = (true, some 1, [0], [1, 0]) ∧
      ∃ service ∈ cfg.state.mTeecService, service ∈ cfg.state.accepted ∧
        service ∉ cfg.state.noticed := by
  obtain ⟨cfg, hreach, hview⟩ := reaches_twoServices inTime (by rfl)
  exact ⟨cfg, hreach, hview, unannounced_reaches cfg hreach (Prod.mk.inj hview).1⟩

end Runs

end TeeClient.Client.Connection
