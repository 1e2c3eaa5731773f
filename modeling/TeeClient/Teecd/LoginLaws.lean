import Mathlib.Tactic
import TeeClient.Teecd.Login

/-! What the server in `teecd` sends, over whole runs, for any interleaving of its threads with
clients of any kind: a CA gets the descriptor of an open file of the driver that was logged in once,
as the CA itself. -/

namespace TeeClient.Teecd.Login

open Authentication ByteMemory LengthPrefix
open Resumption

section Parties

/-- What a thread of `teecd`, or a client with its credentials, knows and has open.  `answered`,
`peer` and `heard` are of the connection that was accepted last, `login` is of the file that was
opened last, and `returned` is what a call of the library has returned. -/
structure Party where
  cred : Option Ucred
  handles : List Handle
  peer : Option (Nat × Ucred)
  heard : Option (Nat × Bytes)
  name : Option (Int × Option Bytes)
  login : Option (Nat × Option Bytes × Int)
  answered : Bool
  returned : Option Returned

def Party.begin (cred : Option Ucred) : Party := ⟨cred, [], none, none, none, none, false, none⟩

namespace Party

def opens (l : Party) (h : Handle) : Party := { l with handles := h :: l.handles }

def upd (l : Party) : (a : Act) → Resp a → Party
  | .openListener, r => if r then l.opens .listener else l
  | .openPrivate, r => if r then l.opens .privateDevice else l
  | .accept, r => r.elim l fun s =>
    { l with peer := none, heard := none, answered := false }.opens (.server s)
  | .getPeerCred s, r => { l with peer := r.map (s, ·) }
  | .recvCaInfo s, r => { l with heard := r.map (s, ·) }
  | .openDevice, r => r.elim l fun d => { l with login := none }.opens (.device d)
  | .readCmdline pid, r => { l with name := some (pid, r) }
  | .login d buf, r => { l with login := some (d, buf, r) }
  | .sendMessage _ _, r => if r ≤ 0 then l else { l with answered := true }
  | .close h, _ => { l with handles := l.handles.erase h }
  | .socket, r => r.elim l fun s => l.opens (.client s)
  | .recvMessage _ control, r =>
    match r with
    | some (.fileDescriptor d) => if control then l.opens (.received d) else l
    | _ => l
  | .returns ret, _ => { l with returned := some ret }
  | .bindAndListen, _ | .malloc, _ | .select _, _ | .getTimeOfDay, _ | .syncSysTime _ _, _
  | .connect _ _, _ | .sleep, _ | .send _ _, _ => l

end Party

def parties : Machine Act Resp World Env Party where
  exec := World.exec
  upd := Party.upd

def requested (bytes : Bytes) : U32 := (CaRevMsg.zeroed.receive bytes).cmd

/-- `buf` is the login of the process with the credentials `cr` whose `cmdline` was read. -/
def CertOf (cr : Ucred) (cmdline : Option Bytes) (buf : Bytes) : Prop :=
  ∃ name, teeGetPkgName cmdline maxPathLength = some name ∧
    decodeNativeCert buf = some (name, cr.uid)

/-- An answer to the request that was heard: the version, or a file that is logged in for the
peer. -/
def Answers (l : Party) (s : Nat) : Message → Prop
  | .version v => v = version ∧ ∃ bytes, l.heard = some (s, bytes) ∧ requested bytes = getTeeVersion
  | .fileDescriptor d => .device d ∈ l.handles ∧ ∃ bytes cr cmdline buf,
    l.heard = some (s, bytes) ∧ requested bytes ≠ getTeeVersion ∧ l.peer = some (s, cr) ∧
    l.name = some (cr.pid, cmdline) ∧ CertOf cr cmdline buf ∧ l.login = some (d, some buf, 0)

/-- The order that a party keeps.  Only `teecd` opens the driver and accepts connections; it does
so with nothing else open. -/
def Pre (l : Party) : Act → Prop
  | .openListener | .openPrivate | .bindAndListen | .getTimeOfDay | .syncSysTime _ _
  | .readCmdline _ | .select _ => l.cred = none
  | .accept => l.cred = none ∧ l.handles = [.listener]
  | .getPeerCred s => .server s ∈ l.handles
  | .recvCaInfo s => .server s ∈ l.handles ∧ l.heard = none
  | .openDevice => l.cred = none ∧ l.answered = false ∧ ∀ d, .device d ∉ l.handles
  | .login d _ => .device d ∈ l.handles ∧ l.login = none
  | .sendMessage s m => .server s ∈ l.handles ∧ l.answered = false ∧ Answers l s m
  | .close h => h ∈ l.handles
  | .connect s cred => .client s ∈ l.handles ∧ l.cred = some cred
  | .send s _ | .recvMessage s _ => .client s ∈ l.handles
  | .malloc | .socket | .sleep | .returns _ => True

end Parties

section Invariant

def LoggedInAs (w : World) (cr : Ucred) (d : Nat) : Prop :=
  ∃ cmdline buf, (w.device d).logins = [(some buf, 0)] ∧ CertOf cr cmdline buf ∧
    (cr.pid, cmdline) ∈ w.cmdlines

def Proper (w : World) (x : Socket) : Message → Prop
  | .version v => v = version ∧ requested x.received = getTeeVersion
  | .fileDescriptor d => requested x.received ≠ getTeeVersion ∧ LoggedInAs w x.peer d

structure Sound (w : World) : Prop where
  unconnected : ∀ s, (w.socket s).connected = false →
    (w.socket s).received = [] ∧ (w.socket s).replies = []
  backlog : ∀ s ∈ w.backlog, (w.socket s).connected = true ∧ (w.socket s).received = [] ∧
    (w.socket s).replies = []
  once : ∀ s, (w.socket s).replies.length ≤ 1
  proper : ∀ s, ∀ m ∈ (w.socket s).replies, (w.socket s).received ≠ [] ∧ Proper w (w.socket s) m
  apart : ∀ s s' d, .fileDescriptor d ∈ (w.socket s).replies →
    .fileDescriptor d ∈ (w.socket s').replies → s = s'
  newSocket : ∀ s, w.nextSocket ≤ s → (w.socket s).connected = false
  newDevice : ∀ d, w.nextDevice ≤ d → (w.device d).logins = []

structure Fits (w : World) (l : Party) : Prop where
  peer : ∀ x ∈ l.peer, (w.socket x.1).connected = true ∧ (w.socket x.1).peer = x.2
  heard : ∀ s, .server s ∈ l.handles → (w.socket s).connected = true ∧
    (w.socket s).received = (l.heard.map (·.2)).getD [] ∧ ∀ x ∈ l.heard, x.1 = s ∧ x.2 ≠ []
  answered : ∀ s, .server s ∈ l.handles → l.answered = false → (w.socket s).replies = []
  name : ∀ x ∈ l.name, x ∈ w.cmdlines
  login : ∀ d, .device d ∈ l.handles → (w.device d).logins = (l.login.map (·.2)).toList ∧
    ∀ x ∈ l.login, x.1 = d
  unsent : ∀ d, .device d ∈ l.handles → l.answered = false → ∀ s,
    .fileDescriptor d ∉ (w.socket s).replies
  client : ∀ s, .client s ∈ l.handles → (w.socket s).connected = true →
    l.cred = some (w.socket s).peer
  received : ∀ d, .received d ∈ l.handles → ∃ s, .fileDescriptor d ∈ (w.socket s).replies ∧
    l.cred = some (w.socket s).peer
  oneServer : ∀ s t, .server s ∈ l.handles → .server t ∈ l.handles → s = t
  oneDevice : ∀ d d', .device d ∈ l.handles → .device d' ∈ l.handles → d = d'

def places (w : World) (ls : List Party) (h : Handle) : Nat :=
  total (fun l => l.handles.count h) ls + match h with
    | .server s => w.backlog.count s
    | _ => 0

def Handle.single : Handle → Bool
  | .client _ | .server _ | .device _ => true
  | .listener | .received _ | .privateDevice => false

def Handle.Fresh (w : World) : Handle → Prop
  | .client s => w.nextSocket ≤ s
  | .server s => (w.socket s).connected = false
  | .device d => w.nextDevice ≤ d
  | .listener | .received _ | .privateDevice => False

structure Inv (w : World) (ls : List Party) : Prop where
  sound : Sound w
  fits : ∀ l ∈ ls, Fits w l
  single : ∀ h, h.single = true → places w ls h ≤ 1
  fresh : ∀ h, h.Fresh w → places w ls h = 0
  descriptors : ∀ h, total (fun l => l.handles.count h) ls = w.descriptors.count h

end Invariant

section Quiet

variable {w w' : World} {l : Party} {e : Env} {a : Act} {r : Resp a}

structure Same (w w' : World) : Prop where
  socket : ∀ s, (w'.socket s).connected = (w.socket s).connected ∧
    (w'.socket s).peer = (w.socket s).peer ∧ (w'.socket s).received = (w.socket s).received ∧
    (w'.socket s).replies = (w.socket s).replies
  device : w'.device = w.device
  backlog : ∀ s ∈ w'.backlog, s ∈ w.backlog
  nextSocket : w.nextSocket ≤ w'.nextSocket
  nextDevice : w.nextDevice ≤ w'.nextDevice
  cmdlines : ∀ x ∈ w.cmdlines, x ∈ w'.cmdlines

theorem Same.of_eq (hsocket : w'.socket = w.socket) (hdevice : w'.device = w.device)
    (hbacklog : ∀ s ∈ w'.backlog, s ∈ w.backlog) (hnextSocket : w.nextSocket ≤ w'.nextSocket)
    (hnextDevice : w.nextDevice ≤ w'.nextDevice) (hcmdlines : ∀ x ∈ w.cmdlines, x ∈ w'.cmdlines) :
    Same w w' :=
  ⟨fun _ => by simp [hsocket], hdevice, hbacklog, hnextSocket, hnextDevice, hcmdlines⟩

theorem Same.rfl : Same w w :=
  .of_eq (by rfl) (by rfl) (fun _ h => h) le_rfl le_rfl fun _ h => h

def quiet : (a : Act) → Resp a → Bool
  | .recvCaInfo _, r => r.isNone
  | .login _ _, _ => false
  | .sendMessage _ _, r => decide (r ≤ 0)
  | .connect _ _, r => r.isSome
  | _, _ => true

theorem Same.modifySocket {s : Nat} {f : Socket → Socket} (hf : ∀ x, (f x).connected = x.connected ∧
    (f x).peer = x.peer ∧ (f x).received = x.received ∧ (f x).replies = x.replies) :
    Same w (w.modifySocket s f) := by
  refine ⟨fun s' => ?_, by rfl, fun _ h => h, le_rfl, le_rfl, fun _ h => h⟩
  by_cases hs : s' = s
  · subst hs
    simpa [World.modifySocket] using hf (w.socket s')
  · simp [World.modifySocket, hs]

theorem Same.opens (h : Same w w') (x : Handle) : Same w (w'.opens x) :=
  ⟨h.socket, h.device, h.backlog, h.nextSocket, h.nextDevice, h.cmdlines⟩

theorem Same.loggedInAs (h : Same w w') {cr : Ucred} {d : Nat} (hd : LoggedInAs w cr d) :
    LoggedInAs w' cr d := by
  obtain ⟨cmdline, buf, hlogins, hcert, hread⟩ := hd
  exact ⟨cmdline, buf, by rw [h.device, hlogins], hcert, h.cmdlines _ hread⟩

theorem Same.sound (h : Same w w') (hw : Sound w) : Sound w' where
  unconnected s hs := by
    obtain ⟨hconn, -, hrec, hrep⟩ := h.socket s
    rw [hrec, hrep]
    exact hw.unconnected s (hconn ▸ hs)
  backlog s hs := by
    obtain ⟨hconn, -, hrec, hrep⟩ := h.socket s
    rw [hconn, hrec, hrep]
    exact hw.backlog s (h.backlog s hs)
  once s := by
    rw [(h.socket s).2.2.2]
    exact hw.once s
  proper s m hm := by
    obtain ⟨-, hpeer, hrec, hrep⟩ := h.socket s
    rw [hrep] at hm
    obtain ⟨hne, hproper⟩ := hw.proper s m hm
    refine ⟨hrec ▸ hne, ?_⟩
    cases m with
    | version v => exact ⟨hproper.1, hrec ▸ hproper.2⟩
    | fileDescriptor d => exact ⟨hrec ▸ hproper.1, hpeer ▸ h.loggedInAs hproper.2⟩
  apart s s' d hs hs' := by
    rw [(h.socket s).2.2.2] at hs
    rw [(h.socket s').2.2.2] at hs'
    exact hw.apart s s' d hs hs'
  newSocket s hs := by
    rw [(h.socket s).1]
    exact hw.newSocket s (h.nextSocket.trans hs)
  newDevice d hd := by
    rw [h.device]
    exact hw.newDevice d (h.nextDevice.trans hd)

theorem Same.fits (h : Same w w') (hl : Fits w l) : Fits w' l where
  peer x hx := by
    obtain ⟨hconn, hpeer, -, -⟩ := h.socket x.1
    rw [hconn, hpeer]
    exact hl.peer x hx
  heard s hs := by
    obtain ⟨hconn, -, hrec, -⟩ := h.socket s
    rw [hconn, hrec]
    exact hl.heard s hs
  answered s hs hans := by
    rw [(h.socket s).2.2.2]
    exact hl.answered s hs hans
  name x hx := h.cmdlines x (hl.name x hx)
  login d hd := by
    rw [h.device]
    exact hl.login d hd
  unsent d hd hans s := by
    rw [(h.socket s).2.2.2]
    exact hl.unsent d hd hans s
  client s hs hconn := by
    rw [(h.socket s).1] at hconn
    rw [(h.socket s).2.1]
    exact hl.client s hs hconn
  received d hd := by
    obtain ⟨s, hs, hcred⟩ := hl.received d hd
    refine ⟨s, ?_, ?_⟩
    · rwa [(h.socket s).2.2.2]
    · rwa [(h.socket s).2.1]
  oneServer := hl.oneServer
  oneDevice := hl.oneDevice

end Quiet

section Descriptors

variable {w w' : World} {ls : List Party} {l : Party} {i : Nat} {e : Env} {a : Act} {r : Resp a}

def opened : (a : Act) → Resp a → Option Handle
  | .openListener, r => if r then some .listener else none
  | .openPrivate, r => if r then some .privateDevice else none
  | .accept, r => r.map .server
  | .openDevice, r => r.map .device
  | .socket, r => r.map .client
  | .recvMessage _ control, r =>
    match r with
    | some (.fileDescriptor d) => if control then some (.received d) else none
    | _ => none
  | _, _ => none

def closed : Act → Option Handle
  | .close h => some h
  | _ => none

theorem handles_upd (l : Party) (a : Act) (r : Resp a) :
    (l.upd a r).handles = (opened a r).toList ++ (closed a).elim l.handles l.handles.erase := by
  cases a
  case openListener | openPrivate => cases r <;> rfl
  case accept | openDevice | socket => cases r <;> rfl
  case sendMessage =>
    simp only [Party.upd]
    split_ifs <;> rfl
  case recvMessage s control =>
    cases r with
    | none => rfl
    | some m =>
      cases m with
      | version v => rfl
      | fileDescriptor d => cases control <;> rfl
  all_goals rfl

structure Effect (w : World) (a : Act) (r : Resp a) (w' : World) : Prop where
  same : quiet a r = true → Same w w'
  descriptors : w'.descriptors =
    (opened a r).toList ++ (closed a).elim w.descriptors w.descriptors.erase
  backlog : (∃ s, opened a r = some (.server s) ∧ w.backlog = s :: w'.backlog) ∨
    (∃ s cred, a = .connect s cred ∧ (w.socket s).connected = false ∧
      (w'.socket s).connected = true ∧ w'.backlog = w.backlog ++ [s]) ∨
    w'.backlog = w.backlog ∧ ∀ s, opened a r ≠ some (.server s)

theorem effect_exec (h : w.exec e a = some (r, w')) : Effect w a r w' := by
  cases a
  case recvMessage s control =>
    have hsame : Same w (w.modifySocket s fun x => { x with taken := x.taken + 1 }) :=
      Same.modifySocket fun x => ⟨by rfl, by rfl, by rfl, by rfl⟩
    by_cases hok : e.ok = true
    · rw [World.exec, if_pos hok] at h
      split at h
      case h_1 => cases h
      case h_2 m hm =>
        cases m with
        | version v =>
          obtain ⟨rfl, rfl⟩ := Prod.mk.inj (Option.some.inj h)
          exact ⟨fun _ => hsame, rfl, .inr (.inr ⟨rfl, by simp [opened]⟩)⟩
        | fileDescriptor d =>
          obtain ⟨rfl, rfl⟩ := Prod.mk.inj (Option.some.inj h)
          cases control
          · exact ⟨fun _ => hsame, rfl, .inr (.inr ⟨rfl, by simp [opened]⟩)⟩
          · exact ⟨fun _ => hsame.opens _, rfl, .inr (.inr ⟨rfl, by simp [opened]⟩)⟩
    · rw [World.exec, if_neg hok] at h
      obtain ⟨rfl, rfl⟩ := Prod.mk.inj (Option.some.inj h)
      exact ⟨fun _ => Same.rfl, rfl, .inr (.inr ⟨rfl, by simp [opened]⟩)⟩
  case accept =>
    simp only [World.exec] at h
    split_ifs at h
    · split at h
      case h_1 => cases h
      case h_2 s rest hback =>
        obtain ⟨rfl, rfl⟩ := Prod.mk.inj (Option.some.inj h)
        have hsame : Same w { w with backlog := rest } :=
          .of_eq rfl rfl (fun x hx => hback ▸ List.mem_cons_of_mem _ hx) le_rfl le_rfl fun _ h => h
        exact ⟨fun _ => hsame.opens _, rfl, .inl ⟨s, rfl, hback⟩⟩
    · obtain ⟨rfl, rfl⟩ := Prod.mk.inj (Option.some.inj h)
      exact ⟨fun _ => Same.rfl, rfl, .inr (.inr ⟨rfl, by simp [opened]⟩)⟩
  case connect s cred =>
    simp only [World.exec, Option.some.injEq] at h
    split_ifs at h with hok
    · obtain ⟨rfl, rfl⟩ := Prod.mk.inj h
      exact ⟨fun hquiet => by simp [quiet] at hquiet, rfl,
        .inr (.inl ⟨s, cred, rfl, hok.2, by simp [World.modifySocket], rfl⟩)⟩
    · obtain ⟨rfl, rfl⟩ := Prod.mk.inj h
      exact ⟨fun _ => Same.rfl, rfl, .inr (.inr ⟨rfl, by simp [opened]⟩)⟩
  case send s bytes =>
    simp only [World.exec] at h
    split_ifs at h
    all_goals
      obtain ⟨rfl, rfl⟩ := Prod.mk.inj (Option.some.inj h)
      refine ⟨fun _ => ?_, rfl, .inr (.inr ⟨rfl, by simp [opened]⟩)⟩
    · exact Same.rfl
    · exact Same.modifySocket fun x => ⟨by rfl, by rfl, by rfl, by rfl⟩
  case recvCaInfo s =>
    simp only [World.exec] at h
    split_ifs at h
    all_goals
      obtain ⟨rfl, rfl⟩ := Prod.mk.inj (Option.some.inj h)
      refine ⟨fun hquiet => ?_, rfl, .inr (.inr ⟨rfl, by simp [opened]⟩)⟩
    · simp [quiet] at hquiet
    · exact Same.rfl
  case sendMessage s m =>
    obtain ⟨rfl, rfl⟩ := Prod.mk.inj (Option.some.inj h)
    refine ⟨fun hquiet => ?_, ?_, .inr (.inr ⟨?_, by simp [opened]⟩)⟩
    · rw [if_pos (of_decide_eq_true hquiet)]
      exact Same.rfl
    · split_ifs <;> rfl
    · split_ifs <;> rfl
  case syncSysTime =>
    obtain ⟨rfl, rfl⟩ := Prod.mk.inj (Option.some.inj h)
    have hsame : Same w { w with synced := w.synced + 1 } :=
      .of_eq rfl rfl (fun _ h => h) le_rfl le_rfl fun _ h => h
    split_ifs
    · exact ⟨fun _ => hsame, rfl, .inr (.inr ⟨rfl, by simp [opened]⟩)⟩
    · exact ⟨fun _ => Same.rfl, rfl, .inr (.inr ⟨rfl, by simp [opened]⟩)⟩
  case openDevice =>
    have hsame : Same w { w with nextDevice := w.nextDevice + 1 } :=
      .of_eq rfl rfl (fun _ h => h) le_rfl (Nat.le_succ _) fun _ h => h
    simp only [World.exec, Option.some.injEq] at h
    split_ifs at h
    all_goals obtain ⟨rfl, rfl⟩ := Prod.mk.inj h
    · exact ⟨fun _ => hsame.opens _, rfl, .inr (.inr ⟨rfl, by simp [opened]⟩)⟩
    · exact ⟨fun _ => Same.rfl, rfl, .inr (.inr ⟨rfl, by simp [opened]⟩)⟩
  case socket =>
    have hsame : Same w { w with nextSocket := w.nextSocket + 1 } :=
      .of_eq rfl rfl (fun _ h => h) (Nat.le_succ _) le_rfl fun _ h => h
    simp only [World.exec, Option.some.injEq] at h
    split_ifs at h
    all_goals obtain ⟨rfl, rfl⟩ := Prod.mk.inj h
    · exact ⟨fun _ => hsame.opens _, rfl, .inr (.inr ⟨rfl, by simp [opened]⟩)⟩
    · exact ⟨fun _ => Same.rfl, rfl, .inr (.inr ⟨rfl, by simp [opened]⟩)⟩
  case openListener | openPrivate =>
    simp only [World.exec, Option.some.injEq] at h
    split_ifs at h
    all_goals obtain ⟨rfl, rfl⟩ := Prod.mk.inj h
    · exact ⟨fun _ => Same.rfl.opens _, rfl, .inr (.inr ⟨rfl, by simp [opened]⟩)⟩
    · exact ⟨fun _ => Same.rfl, rfl, .inr (.inr ⟨rfl, by simp [opened]⟩)⟩
  case login d buf =>
    obtain ⟨rfl, rfl⟩ := Prod.mk.inj (Option.some.inj h)
    exact ⟨fun hquiet => by simp [quiet] at hquiet, rfl, .inr (.inr ⟨rfl, by simp [opened]⟩)⟩
  case readCmdline pid =>
    obtain ⟨rfl, rfl⟩ := Prod.mk.inj (Option.some.inj h)
    refine ⟨fun _ => ?_, rfl, .inr (.inr ⟨rfl, by simp [opened]⟩)⟩
    exact .of_eq rfl rfl (fun _ h => h) le_rfl le_rfl fun x hx => List.mem_cons_of_mem _ hx
  case close =>
    obtain ⟨rfl, rfl⟩ := Prod.mk.inj (Option.some.inj h)
    refine ⟨fun _ => ?_, rfl, .inr (.inr ⟨rfl, by simp [opened]⟩)⟩
    exact .of_eq rfl rfl (fun _ h => h) le_rfl le_rfl fun _ h => h
  all_goals
    obtain ⟨rfl, rfl⟩ := Prod.mk.inj (Option.some.inj h)
    exact ⟨fun _ => Same.rfl, rfl, .inr (.inr ⟨rfl, by simp [opened]⟩)⟩

theorem pre_closed (h : Pre l a) {x : Handle} (hx : closed a = some x) : x ∈ l.handles := by
  cases a <;> simp only [closed, reduceCtorEq] at hx
  obtain rfl := Option.some.inj hx
  exact h

theorem count_descriptors {x : Handle} {hs : List Handle} {o c : Option Handle}
    (hle : ∀ y, l.handles.count y ≤ hs.count y) (hc : ∀ y, c = some y → y ∈ l.handles) :
    (o.toList ++ c.elim l.handles l.handles.erase).count x + hs.count x =
      l.handles.count x + (o.toList ++ c.elim hs hs.erase).count x := by
  simp only [List.count_append]
  cases c with
  | none =>
    simp only [Option.elim_none]
    omega
  | some y =>
    simp only [Option.elim_some, List.count_erase]
    have hy : 0 < l.handles.count y := List.count_pos_iff.mpr (hc y rfl)
    have hle := hle y
    split_ifs with hxy
    · obtain rfl := eq_of_beq hxy
      omega
    · omega

theorem descriptors_step (h : Inv w ls) (hi : ls[i]? = some l) (hpre : Pre l a)
    (hexec : w.exec e a = some (r, w')) (x : Handle) :
    total (fun l => l.handles.count x) (ls.set i (l.upd a r)) = w'.descriptors.count x := by
  have hset := total_set (fun l => l.handles.count x) hi (l.upd a r)
  have hle (y : Handle) : l.handles.count y ≤ w.descriptors.count y := by
    rw [← h.descriptors y]
    exact le_total (fun l => l.handles.count y) (List.mem_of_getElem? hi)
  have hcount := count_descriptors (x := x) (o := opened a r) hle fun y hy => pre_closed hpre hy
  rw [← (effect_exec hexec).descriptors, ← handles_upd] at hcount
  have hbefore := h.descriptors x
  omega

end Descriptors

section Places

variable {w w' : World} {ls : List Party} {l : Party} {i : Nat} {e : Env} {a : Act} {r : Resp a}

inductive Shown (w : World) : (a : Act) → Resp a → World → Prop
  | recvCaInfo (s : Nat) (bytes : Bytes) (n : Nat) (h : bytes ≠ []) :
    Shown w (.recvCaInfo s) (some bytes) (w.modifySocket s fun x =>
      { x with inFlight := x.inFlight.drop n, received := x.received ++ bytes })
  | login (d : Nat) (buf : Option Bytes) (ret : Int) :
    Shown w (.login d buf) ret (w.modifyDevice d fun x =>
      { x with logins := x.logins ++ [(buf, ret)] })
  | sendMessage (s : Nat) (m : Message) (ret : Int) (h : 0 < ret) :
    Shown w (.sendMessage s m) ret
      (w.modifySocket s fun x => { x with replies := x.replies ++ [m] })
  | connect (s : Nat) (cred : Ucred) (h : (w.socket s).connected = false) :
    Shown w (.connect s cred) none
      { w.modifySocket s ({ · with connected := true, peer := cred }) with
        backlog := w.backlog ++ [s] }

theorem shown_exec (h : w.exec e a = some (r, w')) (hquiet : quiet a r = false) :
    Shown w a r w' := by
  cases a
  case recvCaInfo s =>
    simp only [World.exec] at h
    split_ifs at h with hok
    all_goals obtain ⟨rfl, rfl⟩ := Prod.mk.inj (Option.some.inj h)
    · exact .recvCaInfo s _ _ hok.2
    · simp [quiet] at hquiet
  case login d buf =>
    obtain ⟨rfl, rfl⟩ := Prod.mk.inj (Option.some.inj h)
    exact .login d buf _
  case sendMessage s m =>
    obtain ⟨rfl, rfl⟩ := Prod.mk.inj (Option.some.inj h)
    have hret : ¬ e.ret ≤ 0 := by simpa [quiet] using hquiet
    rw [if_neg hret]
    exact .sendMessage s m _ (by omega)
  case connect s cred =>
    simp only [World.exec, Option.some.injEq] at h
    split_ifs at h with hok
    all_goals obtain ⟨rfl, rfl⟩ := Prod.mk.inj h
    · exact .connect s cred hok.2
    · simp [quiet] at hquiet
  all_goals simp [quiet] at hquiet

theorem Handle.Fresh.of_same {h : Handle} (hsame : Same w w') (hfresh : h.Fresh w') :
    h.Fresh w := by
  cases h with
  | client s => exact hsame.nextSocket.trans hfresh
  | server s => exact (hsame.socket s).1.symm.trans hfresh
  | device d => exact hsame.nextDevice.trans hfresh
  | listener | received | privateDevice => exact hfresh

theorem Handle.Fresh.of_shown {h : Handle} (hshown : Shown w a r w') (hfresh : h.Fresh w') :
    h.Fresh w := by
  have hsocket (s : Nat) (f : Socket → Socket)
      (hf : ∀ x : Socket, x.connected = true → (f x).connected = true)
      (hfresh : h.Fresh (w.modifySocket s f)) : h.Fresh w := by
    cases h with
    | server t =>
      simp only [Handle.Fresh, World.modifySocket] at hfresh ⊢
      by_cases hts : t = s
      · subst hts
        rw [Function.update_self] at hfresh
        exact Bool.eq_false_iff.mpr fun hconn => Bool.eq_false_iff.mp hfresh (hf _ hconn)
      · rwa [Function.update_of_ne hts] at hfresh
    | _ => exact hfresh
  cases hshown with
  | recvCaInfo s bytes n hne =>
    refine hsocket s _ (fun x hx => ?_) hfresh
    exact hx
  | login d buf ret => cases h <;> exact hfresh
  | sendMessage s m ret hret =>
    refine hsocket s _ (fun x hx => ?_) hfresh
    exact hx
  | connect s cred hconn =>
    refine hsocket s ({ · with connected := true, peer := cred }) (fun x _ => rfl) ?_
    cases h <;> exact hfresh

theorem fresh_exec {h : Handle} (hexec : w.exec e a = some (r, w')) (hfresh : h.Fresh w') :
    h.Fresh w := by
  by_cases hquiet : quiet a r = true
  · exact hfresh.of_same ((effect_exec hexec).same hquiet)
  · exact hfresh.of_shown (shown_exec hexec (Bool.eq_false_iff.mpr hquiet))

/-- A descriptor that only one party can have is new, or it is of a connection that waited. -/
theorem new_of_opened {h : Handle} (hexec : w.exec e a = some (r, w'))
    (hopened : opened a r = some h) (hsingle : h.single = true) (hserver : ∀ s, h ≠ .server s) :
    h.Fresh w ∧ ¬ h.Fresh w' := by
  cases a
  case accept =>
    obtain ⟨s, -, rfl⟩ := Option.map_eq_some_iff.mp hopened
    exact absurd rfl (hserver s)
  case openDevice =>
    obtain ⟨d, rfl, rfl⟩ := Option.map_eq_some_iff.mp hopened
    simp only [World.exec, Option.some.injEq] at hexec
    split_ifs at hexec
    · obtain ⟨hd, rfl⟩ := Prod.mk.inj hexec
      obtain rfl := Option.some.inj hd
      exact ⟨le_rfl, Nat.not_succ_le_self _⟩
    · exact absurd (Prod.mk.inj hexec).1 (by simp)
  case socket =>
    obtain ⟨s, rfl, rfl⟩ := Option.map_eq_some_iff.mp hopened
    simp only [World.exec, Option.some.injEq] at hexec
    split_ifs at hexec
    · obtain ⟨hs, rfl⟩ := Prod.mk.inj hexec
      obtain rfl := Option.some.inj hs
      exact ⟨le_rfl, Nat.not_succ_le_self _⟩
    · exact absurd (Prod.mk.inj hexec).1 (by simp)
  case openListener | openPrivate =>
    simp only [opened, Option.ite_none_right_eq_some, Option.some.injEq] at hopened
    obtain ⟨-, rfl⟩ := hopened
    simp [Handle.single] at hsingle
  case recvMessage s control =>
    cases r with
    | none => simp [opened] at hopened
    | some m =>
      cases m with
      | version v => simp [opened] at hopened
      | fileDescriptor d =>
        simp only [opened, Option.ite_none_right_eq_some, Option.some.injEq] at hopened
        obtain ⟨-, rfl⟩ := hopened
        simp [Handle.single] at hsingle
  all_goals simp [opened] at hopened

/-- A descriptor gets a new place when it is made; otherwise it moves, or goes. -/
theorem places_step (hi : ls[i]? = some l) (hexec : w.exec e a = some (r, w')) {h : Handle}
    (hsingle : h.single = true) :
    places w' (ls.set i (l.upd a r)) h ≤ places w ls h ∨
      (h.Fresh w ∧ ¬ h.Fresh w') ∧ places w' (ls.set i (l.upd a r)) h ≤ places w ls h + 1 := by
  have hset := total_set (fun l => l.handles.count h) hi (l.upd a r)
  have hcount : (l.upd a r).handles.count h ≤
      l.handles.count h + if opened a r = some h then 1 else 0 := by
    have hkept : ((closed a).elim l.handles l.handles.erase).count h ≤ l.handles.count h := by
      cases closed a with
      | none => exact le_rfl
      | some x =>
        simp only [Option.elim_some, List.count_erase]
        exact Nat.sub_le _ _
    rw [handles_upd, List.count_append]
    cases opened a r with
    | none =>
      simp only [Option.toList_none, List.count_nil, reduceCtorEq, if_false]
      omega
    | some x =>
      simp only [Option.toList_some, List.count_singleton, Option.some.injEq, beq_iff_eq]
      omega
  have hnot (hne : opened a r ≠ some h) : (l.upd a r).handles.count h ≤ l.handles.count h := by
    rwa [if_neg hne] at hcount
  have heffect := effect_exec hexec
  rcases heffect.backlog with ⟨s, hopened, hback⟩ | ⟨s, cred, rfl, hconn, hconn', hback⟩ |
    ⟨hback, hnone⟩
  · by_cases hs : h = .server s
    · subst hs
      rw [if_pos hopened] at hcount
      simp only [places, hback, List.count_cons_self]
      omega
    · have hne : opened a r ≠ some h := by
        rw [hopened]
        exact fun heq => hs (Option.some.inj heq).symm
      have hle := hnot hne
      cases h with
      | server t =>
        have hts : (s == t) = false := beq_eq_false_iff_ne.mpr fun heq => hs (heq ▸ rfl)
        simp only [places, hback, List.count_cons, hts]
        simp only [Bool.false_eq_true, if_false]
        omega
      | _ =>
        simp only [places]
        omega
  · have hle := hnot (by simp [opened])
    by_cases hs : h = .server s
    · subst hs
      refine .inr ⟨⟨hconn, Bool.eq_false_iff.not.mpr (not_not.mpr hconn')⟩, ?_⟩
      simp only [places, hback, List.count_append, List.count_singleton_self]
      omega
    · refine .inl ?_
      cases h with
      | server t =>
        have hts : (s == t) = false := beq_eq_false_iff_ne.mpr fun heq => hs (heq ▸ rfl)
        simp only [places, hback, List.count_append, List.count_singleton, hts]
        simp only [Bool.false_eq_true, if_false]
        omega
      | _ =>
        simp only [places]
        omega
  · by_cases hopened : opened a r = some h
    · rw [if_pos hopened] at hcount
      have hserver (s : Nat) : h ≠ .server s := by
        rintro rfl
        exact hnone s hopened
      refine .inr ⟨new_of_opened hexec hopened hsingle hserver, ?_⟩
      cases h <;> simp only [places, hback] <;> omega
    · have hle := hnot hopened
      refine .inl ?_
      cases h <;> simp only [places, hback] <;> omega

theorem single_of_fresh {h : Handle} (hfresh : h.Fresh w) : h.single = true := by
  cases h <;> first | rfl | exact hfresh.elim

theorem single_step (h : Inv w ls) (hi : ls[i]? = some l) (hexec : w.exec e a = some (r, w'))
    {x : Handle} (hsingle : x.single = true) : places w' (ls.set i (l.upd a r)) x ≤ 1 := by
  have hbefore := h.single x hsingle
  rcases places_step hi hexec hsingle with hle | ⟨⟨hfresh, -⟩, hle⟩
  · omega
  · have hnone := h.fresh x hfresh
    omega

theorem fresh_step (h : Inv w ls) (hi : ls[i]? = some l) (hexec : w.exec e a = some (r, w'))
    {x : Handle} (hx : x.Fresh w') : places w' (ls.set i (l.upd a r)) x = 0 := by
  have hfresh := fresh_exec hexec hx
  have hnone := h.fresh x hfresh
  rcases places_step hi hexec (single_of_fresh hfresh) with hle | ⟨⟨-, hnot⟩, -⟩
  · omega
  · exact absurd hx hnot

end Places

section Own

variable {w w' : World} {ls : List Party} {l : Party} {i : Nat} {e : Env} {a : Act} {r : Resp a}

theorem Sound.connected_of_reply (h : Sound w) {s : Nat} {m : Message}
    (hm : m ∈ (w.socket s).replies) : (w.socket s).connected = true := by
  by_contra hconn
  rw [(h.unconnected s (Bool.eq_false_iff.mpr hconn)).2] at hm
  exact List.not_mem_nil hm

theorem Sound.loggedIn_of_reply (h : Sound w) {s d : Nat}
    (hm : .fileDescriptor d ∈ (w.socket s).replies) : LoggedInAs w (w.socket s).peer d :=
  (h.proper s _ hm).2.2

theorem Fits.of_subset {hs : List Handle} (h : Fits w l) (hsub : ∀ x ∈ hs, x ∈ l.handles) :
    Fits w { l with handles := hs } where
  peer := h.peer
  heard s hmem := h.heard s (hsub _ hmem)
  answered s hmem := h.answered s (hsub _ hmem)
  name := h.name
  login d hmem := h.login d (hsub _ hmem)
  unsent d hmem := h.unsent d (hsub _ hmem)
  client s hmem := h.client s (hsub _ hmem)
  received d hmem := h.received d (hsub _ hmem)
  oneServer s t hs ht := h.oneServer s t (hsub _ hs) (hsub _ ht)
  oneDevice d d' hd hd' := h.oneDevice d d' (hsub _ hd) (hsub _ hd')

def Suits (w : World) (l : Party) : Handle → Prop
  | .server s => ((w.socket s).connected = true ∧
      (w.socket s).received = (l.heard.map (·.2)).getD [] ∧ ∀ x ∈ l.heard, x.1 = s ∧ x.2 ≠ []) ∧
    (l.answered = false → (w.socket s).replies = []) ∧ ∀ t, .server t ∉ l.handles
  | .device d => ((w.device d).logins = (l.login.map (·.2)).toList ∧ ∀ x ∈ l.login, x.1 = d) ∧
    (l.answered = false → ∀ s, .fileDescriptor d ∉ (w.socket s).replies) ∧
    ∀ d', .device d' ∉ l.handles
  | .client s => (w.socket s).connected = true → l.cred = some (w.socket s).peer
  | .received d => ∃ s, .fileDescriptor d ∈ (w.socket s).replies ∧ l.cred = some (w.socket s).peer
  | .listener | .privateDevice => True

theorem Fits.opens (h : Fits w l) {x : Handle} (hx : Suits w l x) : Fits w (l.opens x) where
  peer := h.peer
  heard s hmem := by
    rcases List.mem_cons.mp hmem with rfl | hmem
    · exact hx.1
    · exact h.heard s hmem
  answered s hmem := by
    rcases List.mem_cons.mp hmem with rfl | hmem
    · exact hx.2.1
    · exact h.answered s hmem
  name := h.name
  login d hmem := by
    rcases List.mem_cons.mp hmem with rfl | hmem
    · exact hx.1
    · exact h.login d hmem
  unsent d hmem := by
    rcases List.mem_cons.mp hmem with rfl | hmem
    · exact hx.2.1
    · exact h.unsent d hmem
  client s hmem := by
    rcases List.mem_cons.mp hmem with rfl | hmem
    · exact hx
    · exact h.client s hmem
  received d hmem := by
    rcases List.mem_cons.mp hmem with rfl | hmem
    · exact hx
    · exact h.received d hmem
  oneServer s t hs ht := by
    rcases List.mem_cons.mp hs with rfl | hold
    · rcases List.mem_cons.mp ht with heq | hold
      · exact (Handle.server.inj heq).symm
      · exact absurd hold (hx.2.2 t)
    · rcases List.mem_cons.mp ht with rfl | hold'
      · exact absurd hold (hx.2.2 s)
      · exact h.oneServer s t hold hold'
  oneDevice d d' hd hd' := by
    rcases List.mem_cons.mp hd with rfl | hold
    · rcases List.mem_cons.mp hd' with heq | hold
      · exact (Handle.device.inj heq).symm
      · exact absurd hold (hx.2.2 d')
    · rcases List.mem_cons.mp hd' with rfl | hold'
      · exact absurd hold (hx.2.2 d)
      · exact h.oneDevice d d' hold hold'

theorem Fits.forget (h : Fits w l) (hserver : ∀ s, .server s ∉ l.handles)
    (hdevice : ∀ d, .device d ∉ l.handles) {heard : Option (Nat × Bytes)}
    {login : Option (Nat × Option Bytes × Int)} {answered : Bool} :
    Fits w { l with peer := none, heard, login, answered } where
  peer x hx := absurd hx (by simp)
  heard s hs := absurd hs (hserver s)
  answered s hs := absurd hs (hserver s)
  name := h.name
  login d hd := absurd hd (hdevice d)
  unsent d hd := absurd hd (hdevice d)
  client := h.client
  received := h.received
  oneServer := h.oneServer
  oneDevice := h.oneDevice

theorem Fits.login_none (h : Fits w l) (hdevice : ∀ d, .device d ∉ l.handles) :
    Fits w { l with login := none } where
  peer := h.peer
  heard := h.heard
  answered := h.answered
  name := h.name
  login d hd := absurd hd (hdevice d)
  unsent := h.unsent
  client := h.client
  received := h.received
  oneServer := h.oneServer
  oneDevice := h.oneDevice

theorem mem_of_recvMessage {s : Nat} {control : Bool} {m : Message}
    (h : w.exec e (.recvMessage s control) = some (some m, w')) : m ∈ (w.socket s).replies := by
  by_cases hok : e.ok = true
  · rw [World.exec, if_pos hok] at h
    split at h
    case h_1 => cases h
    case h_2 m' hm =>
      refine List.mem_of_getElem? (hm.trans ?_)
      cases m'
      all_goals
        obtain ⟨heq, -⟩ := Prod.mk.inj (Option.some.inj h)
        exact heq
  · rw [World.exec, if_neg hok] at h
    cases (Prod.mk.inj (Option.some.inj h)).1

theorem fits_quiet (hw : Sound w) (hl : Fits w l) (hpre : Pre l a)
    (hexec : w.exec e a = some (r, w')) (hquiet : quiet a r = true) : Fits w' (l.upd a r) := by
  have hsame := (effect_exec hexec).same hquiet
  have hw' := hsame.sound hw
  have hl' := hsame.fits hl
  cases a
  case openListener | openPrivate =>
    cases r
    · exact hl'
    · exact hl'.opens trivial
  case accept =>
    cases r with
    | none => exact hl'
    | some s =>
      obtain ⟨hconn, hrec, hrep⟩ := hw.backlog s (by
        have heffect := effect_exec hexec
        rcases heffect.backlog with ⟨t, hopened, hback⟩ | ⟨t, cred, hconn, -⟩ | ⟨-, hnone⟩
        · obtain rfl : s = t := by simpa [opened] using hopened
          rw [hback]
          exact List.mem_cons_self
        · cases hconn
        · exact absurd rfl (hnone s))
      have hforget : Fits w' { l with peer := none, heard := none, answered := false } :=
        hl'.forget (by simp [hpre.2]) (by simp [hpre.2])
      refine hforget.opens ⟨⟨?_, ?_, by simp⟩, fun _ => ?_, by simp [hpre.2]⟩
      · rw [(hsame.socket s).1, hconn]
      · rw [(hsame.socket s).2.2.1, hrec]
        rfl
      · rw [(hsame.socket s).2.2.2, hrep]
  case getPeerCred s =>
    obtain ⟨rfl, rfl⟩ := Prod.mk.inj (Option.some.inj hexec)
    refine ⟨fun x hx => ?_, hl.heard, hl.answered, hl.name, hl.login, hl.unsent, hl.client,
      hl.received, hl.oneServer, hl.oneDevice⟩
    obtain ⟨cr, hcr, rfl⟩ := Option.map_eq_some_iff.mp hx
    split_ifs at hcr
    obtain rfl := Option.some.inj hcr
    exact ⟨(hl.heard s hpre).1, rfl⟩
  case recvCaInfo s =>
    obtain rfl := Option.isNone_iff_eq_none.mp hquiet
    have hupd : l.upd (.recvCaInfo s) none = l := by
      rw [Party.upd, Option.map_none, ← hpre.2]
    rw [hupd]
    exact hl'
  case openDevice =>
    cases r with
    | none => exact hl'
    | some d =>
      obtain ⟨hfresh, hnew⟩ := new_of_opened hexec (h := .device d) rfl rfl (by simp)
      have hlogins : (w'.device d).logins = [] := by
        rw [hsame.device]
        exact hw.newDevice d hfresh
      refine (hl'.login_none hpre.2.2).opens ⟨⟨hlogins, by simp⟩, fun _ s hs => ?_, hpre.2.2⟩
      obtain ⟨cmdline, buf, hone, -⟩ := hw'.loggedIn_of_reply hs
      simp [hlogins] at hone
  case readCmdline pid =>
    obtain ⟨rfl, rfl⟩ := Prod.mk.inj (Option.some.inj hexec)
    refine ⟨hl'.peer, hl'.heard, hl'.answered, fun x hx => ?_, hl'.login, hl'.unsent, hl'.client,
      hl'.received, hl'.oneServer, hl'.oneDevice⟩
    obtain rfl := Option.some.inj hx
    exact List.mem_cons_self
  case sendMessage s m =>
    rw [Party.upd, if_pos (of_decide_eq_true hquiet)]
    exact hl'
  case close h =>
    exact hl'.of_subset fun x hx => List.mem_of_mem_erase hx
  case socket =>
    cases r with
    | none => exact hl'
    | some s =>
      obtain ⟨hfresh, -⟩ := new_of_opened hexec (h := .client s) rfl rfl (by simp)
      refine hl'.opens fun hconn => ?_
      rw [(hsame.socket s).1, hw.newSocket s hfresh] at hconn
      cases hconn
  case recvMessage s control =>
    cases r with
    | none => exact hl'
    | some m =>
      cases m with
      | version v => exact hl'
      | fileDescriptor d =>
        cases control
        · exact hl'
        · have hm := mem_of_recvMessage hexec
          have hm' : .fileDescriptor d ∈ (w'.socket s).replies := by
            rwa [(hsame.socket s).2.2.2]
          exact hl'.opens ⟨s, hm', hl'.client s hpre (hw'.connected_of_reply hm')⟩
  case login => simp [quiet] at hquiet
  case returns =>
    exact ⟨hl'.peer, hl'.heard, hl'.answered, hl'.name, hl'.login, hl'.unsent, hl'.client,
      hl'.received, hl'.oneServer, hl'.oneDevice⟩
  all_goals exact hl'

end Own

section Shown

variable {w w' : World} {ls : List Party} {l l' : Party} {i j : Nat} {a : Act} {r : Resp a}
variable {s d : Nat} {f : Socket → Socket} {g : Device → Device}

theorem total_le_places (w : World) (ls : List Party) (h : Handle) :
    total (fun l => l.handles.count h) ls ≤ places w ls h := Nat.le_add_right _ _

theorem Inv.apart (h : Inv w ls) (hi : ls[i]? = some l) {x : Handle} (hx : x ∈ l.handles)
    (hsingle : x.single = true) (hij : i ≠ j) (hj : ls[j]? = some l') : x ∉ l'.handles := by
  intro hx'
  have hle := add_le_total (fun l => l.handles.count x) hij hi hj
  have hpos := List.count_pos_iff.mpr hx
  have hpos' := List.count_pos_iff.mpr hx'
  have hone := (total_le_places w ls x).trans (h.single x hsingle)
  omega

theorem Inv.not_fresh (h : Inv w ls) (hi : ls[i]? = some l) {x : Handle} (hx : x ∈ l.handles) :
    ¬ x.Fresh w := by
  intro hfresh
  have hnone := (total_le_places w ls x).trans (h.fresh x hfresh).le
  have hle := le_total (fun l => l.handles.count x) (List.mem_of_getElem? hi)
  have hpos := List.count_pos_iff.mpr hx
  omega

theorem Inv.not_waiting (h : Inv w ls) (hi : ls[i]? = some l) (hs : .server s ∈ l.handles) :
    s ∉ w.backlog := by
  intro hback
  have hone := h.single (.server s) rfl
  have hle := le_total (fun l => l.handles.count (.server s)) (List.mem_of_getElem? hi)
  have hpos := List.count_pos_iff.mpr hs
  have hpos' := List.count_pos_iff.mpr hback
  simp only [places] at hone
  omega

theorem Fits.modifySocket {heard : Option (Nat × Bytes)} {answered : Bool} (h : Fits w l)
    (hw : Sound w)
    (hconn : (w.socket s).connected = true →
      (f (w.socket s)).connected = true ∧ (f (w.socket s)).peer = (w.socket s).peer)
    (hserver : .server s ∈ l.handles →
      (f (w.socket s)).received = (heard.map (·.2)).getD [] ∧
        (∀ x ∈ heard, x.1 = s ∧ x.2 ≠ []) ∧ (answered = false → (f (w.socket s)).replies = []))
    (hkeep : .server s ∈ l.handles ∨ heard = l.heard ∧ answered = l.answered)
    (hanswered : answered = false → l.answered = false)
    (hunsent : ∀ d, .device d ∈ l.handles → answered = false →
      .fileDescriptor d ∉ (f (w.socket s)).replies)
    (hclient : .client s ∈ l.handles → (f (w.socket s)).connected = true →
      l.cred = some (f (w.socket s)).peer)
    (hreplies : ∀ m ∈ (w.socket s).replies, m ∈ (f (w.socket s)).replies) :
    Fits (w.modifySocket s f) { l with heard, answered } where
  peer x hx := by
    obtain ⟨hc, hp⟩ := h.peer x hx
    by_cases hs : x.1 = s
    · subst hs
      obtain ⟨hc', hp'⟩ := hconn hc
      simp only [World.modifySocket, Function.update_self]
      exact ⟨hc', hp'.trans hp⟩
    · simp only [World.modifySocket, Function.update_of_ne hs]
      exact ⟨hc, hp⟩
  heard t ht := by
    obtain ⟨hc, hr, hx⟩ := h.heard t ht
    by_cases hs : t = s
    · subst hs
      obtain ⟨hr', hx', -⟩ := hserver ht
      simp only [World.modifySocket, Function.update_self]
      exact ⟨(hconn hc).1, hr', hx'⟩
    · simp only [World.modifySocket, Function.update_of_ne hs]
      obtain ⟨rfl, -⟩ := hkeep.resolve_left fun hmem => hs (h.oneServer t s ht hmem)
      exact ⟨hc, hr, hx⟩
  answered t ht hans := by
    by_cases hs : t = s
    · subst hs
      simp only [World.modifySocket, Function.update_self]
      exact (hserver ht).2.2 hans
    · simp only [World.modifySocket, Function.update_of_ne hs]
      exact h.answered t ht (hanswered hans)
  name := h.name
  login := h.login
  unsent d hd hans t := by
    by_cases hs : t = s
    · subst hs
      simp only [World.modifySocket, Function.update_self]
      exact hunsent d hd hans
    · simp only [World.modifySocket, Function.update_of_ne hs]
      exact h.unsent d hd (hanswered hans) t
  client t ht hc := by
    by_cases hs : t = s
    · subst hs
      simp only [World.modifySocket, Function.update_self] at hc ⊢
      exact hclient ht hc
    · simp only [World.modifySocket, Function.update_of_ne hs] at hc ⊢
      exact h.client t ht hc
  received d hd := by
    obtain ⟨t, hm, hcred⟩ := h.received d hd
    refine ⟨t, ?_⟩
    by_cases hs : t = s
    · subst hs
      have hp := (hconn (hw.connected_of_reply hm)).2
      simp only [World.modifySocket, Function.update_self]
      exact ⟨hreplies _ hm, hp ▸ hcred⟩
    · simp only [World.modifySocket, Function.update_of_ne hs]
      exact ⟨hm, hcred⟩
  oneServer := h.oneServer
  oneDevice := h.oneDevice

theorem Sound.modifySocket (h : Sound w) (hnew : s < w.nextSocket)
    (hconn : (f (w.socket s)).connected = true)
    (hback : s ∈ w.backlog → (f (w.socket s)).received = [] ∧ (f (w.socket s)).replies = [])
    (honce : (f (w.socket s)).replies.length ≤ 1)
    (hproper : ∀ m ∈ (f (w.socket s)).replies,
      (f (w.socket s)).received ≠ [] ∧ Proper w (f (w.socket s)) m)
    (hapart : ∀ d, .fileDescriptor d ∈ (f (w.socket s)).replies → ∀ t, t ≠ s →
      .fileDescriptor d ∉ (w.socket t).replies) : Sound (w.modifySocket s f) where
  unconnected t ht := by
    by_cases hs : t = s
    · subst hs
      simp only [World.modifySocket, Function.update_self, hconn] at ht
      cases ht
    · simp only [World.modifySocket, Function.update_of_ne hs] at ht ⊢
      exact h.unconnected t ht
  backlog t ht := by
    by_cases hs : t = s
    · subst hs
      simp only [World.modifySocket, Function.update_self]
      exact ⟨hconn, hback ht⟩
    · simp only [World.modifySocket, Function.update_of_ne hs]
      exact h.backlog t ht
  once t := by
    by_cases hs : t = s
    · subst hs
      simp only [World.modifySocket, Function.update_self]
      exact honce
    · simp only [World.modifySocket, Function.update_of_ne hs]
      exact h.once t
  proper t m hm := by
    by_cases hs : t = s
    · subst hs
      simp only [World.modifySocket, Function.update_self] at hm ⊢
      obtain ⟨hne, hp⟩ := hproper m hm
      refine ⟨hne, ?_⟩
      cases m <;> exact hp
    · simp only [World.modifySocket, Function.update_of_ne hs] at hm ⊢
      obtain ⟨hne, hp⟩ := h.proper t m hm
      refine ⟨hne, ?_⟩
      cases m <;> exact hp
  apart t t' d ht ht' := by
    by_cases hs : t = s
    · subst hs
      by_cases hs' : t' = t
      · exact hs'.symm
      · simp only [World.modifySocket, Function.update_self] at ht
        simp only [World.modifySocket, Function.update_of_ne hs'] at ht'
        exact absurd ht' (hapart d ht t' hs')
    · simp only [World.modifySocket, Function.update_of_ne hs] at ht
      by_cases hs' : t' = s
      · subst hs'
        simp only [World.modifySocket, Function.update_self] at ht'
        exact absurd ht (hapart d ht' t hs)
      · simp only [World.modifySocket, Function.update_of_ne hs'] at ht'
        exact h.apart t t' d ht ht'
  newSocket t ht := by
    have hs : t ≠ s := by
      rintro rfl
      exact absurd hnew (Nat.not_lt.mpr ht)
    simp only [World.modifySocket, Function.update_of_ne hs]
    exact h.newSocket t ht
  newDevice := h.newDevice

end Shown

section Steps

variable {w w' : World} {ls : List Party} {l l' : Party} {i j : Nat} {e : Env} {a : Act}
variable {r : Resp a}

theorem Sound.unsent_of_fresh_login (h : Sound w) {s d : Nat} (hd : (w.device d).logins = []) :
    .fileDescriptor d ∉ (w.socket s).replies := by
  intro hm
  obtain ⟨cmdline, buf, hone, -⟩ := h.loggedIn_of_reply hm
  simp [hd] at hone

theorem Sound.modifyDevice (h : Sound w) {d : Nat} {g : Device → Device}
    (hold : (w.device d).logins = []) (hnew : d < w.nextDevice) : Sound (w.modifyDevice d g) where
  unconnected := h.unconnected
  backlog := h.backlog
  once := h.once
  proper s m hm := by
    obtain ⟨hne, hp⟩ := h.proper s m hm
    refine ⟨hne, ?_⟩
    cases m with
    | version v => exact hp
    | fileDescriptor d' =>
      have hdd : d' ≠ d := by
        rintro rfl
        exact h.unsent_of_fresh_login hold hm
      obtain ⟨hreq, cmdline, buf, hone, hcert, hread⟩ := hp
      refine ⟨hreq, cmdline, buf, ?_, hcert, hread⟩
      simpa [World.modifyDevice, hdd] using hone
  apart := h.apart
  newSocket := h.newSocket
  newDevice d' hd' := by
    have hdd : d' ≠ d := by
      rintro rfl
      exact absurd hnew (Nat.not_lt.mpr hd')
    simpa [World.modifyDevice, hdd] using h.newDevice d' hd'

theorem Fits.modifyDevice (h : Fits w l) {d : Nat} {g : Device → Device}
    (hd : .device d ∉ l.handles) : Fits (w.modifyDevice d g) l where
  peer := h.peer
  heard := h.heard
  answered := h.answered
  name := h.name
  login d' hd' := by
    have hdd : d' ≠ d := by
      rintro rfl
      exact hd hd'
    simpa [World.modifyDevice, hdd] using h.login d' hd'
  unsent := h.unsent
  client := h.client
  received := h.received
  oneServer := h.oneServer
  oneDevice := h.oneDevice

theorem Fits.of_backlog {backlog : List Nat} (h : Fits w l) : Fits { w with backlog } l :=
  ⟨h.peer, h.heard, h.answered, h.name, h.login, h.unsent, h.client, h.received, h.oneServer,
    h.oneDevice⟩

theorem lt_nextSocket (h : Sound w) {s : Nat} (hs : (w.socket s).connected = true) :
    s < w.nextSocket := by
  by_contra hle
  rw [h.newSocket s (Nat.not_lt.mp hle)] at hs
  cases hs

theorem fits_other (h : Inv w ls) (hi : ls[i]? = some l) (hpre : Pre l a)
    (hshown : Shown w a r w') (hij : i ≠ j) (hj : ls[j]? = some l') : Fits w' l' := by
  have hl' := h.fits l' (List.mem_of_getElem? hj)
  cases hshown with
  | recvCaInfo s bytes n hne =>
    have hserver := h.apart hi hpre.1 rfl hij hj
    exact hl'.modifySocket h.sound (fun hc => ⟨hc, rfl⟩) (fun hs => absurd hs hserver)
      (.inr ⟨rfl, rfl⟩) (fun hans => hans) (fun d hd hans => hl'.unsent d hd hans s)
      (fun hs hc => hl'.client s hs hc) fun m hm => hm
  | login d buf ret => exact hl'.modifyDevice (h.apart hi hpre.1 rfl hij hj)
  | sendMessage s m ret hret =>
    obtain ⟨hs, hans, hanswers⟩ := hpre
    have hserver := h.apart hi hs rfl hij hj
    refine hl'.modifySocket h.sound (fun hc => ⟨hc, rfl⟩) (fun hs => absurd hs hserver)
      (.inr ⟨rfl, rfl⟩) (fun hans => hans) (fun d hd hans' => ?_)
      (fun hs hc => hl'.client s hs hc) fun m' hm' => List.mem_append_left _ hm'
    intro hmem
    rcases List.mem_append.mp hmem with hmem | hmem
    · exact hl'.unsent d hd hans' s hmem
    · obtain rfl := List.mem_singleton.mp hmem
      exact h.apart hi hanswers.1 rfl hij hj hd
  | connect s cred hconn =>
    have hclient := h.apart hi hpre.1 rfl hij hj
    refine Fits.of_backlog (hl'.modifySocket h.sound (fun hc => ?_) (fun hs => ?_)
      (.inr ⟨rfl, rfl⟩) (fun hans => hans) (fun d hd hans => hl'.unsent d hd hans s)
      (fun hs => absurd hs hclient) fun m hm => hm)
    · rw [hconn] at hc
      cases hc
    · have hc := (hl'.heard s hs).1
      rw [hconn] at hc
      cases hc

theorem fits_own (h : Inv w ls) (hi : ls[i]? = some l) (hpre : Pre l a)
    (hshown : Shown w a r w') : Fits w' (l.upd a r) := by
  have hl := h.fits l (List.mem_of_getElem? hi)
  cases hshown with
  | recvCaInfo s bytes n hne =>
    obtain ⟨hs, hheard⟩ := hpre
    obtain ⟨hconn, hrec, -⟩ := hl.heard s hs
    rw [hheard] at hrec
    refine hl.modifySocket h.sound (fun hc => ⟨hc, rfl⟩) (fun _ => ⟨?_, ?_, hl.answered s hs⟩)
      (.inl hs) (fun hans => hans) (fun d hd hans => hl.unsent d hd hans s)
      (fun hs hc => hl.client s hs hc) fun m hm => hm
    · simp [hrec]
    · simp [hne]
  | login d buf ret =>
    obtain ⟨hd, hlogin⟩ := hpre
    obtain ⟨hold, -⟩ := hl.login d hd
    rw [hlogin] at hold
    refine ⟨hl.peer, hl.heard, hl.answered, hl.name, fun d' hd' => ?_, hl.unsent, hl.client,
      hl.received, hl.oneServer, hl.oneDevice⟩
    obtain rfl := hl.oneDevice d d' hd hd'
    simp [World.modifyDevice, Party.upd, hold]
  | sendMessage s m ret hret =>
    obtain ⟨hs, hans, hanswers⟩ := hpre
    have hupd : l.upd (.sendMessage s m) ret = { l with answered := true } :=
      if_neg (Int.not_le.mpr hret)
    obtain ⟨hconn, hrec, hx⟩ := hl.heard s hs
    rw [hupd]
    exact hl.modifySocket h.sound (fun hc => ⟨hc, rfl⟩) (fun _ => ⟨hrec, hx, by simp⟩)
      (.inl hs) (by simp) (by simp) (fun hs hc => hl.client s hs hc)
      fun m' hm' => List.mem_append_left _ hm'
  | connect s cred hconn =>
    obtain ⟨hs, hcred⟩ := hpre
    refine Fits.of_backlog (hl.modifySocket h.sound (fun hc => ?_) (fun hserver => ?_)
      (.inr ⟨rfl, rfl⟩) (fun hans => hans) (fun d hd hans => hl.unsent d hd hans s)
      (fun _ _ => hcred) fun m hm => hm)
    · rw [hconn] at hc
      cases hc
    · have hc := (hl.heard s hserver).1
      rw [hconn] at hc
      cases hc

theorem Sound.addBacklog (h : Sound w) {s : Nat} (hs : (w.socket s).connected = true ∧
    (w.socket s).received = [] ∧ (w.socket s).replies = []) :
    Sound { w with backlog := w.backlog ++ [s] } where
  unconnected := h.unconnected
  backlog t ht := by
    rcases List.mem_append.mp ht with ht | ht
    · exact h.backlog t ht
    · obtain rfl := List.mem_singleton.mp ht
      exact hs
  once := h.once
  proper t m hm := by
    obtain ⟨hne, hp⟩ := h.proper t m hm
    refine ⟨hne, ?_⟩
    cases m <;> exact hp
  apart := h.apart
  newSocket := h.newSocket
  newDevice := h.newDevice

theorem proper_of_answers (hl : Fits w l) {s : Nat} {m : Message} (hs : .server s ∈ l.handles)
    (h : Answers l s m) : (w.socket s).received ≠ [] ∧ Proper w (w.socket s) m := by
  obtain ⟨hconn, hrec, hheard⟩ := hl.heard s hs
  cases m with
  | version v =>
    obtain ⟨hv, bytes, hbytes, hreq⟩ := h
    obtain ⟨-, hne⟩ := hheard _ hbytes
    rw [hbytes] at hrec
    have hrec : (w.socket s).received = bytes := hrec
    exact ⟨hrec ▸ hne, hv, hrec ▸ hreq⟩
  | fileDescriptor d =>
    obtain ⟨hd, bytes, cr, cmdline, buf, hbytes, hreq, hpeer, hname, hcert, hlogin⟩ := h
    obtain ⟨-, hne⟩ := hheard _ hbytes
    obtain ⟨-, hcr⟩ := hl.peer _ hpeer
    obtain ⟨hlogins, -⟩ := hl.login d hd
    rw [hbytes] at hrec
    rw [hlogin] at hlogins
    have hrec : (w.socket s).received = bytes := hrec
    have hcr : (w.socket s).peer = cr := hcr
    subst hrec hcr
    exact ⟨hne, hreq, cmdline, buf, hlogins, hcert, hl.name _ hname⟩

theorem sound_shown (h : Inv w ls) (hi : ls[i]? = some l) (hpre : Pre l a)
    (hshown : Shown w a r w') : Sound w' := by
  have hl := h.fits l (List.mem_of_getElem? hi)
  cases hshown with
  | recvCaInfo s bytes n hne =>
    obtain ⟨hs, hheard⟩ := hpre
    obtain ⟨hconn, hrec, -⟩ := hl.heard s hs
    rw [hheard] at hrec
    -- Nothing was sent before anything was received.
    have hnone : (w.socket s).replies = [] := by
      refine List.eq_nil_iff_forall_not_mem.mpr fun m hm => ?_
      exact (h.sound.proper s m hm).1 hrec
    refine h.sound.modifySocket (lt_nextSocket h.sound hconn) hconn
      (fun hback => absurd hback (h.not_waiting hi hs)) (h.sound.once s) (fun m hm => ?_)
      fun d hd => ?_
    · rw [hnone] at hm
      exact absurd hm List.not_mem_nil
    · rw [hnone] at hd
      exact absurd hd List.not_mem_nil
  | login d buf ret =>
    obtain ⟨hd, hlogin⟩ := hpre
    obtain ⟨hold, -⟩ := hl.login d hd
    rw [hlogin] at hold
    exact h.sound.modifyDevice hold (Nat.not_le.mp (h.not_fresh hi hd))
  | sendMessage s m ret hret =>
    obtain ⟨hs, hans, hanswers⟩ := hpre
    obtain ⟨hconn, hrec, -⟩ := hl.heard s hs
    have hnone := hl.answered s hs hans
    refine h.sound.modifySocket (lt_nextSocket h.sound hconn) hconn
      (fun hback => absurd hback (h.not_waiting hi hs)) (by simp [hnone]) (fun m' hm' => ?_)
      fun d hd t hts => ?_
    · obtain rfl : m' = m := by simpa [hnone] using hm'
      exact proper_of_answers hl hs hanswers
    · obtain rfl : .fileDescriptor d = m := by simpa [hnone] using hd
      exact hl.unsent d hanswers.1 hans t
  | connect s cred hconn =>
    obtain ⟨hrec, hrep⟩ := h.sound.unconnected s hconn
    have hsound : Sound (w.modifySocket s ({ · with connected := true, peer := cred })) := by
      refine h.sound.modifySocket (Nat.not_le.mp (h.not_fresh hi hpre.1)) rfl
        (fun _ => ⟨hrec, hrep⟩) (h.sound.once s) (fun m hm => ?_) fun d hd => ?_
      · exact absurd hm (by simp [hrep])
      · exact absurd hd (by simp [hrep])
    refine hsound.addBacklog ?_
    simp [World.modifySocket, hrec, hrep]

theorem inv_step (h : Inv w ls) (hi : ls[i]? = some l) (hpre : Pre l a)
    (hexec : w.exec e a = some (r, w')) : Inv w' (ls.set i (l.upd a r)) where
  sound := by
    by_cases hquiet : quiet a r = true
    · exact ((effect_exec hexec).same hquiet).sound h.sound
    · exact sound_shown h hi hpre (shown_exec hexec (Bool.eq_false_iff.mpr hquiet))
  fits l' hl' := by
    obtain ⟨j, hj⟩ := List.mem_iff_getElem?.mp hl'
    by_cases hij : i = j
    · subst hij
      rw [List.getElem?_set_self (List.getElem?_eq_some_iff.mp hi).1] at hj
      obtain rfl := Option.some.inj hj
      by_cases hquiet : quiet a r = true
      · exact fits_quiet h.sound (h.fits l (List.mem_of_getElem? hi)) hpre hexec hquiet
      · exact fits_own h hi hpre (shown_exec hexec (Bool.eq_false_iff.mpr hquiet))
    · rw [List.getElem?_set_ne hij] at hj
      by_cases hquiet : quiet a r = true
      · exact ((effect_exec hexec).same hquiet).fits (h.fits l' (List.mem_of_getElem? hj))
      · exact fits_other h hi hpre (shown_exec hexec (Bool.eq_false_iff.mpr hquiet)) hij hj
  single x hx := single_step h hi hexec hx
  fresh x hx := fresh_step h hi hexec hx
  descriptors x := descriptors_step h hi hpre hexec x

theorem fits_begin (cred : Option Ucred) : Fits w (.begin cred) := by
  constructor <;> simp [Party.begin]

theorem inv_init : Inv .init [] := by
  refine ⟨?_, by simp, fun h _ => ?_, fun h _ => ?_, fun h => by simp [World.init]⟩
  · constructor <;> simp [World.init]
  · cases h <;> simp [places, World.init]
  · cases h <;> simp [places, World.init]

theorem inv_start (h : Inv w ls) (cred : Option Ucred) : Inv w (ls ++ [.begin cred]) := by
  have hplaces (x : Handle) : places w (ls ++ [.begin cred]) x = places w ls x := by
    cases x <;> simp [places, Party.begin]
  refine ⟨h.sound, fun l hl => ?_, fun x hx => ?_, fun x hx => ?_, fun x => ?_⟩
  · rcases List.mem_append.mp hl with hl | hl
    · exact h.fits l hl
    · obtain rfl := List.mem_singleton.mp hl
      exact fits_begin cred
  · rw [hplaces]
    exact h.single x hx
  · rw [hplaces]
    exact h.fresh x hx
  · simpa [Party.begin] using h.descriptors x

end Steps

section Programs

variable {l : Party}

theorem certOf_loginBuffer {cmdline : Option Bytes} {cr : Ucred} {buf : Bytes}
    (h : loginBuffer cmdline cr.uid = some buf) : CertOf cr cmdline buf := by
  cases hname : teeGetPkgName cmdline maxPathLength with
  | none => simp [loginBuffer, teeGetNativeCert_of_none hname] at h
  | some name =>
    have hencodes := encodes_teeGetNativeCert hname cr.uid (BitVec.ofNat 32 bufMaxSize)
      (fun _ => 0) 0
    simp only [loginBuffer, Option.ite_none_right_eq_some, Option.some.injEq] at h
    obtain ⟨hok, rfl⟩ := h
    refine ⟨name, hname, ?_⟩
    have hdecodes := hencodes.decodes hok
    rwa [toNat_bufMaxSize] at hdecodes

theorem safe_trySyncSysTimeToSecure {syncSysTimed : Bool} (h : l.cred = none) :
    Safe parties Pre l (trySyncSysTimeToSecure syncSysTimed) fun _ l' => l' = l := by
  have hprivate : (l.opens .privateDevice).upd (.close .privateDevice) () = l := by
    simp [Party.upd, Party.opens]
  simp only [trySyncSysTimeToSecure, syncSysTimeToSecure, sys, Prog.bind_eq, Prog.pure_eq,
    Prog.bind_act, Prog.bind_pure]
  split_ifs
  · exact rfl
  · refine ⟨h, fun timeVal => ?_⟩
    cases timeVal with
    | none => exact rfl
    | some time =>
      obtain ⟨sec, usec⟩ := time
      dsimp only
      split_ifs
      · exact rfl
      · refine ⟨h, fun opened => ?_⟩
        cases opened with
        | false => exact rfl
        | true => exact ⟨h, fun ret => ⟨List.mem_cons_self, fun _ => hprivate⟩⟩

structure Serving (s2 : Nat) (l : Party) : Prop where
  cred : l.cred = none
  handles : l.handles = [.server s2, .listener]

theorem safe_sendLoginInfo {cr : Ucred} {fd : Nat} (hcred : l.cred = none)
    (hfd : .device fd ∈ l.handles) (hlogin : l.login = none) :
    Safe parties Pre l (sendLoginInfo cr fd) fun ret l' =>
      (l'.cred = none ∧ l'.handles = l.handles ∧ l'.peer = l.peer ∧ l'.heard = l.heard ∧
        l'.answered = l.answered) ∧
      (ret = 0 → ∃ cmdline buf, l'.name = some (cr.pid, cmdline) ∧ CertOf cr cmdline buf ∧
        l'.login = some (fd, some buf, 0)) := by
  simp only [sendLoginInfo, getLoginInfo, sys, Prog.bind_eq, Prog.pure_eq, Prog.bind_act,
    Prog.bind_pure]
  refine ⟨trivial, fun allocated => ?_⟩
  cases allocated with
  | false => exact ⟨⟨hcred, rfl, rfl, rfl, rfl⟩, by simp⟩
  | true =>
    refine ⟨hcred, fun cmdline => ?_⟩
    dsimp only
    cases hbuf : loginBuffer cmdline cr.uid with
    | none =>
      exact ⟨⟨hfd, hlogin⟩, fun ret => ⟨⟨hcred, rfl, rfl, rfl, rfl⟩, by simp⟩⟩
    | some buf =>
      refine ⟨⟨hfd, hlogin⟩, fun ret => ⟨⟨hcred, rfl, rfl, rfl, rfl⟩, ?_⟩⟩
      rintro rfl
      exact ⟨cmdline, buf, rfl, certOf_loginBuffer hbuf, rfl⟩

theorem handles_sendMessage (l : Party) (s : Nat) (m : Message) (ret : Int) :
    (l.upd (.sendMessage s m) ret).handles = l.handles ∧
      (l.upd (.sendMessage s m) ret).cred = l.cred := by
  simp only [Party.upd]
  split_ifs <;> exact ⟨rfl, rfl⟩

theorem safe_processCaMsg {cr : Ucred} {caInfo : CaRevMsg} {s2 : Nat} {bytes : Bytes}
    (h : Serving s2 l) (hpeer : l.peer = some (s2, cr)) (hheard : l.heard = some (s2, bytes))
    (hcaInfo : caInfo.cmd = requested bytes) (hans : l.answered = false) :
    Safe parties Pre l (processCaMsg cr caInfo s2) fun _ => Serving s2 := by
  have hserver : .server s2 ∈ l.handles := by simp [h.handles]
  simp only [processCaMsg, sendFileDescriptor, sys, Prog.bind_eq, Prog.pure_eq, Prog.bind_act,
    Prog.bind_pure]
  split_ifs with hcmd
  · refine ⟨⟨hserver, hans, rfl, bytes, hheard, hcaInfo ▸ hcmd⟩, fun ret => ?_⟩
    obtain ⟨hhandles, hcred⟩ := handles_sendMessage l s2 (.version version) ret
    exact ⟨hcred.trans h.cred, hhandles.trans h.handles⟩
  · refine ⟨⟨h.cred, hans, by simp [h.handles]⟩, fun fd => ?_⟩
    cases fd with
    | none => exact h
    | some fd =>
      have hsend : Safe parties Pre (l.upd .openDevice (some fd)) (sendLoginInfo cr fd) _ :=
        safe_sendLoginInfo h.cred List.mem_cons_self rfl
      refine safe_bind.mpr (hsend.mono fun ret l' hl' => ?_)
      obtain ⟨⟨hcred, hhandles, hpeer', hheard', hans'⟩, hlogin⟩ := hl'
      have hclose (l'' : Party) (hh : l''.handles = l'.handles) (hc : l''.cred = l'.cred) :
          .device fd ∈ l''.handles ∧ Serving s2 (l''.upd (.close (.device fd)) ()) := by
        refine ⟨?_, hc.trans hcred, ?_⟩
        · rw [hh, hhandles]
          exact List.mem_cons_self
        · simp [Party.upd, hh, hhandles, Party.opens, h.handles]
      split_ifs with hret
      · obtain ⟨cmdline, buf, hname, hcert, hlog⟩ := hlogin hret
        refine ⟨⟨?_, hans'.trans hans, ?_, bytes, cr, cmdline, buf, hheard'.trans hheard, ?_,
          hpeer'.trans hpeer, hname, hcert, hlog⟩, fun sent => ?_⟩
        · rw [hhandles]
          exact List.mem_cons_of_mem _ hserver
        · rw [hhandles]
          exact List.mem_cons_self
        · rwa [← hcaInfo]
        · obtain ⟨hh, hc⟩ := handles_sendMessage l' s2 (.fileDescriptor fd) sent
          obtain ⟨hmem, hserving⟩ := hclose _ hh hc
          exact ⟨hmem, fun _ => hserving⟩
      · obtain ⟨hmem, hserving⟩ := hclose l' rfl rfl
        exact ⟨hmem, fun _ => hserving⟩

theorem safe_serveCa {cr : Ucred} {s2 : Nat} {syncSysTimed : Bool} (h : Serving s2 l)
    (hpeer : l.peer = some (s2, cr)) (hheard : l.heard = none) (hans : l.answered = false) :
    Safe parties Pre l (serveCa cr s2 .zeroed syncSysTimed) fun _ => Serving s2 := by
  have hserver : .server s2 ∈ l.handles := by simp [h.handles]
  simp only [serveCa, recvCaMsg, sys, Prog.bind_eq, Prog.pure_eq, Prog.bind_act, Prog.bind_pure]
  refine ⟨h.cred, fun ready => ?_⟩
  cases ready with
  | false => exact h
  | true =>
    refine ⟨⟨hserver, hheard⟩, fun bytes => ?_⟩
    cases bytes with
    | none => exact ⟨h.cred, h.handles⟩
    | some bytes =>
      have hserving : Serving s2 (l.upd (.recvCaInfo s2) (some bytes)) := ⟨h.cred, h.handles⟩
      change Safe parties Pre _ (Prog.bind (trySyncSysTimeToSecure syncSysTimed) _) _
      refine safe_bind.mpr ((safe_trySyncSysTimeToSecure hserving.cred).mono fun timed l' hl' => ?_)
      subst hl'
      exact safe_bind.mpr (safe_processCaMsg hserving hpeer rfl rfl hans)

/-- Each round begins and ends with the listening socket, and `caInfo` is clear. -/
theorem safe_processAccept {rounds : Nat} {syncSysTimed : Bool} (hcred : l.cred = none)
    (hhandles : l.handles = [.listener]) :
    Safe parties Pre l (processAccept rounds .zeroed syncSysTimed) fun _ l' =>
      l'.cred = none := by
  induction rounds generalizing l syncSysTimed with
  | zero => exact hcred
  | succ rounds ih =>
    simp only [processAccept, sys, Prog.bind_eq, Prog.bind_act, Prog.bind_pure]
    refine ⟨⟨hcred, hhandles⟩, fun s2 => ?_⟩
    cases s2 with
    | none => exact ih hcred hhandles
    | some s2 =>
      have hserving : Serving s2 (l.upd .accept (some s2)) := by
        refine ⟨hcred, ?_⟩
        simp [Party.upd, Party.opens, hhandles]
      have hclose {l' : Party} (h : Serving s2 l') :
          .server s2 ∈ l'.handles ∧ (l'.upd (.close (.server s2)) ()).cred = none ∧
            (l'.upd (.close (.server s2)) ()).handles = [.listener] := by
        refine ⟨by simp [h.handles], h.cred, ?_⟩
        simp [Party.upd, h.handles]
      refine ⟨(hclose hserving).1, fun cr => ?_⟩
      cases cr with
      | none =>
        have hserving' : Serving s2 ((l.upd .accept (some s2)).upd (.getPeerCred s2) none) :=
          ⟨hserving.cred, hserving.handles⟩
        obtain ⟨hmem, hc, hh⟩ := hclose hserving'
        exact ⟨hmem, fun _ => ih hc hh⟩
      | some cr =>
        have hserve : Safe parties Pre ((l.upd .accept (some s2)).upd (.getPeerCred s2) (some cr))
            (serveCa cr s2 .zeroed syncSysTimed) _ :=
          safe_serveCa ⟨hserving.cred, hserving.handles⟩ rfl rfl rfl
        refine safe_bind.mpr (hserve.mono fun timed l' hl' => ?_)
        obtain ⟨hmem, hc, hh⟩ := hclose hl'
        exact ⟨hmem, fun _ => ih hc hh⟩

theorem safe_caServerWorkThread {rounds : Nat} {syncSysTimed : Bool} :
    Safe parties Pre (.begin none) (caServerWorkThread rounds syncSysTimed) fun _ l' =>
      l'.cred = none := by
  simp only [caServerWorkThread, sys, Prog.bind_eq, Prog.pure_eq, Prog.bind_act, Prog.bind_pure]
  refine ⟨rfl, fun opened => ?_⟩
  cases opened with
  | false => exact rfl
  | true =>
    refine ⟨rfl, fun listening => ?_⟩
    cases listening with
    | false => exact ⟨List.mem_cons_self, fun _ => rfl⟩
    | true =>
      refine ⟨trivial, fun allocated => ?_⟩
      cases allocated with
      | false => exact ⟨List.mem_cons_self, fun _ => rfl⟩
      | true => exact safe_processAccept rfl rfl

def Connecting (cred : Ucred) (s : Except Int Nat) (l : Party) : Prop :=
  l.cred = some cred ∧ l.handles = s.toOption.toList.map .client

def Returned.handles : Returned → List Handle
  | .code _ => []
  | .fileDescriptor d => [.received d]

theorem safe_connectTeecdSocket {cred : Ucred} (hcred : l.cred = some cred)
    (hhandles : l.handles = []) :
    Safe parties Pre l (connectTeecdSocket cred) (Connecting cred) := by
  simp only [connectTeecdSocket, sys, Prog.bind_eq, Prog.pure_eq, Prog.bind_act, Prog.bind_pure]
  refine ⟨trivial, fun s => ?_⟩
  cases s with
  | none => exact ⟨hcred, hhandles⟩
  | some s =>
    have hhandles' : (l.upd .socket (some s)).handles = [.client s] := by
      simp [Party.upd, Party.opens, hhandles]
    have hmem : .client s ∈ (l.upd .socket (some s)).handles := List.mem_cons_self
    refine ⟨⟨hmem, hcred⟩, fun failed => ?_⟩
    cases failed with
    | none => exact ⟨hcred, hhandles'⟩
    | some error =>
      cases error
      all_goals
        refine ⟨hmem, fun _ => ⟨hcred, ?_⟩⟩
        simp [parties, Party.upd, Party.opens, hhandles, Except.toOption]

theorem safe_connectRetrying {cred : Ucred} {n : Nat} (hcred : l.cred = some cred)
    (hhandles : l.handles = []) :
    Safe parties Pre l (connectRetrying cred n) (Connecting cred) := by
  induction n generalizing l with
  | zero => exact ⟨hcred, hhandles⟩
  | succ n ih =>
    simp only [connectRetrying, sys, Prog.bind_eq, Prog.pure_eq, Prog.bind_act, Prog.bind_pure]
    refine safe_bind.mpr ((safe_connectTeecdSocket hcred hhandles).mono fun s l' hl' => ?_)
    cases s with
    | ok s => exact hl'
    | error code =>
      dsimp only
      split_ifs
      · exact ⟨trivial, fun _ => ih hl'.1 hl'.2⟩
      · exact hl'

theorem safe_recvFileDescriptor {cmd : U32} {s : Nat} (hhandles : l.handles = [.client s]) :
    Safe parties Pre l (recvFileDescriptor cmd s) fun fd l' =>
      l'.handles = fd.handles ++ [.client s] := by
  simp only [recvFileDescriptor, sys, Prog.bind_eq, Prog.pure_eq, Prog.bind_act, Prog.bind_pure]
  refine ⟨by simp [Pre, hhandles], fun m => ?_⟩
  cases m with
  | none => exact hhandles
  | some m =>
    cases m with
    | version v =>
      by_cases hcmd : cmd = getTeeVersion
      · simpa [parties, Party.upd, hcmd, Returned.handles] using hhandles
      · simpa [parties, Party.upd, hcmd, Returned.handles] using hhandles
    | fileDescriptor d =>
      by_cases hcmd : cmd = getTeeVersion
      · simpa [parties, Party.upd, hcmd, Returned.handles] using hhandles
      · simp [parties, Party.upd, Party.opens, hcmd, Returned.handles, hhandles]

theorem safe_caDaemonConnectWithCaInfo {cred : Ucred} {caAuthInfo : Bytes} {cmd : U32} :
    Safe parties Pre (.begin (some cred)) (caDaemonConnectWithCaInfo cred caAuthInfo cmd)
      fun fd l' => l'.handles = fd.handles := by
  simp only [caDaemonConnectWithCaInfo, sys, Prog.bind_eq, Prog.pure_eq, Prog.bind_act,
    Prog.bind_pure]
  have hconnect : Safe parties Pre (.begin (some cred)) (connectRetrying cred sleepCount)
      (Connecting cred) := safe_connectRetrying rfl rfl
  refine safe_bind.mpr (hconnect.mono fun s l hl => ?_)
  cases s with
  | error code => exact hl.2
  | ok s =>
    obtain ⟨hcred, hhandles⟩ := hl
    have hhandles : l.handles = [.client s] := hhandles
    have hmem : .client s ∈ l.handles := by simp [hhandles]
    have hclose : (l.upd (.close (.client s)) ()).handles = [] := by simp [Party.upd, hhandles]
    refine ⟨trivial, fun filled => ?_⟩
    cases filled with
    | false => exact ⟨hmem, fun _ => hclose⟩
    | true =>
      refine ⟨hmem, fun sent => ?_⟩
      dsimp only
      by_cases hsent : sent < 0
      · rw [if_pos hsent]
        exact ⟨hmem, fun _ => hclose⟩
      · rw [if_neg hsent]
        refine safe_bind.mpr ((safe_recvFileDescriptor ?_).mono fun fd l' hl' => ?_)
        · exact hhandles
        · refine ⟨by simp [Pre, hl'], fun _ => ?_⟩
          cases fd <;> simp [parties, Party.upd, hl', Returned.handles]

end Programs

section Runs

abbrev LoginConfig := Config Act Resp World Party

def serverThread (rounds : Nat) (syncSysTimed : Bool) : Call Act Resp Party :=
  ⟨.begin none, caServerWorkThread rounds syncSysTimed⟩

def libraryClient (cred : Ucred) (caAuthInfo : Bytes) (cmd : U32) : Call Act Resp Party :=
  ⟨.begin (some cred),
    (caDaemonConnectWithCaInfo cred caAuthInfo cmd).bind fun ret => sys (.returns ret)⟩

def AnyParty (k : Call Act Resp Party) : Prop :=
  (∃ rounds syncSysTimed, k = serverThread rounds syncSysTimed) ∨
    ∃ cred prog, k = ⟨.begin (some cred), prog⟩ ∧
      Safe parties Pre (.begin (some cred)) prog fun _ _ => True

def LibraryParty (k : Call Act Resp Party) : Prop :=
  (∃ rounds syncSysTimed, k = serverThread rounds syncSysTimed) ∨
    ∃ cred caAuthInfo cmd, k = libraryClient cred caAuthInfo cmd

abbrev LoginReaches (starts : Call Act Resp Party → Prop) (cfg : LoginConfig) : Prop :=
  Reaches parties starts (fun _ _ _ _ _ => true) .init cfg

theorem inv_reaches {starts : Call Act Resp Party → Prop} {Q : Unit → Party → Prop}
    (hstarts : ∀ k, starts k → (∃ cred, k.loc = .begin cred) ∧ Safe parties Pre k.loc k.prog Q)
    {cfg : LoginConfig} (h : LoginReaches starts cfg) :
    Inv cfg.state cfg.locs ∧ ∀ k ∈ cfg.calls, Safe parties Pre k.loc k.prog Q := by
  refine Reaches.invariant (I := Inv) inv_init (fun w ls k hk hinv => ?_)
    (fun k hk => (hstarts k hk).2) (fun w ls i l a r w' hinv hi hpre hstep _ => ?_) h
  · obtain ⟨cred, hloc⟩ := (hstarts k hk).1
    rw [hloc]
    exact inv_start hinv cred
  · obtain ⟨e, hexec⟩ := hstep
    exact inv_step hinv hi hpre hexec

/-- A client has descriptors of files that are logged in once, as the client itself, and no other
connection has them; a connection gets at most one message, which is what it asked for. -/
structure Served (cfg : LoginConfig) : Prop where
  received : ∀ l ∈ cfg.locs, ∀ d, .received d ∈ l.handles →
    ∃ cr, l.cred = some cr ∧ LoggedInAs cfg.state cr d
  answered : ∀ s, (cfg.state.socket s).replies.length ≤ 1 ∧
    ∀ m ∈ (cfg.state.socket s).replies, Proper cfg.state (cfg.state.socket s) m
  apart : ∀ s s' d, .fileDescriptor d ∈ (cfg.state.socket s).replies →
    .fileDescriptor d ∈ (cfg.state.socket s').replies → s = s'

theorem served_reaches (cfg : LoginConfig) (h : LoginReaches AnyParty cfg) : Served cfg := by
  have hstarts (k : Call Act Resp Party) (hk : AnyParty k) : (∃ cred, k.loc = .begin cred) ∧
      Safe parties Pre k.loc k.prog fun _ _ => True := by
    rcases hk with ⟨rounds, syncSysTimed, rfl⟩ | ⟨cred, prog, rfl, hsafe⟩
    · exact ⟨⟨none, rfl⟩, safe_caServerWorkThread.mono fun _ _ _ => trivial⟩
    · exact ⟨⟨some cred, rfl⟩, hsafe⟩
  obtain ⟨hinv, -⟩ := inv_reaches hstarts h
  refine ⟨fun l hl d hd => ?_, fun s => ⟨hinv.sound.once s, fun m hm => ?_⟩, hinv.sound.apart⟩
  · obtain ⟨s, hm, hcred⟩ := (hinv.fits l hl).received d hd
    exact ⟨_, hcred, hinv.sound.loggedIn_of_reply hm⟩
  · exact (hinv.sound.proper s m hm).2

/-- What is open in the system is what its parties have open; a thread of `teecd` that waits for a
connection has only the listening socket, and a client that has returned only what it returned. -/
structure Balanced (cfg : LoginConfig) : Prop where
  table : ∀ h, total (fun l => l.handles.count h) cfg.locs = cfg.state.descriptors.count h
  accepting : ∀ i l, cfg.Pending i l .accept → l.handles = [.listener]
  returned : ∀ k ∈ cfg.calls, k.prog = .pure () → k.loc.cred ≠ none →
    ∃ ret : Returned, k.loc.returned = some ret ∧ k.loc.handles = ret.handles

theorem balanced_reaches (cfg : LoginConfig) (h : LoginReaches LibraryParty cfg) :
    Balanced cfg := by
  have hstarts (k : Call Act Resp Party) (hk : LibraryParty k) : (∃ cred, k.loc = .begin cred) ∧
      Safe parties Pre k.loc k.prog fun _ l =>
        l.cred = none ∨ ∃ ret : Returned, l.returned = some ret ∧ l.handles = ret.handles := by
    rcases hk with ⟨rounds, syncSysTimed, rfl⟩ | ⟨cred, caAuthInfo, cmd, rfl⟩
    · exact ⟨⟨none, rfl⟩, safe_caServerWorkThread.mono fun _ _ hcred => .inl hcred⟩
    · refine ⟨⟨some cred, rfl⟩, safe_bind.mpr ?_⟩
      exact safe_caDaemonConnectWithCaInfo.mono fun ret _ hhandles =>
        ⟨trivial, fun _ => .inr ⟨ret, rfl, hhandles⟩⟩
  obtain ⟨hinv, hsafe⟩ := inv_reaches hstarts h
  refine ⟨hinv.descriptors, fun i l hpend => ?_, fun k hk hreturned hcred => ?_⟩
  · obtain ⟨rest, hi⟩ := hpend
    exact (hsafe _ (List.mem_of_getElem? hi)).1.2
  · have hend := hsafe k hk
    rw [hreturned] at hend
    exact hend.resolve_left hcred

def succeeds (ret : Int) : Env := ⟨true, ret, 4112, some [97, 0], none, .other⟩

def threeClients : LoginConfig :=
  ⟨.init, [serverThread 4 true, libraryClient ⟨7, 1000⟩ [] getFd,
    libraryClient ⟨8, 1001⟩ [] getTeeVersion, libraryClient ⟨9, 1002⟩ [] getFd]⟩

def servesFd : List (Nat × Env) :=
  List.replicate 8 (0, succeeds 0) ++ List.replicate 3 (0, succeeds 1)

/-- Three clients connect and send their requests before the first one is served; the server is
back in `accept`. -/
def threeServed : List (Nat × Env) :=
  List.replicate 3 (0, succeeds 0) ++ List.replicate 2 (1, succeeds 0) ++
    List.replicate 3 (3, succeeds 0) ++ List.replicate 3 (2, succeeds 0) ++
    [(1, succeeds 0), (3, succeeds 4), (1, succeeds 4), (2, succeeds 4)] ++ servesFd ++
    List.replicate 3 (1, succeeds 0) ++ servesFd ++ List.replicate 4 (0, succeeds 0) ++
    List.replicate 2 (0, succeeds 1) ++ List.replicate 3 (3, succeeds 0) ++
    List.replicate 3 (2, succeeds 0)

theorem reaches_threeServed {starts : Call Act Resp Party → Prop}
    (hstarts : ∀ k, LibraryParty k → starts k) :
    ∃ cfg : LoginConfig, LoginReaches starts cfg ∧
      cfg.locs.map (·.handles) = [[.listener], [.received 0], [], [.received 1]] ∧
      cfg.locs.map (·.returned) =
        [none, some (.fileDescriptor 0), some (.code 0), some (.fileDescriptor 1)] := by
  have hrun : (replay parties (fun _ _ _ _ _ => true) threeServed threeClients).map
      (fun cfg => (cfg.locs.map (·.handles), cfg.locs.map (·.returned))) =
      some ([[.listener], [.received 0], [], [.received 1]],
        [none, some (.fileDescriptor 0), some (.code 0), some (.fileDescriptor 1)]) := by
    rfl
  have hserver : LibraryParty (serverThread 4 true) := .inl ⟨4, true, rfl⟩
  have hclient (cred : Ucred) (cmd : U32) : LibraryParty (libraryClient cred [] cmd) :=
    .inr ⟨cred, [], cmd, rfl⟩
  have hbegin : LoginReaches starts threeClients :=
    (((Reaches.init.start (hstarts _ hserver)).start (hstarts _ (hclient _ _))).start
      (hstarts _ (hclient _ _))).start (hstarts _ (hclient _ _))
  obtain ⟨cfg, hreplay, hends⟩ := Option.map_eq_some_iff.mp hrun
  obtain ⟨hhandles, hreturned⟩ := Prod.mk.inj hends
  exact ⟨cfg, hbegin.replay threeServed hreplay, hhandles, hreturned⟩

theorem anyParty_of_library {k : Call Act Resp Party} (h : LibraryParty k) : AnyParty k := by
  refine h.imp_right ?_
  rintro ⟨cred, caAuthInfo, cmd, rfl⟩
  refine ⟨cred, _, rfl, safe_bind.mpr ?_⟩
  exact safe_caDaemonConnectWithCaInfo.mono fun _ _ _ => ⟨trivial, fun _ => trivial⟩

theorem served_threeServed : ∃ cfg : LoginConfig, LoginReaches AnyParty cfg ∧
    cfg.locs.map (·.handles) = [[.listener], [.received 0], [], [.received 1]] ∧ Served cfg := by
  obtain ⟨cfg, hreach, hhandles, -⟩ := reaches_threeServed fun _ => anyParty_of_library
  exact ⟨cfg, hreach, hhandles, served_reaches cfg hreach⟩

theorem balanced_threeServed : ∃ cfg : LoginConfig, LoginReaches LibraryParty cfg ∧
    cfg.locs.map (·.returned) =
      [none, some (.fileDescriptor 0), some (.code 0), some (.fileDescriptor 1)] ∧
    Balanced cfg := by
  obtain ⟨cfg, hreach, -, hreturned⟩ := reaches_threeServed fun _ h => h
  exact ⟨cfg, hreach, hreturned, balanced_reaches cfg hreach⟩

end Runs

end TeeClient.Teecd.Login
