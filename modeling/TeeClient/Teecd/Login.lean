import Mathlib.Tactic
import TeeClient.Authentication.NativeCert
import TeeClient.Lib.Resumption

/-! The server in `teecd` that opens the driver for a CA and logs the CA in
(`tee_ca_daemon.c`, `tee_ca_auth.c`, `TrySyncSysTimeToSecure` in `tee_agent.c`), and its client in
`libteec_vendor` (`tee_client_socket.c`).  The kernel's part is sockets, open files of the driver
and their descriptors. -/

namespace TeeClient.Teecd.Login

open Authentication ByteMemory LengthPrefix
open Resumption

section Types

structure Ucred where
  pid : Int
  uid : U32
  deriving DecidableEq

def caRevMsgSize : Nat := 4 + (bufMaxSize + 12)

def getFd : U32 := 0

def getTeeVersion : U32 := 1

abbrev CaRevMsg := Bytes

def CaRevMsg.zeroed : CaRevMsg := List.replicate caRevMsgSize 0

/-- `recvmsg` into a `CaRevMsg`: what is not received stays as it was. -/
def CaRevMsg.receive (caInfo : CaRevMsg) (bytes : Bytes) : CaRevMsg :=
  bytes ++ caInfo.drop bytes.length

def CaRevMsg.cmd (caInfo : CaRevMsg) : U32 := ((takeWord caInfo).map (·.1)).getD 0

/-- What `SendFileDescriptor` sends: the version, or one blank with a descriptor, here the open
file of the driver that it is for. -/
inductive Message
  | version (v : U32)
  | fileDescriptor (device : Nat)
  deriving DecidableEq

/-- A descriptor: the listening socket, either end of a connection, an open file of the driver
at the process that opened it or at one that received it, and `/dev/tc_private`. -/
inductive Handle
  | listener
  | client (socket : Nat)
  | server (socket : Nat)
  | device (d : Nat)
  | received (d : Nat)
  | privateDevice
  deriving DecidableEq

inductive ConnectError
  | eacces
  | other

inductive Returned
  | code (n : Int)
  | fileDescriptor (d : Nat)
  deriving DecidableEq

/-- The system calls of both sides, and the return from the library.  `login` is
`TC_NS_CLIENT_IOCTL_LOGIN`. -/
inductive Act
  | openListener
  | bindAndListen
  | malloc
  | accept
  | getPeerCred (s2 : Nat)
  | select (s2 : Nat)
  | recvCaInfo (s2 : Nat)
  | getTimeOfDay
  | openPrivate
  | syncSysTime (seconds millis : U32)
  | openDevice
  | readCmdline (pid : Int)
  | login (d : Nat) (buf : Option Bytes)
  | sendMessage (s2 : Nat) (m : Message)
  | close (h : Handle)
  | socket
  | connect (s : Nat) (cred : Ucred)
  | sleep
  | send (s : Nat) (bytes : Bytes)
  | recvMessage (s : Nat) (control : Bool)
  | returns (ret : Returned)

abbrev Resp : Act → Type
  | .openListener | .bindAndListen | .malloc | .select _ | .openPrivate => Bool
  | .accept | .openDevice | .socket => Option Nat
  | .getPeerCred _ => Option Ucred
  | .recvCaInfo _ | .readCmdline _ => Option Bytes
  | .getTimeOfDay => Option (Int × Int)
  | .syncSysTime _ _ | .login _ _ | .sendMessage _ _ | .send _ _ => Int
  | .connect _ _ => Option ConnectError
  | .recvMessage _ _ => Option Message
  | .close _ | .sleep | .returns _ => Unit

abbrev Program (α : Type) := Prog Act Resp α

def sys (a : Act) : Program (Resp a) := .act a .pure

end Types

section Server

def syncSysTimeToSecure : Program Int := do
  let timeVal : Option (Int × Int) ← sys .getTimeOfDay
  match timeVal with
  | none => pure (-1)
  | some (sec, usec) =>
    if sec < 0xFFFFF then pure (-1)
    else
      let opened : Bool ← sys .openPrivate
      if opened then
        let ret : Int ← sys (.syncSysTime (BitVec.ofInt 32 sec) (BitVec.ofInt 32 usec / 1000))
        sys (.close .privateDevice)
        pure ret
      else pure (-1)

/-- `TrySyncSysTimeToSecure`, with `syncSysTimed` before and after it. -/
def trySyncSysTimeToSecure (syncSysTimed : Bool) : Program Bool :=
  if syncSysTimed then pure true
  else do
    let ret ← syncSysTimeToSecure
    pure (decide (ret = 0))

def loginBuffer (cmdline : Option Bytes) (uid : U32) : Option Bytes :=
  let (ok, _, mem) := teeGetNativeCert cmdline uid (BitVec.ofNat 32 bufMaxSize) (fun _ => 0) 0
  if ok then some (read mem 0 bufMaxSize) else none

def getLoginInfo (cr : Ucred) (fd : Nat) : Program (Option Bytes) := do
  let cmdline : Option Bytes ← sys (.readCmdline cr.pid)
  match loginBuffer cmdline cr.uid with
  | some buf => pure (some buf)
  | none =>
    let _ : Int ← sys (.login fd none)
    pure none

def sendLoginInfo (cr : Ucred) (fd : Nat) : Program Int := do
  let allocated : Bool ← sys .malloc
  if allocated then
    let buf ← getLoginInfo cr fd
    match buf with
    | none => pure (-1)
    | some buf => sys (.login fd (some buf))
  else pure (-1)

def sendFileDescriptor (socket : Nat) (m : Message) : Program Int := do
  let ret : Int ← sys (.sendMessage socket m)
  pure (if ret ≤ 0 then -1 else 0)

def version : U32 := 0

def processCaMsg (cr : Ucred) (caInfo : CaRevMsg) (socket : Nat) : Program Int :=
  if caInfo.cmd = getTeeVersion then do
    let ret ← sendFileDescriptor socket (.version version)
    pure (if ret ≠ 0 then -1 else 0)
  else do
    let fd : Option Nat ← sys .openDevice
    match fd with
    | none => pure (-1)
    | some fd =>
      let ret ← sendLoginInfo cr fd
      if ret = 0 then
        let ret ← sendFileDescriptor socket (.fileDescriptor fd)
        sys (.close (.device fd))
        pure (if ret = 0 then 0 else -1)
      else
        sys (.close (.device fd))
        pure (-1)

def recvCaMsg (socket : Nat) (caInfo : CaRevMsg) : Program (Bool × CaRevMsg) := do
  let ready : Bool ← sys (.select socket)
  if ready then
    let bytes : Option Bytes ← sys (.recvCaInfo socket)
    match bytes with
    | none => pure (false, caInfo)
    | some bytes => pure (true, caInfo.receive bytes)
  else pure (false, caInfo)

/-- What `ProcessAccept` does with a connection, up to `CLOSE_SOCKET`, with `syncSysTimed` after
it. -/
def serveCa (cr : Ucred) (s2 : Nat) (caInfo : CaRevMsg) (syncSysTimed : Bool) : Program Bool := do
  let (received, caInfo) ← recvCaMsg s2 caInfo
  if received then
    let syncSysTimed ← trySyncSysTimeToSecure syncSysTimed
    let _ ← processCaMsg cr caInfo s2
    pure syncSysTimed
  else pure syncSysTimed

/-- The first rounds of `ProcessAccept`.  `memset_s` clears `caInfo` at the end of a round that
came to `CLOSE_SOCKET`. -/
def processAccept : Nat → CaRevMsg → Bool → Program Unit
  | 0, _, _ => pure ()
  | rounds + 1, caInfo, syncSysTimed => do
    let s2 : Option Nat ← sys .accept
    match s2 with
    | none => processAccept rounds caInfo syncSysTimed
    | some s2 =>
      let cr : Option Ucred ← sys (.getPeerCred s2)
      match cr with
      | none =>
        sys (.close (.server s2))
        processAccept rounds caInfo syncSysTimed
      | some cr =>
        let syncSysTimed ← serveCa cr s2 caInfo syncSysTimed
        sys (.close (.server s2))
        processAccept rounds .zeroed syncSysTimed

/-- `CaServerWorkThread`; `syncSysTimed` is what `main` leaves of it. -/
def caServerWorkThread (rounds : Nat) (syncSysTimed : Bool) : Program Unit := do
  let opened : Bool ← sys .openListener
  if opened then
    let listening : Bool ← sys .bindAndListen
    if listening then
      let allocated : Bool ← sys .malloc
      if allocated then processAccept rounds .zeroed syncSysTimed else sys (.close .listener)
    else sys (.close .listener)
  else pure ()

end Server

section Client

def eaccesErr : Int := -3

def sendMessErr : Int := -4

def connectTeecdSocket (cred : Ucred) : Program (Except Int Nat) := do
  let s : Option Nat ← sys .socket
  match s with
  | none => pure (.error (-1))
  | some s =>
    let failed : Option ConnectError ← sys (.connect s cred)
    match failed with
    | none => pure (.ok s)
    | some .eacces => do
      sys (.close (.client s))
      pure (.error eaccesErr)
    | some .other => do
      sys (.close (.client s))
      pure (.error (-1))

def connectRetrying (cred : Ucred) : Nat → Program (Except Int Nat)
  | 0 => pure (.error (-1))
  | n + 1 => do
    let ret ← connectTeecdSocket cred
    match ret with
    | .error code =>
      if code = -1 then
        sys .sleep
        connectRetrying cred n
      else pure (.error code)
    | .ok s => pure (.ok s)

/-- `RecvFileDescriptor`.  One who asks for the version has no room for a descriptor, and takes the
blank for the version. -/
def recvFileDescriptor (cmd : U32) (socketFd : Nat) : Program Returned := do
  let m : Option Message ← sys (.recvMessage socketFd (decide (cmd ≠ getTeeVersion)))
  pure <| match m with
    | none => .code (-1)
    | some (.version v) => if cmd = getTeeVersion then .code v.toInt else .code (-1)
    | some (.fileDescriptor d) => if cmd = getTeeVersion then .code 0x20 else .fileDescriptor d

def sleepCount : Nat := 50

def caDaemonConnectWithCaInfo (cred : Ucred) (caAuthInfo : Bytes) (cmd : U32) :
    Program Returned := do
  let s ← connectRetrying cred sleepCount
  match s with
  | .error _ => pure (.code (-1))
  | .ok s =>
    let filled : Bool ← sys .malloc
    if filled then
      let sent : Int ← sys (.send s (wordBytes cmd ++ caAuthInfo))
      if sent < 0 then
        sys (.close (.client s))
        pure (.code sendMessErr)
      else
        let fd ← recvFileDescriptor cmd s
        sys (.close (.client s))
        pure fd
    else
      sys (.close (.client s))
      pure (.code (-1))

end Client

section System

/-- A socket of a client: whose it is once it is connected, what was sent through it, what of it
`teecd` has received, and what `teecd` has sent, of which the client has received `taken`. -/
structure Socket where
  connected : Bool
  peer : Ucred
  inFlight : Bytes
  received : Bytes
  replies : List Message
  taken : Nat

/-- An open file of the driver, with its logins and what they returned. -/
structure Device where
  logins : List (Option Bytes × Int)

/-- `descriptors` are those of all processes; `cmdlines` is what was read of
`/proc/<pid>/cmdline`, and `synced` how often the time was set. -/
structure World where
  socket : Nat → Socket
  nextSocket : Nat
  backlog : List Nat
  device : Nat → Device
  nextDevice : Nat
  descriptors : List Handle
  cmdlines : List (Int × Option Bytes)
  synced : Nat

def World.init : World where
  socket _ := ⟨false, ⟨0, 0⟩, [], [], [], 0⟩
  nextSocket := 0
  backlog := []
  device _ := ⟨[]⟩
  nextDevice := 0
  descriptors := []
  cmdlines := []
  synced := 0

/-- What is open about a system call: whether it succeeds, what it returns, how many bytes it
takes, and what it reads elsewhere. -/
structure Env where
  ok : Bool
  ret : Int
  count : Nat
  cmdline : Option Bytes
  time : Option (Int × Int)
  connectError : ConnectError

namespace World

def modifySocket (w : World) (s : Nat) (f : Socket → Socket) : World :=
  { w with socket := Function.update w.socket s (f (w.socket s)) }

def modifyDevice (w : World) (d : Nat) (f : Device → Device) : World :=
  { w with device := Function.update w.device d (f (w.device d)) }

def opens (w : World) (h : Handle) : World := { w with descriptors := h :: w.descriptors }

def closes (w : World) (h : Handle) : World := { w with descriptors := w.descriptors.erase h }

/-- `accept` and `recvMessage` wait while there is nothing for them. -/
def exec (w : World) (e : Env) : (a : Act) → Option (Resp a × World)
  | .openListener => some (if e.ok then (true, w.opens .listener) else (false, w))
  | .bindAndListen | .malloc | .select _ => some (e.ok, w)
  | .accept =>
    if e.ok then
      match w.backlog with
      | [] => none
      | s :: rest => some (some s, { w with backlog := rest }.opens (.server s))
    else some (none, w)
  | .getPeerCred s => some (if e.ok then some (w.socket s).peer else none, w)
  | .recvCaInfo s =>
    let bytes := (w.socket s).inFlight.take (min e.count caRevMsgSize)
    if e.ok ∧ bytes ≠ [] then
      some (some bytes, w.modifySocket s fun x =>
        { x with inFlight := x.inFlight.drop bytes.length, received := x.received ++ bytes })
    else some (none, w)
  | .getTimeOfDay => some (e.time, w)
  | .openPrivate => some (if e.ok then (true, w.opens .privateDevice) else (false, w))
  | .syncSysTime _ _ => some (e.ret, if e.ret = 0 then { w with synced := w.synced + 1 } else w)
  | .openDevice =>
    some (if e.ok then
      (some w.nextDevice, { w with nextDevice := w.nextDevice + 1 }.opens (.device w.nextDevice))
    else (none, w))
  | .readCmdline pid => some (e.cmdline, { w with cmdlines := (pid, e.cmdline) :: w.cmdlines })
  | .login d buf =>
    some (e.ret, w.modifyDevice d fun x => { x with logins := x.logins ++ [(buf, e.ret)] })
  | .sendMessage s m =>
    some (e.ret, if e.ret ≤ 0 then w
      else w.modifySocket s fun x => { x with replies := x.replies ++ [m] })
  | .close h => some ((), w.closes h)
  | .socket =>
    some (if e.ok then
      (some w.nextSocket, { w with nextSocket := w.nextSocket + 1 }.opens (.client w.nextSocket))
    else (none, w))
  | .connect s cred =>
    some (if e.ok = true ∧ (w.socket s).connected = false then
      (none, { w.modifySocket s ({ · with connected := true, peer := cred }) with
        backlog := w.backlog ++ [s] })
    else (some e.connectError, w))
  | .sleep | .returns _ => some ((), w)
  | .send s bytes =>
    if e.ret < 0 then some (e.ret, w)
    else
      let sent := bytes.take e.ret.toNat
      some ((sent.length : Int),
        w.modifySocket s fun x => { x with inFlight := x.inFlight ++ sent })
  | .recvMessage s control =>
    if e.ok then
      match (w.socket s).replies[(w.socket s).taken]? with
      | none => none
      | some m =>
        let w := w.modifySocket s fun x => { x with taken := x.taken + 1 }
        match m with
        | .version v => some (some (.version v), w)
        | .fileDescriptor d =>
          some (some (.fileDescriptor d), if control then w.opens (.received d) else w)
    else some (none, w)

end World

end System

end TeeClient.Teecd.Login
