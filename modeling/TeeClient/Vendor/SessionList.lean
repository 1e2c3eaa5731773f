import Mathlib.Tactic
import TeeClient.Types
import TeeClient.Lib.Ring

/-! The `session_list` of a context as the pointers that `TEEC_OpenSession`,
`TEEC_CloseSession` and `TEEC_FinalizeContext` move (`tee_client_api.c`,
`tee_client_list.h`), for a vendor CA that makes one call after another. -/

namespace TeeClient.Vendor.SessionList

open Rings

inductive ListNode
  | sessionList (c : Nat)
  | sessionHead (s : Nat)
  deriving DecidableEq, Repr

/-- `TEEC_Session`, without its list node; `context` is the number of a `TEEC_Context`. -/
structure Session where
  sessionId : U32
  context : Option Nat
  deriving DecidableEq, Repr

/-- The objects of the CA, numbered by their addresses, and the contexts of the library.  A
context that is not `allocated` is not there yet or has been freed. -/
structure State where
  links : Links ListNode
  session : Nat → Session
  contextFd : Nat → Int
  next : Nat
  fd : Nat → Int
  contextList : List Nat
  allocated : Nat → Bool

/-- What a call asks for, with the answers it gets: the descriptor of a new context, the id
that the driver gave a session (`none` when `AddSessionList` is not reached), whether
`sessionLock` and `shrMemLock` could be taken, and whether the driver closed a session. -/
inductive ApiCall
  | initializeContext (context : Nat) (opened : Option Int)
  | openSession (context session : Option Nat) (reply : Option U32) (sessionLock : Bool)
  | closeSession (session : Option Nat) (sessionLock closed : Bool)
  | finalizeContext (context : Option Nat) (sessionLock shrMemLock : Bool) (closed : Nat → Bool)

namespace State

def setSession (st : State) (s : Nat) (f : Session → Session) : State :=
  { st with session := Function.update st.session s (f (st.session s)) }

def findBnContext (st : State) (context : Nat) : Option Nat :=
  st.contextList.find? fun c => st.fd c = st.contextFd context

def initializeContext (st : State) (context : Nat) (opened : Option Int) : State :=
  match opened with
  | none => st
  | some fd =>
    { st with
      links := st.links.init (.sessionList st.next)
      contextFd := Function.update st.contextFd context fd
      next := st.next + 1
      fd := Function.update st.fd st.next fd
      contextList := st.contextList ++ [st.next]
      allocated := Function.update st.allocated st.next true }

/-- The loop of `AddSessionList`: if the session is still in the list, remove it. -/
def removeIfLinked (fuel : Nat) (l : Links ListNode) (c s : Nat) : Option (Links ListNode) :=
  forEachSafe id (fun node l => if node = .sessionHead s then l.removeEntry node else l)
    (.sessionList c) fuel (l.next (.sessionList c)) (l.next (l.next (.sessionList c))) l

def addSessionList (fuel : Nat) (st : State) (c s : Nat) (sessionId : U32) (sessionLock : Bool) :
    Option State :=
  let st := st.setSession s ({ · with sessionId })
  if sessionLock then do
    let links ← removeIfLinked fuel st.links c s
    some { st with links := (links.init (.sessionHead s)).insertTail (.sessionList c) (.sessionHead s) }
  else some st

def openSession (fuel : Nat) (st : State) (context session : Option Nat) (reply : Option U32)
    (sessionLock : Bool) : Option State :=
  match context, session with
  | some context, some s =>
    let st := st.setSession s fun _ => { sessionId := 0, context := some context }
    match st.findBnContext context, reply with
    | some c, some sessionId => st.addSessionList fuel c s sessionId sessionLock
    | _, _ => some st
  | _, _ => some st

def hasId (st : State) (sessionId : U32) : ListNode → Bool
  | .sessionHead s => (st.session s).sessionId = sessionId
  | .sessionList _ => false

def findBnSession (fuel : Nat) (st : State) (c : Nat) (sessionId : U32) : Option (Option ListNode) :=
  findFrom st.links (st.hasId sessionId) (.sessionList c) fuel (st.links.next (.sessionList c))

def closeSessionInner (st : State) (s : Nat) (closed : Bool) : State :=
  if closed then st.setSession s fun _ => { sessionId := 0, context := none } else st

def closeSession (fuel : Nat) (st : State) (session : Option Nat) (sessionLock closed : Bool) :
    Option State :=
  match session with
  | none => some st
  | some s =>
    match (st.session s).context.bind st.findBnContext with
    | none => some st
    | some c =>
      if sessionLock then do
        match ← st.findBnSession fuel c (st.session s).sessionId with
        | none => some st
        | some node =>
          some (closeSessionInner { st with links := st.links.removeEntry node } s closed)
      else some st

def finalizeSession (closed : Nat → Bool) (node : ListNode) (st : State) : State :=
  let st := { st with links := st.links.removeEntry node }
  match node with
  | .sessionHead s => st.closeSessionInner s (closed s)
  | .sessionList _ => st

def finalizeContextInner (fuel : Nat) (st : State) (c : Nat) (sessionLock shrMemLock : Bool)
    (closed : Nat → Bool) : Option State :=
  if sessionLock then do
    let l := st.links
    let st ← forEachSafe State.links (finalizeSession closed) (.sessionList c) fuel
      (l.next (.sessionList c)) (l.next (l.next (.sessionList c))) st
    if shrMemLock then some { st with allocated := Function.update st.allocated c false } else some st
  else some st

/-- `TEEC_FinalizeContext`.  Between calls the list holds the only reference, so that the
put finalises the context. -/
def finalizeContext (fuel : Nat) (st : State) (context : Option Nat)
    (sessionLock shrMemLock : Bool) (closed : Nat → Bool) : Option State :=
  match context with
  | none => some st
  | some context =>
    let put := match st.findBnContext context with
      | none => some st
      | some c => finalizeContextInner fuel { st with contextList := st.contextList.erase c } c
        sessionLock shrMemLock closed
    put.map fun st => { st with contextFd := Function.update st.contextFd context (-1) }

/-- One call; `none` when a loop has not ended after `fuel` rounds. -/
def exec (fuel : Nat) (st : State) : ApiCall → Option State
  | .initializeContext context opened => some (st.initializeContext context opened)
  | .openSession context session reply sessionLock =>
    st.openSession fuel context session reply sessionLock
  | .closeSession session sessionLock closed => st.closeSession fuel session sessionLock closed
  | .finalizeContext context sessionLock shrMemLock closed =>
    st.finalizeContext fuel context sessionLock shrMemLock closed

end State

def start (links : Links ListNode) (session : Nat → Session) (contextFd : Nat → Int) : State where
  links
  session
  contextFd
  next := 0
  fd _ := -1
  contextList := []
  allocated _ := false

end TeeClient.Vendor.SessionList
