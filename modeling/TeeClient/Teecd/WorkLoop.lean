import Mathlib.Tactic
import TeeClient.Types

/-! The loop of the file-system agent (`FsWorkThread` and `FsWorkEventHandle` in
`fs_work_agent.c`) against the TEE: the two share a control block with a magic word, and the
transport wakes the agent up as often as it likes. -/

namespace TeeClient.Teecd

section Model

def agentFsId : U32 := 0x46536673

def secMax : U32 := 16

/-- Where `FsWorkThread` stands: in front of its first assignment to `magic`, in
`WAIT_EVENT`, behind it, in front of the handler, behind it, in front of the response with and
without a handler, or behind its loop. -/
inductive AgentPc
  | starting
  | waiting
  | woken
  | running
  | ran
  | handled
  | skipped
  | exited
  deriving DecidableEq, Repr

/-- What the TEE has done for its next command: nothing, reset `magic`, written the command,
raised the wake-up. -/
inductive TeePhase
  | idle
  | resetting
  | written
  | raised
  deriving DecidableEq, Repr

/-- The parties and the control block, with what has happened so far: the commands that were
submitted, the handlers that ran (each with the number of the command in the block, 0 for what
stood there at first), the commands that were answered, the wake-ups that were delivered and
the responses. -/
structure WorkState where
  magic : U32
  cmd : U32
  pc : AgentPc
  tee : TeePhase
  wakeups : Nat
  submitted : List U32
  ran : List (U32 × Nat)
  answered : Nat
  delivered : Nat
  responses : Nat
  deriving DecidableEq, Repr

/-- The agent is registered and its thread is not started yet. -/
def WorkState.init (magic cmd : U32) : WorkState where
  magic := magic
  cmd := cmd
  pc := .starting
  tee := .idle
  wakeups := 0
  submitted := []
  ran := []
  answered := 0
  delivered := 0
  responses := 0

inductive WorkMove
  | startUp
  | waitEvent
  | waitFails
  | checkMagic
  | runHandler
  | setMagic
  | sendResponse
  | sendFails
  | resetMagic
  | writeCommand (cmd : U32)
  | raiseWakeup
  | spuriousWakeup
  deriving DecidableEq, Repr

namespace WorkState

def runHandler (s : WorkState) : WorkState :=
  { s with
    pc := .ran
    ran := if s.cmd < secMax then s.ran ++ [(s.cmd, s.submitted.length)] else s.ran }

def sendResponse (s : WorkState) : WorkState :=
  { s with
    pc := .waiting
    responses := s.responses + 1
    answered := if s.tee = .raised then s.answered + 1 else s.answered
    tee := if s.tee = .raised then .idle else s.tee }

def step (s : WorkState) : WorkMove → Option WorkState
  | .startUp =>
    if s.pc = .starting then some { s with magic := agentFsId, pc := .waiting } else none
  | .waitEvent =>
    if s.pc = .waiting ∧ 0 < s.wakeups then
      some { s with pc := .woken, wakeups := s.wakeups - 1, delivered := s.delivered + 1 }
    else none
  | .waitFails => if s.pc = .waiting then some { s with pc := .exited } else none
  | .checkMagic =>
    if s.pc = .woken then
      some { s with pc := if s.magic = agentFsId then .skipped else .running }
    else none
  | .runHandler => if s.pc = .running then some s.runHandler else none
  | .setMagic =>
    if s.pc = .ran then some { s with magic := agentFsId, pc := .handled } else none
  | .sendResponse =>
    if s.pc = .handled ∨ s.pc = .skipped then some s.sendResponse else none
  | .sendFails =>
    if s.pc = .handled ∨ s.pc = .skipped then some { s with pc := .exited } else none
  | .resetMagic => if s.tee = .idle then some { s with magic := 0, tee := .resetting } else none
  | .writeCommand cmd =>
    if s.tee = .resetting then
      some { s with cmd := cmd, tee := .written, submitted := s.submitted ++ [cmd] }
    else none
  | .raiseWakeup =>
    if s.tee = .written then some { s with tee := .raised, wakeups := s.wakeups + 1 } else none
  | .spuriousWakeup => some { s with wakeups := s.wakeups + 1 }

def runsOf (submitted : List U32) : List (U32 × Nat) :=
  (submitted.zipIdx 1).filter fun run => run.1 < secMax

def inHand (s : WorkState) : Prop :=
  s.pc = .woken ∨ s.pc = .running ∨ s.pc = .ran ∨ s.pc = .handled ∨ s.pc = .skipped

instance (s : WorkState) : Decidable s.inHand :=
  inferInstanceAs (Decidable (s.pc = .woken ∨ s.pc = .running ∨ s.pc = .ran ∨ s.pc = .handled ∨
    s.pc = .skipped))

/-- Every answered command's handler has run once, no handler has run on a block twice or on
one that holds no command, and every wake-up has its response, but for the one in hand. -/
structure ExactlyOnce (s : WorkState) : Prop where
  answered : ∀ n cmd, n < s.answered → s.submitted[n]? = some cmd → cmd < secMax →
    s.ran.count (cmd, n + 1) = 1
  fresh : (s.ran.map Prod.snd).Nodup ∧ 0 ∉ s.ran.map Prod.snd
  responses : s.responses + (if s.inHand then 1 else 0) = s.delivered

end WorkState

inductive WorkRun (s₀ : WorkState) : List (WorkState × WorkMove) → WorkState → Prop
  | nil : WorkRun s₀ [] s₀
  | snoc {steps : List (WorkState × WorkMove)} {s s' : WorkState} {move : WorkMove}
      (run : WorkRun s₀ steps s) (step : s.step move = some s') :
      WorkRun s₀ (steps ++ [(s, move)]) s'

end Model

end TeeClient.Teecd
