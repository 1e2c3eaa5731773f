import Mathlib.Tactic
import TeeClient.Teecd.WorkLoop

/-! Runs of the file-system agent and the TEE: every command is handled exactly once as long
as the agent has started before the first one, no wake-up is checked while a command is being
written, and none that was skipped is still unanswered when the TEE begins to wait. -/

namespace TeeClient.Teecd

namespace WorkState

variable {s s' : WorkState} {cmd : U32} {cmds : List U32}

section Runs

theorem of_guard {c : Prop} [Decidable c] (h : (if c then some s else none) = some s') :
    c ∧ s = s' := by
  rw [Option.ite_none_right_eq_some] at h
  exact ⟨h.1, Option.some.inj h.2⟩

theorem runsOf_concat (cmds : List U32) (cmd : U32) : runsOf (cmds ++ [cmd]) =
    runsOf cmds ++ if cmd < secMax then [(cmd, cmds.length + 1)] else [] := by
  simp only [runsOf, List.zipIdx_append, List.filter_append, List.zipIdx_singleton]
  rw [Nat.add_comm 1, List.filter_singleton]
  simp

theorem mem_runsOf {n : Nat} : (cmd, n + 1) ∈ runsOf cmds ↔ cmds[n]? = some cmd ∧ cmd < secMax := by
  rw [runsOf, List.mem_filter, decide_eq_true_iff, List.mk_mem_zipIdx_iff_le_and_getElem?_sub]
  simp

theorem pos_of_mem_runsOf {run : U32 × Nat} (h : run ∈ runsOf cmds) : 0 < run.2 := by
  rw [runsOf, List.mem_filter] at h
  exact List.le_snd_of_mem_zipIdx h.1

theorem nodup_runsOf (cmds : List U32) : ((runsOf cmds).map Prod.snd).Nodup := by
  have hsub : ((runsOf cmds).map Prod.snd).Sublist ((cmds.zipIdx 1).map Prod.snd) :=
    List.filter_sublist.map Prod.snd
  apply hsub.nodup
  rw [List.zipIdx_map_snd]
  exact List.nodup_range'

end Runs

section Invariant

def outstanding (s : WorkState) : Prop := s.tee = .written ∨ s.tee = .raised

def unprocessed (s : WorkState) : Prop := s.outstanding ∧ s.magic ≠ agentFsId ∧ s.pc ≠ .ran

instance (s : WorkState) : Decidable s.outstanding :=
  inferInstanceAs (Decidable (s.tee = .written ∨ s.tee = .raised))

instance (s : WorkState) : Decidable s.unprocessed :=
  inferInstanceAs (Decidable (s.outstanding ∧ s.magic ≠ agentFsId ∧ s.pc ≠ .ran))

structure Inv (s : WorkState) : Prop where
  answered : s.answered + (if s.outstanding then 1 else 0) = s.submitted.length
  ran : s.ran = runsOf (if s.unprocessed then s.submitted.dropLast else s.submitted)
  block : s.outstanding → s.submitted.getLast? = some s.cmd
  idle : s.tee = .idle → s.pc ≠ .starting → s.magic = agentFsId
  resetting : s.tee = .resetting → s.magic ≠ agentFsId
  handling : s.pc = .running ∨ s.pc = .ran → s.outstanding ∧ s.magic ≠ agentFsId
  handled : s.pc = .handled → s.outstanding ∧ s.magic = agentFsId
  skipped : s.tee = .raised → s.pc = .skipped → s.magic = agentFsId
  starting : s.outstanding → s.pc = .starting → s.magic ≠ agentFsId
  responses : s.responses + (if s.inHand then 1 else 0) = s.delivered

theorem Inv.responses_inHand (h : Inv s) (hin : s.inHand) : s.responses + 1 = s.delivered := by
  have hresponses := h.responses
  rwa [if_pos hin] at hresponses

theorem Inv.responses_waiting (h : Inv s) (hnot : ¬ s.inHand) : s.responses + 0 = s.delivered := by
  have hresponses := h.responses
  rwa [if_neg hnot] at hresponses

theorem Inv.answered_outstanding (h : Inv s) (hout : s.outstanding) :
    s.answered + 1 = s.submitted.length := by
  have hanswered := h.answered
  rwa [if_pos hout] at hanswered

theorem Inv.answered_all (h : Inv s) (hout : ¬ s.outstanding) :
    s.answered + 0 = s.submitted.length := by
  have hanswered := h.answered
  rwa [if_neg hout] at hanswered

theorem Inv.ran_all (h : Inv s) (hun : ¬ s.unprocessed) : s.ran = runsOf s.submitted := by
  have hran := h.ran
  rwa [if_neg hun] at hran

theorem Inv.exactlyOnce (h : Inv s) : s.ExactlyOnce := by
  have hnodup : (s.ran.map Prod.snd).Nodup := by
    rw [h.ran]
    exact nodup_runsOf _
  refine ⟨fun n cmd hn hcmd hmax => ?_, ⟨hnodup, ?_⟩, h.responses⟩
  · apply List.count_eq_one_of_mem hnodup.of_map
    rw [h.ran, mem_runsOf]
    refine ⟨?_, hmax⟩
    have hanswered := h.answered
    split_ifs with hun
    · rw [if_pos hun.1] at hanswered
      rw [List.getElem?_dropLast, if_pos (by omega), hcmd]
    · exact hcmd
  · intro hzero
    obtain ⟨run, hrun, hsnd⟩ := List.mem_map.mp hzero
    rw [h.ran] at hrun
    have := pos_of_mem_runsOf hrun
    omega

theorem inv_init (magic cmd : U32) : Inv (.init magic cmd) := by
  constructor
  · rfl
  · rfl
  · rintro (h | h)
    · cases h
    · cases h
  · exact fun _ h => absurd rfl h
  · rintro ⟨⟩
  · rintro (h | h)
    · cases h
    · cases h
  · rintro ⟨⟩
  · rintro ⟨⟩
  · rintro (h | h)
    · cases h
    · cases h
  · rfl

theorem Inv.setPc {pc : AgentPc} {wakeups delivered responses : Nat} (h : Inv s)
    (hfrom : s.pc ≠ .ran ∧ s.pc ≠ .starting) (hto : pc ≠ .ran ∧ pc ≠ .starting ∧ pc ≠ .handled)
    (hrunning : pc = .running → s.outstanding ∧ s.magic ≠ agentFsId)
    (hskipped : s.tee = .raised → pc = .skipped → s.magic = agentFsId)
    (hresponses : responses + (if inHand { s with pc := pc } then 1 else 0) = delivered) :
    Inv { s with pc := pc, wakeups := wakeups, delivered := delivered, responses := responses } where
  answered := h.answered
  ran := by
    have hun : (s.outstanding ∧ s.magic ≠ agentFsId ∧ s.pc ≠ .ran) ↔
        (s.outstanding ∧ s.magic ≠ agentFsId ∧ pc ≠ .ran) :=
      and_congr_right fun _ => and_congr_right fun _ => iff_of_true hfrom.1 hto.1
    exact h.ran.trans (congrArg runsOf (if_congr hun rfl rfl))
  block := h.block
  idle := fun hidle _ => h.idle hidle hfrom.2
  resetting := h.resetting
  handling := fun hpc => hpc.elim hrunning fun hran => absurd hran hto.1
  handled := fun hpc => absurd hpc hto.2.2
  skipped := hskipped
  starting := fun _ hpc => absurd hpc hto.2.1
  responses := hresponses

/-- The agent starts up when the TEE has no command under way; no wake-up is checked between
the reset of `magic` and the command; the TEE does not begin to wait while the agent is about
to answer a wake-up that it skipped before the reset; and responses are sent. -/
def Orderly (s : WorkState) : WorkMove → Prop
  | .startUp => s.tee = .idle
  | .checkMagic => s.tee ≠ .resetting
  | .raiseWakeup => s.pc = .skipped → s.magic = agentFsId
  | .sendFails => False
  | _ => True

theorem Inv.startUp (h : Inv s) (hpc : s.pc = .starting) (ho : s.tee = .idle) :
    Inv { s with magic := agentFsId, pc := .waiting } := by
  have hout : ¬ s.outstanding := by simp [outstanding, ho]
  have hun : ¬ s.unprocessed := fun hun => hout hun.1
  have hran := h.ran_all hun
  have hresponses := h.responses_waiting (by simp [inHand, hpc])
  constructor
  · exact h.answered
  · rw [if_neg fun hun' => hout hun'.1]
    exact hran
  · exact h.block
  · exact fun _ _ => rfl
  · intro htee
    rw [ho] at htee
    cases htee
  · rintro (hp | hp)
    · cases hp
    · cases hp
  · rintro ⟨⟩
  · exact fun _ _ => rfl
  · rintro - ⟨⟩
  · exact hresponses

theorem Inv.runHandler (h : Inv s) (hpc : s.pc = .running) : Inv s.runHandler := by
  obtain ⟨hout, hmagic⟩ := h.handling (.inl hpc)
  have hun : s.unprocessed := ⟨hout, hmagic, by simp [hpc]⟩
  have hblock := h.block hout
  obtain ⟨cmds, hcmds⟩ := List.getLast?_eq_some_iff.mp hblock
  have hran := h.ran
  have hresponses := h.responses_inHand (by simp [inHand, hpc])
  rw [if_pos hun, hcmds, List.dropLast_concat] at hran
  constructor
  · exact h.answered
  · have hdone : ¬ s.runHandler.unprocessed := fun hun' => hun'.2.2 rfl
    rw [if_neg hdone]
    simp only [WorkState.runHandler, hcmds, runsOf_concat, hran, List.length_append,
      List.length_singleton]
    split_ifs
    · rfl
    · rw [List.append_nil]
  · exact h.block
  · exact fun htee _ => h.idle htee (by simp [hpc])
  · exact h.resetting
  · exact fun _ => ⟨hout, hmagic⟩
  · rintro ⟨⟩
  · rintro - ⟨⟩
  · rintro - ⟨⟩
  · exact hresponses

theorem Inv.setMagic (h : Inv s) (hpc : s.pc = .ran) :
    Inv { s with magic := agentFsId, pc := .handled } := by
  obtain ⟨hout, hmagic⟩ := h.handling (.inr hpc)
  have hun : ¬ s.unprocessed := fun hun => hun.2.2 hpc
  have hran := h.ran_all hun
  have hresponses := h.responses_inHand (by simp [inHand, hpc])
  constructor
  · exact h.answered
  · rw [if_neg fun hun' => hun'.2.1 rfl]
    exact hran
  · exact h.block
  · exact fun _ _ => rfl
  · intro htee
    rcases hout with hw | hr
    · exact absurd (htee.symm.trans hw) (by decide)
    · exact absurd (htee.symm.trans hr) (by decide)
  · rintro (hp | hp)
    · cases hp
    · cases hp
  · exact fun _ => ⟨hout, rfl⟩
  · exact fun _ _ => rfl
  · rintro - ⟨⟩
  · exact hresponses

theorem Inv.sendResponse (h : Inv s) (hpc : s.pc = .handled ∨ s.pc = .skipped) :
    Inv s.sendResponse := by
  have hin : s.inHand := by
    rcases hpc with hpc | hpc
    · simp [inHand, hpc]
    · simp [inHand, hpc]
  have hresponses := h.responses_inHand hin
  by_cases htee : s.tee = .raised
  · have hmagic : s.magic = agentFsId := by
      rcases hpc with hpc | hpc
      · exact (h.handled hpc).2
      · exact h.skipped htee hpc
    have hanswered := h.answered_outstanding (.inr htee)
    have hran := h.ran_all fun hun => hun.2.1 hmagic
    have hidle : s.sendResponse.tee = .idle := if_pos htee
    have hout : ¬ s.sendResponse.outstanding := by simp [outstanding, hidle]
    constructor
    · rw [if_neg hout]
      simpa [WorkState.sendResponse, htee] using hanswered
    · rw [if_neg fun hun => hout hun.1]
      exact hran
    · exact fun hout' => absurd hout' hout
    · exact fun _ _ => hmagic
    · intro hreset
      rw [hidle] at hreset
      cases hreset
    · rintro (hp | hp)
      · cases hp
      · cases hp
    · rintro ⟨⟩
    · rintro - ⟨⟩
    · rintro - ⟨⟩
    · exact hresponses
  · have hsame : s.sendResponse =
        { s with pc := .waiting, wakeups := s.wakeups, delivered := s.delivered,
                 responses := s.responses + 1 } := by
      simp [WorkState.sendResponse, htee]
    rw [hsame]
    apply h.setPc
    · rcases hpc with hpc | hpc
      · simp [hpc]
      · simp [hpc]
    · decide
    · rintro ⟨⟩
    · rintro - ⟨⟩
    · exact hresponses

theorem Inv.resetMagic (h : Inv s) (htee : s.tee = .idle) :
    Inv { s with magic := 0, tee := .resetting } := by
  have hout : ¬ s.outstanding := by simp [outstanding, htee]
  have hanswered := h.answered_all hout
  have hran := h.ran_all fun hun => hout hun.1
  have hout' : ¬ outstanding { s with magic := 0, tee := .resetting } := by simp [outstanding]
  have hmagic : 0 ≠ agentFsId := by decide
  constructor
  · rw [if_neg hout']
    exact hanswered
  · rw [if_neg fun hun => hout' hun.1]
    exact hran
  · exact fun hout'' => absurd hout'' hout'
  · rintro ⟨⟩
  · exact fun _ => hmagic
  · exact fun hp => absurd (h.handling hp).1 hout
  · exact fun hp => absurd (h.handled hp).1 hout
  · rintro ⟨⟩
  · exact fun hout'' => absurd hout'' hout'
  · exact h.responses

theorem Inv.writeCommand (h : Inv s) (htee : s.tee = .resetting) (cmd : U32) :
    Inv { s with cmd := cmd, tee := .written, submitted := s.submitted ++ [cmd] } := by
  have hout : ¬ s.outstanding := by simp [outstanding, htee]
  have hmagic := h.resetting htee
  have hpc : s.pc ≠ .ran := fun hp => hout (h.handling (.inr hp)).1
  have hanswered := h.answered_all hout
  have hran := h.ran_all fun hun => hout hun.1
  have hout' : outstanding { s with cmd := cmd, tee := .written, submitted := s.submitted ++ [cmd] } :=
    .inl rfl
  constructor
  · rw [if_pos hout', List.length_append, List.length_singleton]
    exact congrArg (· + 1) hanswered
  · rw [if_pos ⟨hout', hmagic, hpc⟩, List.dropLast_concat]
    exact hran
  · exact fun _ => List.getLast?_concat
  · rintro ⟨⟩
  · rintro ⟨⟩
  · exact fun hp => absurd (h.handling hp).1 hout
  · exact fun hp => absurd (h.handled hp).1 hout
  · rintro ⟨⟩
  · exact fun _ _ => hmagic
  · exact h.responses

theorem Inv.raiseWakeup (h : Inv s) (htee : s.tee = .written)
    (ho : s.pc = .skipped → s.magic = agentFsId) :
    Inv { s with tee := .raised, wakeups := s.wakeups + 1 } := by
  have hout : s.outstanding := .inl htee
  have hout' : outstanding { s with tee := .raised, wakeups := s.wakeups + 1 } := .inr rfl
  have hanswered := h.answered_outstanding hout
  have hran := h.ran
  have hun : s.unprocessed ↔ unprocessed { s with tee := .raised, wakeups := s.wakeups + 1 } :=
    and_congr_left fun _ => iff_of_true hout hout'
  constructor
  · rw [if_pos hout']
    exact hanswered
  · exact hran.trans (congrArg runsOf (if_congr hun rfl rfl))
  · exact fun _ => h.block hout
  · rintro ⟨⟩
  · rintro ⟨⟩
  · exact fun hp => ⟨hout', (h.handling hp).2⟩
  · exact fun hp => ⟨hout', (h.handled hp).2⟩
  · exact fun _ => ho
  · exact fun _ => h.starting hout
  · exact h.responses

theorem Inv.step {move : WorkMove} (h : Inv s) (ho : s.Orderly move) (hs : s.step move = some s') :
    Inv s' := by
  cases move with
  | startUp =>
    obtain ⟨hpc, rfl⟩ := of_guard hs
    exact h.startUp hpc ho
  | waitEvent =>
    obtain ⟨⟨hpc, -⟩, rfl⟩ := of_guard hs
    have hresponses := h.responses_waiting (by simp [inHand, hpc])
    apply h.setPc
    · simp [hpc]
    · decide
    · rintro ⟨⟩
    · rintro - ⟨⟩
    · exact congrArg (· + 1) hresponses
  | waitFails =>
    obtain ⟨hpc, rfl⟩ := of_guard hs
    have hresponses := h.responses_waiting (by simp [inHand, hpc])
    apply h.setPc
    · simp [hpc]
    · decide
    · rintro ⟨⟩
    · rintro - ⟨⟩
    · exact hresponses
  | checkMagic =>
    obtain ⟨hpc, rfl⟩ := of_guard hs
    have hresponses := h.responses_inHand (by simp [inHand, hpc])
    by_cases hmagic : s.magic = agentFsId
    · rw [if_pos hmagic]
      apply h.setPc
      · simp [hpc]
      · decide
      · rintro ⟨⟩
      · exact fun _ _ => hmagic
      · exact hresponses
    · rw [if_neg hmagic]
      apply h.setPc
      · simp [hpc]
      · decide
      · intro _
        refine ⟨?_, hmagic⟩
        -- a reset `magic` tells of a command, once it has been written
        cases htee : s.tee with
        | idle => exact absurd (h.idle htee (by simp [hpc])) hmagic
        | resetting => exact absurd htee ho
        | written => exact .inl htee
        | raised => exact .inr htee
      · rintro - ⟨⟩
      · exact hresponses
  | runHandler =>
    obtain ⟨hpc, rfl⟩ := of_guard hs
    exact h.runHandler hpc
  | setMagic =>
    obtain ⟨hpc, rfl⟩ := of_guard hs
    exact h.setMagic hpc
  | sendResponse =>
    obtain ⟨hpc, rfl⟩ := of_guard hs
    exact h.sendResponse hpc
  | sendFails => exact absurd ho id
  | resetMagic =>
    obtain ⟨htee, rfl⟩ := of_guard hs
    exact h.resetMagic htee
  | writeCommand cmd =>
    obtain ⟨htee, rfl⟩ := of_guard hs
    exact h.writeCommand htee cmd
  | raiseWakeup =>
    obtain ⟨htee, rfl⟩ := of_guard hs
    exact h.raiseWakeup htee ho
  | spuriousWakeup =>
    obtain rfl := Option.some.inj hs
    exact ⟨h.answered, h.ran, h.block, h.idle, h.resetting, h.handling, h.handled, h.skipped,
      h.starting, h.responses⟩

end Invariant

end WorkState

section Runs

variable {s₀ s : WorkState} {steps : List (WorkState × WorkMove)}

theorem WorkRun.inv (run : WorkRun s₀ steps s) (h₀ : s₀.Inv) (h : ∀ p ∈ steps, p.1.Orderly p.2) :
    s.Inv := by
  induction run with
  | nil => exact h₀
  | snoc run step ih =>
    have hinv := ih fun p hp => h p (List.mem_append_left _ hp)
    exact hinv.step (h _ (List.mem_append_right _ (List.mem_singleton_self _))) step

/-- Whatever stands in the block at first and however the parties interleave: as long as the
steps are orderly, every command is handled exactly once before it is answered. -/
theorem exactlyOnce_of_orderly (magic cmd : U32) (run : WorkRun (.init magic cmd) steps s)
    (h : ∀ p ∈ steps, p.1.Orderly p.2) : s.ExactlyOnce :=
  (run.inv (WorkState.inv_init magic cmd) h).exactlyOnce

def replay : List WorkMove → List (WorkState × WorkMove) → WorkState →
    Option (List (WorkState × WorkMove) × WorkState)
  | [], steps, s => some (steps, s)
  | move :: moves, steps, s =>
    (s.step move).bind fun s' => replay moves (steps ++ [(s, move)]) s'

theorem WorkRun.replay {moves : List WorkMove} {r : List (WorkState × WorkMove) × WorkState}
    (run : WorkRun s₀ steps s) (hr : Teecd.replay moves steps s = some r) : WorkRun s₀ r.1 r.2 := by
  induction moves generalizing steps s with
  | nil =>
    obtain rfl := Option.some.inj hr
    exact run
  | cons move moves ih =>
    obtain ⟨s', hs, hr⟩ := Option.bind_eq_some_iff.mp hr
    exact ih (run.snoc hs) hr

instance (s : WorkState) : (move : WorkMove) → Decidable (s.Orderly move)
  | .startUp => inferInstanceAs (Decidable (s.tee = .idle))
  | .checkMagic => inferInstanceAs (Decidable (s.tee ≠ .resetting))
  | .raiseWakeup => inferInstanceAs (Decidable (s.pc = .skipped → s.magic = agentFsId))
  | .sendFails => inferInstanceAs (Decidable False)
  | .waitEvent | .waitFails | .runHandler | .setMagic | .sendResponse | .resetMagic
  | .writeCommand _ | .spuriousWakeup => inferInstanceAs (Decidable True)

theorem exists_run {moves : List WorkMove} {r : List (WorkState × WorkMove) × WorkState}
    (hr : Teecd.replay moves [] s₀ = some r) : WorkRun s₀ r.1 r.2 :=
  WorkRun.nil.replay hr

def orderlyMoves : List WorkMove :=
  [.startUp, .resetMagic, .writeCommand 0, .raiseWakeup, .waitEvent, .checkMagic, .runHandler,
    .setMagic, .spuriousWakeup, .sendResponse, .waitEvent, .checkMagic, .sendResponse, .resetMagic,
    .writeCommand 2, .raiseWakeup, .waitEvent, .checkMagic, .runHandler, .setMagic, .sendResponse]

theorem exactlyOnce_orderlyMoves : ∃ r, Teecd.replay orderlyMoves [] (.init 0 0) = some r ∧
    r.2.answered = 2 ∧ r.2.ExactlyOnce := by
  obtain ⟨r, hr, hanswered, horderly⟩ : ∃ r, Teecd.replay orderlyMoves [] (.init 0 0) = some r ∧
      r.2.answered = 2 ∧ ∀ p ∈ r.1, p.1.Orderly p.2 :=
    ⟨_, rfl, rfl, by decide⟩
  exact ⟨r, hr, hanswered, exactlyOnce_of_orderly 0 0 (exists_run hr) horderly⟩

def Breaks (moves : List WorkMove) : Prop :=
  ∃ steps s, WorkRun (.init 0 0) steps s ∧ steps.map Prod.snd = moves ∧ ¬ s.ExactlyOnce

theorem breaks_of_replay {moves : List WorkMove} (r : List (WorkState × WorkMove) × WorkState)
    (hr : Teecd.replay moves [] (.init 0 0) = some r) (hmoves : r.1.map Prod.snd = moves)
    (h : ¬ r.2.ExactlyOnce) : Breaks moves :=
  ⟨r.1, r.2, exists_run hr, hmoves, h⟩

/-- The first command comes before the agent has started: it is answered and not handled.  A
wake-up is checked before the command has been written: a handler runs on the old block.  A
wake-up that was skipped is answered when the TEE waits: its command is not handled. -/
theorem not_exactlyOnce :
    Breaks [.resetMagic, .writeCommand 0, .startUp, .raiseWakeup, .waitEvent, .checkMagic,
      .sendResponse] ∧
    Breaks [.startUp, .spuriousWakeup, .resetMagic, .waitEvent, .checkMagic, .runHandler] ∧
    Breaks [.startUp, .spuriousWakeup, .waitEvent, .checkMagic, .resetMagic, .writeCommand 0,
      .raiseWakeup, .sendResponse] := by
  refine ⟨breaks_of_replay _ rfl rfl fun h => ?_, breaks_of_replay _ rfl rfl fun h => ?_,
    breaks_of_replay _ rfl rfl fun h => ?_⟩
  · exact absurd (h.answered 0 0 (by decide) rfl (by decide)) (by decide)
  · exact absurd h.fresh.2 (by decide)
  · exact absurd (h.answered 0 0 (by decide) rfl (by decide)) (by decide)

end Runs

end TeeClient.Teecd
