import Mathlib.Tactic
import TeeClient.Vendor.SessionList

/-! When the `session_list` of every context stays a ring: as long as no session is opened
that still stands in the list of another context. -/

namespace TeeClient.Vendor.SessionList

open Rings

section Rings

variable {l : Links ListNode} {allocated : Nat → Bool} {xs : Nat → List Nat} {c s : Nat}
variable {ys zs : List Nat}

/-- The list of every context that has not been freed is a ring of the sessions `xs`, and no
session stands in two of them. -/
structure Linked (l : Links ListNode) (allocated : Nat → Bool) (xs : Nat → List Nat) : Prop where
  ring : ∀ c, allocated c = true → IsRing l (.sessionList c) ((xs c).map .sessionHead)
  disjoint : ∀ c d s, allocated c = true → allocated d = true → s ∈ xs c → s ∈ xs d → c = d

theorem head_notMem_sessions (c d : Nat) (hcd : c ≠ d) (ys : List Nat) :
    ListNode.sessionList c ∉ ListNode.sessionList d :: ys.map .sessionHead := by
  simp [hcd]

theorem session_mem_ring {d : Nat} :
    ListNode.sessionHead s ∈ ListNode.sessionList d :: ys.map .sessionHead ↔ s ∈ ys := by
  simp

theorem Linked.initializeContext (h : Linked l allocated xs) (hc : allocated c = false) :
    Linked (l.init (.sessionList c)) (Function.update allocated c true)
      (Function.update xs c []) := by
  have hother {d : Nat} (hd : d ≠ c) (halloc : Function.update allocated c true d = true) :
      allocated d = true := by simpa [hd] using halloc
  constructor
  · intro d halloc
    by_cases hd : d = c
    · subst hd
      simpa using isRing_init l (.sessionList d)
    · rw [Function.update_of_ne hd]
      exact (h.ring d (hother hd halloc)).init (head_notMem_sessions c d (Ne.symm hd) _)
  · intro d e s hdalloc healloc hsd hse
    by_cases hd : d = c
    · subst hd
      simp at hsd
    · by_cases he : e = c
      · subst he
        simp at hse
      · rw [Function.update_of_ne hd] at hsd
        rw [Function.update_of_ne he] at hse
        exact h.disjoint d e s (hother hd hdalloc) (hother he healloc) hsd hse

theorem Linked.removeEntry (h : Linked l allocated xs) (hc : allocated c = true)
    (hxs : xs c = ys ++ s :: zs) :
    Linked (l.removeEntry (.sessionHead s)) allocated (Function.update xs c (ys ++ zs)) := by
  have hring := h.ring c hc
  rw [hxs, List.map_append, List.map_cons] at hring
  have hsub {t : Nat} (ht : t ∈ ys ++ zs) : t ∈ xs c := by
    rw [hxs]
    simp only [List.mem_append, List.mem_cons] at ht ⊢
    tauto
  constructor
  · intro d hd
    by_cases hdc : d = c
    · subst hdc
      simpa using hring.removeEntry
    · rw [Function.update_of_ne hdc]
      refine hring.removeEntry_of_notMem (h.ring d hd) ?_
      rw [session_mem_ring]
      intro hs
      exact hdc (h.disjoint d c s hd hc hs (by simp [hxs]))
  · intro d e t hd he htd hte
    have hmem {d : Nat} (htd : t ∈ Function.update xs c (ys ++ zs) d) : t ∈ xs d := by
      by_cases hdc : d = c
      · subst hdc
        exact hsub (by simpa using htd)
      · rwa [Function.update_of_ne hdc] at htd
    exact h.disjoint d e t hd he (hmem htd) (hmem hte)

theorem Linked.insertTail (h : Linked l allocated xs) (hc : allocated c = true)
    (hs : ∀ d, allocated d = true → s ∉ xs d) :
    Linked ((l.init (.sessionHead s)).insertTail (.sessionList c) (.sessionHead s)) allocated
      (Function.update xs c (xs c ++ [s])) := by
  have hnot (d : Nat) (hd : allocated d = true) :
      ListNode.sessionHead s ∉ ListNode.sessionList d :: (xs d).map .sessionHead := by
    rw [session_mem_ring]
    exact hs d hd
  have hring (d : Nat) (hd : allocated d = true) := (h.ring d hd).init (hnot d hd)
  constructor
  · intro d hd
    by_cases hdc : d = c
    · subst hdc
      simpa using (hring d hd).insertTail (hnot d hd)
    · rw [Function.update_of_ne hdc]
      exact (hring c hc).insertTail_of_notMem (hring d hd) (hnot c hc) (hnot d hd)
        (head_notMem_sessions c d (Ne.symm hdc) _)
  · intro d e t hd he htd hte
    have hmem {d : Nat} (htd : t ∈ Function.update xs c (xs c ++ [s]) d) :
        t ∈ xs d ∨ t = s ∧ d = c := by
      by_cases hdc : d = c
      · subst hdc
        simpa using htd
      · rw [Function.update_of_ne hdc] at htd
        exact .inl htd
    rcases hmem htd with hold | ⟨rfl, rfl⟩
    · rcases hmem hte with hold' | ⟨rfl, rfl⟩
      · exact h.disjoint d e t hd he hold hold'
      · exact absurd hold (hs d hd)
    · rcases hmem hte with hold' | ⟨-, rfl⟩
      · exact absurd hold' (hs e he)
      · rfl

theorem Linked.mono {allocated' : Nat → Bool} (h : Linked l allocated xs)
    (hsub : ∀ c, allocated' c = true → allocated c = true) : Linked l allocated' xs where
  ring c hc := h.ring c (hsub c hc)
  disjoint c d s hc hd := h.disjoint c d s (hsub c hc) (hsub d hd)

end Rings

section Steps

variable {st st' : State} {xs : Nat → List Nat} {c s : Nat}

structure Inv (st : State) (xs : Nat → List Nat) : Prop where
  linked : Linked st.links st.allocated xs
  known : ∀ c, st.allocated c = true → c < st.next
  listed : ∀ c ∈ st.contextList, st.allocated c = true
  nodup : st.contextList.Nodup

theorem Inv.setSession (h : Inv st xs) (s : Nat) (f : Session → Session) :
    Inv (st.setSession s f) xs := ⟨h.linked, h.known, h.listed, h.nodup⟩

theorem Inv.closeSessionInner (h : Inv st xs) (s : Nat) (closed : Bool) :
    Inv (st.closeSessionInner s closed) xs := by
  rw [State.closeSessionInner]
  split_ifs
  · exact h.setSession s _
  · exact h

theorem Inv.allocated_of_find (h : Inv st xs) {context : Nat}
    (hfind : st.findBnContext context = some c) : st.allocated c = true :=
  h.listed c (List.mem_of_find?_eq_some hfind)

theorem Inv.initializeContext (h : Inv st xs) (context : Nat) (opened : Option Int) :
    ∃ xs, Inv (st.initializeContext context opened) xs := by
  cases opened with
  | none => exact ⟨xs, h⟩
  | some fd =>
    have hnew : st.allocated st.next = false := by
      rw [← Bool.not_eq_true]
      intro halloc
      exact absurd (h.known _ halloc) (lt_irrefl _)
    refine ⟨_, h.linked.initializeContext hnew, ?_, ?_, ?_⟩
    · intro c hc
      by_cases hcn : c = st.next
      · subst hcn
        exact Nat.lt_succ_self _
      · simp only [State.initializeContext, Function.update_of_ne hcn] at hc
        exact Nat.lt_succ_of_lt (h.known c hc)
    · intro c hc
      by_cases hcn : c = st.next
      · subst hcn
        simp [State.initializeContext]
      · have hc' : c ∈ st.contextList := by simpa [State.initializeContext, hcn] using hc
        simpa [State.initializeContext, hcn] using h.listed c hc'
    · refine List.nodup_append.mpr ⟨h.nodup, by simp, ?_⟩
      rintro c hc d hd rfl
      rw [List.mem_singleton.mp hd] at hc
      exact absurd (h.known _ (h.listed _ hc)) (lt_irrefl _)

theorem Inv.removeIfLinked (h : Inv st xs) (hc : st.allocated c = true) (s : Nat) {fuel : Nat}
    (hfuel : (xs c).length < fuel) :
    ∃ l, State.removeIfLinked fuel st.links c s = some l ∧
      Linked l st.allocated (Function.update xs c ((xs c).erase s)) := by
  have hlen : ((xs c).map ListNode.sessionHead).length < fuel := by simpa using hfuel
  have hrun := (h.linked.ring c hc).forEachSafe_remove (.sessionHead s) hlen
  refine ⟨_, hrun, ?_⟩
  by_cases hs : s ∈ xs c
  · rw [if_pos (List.mem_map_of_mem hs)]
    obtain ⟨ys, zs, hys, hxs, herase⟩ := List.exists_erase_eq hs
    rw [herase]
    exact h.linked.removeEntry hc hxs
  · have hnot : ListNode.sessionHead s ∉ (xs c).map ListNode.sessionHead := by simpa using hs
    rw [if_neg hnot, List.erase_of_not_mem hs, Function.update_eq_self]
    exact h.linked

def NotElsewhere (st : State) : ApiCall → Prop
  | .openSession (some context) (some s) (some _) true =>
    ∀ c, st.findBnContext context = some c → ∀ d, st.allocated d = true → d ≠ c →
      ¬ OnList st.links (.sessionList d) (.sessionHead s)
  | _ => True

theorem Inv.addSessionList (h : Inv st xs) (hc : st.allocated c = true) {sessionId : U32}
    {sessionLock : Bool} {fuel : Nat} (hfuel : (xs c).length < fuel) :
    ∃ st', st.addSessionList fuel c s sessionId sessionLock = some st' ∧
      ((sessionLock = true → ∀ d, st.allocated d = true → d ≠ c → s ∉ xs d) → ∃ xs', Inv st' xs') := by
  have hset := h.setSession s ({ · with sessionId })
  simp only [State.addSessionList]
  cases sessionLock with
  | false => exact ⟨_, rfl, fun _ => ⟨xs, hset⟩⟩
  | true =>
    obtain ⟨l, hrun, hlinked⟩ := hset.removeIfLinked hc s hfuel
    simp only [if_true, Option.bind_eq_bind]
    rw [hrun]
    refine ⟨_, rfl, fun helse => ⟨_, hlinked.insertTail hc fun d hd => ?_, h.known, h.listed, h.nodup⟩⟩
    by_cases hdc : d = c
    · subst hdc
      rw [Function.update_self]
      have hnd := (h.linked.ring d hc).nodup.of_cons
      exact ((List.nodup_map_iff fun a b hab => ListNode.sessionHead.inj hab).mp hnd).not_mem_erase
    · rw [Function.update_of_ne hdc]
      exact helse trivial d hd hdc

theorem Inv.openSession (h : Inv st xs) (context session : Option Nat) (reply : Option U32)
    (sessionLock : Bool) {fuel : Nat} (hfuel : ∀ c, st.allocated c = true → (xs c).length < fuel) :
    ∃ st', st.openSession fuel context session reply sessionLock = some st' ∧
      (NotElsewhere st (.openSession context session reply sessionLock) → ∃ xs', Inv st' xs') := by
  cases context with
  | none => exact ⟨st, rfl, fun _ => ⟨xs, h⟩⟩
  | some context =>
    cases session with
    | none => exact ⟨st, rfl, fun _ => ⟨xs, h⟩⟩
    | some s =>
      have hset := h.setSession s fun _ => { sessionId := 0, context := some context }
      simp only [State.openSession]
      cases hfind : st.findBnContext context with
      | none =>
        have hfind' : (st.setSession s fun _ => { sessionId := 0, context := some context }).findBnContext
            context = none := hfind
        rw [hfind']
        exact ⟨_, rfl, fun _ => ⟨xs, hset⟩⟩
      | some c =>
        have hfind' : (st.setSession s fun _ => { sessionId := 0, context := some context }).findBnContext
            context = some c := hfind
        rw [hfind']
        have hc := h.allocated_of_find hfind
        cases reply with
        | none => exact ⟨_, rfl, fun _ => ⟨xs, hset⟩⟩
        | some sessionId =>
          obtain ⟨st', hrun, hinv⟩ := hset.addSessionList (s := s) hc (hfuel c hc)
          refine ⟨st', hrun, fun helse => hinv ?_⟩
          rintro rfl d hd hdc hs
          refine helse c hfind d hd hdc ((h.linked.ring d hd).onList ?_)
          exact List.mem_map_of_mem hs

theorem Inv.closeSession (h : Inv st xs) (session : Option Nat) (sessionLock closed : Bool)
    {fuel : Nat} (hfuel : ∀ c, st.allocated c = true → (xs c).length < fuel) :
    ∃ st' xs', st.closeSession fuel session sessionLock closed = some st' ∧ Inv st' xs' := by
  cases session with
  | none => exact ⟨st, xs, rfl, h⟩
  | some s =>
    simp only [State.closeSession]
    cases hfind : (st.session s).context.bind st.findBnContext with
    | none => exact ⟨st, xs, rfl, h⟩
    | some c =>
      cases sessionLock with
      | false => exact ⟨st, xs, rfl, h⟩
      | true =>
        obtain ⟨context, -, hctx⟩ := Option.bind_eq_some_iff.mp hfind
        have hc := h.allocated_of_find hctx
        have hsearch : st.findBnSession fuel c (st.session s).sessionId = _ :=
          (h.linked.ring c hc).findFrom_eq (st.hasId (st.session s).sessionId)
            (by simpa using hfuel c hc)
        simp only [if_true, hsearch, Option.bind_eq_bind, Option.bind_some]
        cases hnode : ((xs c).map ListNode.sessionHead).find? (st.hasId (st.session s).sessionId) with
        | none => exact ⟨st, xs, rfl, h⟩
        | some node =>
          obtain ⟨found, hfound, rfl⟩ := List.mem_map.mp (List.mem_of_find?_eq_some hnode)
          obtain ⟨ys, zs, hxs⟩ := List.mem_iff_append.mp hfound
          have hremoved : Inv { st with links := st.links.removeEntry (.sessionHead found) }
              (Function.update xs c (ys ++ zs)) :=
            ⟨h.linked.removeEntry hc hxs, h.known, h.listed, h.nodup⟩
          exact ⟨_, _, rfl, hremoved.closeSessionInner s closed⟩

theorem Inv.finalizeSessions (h : Inv st xs) (hc : st.allocated c = true) (closed : Nat → Bool)
    {fuel : Nat} (hfuel : (xs c).length < fuel) :
    ∃ st', forEachSafe State.links (State.finalizeSession closed) (.sessionList c) fuel
        (st.links.next (.sessionList c)) (st.links.next (st.links.next (.sessionList c))) st =
          some st' ∧
      Inv st' (Function.update xs c []) ∧ st'.allocated = st.allocated ∧
      st'.contextList = st.contextList := by
  let I (zs : List ListNode) (st' : State) : Prop := ∃ ys, zs = ys.map ListNode.sessionHead ∧
    Inv st' (Function.update xs c ys) ∧ st'.allocated = st.allocated ∧
      st'.contextList = st.contextList
  have hfirst : I ((xs c).map .sessionHead) st := ⟨xs c, rfl, by simpa using h, rfl, rfl⟩
  have hring {ys : List Nat} {st' : State} (hI : Inv st' (Function.update xs c ys))
      (halloc : st'.allocated = st.allocated) :
      IsRing st'.links (.sessionList c) (ys.map .sessionHead) := by
    have := hI.linked.ring c (halloc ▸ hc)
    rwa [Function.update_self] at this
  have hstep (x : ListNode) (zs : List ListNode) (st' : State) (hI : I (x :: zs) st') :
      I zs (State.finalizeSession closed x st') := by
    obtain ⟨ys, hys, hinv, halloc, hlist⟩ := hI
    cases ys with
    | nil => cases hys
    | cons s ys =>
      obtain ⟨rfl, rfl⟩ := List.cons.inj hys
      have hhead : Function.update xs c (s :: ys) c = [] ++ s :: ys := by simp
      have hlinked := hinv.linked.removeEntry (halloc ▸ hc) hhead
      rw [Function.update_idem, List.nil_append] at hlinked
      have hnew : Inv { st' with links := st'.links.removeEntry (.sessionHead s) }
          (Function.update xs c ys) := ⟨hlinked, hinv.known, hinv.listed, hinv.nodup⟩
      refine ⟨ys, rfl, hnew.closeSessionInner s (closed s), ?_, ?_⟩
      · rw [← halloc]
        cases hcl : closed s <;> simp [State.finalizeSession, State.closeSessionInner, hcl, State.setSession]
      · rw [← hlist]
        cases hcl : closed s <;> simp [State.finalizeSession, State.closeSessionInner, hcl, State.setSession]
  have hnext (x : ListNode) (zs : List ListNode) (st' : State) (hI : I (x :: zs) st') :
      x ≠ .sessionList c ∧ st'.links.next x = zs.headD (.sessionList c) := by
    obtain ⟨ys, hys, hinv, halloc, -⟩ := hI
    have hr := hring hinv halloc
    rw [← hys] at hr
    refine ⟨?_, IsRing.next_eq [] hr⟩
    rintro rfl
    exact hr.head_notMem List.mem_cons_self
  obtain ⟨st', hrun, ys, hys, hinv, halloc, hlist⟩ :=
    forEachSafe_returns hstep hnext hfirst (by simpa using hfuel)
  obtain rfl : ys = [] := by simpa using hys.symm
  rw [← (h.linked.ring c hc).next_head] at hrun
  exact ⟨st', hrun, hinv, halloc, hlist⟩

theorem Inv.finalizeContext (h : Inv st xs) (context : Option Nat) (sessionLock shrMemLock : Bool)
    (closed : Nat → Bool) {fuel : Nat} (hfuel : ∀ c, st.allocated c = true → (xs c).length < fuel) :
    ∃ st' xs', st.finalizeContext fuel context sessionLock shrMemLock closed = some st' ∧
      Inv st' xs' := by
  cases context with
  | none => exact ⟨st, xs, rfl, h⟩
  | some context =>
    simp only [State.finalizeContext]
    have hreset {st' : State} {xs' : Nat → List Nat} (hinv : Inv st' xs') :
        Inv { st' with contextFd := Function.update st'.contextFd context (-1) } xs' :=
      ⟨hinv.linked, hinv.known, hinv.listed, hinv.nodup⟩
    cases hfind : st.findBnContext context with
    | none => exact ⟨_, xs, rfl, hreset h⟩
    | some c =>
      have hc := h.allocated_of_find hfind
      have herased : Inv { st with contextList := st.contextList.erase c } xs :=
        ⟨h.linked, h.known, fun d hd => h.listed d (List.mem_of_mem_erase hd), h.nodup.erase c⟩
      cases sessionLock with
      | false => exact ⟨_, xs, rfl, hreset herased⟩
      | true =>
        obtain ⟨st', hrun, hinv, halloc, hlist⟩ := herased.finalizeSessions hc closed (hfuel c hc)
        simp only [State.finalizeContextInner, if_true]
        rw [hrun]
        cases shrMemLock with
        | false => exact ⟨_, _, rfl, hreset hinv⟩
        | true =>
          have hfreed : Inv { st' with allocated := Function.update st'.allocated c false }
              (Function.update xs c []) := ?_
          · exact ⟨_, _, rfl, hreset hfreed⟩
          refine ⟨?_, ?_, ?_, hinv.nodup⟩
          · refine hinv.linked.mono fun d hd => ?_
            by_cases hdc : d = c
            · simp [hdc] at hd
            · simpa [hdc] using hd
          · intro d hd
            by_cases hdc : d = c
            · simp [hdc] at hd
            · exact hinv.known d (by simpa [hdc] using hd)
          · intro d hd
            have hdc : d ≠ c := by
              rintro rfl
              change d ∈ st'.contextList at hd
              rw [hlist] at hd
              exact h.nodup.not_mem_erase hd
            change Function.update st'.allocated c false d = true
            rw [Function.update_of_ne hdc]
            exact hinv.listed d hd

end Steps

section Fuel

variable {st st' : State} {fuel fuel' : Nat}

theorem addSessionList_mono {c s : Nat} {sessionId : U32} {sessionLock : Bool} (hfuel : fuel ≤ fuel')
    (h : st.addSessionList fuel c s sessionId sessionLock = some st') :
    st.addSessionList fuel' c s sessionId sessionLock = some st' := by
  cases sessionLock with
  | false => exact h
  | true =>
    simp only [State.addSessionList, if_true, Option.bind_eq_bind, Option.bind_eq_some_iff] at h ⊢
    obtain ⟨l, hl, hst⟩ := h
    exact ⟨l, forEachSafe_mono hfuel hl, hst⟩

theorem exec_mono {call : ApiCall} (hfuel : fuel ≤ fuel') (h : st.exec fuel call = some st') :
    st.exec fuel' call = some st' := by
  cases call with
  | initializeContext context opened => exact h
  | openSession context session reply sessionLock =>
    simp only [State.exec, State.openSession] at h ⊢
    split at h
    · split at h
      · exact addSessionList_mono hfuel h
      · exact h
    · exact h
  | closeSession session sessionLock closed =>
    cases session with
    | none => exact h
    | some s =>
      simp only [State.exec, State.closeSession] at h ⊢
      cases hfind : (st.session s).context.bind st.findBnContext with
      | none =>
        rw [hfind] at h
        exact h
      | some c =>
        rw [hfind] at h
        cases sessionLock with
        | false => exact h
        | true =>
          simp only [if_true, Option.bind_eq_bind, Option.bind_eq_some_iff] at h ⊢
          obtain ⟨found, hfound, hst⟩ := h
          exact ⟨found, findFrom_mono hfuel hfound, hst⟩
  | finalizeContext context sessionLock shrMemLock closed =>
    cases context with
    | none => exact h
    | some context =>
      simp only [State.exec, State.finalizeContext, Option.map_eq_some_iff] at h ⊢
      obtain ⟨mid, hmid, hst⟩ := h
      refine ⟨mid, ?_, hst⟩
      cases hfind : st.findBnContext context with
      | none =>
        rw [hfind] at hmid
        exact hmid
      | some c =>
        rw [hfind] at hmid
        cases sessionLock with
        | false => exact hmid
        | true =>
          simp only [State.finalizeContextInner, if_true, Option.bind_eq_bind,
            Option.bind_eq_some_iff] at hmid ⊢
          obtain ⟨closedAll, hloop, hfree⟩ := hmid
          exact ⟨closedAll, forEachSafe_mono hfuel hloop, hfree⟩

end Fuel

section Runs

/-- The call returns with this state, after some number of rounds. -/
def Returns (st : State) (call : ApiCall) (st' : State) : Prop :=
  ∃ fuel, st.exec fuel call = some st'

inductive Runs (ok : State → ApiCall → Prop) (s₀ : State) : State → Prop
  | start : Runs ok s₀ s₀
  | call {st st' : State} {call : ApiCall} (h : Runs ok s₀ st) (hok : ok st call)
      (hcall : Returns st call st') : Runs ok s₀ st'

/-- Every list is a ring, and no session stands in two lists or twice in one. -/
def RingsOk (st : State) : Prop := ∃ xs, Linked st.links st.allocated xs

variable {st st' : State} {xs : Nat → List Nat}

theorem Returns.unique {st'' : State} {call : ApiCall} (h : Returns st call st')
    (h' : Returns st call st'') : st' = st'' := by
  obtain ⟨fuel, hfuel⟩ := h
  obtain ⟨fuel', hfuel'⟩ := h'
  have hmax := exec_mono (le_max_left fuel fuel') hfuel
  have hmax' := exec_mono (le_max_right fuel fuel') hfuel'
  exact Option.some.inj (hmax.symm.trans hmax')

/-- Where the lists are rings, every call returns; and they stay rings unless it opens a
session that stands in another list. -/
theorem Inv.exec (h : Inv st xs) (call : ApiCall) :
    ∃ st', Returns st call st' ∧ (NotElsewhere st call → ∃ xs', Inv st' xs') := by
  let enough := ((List.range st.next).map fun c => (xs c).length).sum + 1
  have henough (c : Nat) (hc : st.allocated c = true) : (xs c).length < enough := by
    have hmem : (xs c).length ∈ (List.range st.next).map fun c => (xs c).length :=
      List.mem_map_of_mem (List.mem_range.mpr (h.known c hc))
    exact Nat.lt_succ_of_le (List.single_le_sum (by simp) _ hmem)
  cases call with
  | initializeContext context opened =>
    exact ⟨_, ⟨0, rfl⟩, fun _ => h.initializeContext context opened⟩
  | openSession context session reply sessionLock =>
    obtain ⟨st', hst', hinv⟩ := h.openSession context session reply sessionLock henough
    exact ⟨st', ⟨enough, hst'⟩, hinv⟩
  | closeSession session sessionLock closed =>
    obtain ⟨st', xs', hst', hinv⟩ := h.closeSession session sessionLock closed henough
    exact ⟨st', ⟨enough, hst'⟩, fun _ => ⟨xs', hinv⟩⟩
  | finalizeContext context sessionLock shrMemLock closed =>
    obtain ⟨st', xs', hst', hinv⟩ :=
      h.finalizeContext context sessionLock shrMemLock closed henough
    exact ⟨st', ⟨enough, hst'⟩, fun _ => ⟨xs', hinv⟩⟩

theorem inv_start (links : Links ListNode) (session : Nat → Session) (contextFd : Nat → Int) :
    Inv (start links session contextFd) fun _ => [] where
  linked := ⟨fun c hc => absurd hc (by simp [start]), fun c d s hc => absurd hc (by simp [start])⟩
  known c hc := absurd hc (by simp [start])
  listed c hc := absurd hc (by simp [start])
  nodup := List.nodup_nil

/-- In every run in which no session is opened that stands in the list of another context,
all lists are rings in every state, and every next call returns. -/
theorem ringsOk_runs (links : Links ListNode) (session : Nat → Session) (contextFd : Nat → Int)
    (st : State) (h : Runs NotElsewhere (start links session contextFd) st) :
    RingsOk st ∧ ∀ call, ∃ st', Returns st call st' := by
  have hinv : ∃ xs, Inv st xs := by
    induction h with
    | start => exact ⟨_, inv_start links session contextFd⟩
    | @call st st' call h hok hcall ih =>
      obtain ⟨xs, hinv⟩ := ih
      obtain ⟨st'', hreturns, hnext⟩ := hinv.exec call
      rw [hcall.unique hreturns]
      exact hnext hok
  obtain ⟨xs, hinv⟩ := hinv
  refine ⟨⟨xs, hinv.linked⟩, fun call => ?_⟩
  obtain ⟨st', hreturns, -⟩ := hinv.exec call
  exact ⟨st', hreturns⟩

def blank : State :=
  start ⟨fun _ => .sessionList 0, fun _ => .sessionList 0⟩ (fun _ => ⟨0, none⟩) fun _ => -1

theorem Runs.next {ok : State → ApiCall → Prop} {s₀ : State} (h : Runs ok s₀ st) (call : ApiCall)
    (hok : ok st call) (hcall : st.exec 9 call = some st') : Runs ok s₀ st' :=
  h.call hok ⟨9, hcall⟩

/-- One context, and a session that is opened on it twice. -/
theorem ringsOk_reopened : ∃ st, Runs NotElsewhere blank st ∧
    st.links.next (.sessionList 0) = .sessionHead 7 ∧ RingsOk st := by
  let again : ApiCall := .openSession (some 5) (some 7) (some 11) true
  have honly {st : State} (hst : ∀ d, st.allocated d = true → d = 0)
      (hfind : st.findBnContext 5 = some 0) : NotElsewhere st again := by
    intro c hc d hd hdc
    rw [hfind] at hc
    exact absurd ((hst d hd).trans (Option.some.inj hc)) hdc
  have hone (d : Nat) (hd : Function.update (fun _ => false) 0 true d = true) : d = 0 := by
    by_contra hne
    simp [Function.update_of_ne hne] at hd
  have hstart : Runs NotElsewhere blank blank := .start
  have hfirst := hstart.next (.initializeContext 5 (some 3)) trivial rfl
  have hsecond := hfirst.next again (honly hone rfl) rfl
  have hthird := hsecond.next again (honly hone rfl) rfl
  exact ⟨_, hthird, rfl, (ringsOk_runs _ _ _ _ hthird).1⟩

/-- Two contexts, and a session that is opened on the second while it is still open on the
first: the first list then leads to a node whose `prev` is the second list. -/
theorem ringsOk_fails : ∃ st, Runs (fun _ _ => True) blank st ∧
    st.allocated 0 = true ∧ st.links.next (.sessionList 0) = .sessionHead 7 ∧
    st.links.prev (.sessionHead 7) = .sessionList 1 ∧ ¬ RingsOk st := by
  have hstart : Runs (fun _ _ => True) blank blank := .start
  have hfirst := hstart.next (.initializeContext 5 (some 3)) trivial rfl
  have hsecond := hfirst.next (.initializeContext 6 (some 4)) trivial rfl
  have hthird := hsecond.next (.openSession (some 5) (some 7) (some 11) true) trivial rfl
  have hfourth := hthird.next (.openSession (some 6) (some 7) (some 12) true) trivial rfl
  refine ⟨_, hfourth, rfl, rfl, rfl, ?_⟩
  rintro ⟨xs, hlinked⟩
  have hback := (hlinked.ring 0 rfl).prev_next
  cases hback

end Runs

end TeeClient.Vendor.SessionList
