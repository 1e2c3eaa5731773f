import Mathlib.Tactic
import TeeClient.Daemon.ReferencesLaws
import TeeClient.Vendor.ObjectLifetimeLaws

/-! The contexts, sessions and blocks of `cadaemon` over whole runs, for any interleaving of
requests and of notifications of a death: when they are freed, and what their counts say. -/

namespace TeeClient.Daemon.Lifetimes

open Vendor Vendor.Api Stub Service References
open Resumption RefCount

variable {s s' : World Addr} {ls : List Holding} {l : Holding} {i : Nat}

section Invariant

def contextRefs (ls : List Holding) : Ref Nat → Nat := refsOf (ls.map (·.contexts))

def objectRefs (ls : List Holding) : Ref Shared → Nat := refsOf (ls.map (·.objects))

structure Kept (s : World Addr) (ls : List Holding) : Prop where
  contexts : Accounts s.core.ledger (contextRefs ls)
  objects : Accounts s.objs.ledger (objectRefs ls)
  tidy : s.objs.Tidy
  homes : ∀ o, s.objs.known o = true →
    s.core.ledger.known o.context = true ∧ (s.core.ledger.life o.context).wasListed = true
  marked : ∀ c, (s.core.ctx c).wasListed = true → (s.core.ctx c).frees = 0 →
    (s.core.ctx c).callFromService = false → ∃ l ∈ ls, l.unmarked = some c ∧ .hold c ∈ l.contexts
  unstray : ∀ l ∈ ls, l.stray = false

/-- A session that has been in `session_list` is freed by hand only when its creator has the
last reference, and a block is taken out by hand only when it is in `shrd_mem_list`. -/
def byHand (s : World Addr) : Act Addr → Bool
  | .obj (.freeSession _ n) =>
    !(s.objs.session n).wasListed || decide ((s.objs.session n).opsCnt = 1)
  | .obj (.unlinkShm c b) => decide (0 < s.objs.listed (.shm c b))
  | _ => true

theorem contextRefs_pos {t : Ref Nat} : 0 < contextRefs ls t ↔ ∃ l ∈ ls, t ∈ l.contexts := by
  rw [contextRefs, refsOf_pos]
  simp

theorem objectRefs_pos {t : Ref Shared} : 0 < objectRefs ls t ↔ ∃ l ∈ ls, t ∈ l.objects := by
  rw [objectRefs, refsOf_pos]
  simp

theorem pre_of_holdPre {a : Act Addr} (h : Kept s ls) (hi : ls[i]? = some l) (hpre : HoldPre l a) :
    Pre l a := by
  refine hpre.resolve_left fun hstray => ?_
  exact nomatch hstray.symm.trans (h.unstray l (List.mem_of_getElem? hi))

theorem map_set_same {β : Type} {f : Holding → β} {l' : Holding} (hi : ls[i]? = some l)
    (h : f l' = f l) : (ls.set i l').map f = ls.map f := by
  obtain ⟨hlt, rfl⟩ := List.getElem?_eq_some_iff.mp hi
  rw [List.map_set, h, ← List.getElem_map f, List.set_getElem_self]
  simpa using hlt

theorem Kept.wasListed (h : Kept s ls) {c : Nat} (hc : 0 < contextRefs ls (.hold c)) :
    s.core.ledger.known c = true ∧ (s.core.ledger.life c).wasListed = true := by
  have hknown : s.core.ledger.known c = true := h.contexts.known_of_pos hc
  exact ⟨hknown, (h.contexts.law c hknown).listedOnce (by omega)⟩

end Invariant

section Marks

/-- A context that is in use and that nobody has marked as the service's. -/
def Unmarked (x : ContextInner) : Prop :=
  x.wasListed = true ∧ x.frees = 0 ∧ x.callFromService = false

theorem unmarked_modify {s : Core} {c d : Nat} {f : ContextInner → ContextInner}
    (h : Unmarked ((s.modify d f).ctx c)) (hf : ∀ x, Unmarked (f x) → Unmarked x) :
    Unmarked (s.ctx c) := by
  by_cases hcd : c = d
  · subst hcd
    refine hf _ ?_
    simpa [Core.modify] using h
  · simpa [Core.modify, hcd] using h

theorem unmarked_exec {s s' : Core} {env : Env Addr} {a : CoreAct} {r : CoreResp a} {c : Nat}
    (h : s.exec env a = some (r, s')) (hc : Unmarked (s'.ctx c)) :
    a = .insertContext c ∨ a ≠ .setCallFromService c ∧ Unmarked (s.ctx c) := by
  have hidle (ha : a.idle = true) (hne : a ≠ .setCallFromService c) :
      a = .insertContext c ∨ a ≠ .setCallFromService c ∧ Unmarked (s.ctx c) := by
    refine .inr ⟨hne, ?_⟩
    rwa [(Core.exec_idle ha h).ctx] at hc
  cases a
  case mallocContext owner =>
    refine .inr ⟨by simp, ?_⟩
    simp only [Core.exec] at h
    split_ifs at h
    · obtain ⟨-, rfl⟩ := Prod.mk.inj (Option.some.inj h)
      by_cases hnew : c = s.next
      · subst hnew
        simp [Unmarked, Core.mallocContext] at hc
      · simpa [Core.mallocContext, hnew] using hc
    · obtain ⟨-, rfl⟩ := Prod.mk.inj (Option.some.inj h)
      exact hc
  case openTzdriver d | closeDupFd d =>
    refine .inr ⟨by simp, ?_⟩
    simp only [Core.exec] at h
    split_ifs at h
    all_goals
      obtain ⟨-, rfl⟩ := Prod.mk.inj (Option.some.inj h)
      exact hc
  case lockReadContextList =>
    refine .inr ⟨by simp, ?_⟩
    simp only [Core.exec] at h
    split_ifs at h
    obtain ⟨-, rfl⟩ := Prod.mk.inj (Option.some.inj h)
    exact hc
  case unlockReadContextList | closeFd =>
    obtain ⟨-, rfl⟩ := Prod.mk.inj (Option.some.inj h)
    exact .inr ⟨by simp, hc⟩
  case insertContext d =>
    obtain ⟨-, rfl⟩ := Prod.mk.inj (Option.some.inj h)
    by_cases hcd : c = d
    · exact .inl (hcd ▸ rfl)
    · refine .inr ⟨by simp, ?_⟩
      simpa [Core.insertContext, Core.modify, hcd] using hc
  case setCallFromService d =>
    obtain ⟨-, rfl⟩ := Prod.mk.inj (Option.some.inj h)
    by_cases hcd : c = d
    · subst hcd
      simp [Unmarked, Core.modify] at hc
    · refine .inr ⟨fun heq => hcd (CoreAct.setCallFromService.inj heq).symm, ?_⟩
      simpa [Core.modify, hcd] using hc
  case getBnContext fd =>
    obtain ⟨-, rfl⟩ := Prod.mk.inj (Option.some.inj h)
    refine .inr ⟨by simp, ?_⟩
    cases hfind : s.findBnContext fd with
    | none => simpa [hfind] using hc
    | some d =>
      rw [hfind] at hc
      exact unmarked_modify (d := d) (f := fun x => { x with opsCnt := x.opsCnt + 1 }) hc
        fun x hx => hx
  case findAndRemoveBnContext fd =>
    obtain ⟨-, rfl⟩ := Prod.mk.inj (Option.some.inj h)
    refine .inr ⟨by simp, ?_⟩
    cases hfind : s.findBnContext fd with
    | none => simpa [hfind] using hc
    | some d =>
      rw [hfind] at hc
      exact unmarked_modify (d := d) (f := ({ · with takenOut := true })) hc fun x hx => hx
  case setContext d fd =>
    obtain ⟨-, rfl⟩ := Prod.mk.inj (Option.some.inj h)
    exact .inr ⟨by simp, unmarked_modify hc fun x hx => hx⟩
  case atomDecContext d =>
    obtain ⟨-, rfl⟩ := Prod.mk.inj (Option.some.inj h)
    exact .inr ⟨by simp, unmarked_modify hc fun x hx => hx⟩
  case closeContext d =>
    obtain ⟨-, rfl⟩ := Prod.mk.inj (Option.some.inj h)
    exact .inr ⟨by simp, unmarked_modify (s := s.closeFd _) hc fun x hx => hx⟩
  case freeContext d | freeFinalized d =>
    obtain ⟨-, rfl⟩ := Prod.mk.inj (Option.some.inj h)
    refine .inr ⟨by simp, unmarked_modify hc fun x hx => ?_⟩
    exact absurd hx.2.1 (Nat.succ_ne_zero _)
  all_goals exact hidle rfl (by simp)

end Marks

section Steps

theorem updUnmarked_some {u : Option Nat} {a : CoreAct} {c : Nat} (hu : u = some c)
    (hinsert : ∀ d, a ≠ .insertContext d) (hne : a ≠ .setCallFromService c) :
    updUnmarked u (.core a) = some c := by
  cases a
  case insertContext d => exact absurd rfl (hinsert d)
  case setCallFromService d =>
    have hdc : c ≠ d := fun heq => hne (heq ▸ rfl)
    simp [updUnmarked, hu, hdc]
  all_goals exact hu

theorem mem_hold_updAll {refs : List (Ref Nat)} {a : CoreAct} {r : CoreResp a} {c : Nat}
    (h : .hold c ∈ refs) (hput : ∀ d, a ≠ .atomDecContext d) :
    .hold c ∈ updAll refs (ctxEvents a r) := by
  have hone (e : Event Nat) (he : consumed refs e ≠ some (.hold c)) :
      .hold c ∈ updAll refs [e] := mem_upd_of_mem h he
  cases a
  case atomDecContext d => exact absurd rfl (hput d)
  case mallocContext | getBnContext | findAndRemoveBnContext =>
    cases r with
    | none => exact h
    | some d => exact hone _ (by simp [consumed])
  case setContext | insertContext | freeFinalized => exact hone _ (by simp [consumed])
  case freeContext d =>
    refine hone _ ?_
    simp only [consumed]
    split_ifs <;> simp
  all_goals exact h

theorem kept_marked {a : CoreAct} {r : CoreResp a} {env : Env Addr} {core : Core} (h : Kept s ls)
    (hi : ls[i]? = some l) (hpre : Pre l (.core a)) (hexec : s.core.exec env a = some (r, core))
    (c : Nat) (hc : Unmarked (core.ctx c)) :
    ∃ l' ∈ ls.set i (holdings.upd l (.core a) r), l'.unmarked = some c ∧ .hold c ∈ l'.contexts := by
  have hlt := (List.getElem?_eq_some_iff.mp hi).1
  have hself : holdings.upd l (.core a) r ∈ ls.set i (holdings.upd l (.core a) r) :=
    List.mem_set hlt _
  rcases unmarked_exec hexec hc with rfl | ⟨hne, hbefore⟩
  · refine ⟨_, hself, rfl, ?_⟩
    exact List.mem_append_left _ List.mem_cons_self
  · obtain ⟨l₀, hl₀, hun, hhold⟩ := h.marked c hbefore.1 hbefore.2.1 hbefore.2.2
    obtain ⟨j, hj⟩ := List.mem_iff_getElem?.mp hl₀
    by_cases hij : i = j
    · obtain rfl : l = l₀ := Option.some.inj ((hij ▸ hi).symm.trans hj)
      have hmarked (d : Nat) : a ≠ .atomDecContext d ∧ a ≠ .insertContext d := by
        constructor
        · rintro rfl
          simp [hpre.marked d (.inl rfl)] at hun
        · rintro rfl
          simp [hpre.marked d (.inr rfl)] at hun
      refine ⟨_, hself, ?_, ?_⟩
      · exact updUnmarked_some hun (fun d => (hmarked d).2) hne
      · exact mem_hold_updAll hhold fun d => (hmarked d).1
    · refine ⟨l₀, ?_, hun, hhold⟩
      exact List.mem_of_getElem? ((List.getElem?_set_ne hij).trans hj)

theorem fin_marked (h : Kept s ls) {c : Nat} (hfin : 0 < contextRefs ls (.fin c)) :
    (s.core.ctx c).callFromService = true := by
  have hknown : s.core.ledger.known c = true := h.contexts.known_of_pos hfin
  have hlaw := h.contexts.law c hknown
  have hfrees := h.contexts.frees_eq_zero hfin
  by_contra hmark
  obtain ⟨l, hl, -, hhold⟩ := h.marked c (hlaw.listedOnce (by omega)) hfrees
    (Bool.eq_false_iff.mpr hmark)
  have hpos : 0 < contextRefs ls (.hold c) := contextRefs_pos.mpr ⟨l, hl, hhold⟩
  have halone := hlaw.alone (by omega)
  omega

theorem kept_unstray {a : CoreAct} {r : CoreResp a} {env : Env Addr} {core : Core} (h : Kept s ls)
    (hl : l ∈ ls) (hexec : s.core.exec env a = some (r, core)) :
    strays l (.core a) r = false := by
  cases a
  case readCallFromService c =>
    obtain ⟨rfl, -⟩ := Prod.mk.inj (Option.some.inj hexec)
    by_contra hstray
    obtain ⟨hread, hfin⟩ : (s.core.ctx c).callFromService = false ∧ .fin c ∈ l.contexts := by
      simpa [strays] using hstray
    have hmark := fin_marked h (contextRefs_pos.mpr ⟨l, hl, hfin⟩)
    simp [hread] at hmark
  all_goals rfl

theorem kept_core {a : CoreAct} {r : CoreResp a} {env : Env Addr} {core : Core} (h : Kept s ls)
    (hi : ls[i]? = some l) (hpre : Pre l (.core a)) (hexec : s.core.exec env a = some (r, core)) :
    Kept { s with core } (ls.set i (holdings.upd l (.core a) r)) := by
  have hfollows := follows_ctxEvents hexec
  have hctx : (ls.map (·.contexts))[i]? = some l.contexts := by simp [hi]
  refine ⟨?_, ?_, h.tidy, fun o ho => ?_, fun c hwas hfrees hmark => ?_, fun l' hl' => ?_⟩
  · have hacc := h.contexts.follows hctx hfollows (hpre.covered a rfl r)
    rwa [contextRefs, List.map_set]
  · have hrefs : objectRefs (ls.set i (holdings.upd l (.core a) r)) = objectRefs ls :=
      congrArg refsOf (map_set_same hi rfl)
    rw [hrefs]
    exact h.objects
  · obtain ⟨hknown, hwas⟩ := h.homes o ho
    exact ⟨hfollows.known hknown, hfollows.wasListed hknown hwas⟩
  · exact kept_marked h hi hpre hexec c ⟨hwas, hfrees, hmark⟩
  · have hl := List.mem_of_getElem? hi
    rcases List.mem_or_eq_of_mem_set hl' with hl' | rfl
    · exact h.unstray l' hl'
    · exact Bool.or_eq_false_iff.mpr ⟨h.unstray l hl, kept_unstray h hl hexec⟩

theorem covered_objEvents {refs : List (Ref Shared)} {a : ObjAct Addr} (h : Held refs a)
    (r : ObjResp a) : Covered refs (objEvents refs a r) := by
  have hone {e : Event Shared} {t : Ref Shared} (he : consumed refs e = some t) (ht : t ∈ refs) :
      Covered refs [e] := by
    refine ⟨fun t' ht' => ?_, trivial⟩
    obtain rfl := Option.some.inj (he.symm.trans ht')
    exact ht
  have hfound {α : Type} (e : α → Event Shared) (he : ∀ x, consumed refs (e x) = none)
      (r : Option α) : Covered refs (r.toList.map e) := by
    cases r with
    | none => exact covered_nil _
    | some x =>
      refine ⟨fun t ht => ?_, trivial⟩
      simp [he x] at ht
  have htake (e : Nat → Shared) (ns : List Nat) (refs : List (Ref Shared)) :
      Covered refs (ns.map fun n => .remove (e n)) := by
    induction ns generalizing refs with
    | nil => exact covered_nil _
    | cons n ns ih => exact ⟨by simp [consumed], ih _⟩
  have hput {o : Shared} {zero : Bool} (h : .hold o ∈ refs ∨ .removed o ∈ refs) :
      Covered refs [.put o zero] := by
    by_cases hremoved : .removed o ∈ refs
    · exact hone (if_pos hremoved) hremoved
    · exact hone (if_neg hremoved) (h.resolve_right hremoved)
  have hnew {o : Shared} (h : .own o ∈ refs) : Covered refs [.set o, .insert o] := by
    refine ⟨fun t ht => ?_, fun t ht => ?_, trivial⟩
    · obtain rfl := Option.some.inj ht
      exact h
    · obtain rfl := Option.some.inj ht
      exact List.mem_append_left _ List.mem_cons_self
  cases a
  case mallocSession | getBnSession | findAndRemoveSession | getBnShmByOffset
    | findAndRemoveShrMem => exact hfound _ (fun _ => rfl) r
  case takeSessions c => exact htake (.session c) r refs
  case takeShms c => exact htake (.shm c) r refs
  case addSessionList | insertShm => exact hnew h
  case atomDecSession | atomDecShm => exact hput h
  case releaseSession | releaseShm => exact hone rfl h
  case freeShm => exact hone (if_pos h) h
  case freeSession c n =>
    simp only [objEvents]
    split_ifs with hown
    · exact hone (if_pos hown) hown
    · exact hone rfl (h.resolve_left hown)
  case mallocShm | unlinkShm => exact ⟨by simp [consumed], trivial⟩
  all_goals exact covered_nil _

theorem backed_of_pre {a : ObjAct Addr} (h : Kept s ls) (hl : l ∈ ls) (hpre : Pre l (.obj a))
    (hmeets : byHand s (.obj a) = true) :
    Backed s.objs.ledger (objectRefs ls) l.objects a := by
  have hheld := hpre.held a rfl
  have hpos {t : Ref Shared} (ht : t ∈ l.objects) : 0 < objectRefs ls t :=
    objectRefs_pos.mpr ⟨l, hl, ht⟩
  cases a
  case initLists c =>
    intro o ho
    by_contra hknown
    obtain ⟨hctx, hwas⟩ := h.homes o (by simpa [Objects.ledger] using hknown)
    have hinit : 0 < contextRefs ls (.init c) := contextRefs_pos.mpr ⟨l, hl, hpre.inits c rfl⟩
    rw [ho] at hctx hwas
    have hnot := (h.contexts.law c hctx).notYet (by omega)
    simp [hwas] at hnot
  case addSessionList | insertShm | freeShm | releaseSession | releaseShm => exact hpos hheld
  case atomDecSession c n =>
    rcases hheld with hheld | hheld
    · exact Nat.add_pos_left (hpos hheld) _
    · exact Nat.add_pos_right _ (hpos hheld)
  case atomDecShm c b =>
    rcases hheld with hheld | hheld
    · exact Nat.add_pos_left (hpos hheld) _
    · exact Nat.add_pos_right _ (hpos hheld)
  case unlinkShm c b =>
    have hlisted : 0 < s.objs.listed (.shm c b) := of_decide_eq_true hmeets
    exact hlisted
  case freeSession c n =>
    simp only [Backed]
    split_ifs with hown
    · exact hpos hown
    · have hhold := hpos (hheld.resolve_left hown)
      obtain ⟨hknown, hwas, -⟩ := facts_of_counted h.objects (Nat.add_pos_left hhold _)
      refine ⟨hhold, ?_⟩
      rw [ledger_life hknown]
      have hlisted : (s.objs.session n).wasListed = true := hwas
      have hcnt : (s.objs.session n).opsCnt = 1 := by simpa [byHand, hlisted] using hmeets
      exact hcnt
  all_goals trivial

theorem home_of_malloc {a : ObjAct Addr} {r : ObjResp a} {o : Shared} {refs : List (Ref Shared)}
    (h : .malloc o ∈ objEvents refs a r) :
    a = .mallocSession o.context ∨ a = .mallocShm o.context := by
  have htake (e : Nat → Shared) (ns : List Nat) :
      Event.malloc o ∉ ns.map fun n => Event.remove (e n) := by
    simp
  cases a
  case mallocSession c =>
    cases r with
    | none => cases h
    | some n =>
      obtain rfl : o = .session c n := by simpa [objEvents] using h
      exact .inl rfl
  case mallocShm c =>
    obtain rfl : o = .shm c r := by simpa [objEvents] using h
    exact .inr rfl
  case takeSessions c => exact absurd h (htake (.session c) r)
  case takeShms c => exact absurd h (htake (.shm c) r)
  case getBnSession | findAndRemoveSession | getBnShmByOffset | findAndRemoveShrMem =>
    cases r <;> simp [objEvents] at h
  case freeSession c n =>
    simp only [objEvents] at h
    split_ifs at h <;> simp at h
  all_goals simp [objEvents] at h

theorem kept_obj {a : ObjAct Addr} {r : ObjResp a} {env : Env Addr} {objs : Objects Addr}
    (h : Kept s ls) (hi : ls[i]? = some l) (hpre : Pre l (.obj a))
    (hmeets : byHand s (.obj a) = true) (hexec : s.objs.exec env a = some (r, objs)) :
    Kept { s with objs } (ls.set i (holdings.upd l (.obj a) r)) := by
  have hl := List.mem_of_getElem? hi
  have hback := backed_of_pre h hl hpre hmeets
  have hfollows := follows_objEvents hexec h.objects h.tidy hback
  have hobj : (ls.map (·.objects))[i]? = some l.objects := by simp [hi]
  refine ⟨?_, ?_, tidy_exec hexec h.objects h.tidy hback, fun o ho => ?_,
    fun c hwas hfrees hmark => ?_, fun l' hl' => ?_⟩
  · have hrefs : contextRefs (ls.set i (holdings.upd l (.obj a) r)) = contextRefs ls :=
      congrArg refsOf (map_set_same hi rfl)
    rw [hrefs]
    exact h.contexts
  · have hacc := h.objects.follows hobj hfollows (covered_objEvents (hpre.held a rfl) r)
    rwa [objectRefs, List.map_set]
  · rcases hfollows.known_or_malloc ho with hknown | hmalloc
    · exact h.homes o hknown
    · have hnew := home_of_malloc hmalloc
      have hhold := hpre.mallocs o.context (hnew.imp (congrArg Act.obj) (congrArg Act.obj))
      exact h.wasListed (contextRefs_pos.mpr ⟨l, hl, hhold⟩)
  · obtain ⟨l₀, hl₀, hun, hhold⟩ := h.marked c hwas hfrees hmark
    obtain ⟨j, hj⟩ := List.mem_iff_getElem?.mp hl₀
    by_cases hij : i = j
    · obtain rfl : l = l₀ := Option.some.inj ((hij ▸ hi).symm.trans hj)
      exact ⟨_, List.mem_set (List.getElem?_eq_some_iff.mp hi).1 _, hun, hhold⟩
    · exact ⟨l₀, List.mem_of_getElem? ((List.getElem?_set_ne hij).trans hj), hun, hhold⟩
  · rcases List.mem_or_eq_of_mem_set hl' with hl' | rfl
    · exact h.unstray l' hl'
    · exact Bool.or_eq_false_iff.mpr ⟨h.unstray l hl, rfl⟩

theorem kept_act {a : Act Addr} {r : Resp a} (h : Kept s ls) (hi : ls[i]? = some l)
    (hpre : HoldPre l a) (hstep : holdings.step s a r s') (hmeets : byHand s a = true) :
    Kept s' (ls.set i (holdings.upd l a r)) := by
  have hpre := pre_of_holdPre h hi hpre
  obtain ⟨env, hexec⟩ := hstep
  cases a with
  | core a =>
    obtain ⟨x, hcore, hx⟩ := Option.map_eq_some_iff.mp hexec
    obtain ⟨rfl, rfl⟩ := Prod.mk.inj hx
    exact kept_core h hi hpre hcore
  | obj a =>
    obtain ⟨x, hobj, hx⟩ := Option.map_eq_some_iff.mp hexec
    obtain ⟨rfl, rfl⟩ := Prod.mk.inj hx
    exact kept_obj h hi hpre hmeets hobj

theorem kept_start (h : Kept s ls) : Kept s (ls ++ [begin]) := by
  have hcontexts : contextRefs (ls ++ [begin]) = contextRefs ls := by
    simp [contextRefs, begin]
  have hobjects : objectRefs (ls ++ [begin]) = objectRefs ls := by
    simp [objectRefs, begin]
  refine ⟨hcontexts ▸ h.contexts, hobjects ▸ h.objects, h.tidy, h.homes, fun c hwas hfrees hmark =>
    ?_, List.forall_mem_append.mpr ⟨h.unstray, by simp [begin]⟩⟩
  obtain ⟨l, hl, hmarked⟩ := h.marked c hwas hfrees hmark
  exact ⟨l, List.mem_append_left _ hl, hmarked⟩

theorem kept_init : Kept (init noObjects) [] where
  contexts := accounts_nil (fun _ => rfl) fun _ => rfl
  objects := by
    refine accounts_nil (fun o => ?_) fun o => ?_
    · cases o <;> rfl
    · cases o <;> rfl
  tidy := by
    refine ⟨fun _ => List.Pairwise.nil, fun c b => ?_⟩
    simp [init, Service.noObjects, Objects.findShm, ShmTable.init]
  homes := fun o ho => by cases o <;> cases ho
  marked := nofun
  unstray := nofun

end Steps

section Untouched

/-- The contexts whose memory an action reads or writes, those beside a new one in the list
among them. -/
def contextsTouched (s : World Addr) (a : Act Addr) : List Nat :=
  touched s a ++ match a with
    | .core (.insertContext _) => s.core.contextList
    | _ => []

def sessionsOf (s : Objects Addr) (c : Nat) : List Shared := (s.sessionList c).map (.session c)

def shmsOf (s : Objects Addr) (c : Nat) : List Shared :=
  (s.shm c).shrdMemList.map fun x => .shm c x.id

def objectsTouched (s : Objects Addr) : Act Addr → List Shared
  | .core _ => []
  | .obj a =>
    match a with
    | .freeSession c n | .atomDecSession c n | .releaseSession c n | .clearSession c n
    | .readSession c n => [.session c n]
    | .addSessionList c n _ => .session c n :: sessionsOf s c
    | .getBnSession c _ | .findAndRemoveSession c _ | .takeSessions c => sessionsOf s c
    | .freeShm c b | .readShm c b | .atomDecShm c b | .releaseShm c b => [.shm c b]
    | .insertShm c b _ _ _ | .unlinkShm c b => .shm c b :: shmsOf s c
    | .getBnShmByOffset c _ | .checkSharedBufferExist c _ | .findAndRemoveShrMem c _ _
    | .takeShms c => shmsOf s c
    | .initLists _ | .mallocSession _ | .getAndSetBit _ | .clearBit _ _ | .mapBuffer _
    | .mallocShm _ => []

structure Untouched (s : World Addr) (a : Act Addr) : Prop where
  contexts : ∀ c ∈ contextsTouched s a, (s.core.ctx c).frees = 0
  objects : ∀ o ∈ objectsTouched s.objs a, (s.objs.life o).frees = 0

variable {c : Nat} {o : Shared}

theorem Kept.object_of_listed (h : Kept s ls) (ho : 0 < s.objs.listed o) :
    (s.objs.life o).frees = 0 := by
  have hfrees := h.objects.frees_eq_zero_of_listed ho
  rwa [ledger_life (h.objects.known_of_listed ho)] at hfrees

theorem Kept.sessionsOf (h : Kept s ls) (ho : o ∈ sessionsOf s.objs c) :
    (s.objs.life o).frees = 0 := by
  obtain ⟨n, hn, rfl⟩ := List.mem_map.mp ho
  exact h.object_of_listed (List.count_pos_iff.mpr hn)

theorem Kept.shmsOf (h : Kept s ls) (ho : o ∈ shmsOf s.objs c) : (s.objs.life o).frees = 0 := by
  obtain ⟨x, hx, rfl⟩ := List.mem_map.mp ho
  obtain ⟨hfind, hlisted⟩ := h.tidy.findShm_of_mem hx
  have hone := listed_eq_one hfind hlisted
  exact h.object_of_listed (by omega)

end Untouched

section Runs

abbrev Requests := Config (Act Addr) Resp (World Addr) Holding

def AnyTask (k : Call (Act Addr) Resp Holding) : Prop :=
  ∃ task stack memory pointer teeVersion,
    k = ⟨begin, Task.program stack memory pointer teeVersion task⟩

abbrev Condition := World Addr → List Holding → Holding → (a : Act Addr) → Resp a → Bool

abbrev DaemonReaches (meets : Condition) (cfg : Requests) : Prop :=
  Reaches holdings AnyTask meets (init Service.noObjects) cfg

theorem kept_reaches {meets : Condition} {cfg : Requests} (hmeets : ∀ s ls l a r,
    meets s ls l a r = true → byHand s a = true) (h : DaemonReaches meets cfg) :
    Kept cfg.state cfg.locs ∧
      ∀ k ∈ cfg.calls, Safe holdings HoldPre k.loc k.prog fun _ l => Settled l := by
  refine Reaches.invariant (I := Kept) kept_init (fun s ls k hk hkept => ?_) (fun k hk => ?_)
    (fun s ls i l a r s' hkept hi hpre hstep hmeet => ?_) h
  · obtain ⟨task, stack, memory, pointer, teeVersion, rfl⟩ := hk
    exact kept_start hkept
  · obtain ⟨task, stack, memory, pointer, teeVersion, rfl⟩ := hk
    exact safe_program stack memory pointer teeVersion task
  · exact kept_act hkept hi hpre hstep (hmeets s ls l a r hmeet)

def beginTasks (tasks : List Task) : Requests :=
  ⟨init Service.noObjects, tasks.map fun task =>
    ⟨begin, task.program (stackBytes 0 0) noMemory .raw 0⟩⟩

theorem reaches_beginTasks {meets : Condition} (tasks : List Task) :
    DaemonReaches meets (beginTasks tasks) := by
  induction tasks using List.reverseRecOn with
  | nil => exact .init
  | append_singleton tasks task ih =>
    have hstart := ih.start (k := ⟨begin, task.program (stackBytes 0 0) noMemory .raw 0⟩)
      ⟨task, stackBytes 0 0, noMemory, .raw, 0, rfl⟩
    rw [beginTasks, List.map_append]
    exact hstart

def openOnThree : OpenData where
  opFlag := some false
  operation := none
  ionFds _ := 0
  optMemSize := some 0
  optMem := none
  interfaceToken := true
  context := some 3
  taPath := some none
  fdFlag := some false
  fd := 0
  uuid := some 0
  connMethod := some teecLoginIdentify

def initAndOpen (data : OpenData) : Requests :=
  beginTasks [.request ⟨1, 1, 1⟩ (.initContext true (some none)),
    .request ⟨1, 1, 1⟩ (.openSession data)]

/-- `InitializeContext`, and `OpenSession` until its session is in the list and its context
put. -/
def opened : List (Nat × Env Addr) :=
  List.replicate 18 (0, answer true 3) ++ List.replicate 14 (1, answer true 3)

def countedRefs {O : Type} (n : Ref O → Nat) (o : O) : Nat :=
  n (.init o) + n (.hold o) + n (.removed o)

/-- The count of what has not been freed is the number of references to it: one of the list, or of
the request that took it out, and one for each request that holds it.  At zero, one request has it
to itself. -/
structure Counted (s : World Addr) (ls : List Holding) : Prop where
  context : ∀ c < s.core.next, (s.core.ctx c).frees = 0 →
    (s.core.ctx c).opsCnt = s.core.contextList.count c + countedRefs (contextRefs ls) c ∧
      ((s.core.ctx c).opsCnt = 0 → contextRefs ls (.own c) + contextRefs ls (.fin c) = 1)
  object : ∀ o, s.objs.known o = true → (s.objs.life o).frees = 0 →
    (s.objs.life o).opsCnt = s.objs.listed o + countedRefs (objectRefs ls) o ∧
      ((s.objs.life o).opsCnt = 0 → objectRefs ls (.own o) + objectRefs ls (.fin o) = 1)
  freed : ∀ c < s.core.next, 0 < (s.core.ctx c).frees →
    c ∉ s.core.contextList ∧ ∀ t : Ref Nat, t.obj = c → contextRefs ls t = 0

theorem counted_of_law {x : Life} {own init listed hold removed fin : Nat}
    (h : Law x own init listed hold removed fin) (hfrees : x.frees = 0) :
    x.opsCnt = listed + (init + hold + removed) ∧ (x.opsCnt = 0 → own + fin = 1) := by
  have hcnt := h.opsCnt hfrees
  have hlive := h.live hfrees
  have hstage := h.stage
  exact ⟨by omega, fun hzero => by omega⟩

theorem Kept.counted (h : Kept s ls) : Counted s ls where
  context c hc hfrees := counted_of_law (h.contexts.law c (decide_eq_true hc)) hfrees
  object o ho hfrees := by
    have hlaw := h.objects.law o ho
    rw [ledger_life ho] at hlaw
    exact counted_of_law hlaw hfrees
  freed c hc hfrees := by
    have hdead := (h.contexts.law c (decide_eq_true hc)).dead hfrees
    have hlisted : s.core.contextList.count c = s.core.ledger.listed c := rfl
    refine ⟨fun hmem => ?_, fun t ht => ?_⟩
    · have := List.count_pos_iff.mpr hmem
      omega
    · subst ht
      cases t <;> simp only [Ref.obj] at hdead <;> omega

theorem references_of_unlost {meets : Condition} {cfg : Requests}
    (hmeets : ∀ s ls l a r, meets s ls l a r = true → byHand s a = true)
    (h : DaemonReaches meets cfg) {k : Call (Act Addr) Resp Holding} (hk : k ∈ cfg.calls)
    (hended : k.prog = .pure ()) (hunlost : k.loc.lost = false) : k.loc.contexts = [] ∧ k.loc.objects = [] := by
  obtain ⟨hkept, hsafe⟩ := kept_reaches hmeets h
  have hsettled := hsafe k hk
  rw [hended] at hsettled
  rcases hsettled with hstray | hlost | hnone
  · exact nomatch hstray.symm.trans (hkept.unstray k.loc (List.mem_map_of_mem hk))
  · exact nomatch hlost.symm.trans hunlost
  · exact hnone

end Runs

section Balance

def mallocs (l : Holding) : (a : Act Addr) → Resp a → Bool
  | .core (.mallocContext _), r => Option.isSome r
  | .obj (.mallocSession _), r => Option.isSome r
  | a, r => !mallocFails l a r

def putsBack (s : World Addr) (_ : List Holding) (l : Holding) (a : Act Addr) (r : Resp a) : Bool :=
  mallocs l a r && byHand s a && !forgets l a r

theorem mallocFails_of_mallocs {a : Act Addr} {r : Resp a} (h : mallocs l a r = true) :
    mallocFails l a r = false := by
  cases a with
  | obj a => rfl
  | core a =>
    cases a
    case outcome => simpa [mallocs] using h
    all_goals rfl

theorem unlost_reaches {cfg : Requests} (h : DaemonReaches putsBack cfg) :
    ∀ k ∈ cfg.calls, k.loc.lost = false := by
  induction h with
  | init => exact List.forall_mem_nil _
  | start h hk ih =>
    obtain ⟨task, stack, memory, pointer, teeVersion, rfl⟩ := hk
    exact List.forall_mem_append.mpr ⟨ih, by simp [begin]⟩
  | @act cfg i l a k r s' h hi hstep hmeets ih =>
    intro k hk
    rcases List.mem_or_eq_of_mem_set hk with hk | rfl
    · exact ih k hk
    · have hbefore : l.lost = false := ih _ (List.mem_of_getElem? hi)
      simp only [putsBack, Bool.and_eq_true, Bool.not_eq_true'] at hmeets
      simp only [holdings, hbefore, mallocFails_of_mallocs hmeets.1.1, hmeets.2, Bool.or_self]

structure AtRest (s : World Addr) : Prop where
  context : ∀ c ∈ s.core.contextList, (s.core.ctx c).opsCnt = 1
  contextFreed : ∀ c < s.core.next, c ∉ s.core.contextList → (s.core.ctx c).frees = 1
  session : ∀ c, ∀ n ∈ s.objs.sessionList c, (s.objs.session n).opsCnt = 1
  sessionFreed : ∀ n < s.objs.nextSession, n ∉ s.objs.sessionList (s.objs.session n).home →
    (s.objs.session n).frees = 1
  shm : ∀ c, ∀ x ∈ (s.objs.shm c).shrdMemList, x.opsCnt = 1
  shmFreed : ∀ c, ∀ b < (s.objs.shm c).nextId, (∀ x ∈ (s.objs.shm c).shrdMemList, x.id ≠ b) →
    (s.objs.shmFate c b).frees = 1

structure SameCounts (s s' : World Addr) : Prop where
  context : ∀ c ∈ s.core.contextList, c ∈ s'.core.contextList →
    (s'.core.ctx c).opsCnt = (s.core.ctx c).opsCnt
  session : ∀ c, ∀ n ∈ s.objs.sessionList c, n ∈ s'.objs.sessionList c →
    (s'.objs.session n).opsCnt = (s.objs.session n).opsCnt
  shm : ∀ c, ∀ x ∈ (s.objs.shm c).shrdMemList, ∀ x' ∈ (s'.objs.shm c).shrdMemList, x'.id = x.id →
    x'.opsCnt = x.opsCnt

theorem sameCounts_of_kept {ls' : List Holding} (h : Kept s ls) (h' : Kept s' ls')
    (hcontexts : contextRefs ls' = contextRefs ls) (hobjects : objectRefs ls' = objectRefs ls) :
    SameCounts s s' := by
  have hctx := hcontexts ▸ h'.contexts
  have hobj := hobjects ▸ h'.objects
  have hshared {o : Shared} (ho : 0 < s.objs.listed o) (ho' : 0 < s'.objs.listed o) :
      (s'.objs.life o).opsCnt = (s.objs.life o).opsCnt := by
    have hsame := h.objects.same_opsCnt hobj ho ho'
    rwa [ledger_life (h.objects.known_of_listed ho),
      ledger_life (h'.objects.known_of_listed ho')] at hsame
  refine ⟨fun c hc hc' => ?_, fun c n hn hn' => ?_, fun c x hx x' hx' hid => ?_⟩
  · exact h.contexts.same_opsCnt hctx (List.count_pos_iff.mpr hc) (List.count_pos_iff.mpr hc')
  · exact hshared (o := .session c n) (List.count_pos_iff.mpr hn) (List.count_pos_iff.mpr hn')
  · obtain ⟨hfind, hlisted⟩ := h.tidy.findShm_of_mem hx
    obtain ⟨hfind', hlisted'⟩ := h'.tidy.findShm_of_mem hx'
    rw [hid] at hfind'
    have hone := listed_eq_one hfind hlisted
    have hone' := listed_eq_one hfind' hlisted'
    have hsame := hshared (o := .shm c x.id) (by omega) (by omega)
    simpa [Objects.life, lifeOf, hfind, hfind'] using hsame

theorem atRest_of_kept (h : Kept s ls) (hcontexts : ∀ l ∈ ls, l.contexts = [])
    (hobjects : ∀ l ∈ ls, l.objects = []) : AtRest s := by
  have hctx (t : Ref Nat) : contextRefs ls t = 0 := by
    by_contra hne
    obtain ⟨l, hl, ht⟩ := contextRefs_pos.mp (Nat.pos_of_ne_zero hne)
    rw [hcontexts l hl] at ht
    cases ht
  have hobj (t : Ref Shared) : objectRefs ls t = 0 := by
    by_contra hne
    obtain ⟨l, hl, ht⟩ := objectRefs_pos.mp (Nat.pos_of_ne_zero hne)
    rw [hobjects l hl] at ht
    cases ht
  have hone {o : Shared} (ho : 0 < s.objs.listed o) : (s.objs.life o).opsCnt = 1 := by
    have hcnt := h.objects.opsCnt_eq_one (fun t _ => hobj t) ho
    rwa [ledger_life (h.objects.known_of_listed ho)] at hcnt
  have hfreed {o : Shared} (hknown : s.objs.known o = true) (ho : s.objs.listed o = 0) :
      (s.objs.life o).frees = 1 := by
    have hfrees := h.objects.frees_eq_one (fun t _ => hobj t) hknown ho
    rwa [ledger_life hknown] at hfrees
  refine ⟨fun c hc => ?_, fun c hc hout => ?_, fun c n hn => ?_, fun n hn hout => ?_,
    fun c x hx => ?_, fun c b hb hout => ?_⟩
  · exact h.contexts.opsCnt_eq_one (fun t _ => hctx t) (List.count_pos_iff.mpr hc)
  · exact h.contexts.frees_eq_one (fun t _ => hctx t) (decide_eq_true hc)
      (List.count_eq_zero.mpr hout)
  · exact hone (o := .session c n) (List.count_pos_iff.mpr hn)
  · exact hfreed (o := .session (s.objs.session n).home n) (by simp [Objects.known, hn])
      (List.count_eq_zero.mpr hout)
  · obtain ⟨hfind, hlisted⟩ := h.tidy.findShm_of_mem hx
    have hlist := listed_eq_one hfind hlisted
    have hcnt := hone (o := .shm c x.id) (by omega)
    simpa [Objects.life, lifeOf, hfind] using hcnt
  · refine hfreed (o := .shm c b) (decide_eq_true hb) ?_
    by_contra hlisted
    obtain ⟨x, hfind, hx⟩ := findShm_of_listed (Nat.pos_of_ne_zero hlisted)
    have hmem : x ∈ (s.objs.shm c).shrdMemList :=
      List.mem_filter.mpr ⟨List.mem_of_find?_eq_some hfind, hx⟩
    exact hout x hmem (findShm_id hfind)

/-- Requests put back what they take: one that has ended has no references, one that runs alone
leaves the counts of the objects that stay in their lists as they were, and where no request is
in flight, an object that is taken out of its list is freed. -/
structure PutBack (meets : Condition) (cfg : Requests) : Prop where
  references : ∀ k ∈ cfg.calls, k.prog = .pure () → k.loc.contexts = [] ∧ k.loc.objects = []
  counts : ∀ k s' l', AnyTask k →
    Runs (holdings.alone meets cfg.locs) (cfg.state, k.loc) k.prog () (s', l') →
    SameCounts cfg.state s'
  quiet : cfg.Quiet → AtRest cfg.state
  later : cfg.Quiet → ∀ k s' l', AnyTask k →
    Runs (holdings.alone meets cfg.locs) (cfg.state, k.loc) k.prog () (s', l') → AtRest s'

theorem byHand_of_putsBack {a : Act Addr} {r : Resp a} (h : putsBack s ls l a r = true) :
    byHand s a = true :=
  (Bool.and_eq_true_iff.mp (Bool.and_eq_true_iff.mp h).1).2

variable {cfg : Requests}

theorem references_reaches (h : DaemonReaches putsBack cfg) :
    ∀ k ∈ cfg.calls, k.prog = .pure () → k.loc.contexts = [] ∧ k.loc.objects = [] := by
  intro k hk hended
  exact references_of_unlost (fun _ _ _ _ _ => byHand_of_putsBack) h hk hended
    (unlost_reaches h k hk)

theorem atRest_reaches (h : DaemonReaches putsBack cfg) (hquiet : cfg.Quiet) :
    AtRest cfg.state := by
  have hrefs := references_reaches h
  obtain ⟨hkept, -⟩ := kept_reaches (fun _ _ _ _ _ => byHand_of_putsBack) h
  refine atRest_of_kept hkept (fun l hl => ?_) fun l hl => ?_
  · obtain ⟨k, hk, rfl⟩ := List.mem_map.mp hl
    exact (hrefs k hk (hquiet k hk)).1
  · obtain ⟨k, hk, rfl⟩ := List.mem_map.mp hl
    exact (hrefs k hk (hquiet k hk)).2

/-- In every run without the branches that forget a reference, every request puts back what it
takes. -/
theorem putBack_reaches (cfg : Requests) (h : DaemonReaches putsBack cfg) :
    PutBack putsBack cfg := by
  refine ⟨references_reaches h, fun k s' l' hk hrun => ?_, atRest_reaches h,
    fun hquiet k s' l' hk hrun => ?_⟩
  · have hafter := h.alone hk hrun
    obtain ⟨hkept, -⟩ := kept_reaches (fun _ _ _ _ _ => byHand_of_putsBack) h
    obtain ⟨hkept', -⟩ := kept_reaches (fun _ _ _ _ _ => byHand_of_putsBack) hafter
    obtain ⟨hcontexts, hobjects⟩ : l'.contexts = [] ∧ l'.objects = [] :=
      references_reaches hafter _ (List.mem_append_right _ List.mem_cons_self) rfl
    refine sameCounts_of_kept hkept hkept' ?_ ?_
    · simp [contextRefs, Config.locs, hcontexts]
    · simp [objectRefs, Config.locs, hobjects]
  · refine atRest_reaches (h.alone hk hrun) fun k' hk' => ?_
    rcases List.mem_append.mp hk' with hk' | hk'
    · exact hquiet k' hk'
    · rw [List.mem_singleton.mp hk']

def initialized : List (Nat × Env Addr) := List.replicate 18 (0, answer true 3)

def quietly (cfg : Requests) : Bool :=
  cfg.calls.all fun k => match k.prog with
    | .pure _ => true
    | .act _ _ => false

theorem quiet_of_quietly (h : quietly cfg = true) : cfg.Quiet := by
  intro k hk
  have hended := List.all_eq_true.mp h k hk
  obtain ⟨l, p⟩ := k
  cases p with
  | pure x => rfl
  | act a k => cases hended

def mapping (p : BitVec 64) (hp : Addr.raw p ≠ 0) : Env Addr :=
  { answer true 3 with buffer := some ⟨.raw p, hp⟩ }

def sharedBlock (buffer : BitVec 64) (isAllocated : Bool) : ShmData where
  buffer
  size := 16
  flags := memSharedInout
  opsCnt := 0
  isAllocated

def twoRecords (k : Nat) : BitVec 8 :=
  if k = 0 ∨ k = 25 ∨ k = 34 then 1
  else if k = 1 ∨ k = 26 then 3
  else if k = 13 ∨ k = 38 then 16
  else 0

def onBlocks (paramTypes optMemSize : U32) : OperationData where
  opFlag := some true
  operation := some {
    started := 1
    paramTypes
    params := fun _ => { word := 0, size := 8, offset := 0 }
    cancelFlag := false }
  ionFds _ := 0
  optMemSize := some optMemSize
  optMem := some { maps := true, data := some twoRecords }

/-- `OpenSession` with the first block, `InvokeCommand` with both, `CloseSession` and the release
of the second block. -/
def withBlocks : Requests :=
  beginTasks [.request ⟨1, 1, 1⟩ (.initContext true (some none)),
    .request ⟨1, 1, 1⟩ (.allocMem true (some 3) (some (sharedBlock 0 false))),
    .request ⟨1, 1, 1⟩ (.allocMem true (some 3) (some (sharedBlock 0 false))),
    .request ⟨1, 1, 1⟩ (.openSession { openOnThree with toOperationData := onBlocks 0xf 25 }),
    .request ⟨1, 1, 1⟩ (.invokeCommand {
      toOperationData := onBlocks 0xff 50
      interfaceToken := true
      context := some 3
      session := some 0
      commandID := some 7 }),
    .request ⟨1, 1, 1⟩ (.closeSession true (some 3) (some 0)),
    .request ⟨1, 1, 1⟩ (.releaseMem true (some 3) (some (sharedBlock 8192 true)) (some 1))]

def closedMeanwhile : List (Nat × Env Addr) :=
  initialized ++ List.replicate 19 (1, mapping 4096 (by decide)) ++
    List.replicate 19 (2, mapping 8192 (by decide)) ++ List.replicate 25 (3, answer true 3) ++
    List.replicate 12 (4, answer true 3) ++ List.replicate 14 (5, answer true 3) ++
    List.replicate 9 (6, answer true 3) ++ List.replicate 13 (4, answer true 3)

theorem putBack_closedMeanwhile : ∃ cfg, DaemonReaches putsBack cfg ∧ cfg.Quiet ∧
    cfg.state.core.contextList = [0] ∧ cfg.state.objs.sessionList 0 = [] ∧
    (cfg.state.objs.shm 0).shrdMemList.map (·.id) = [0] ∧ PutBack putsBack cfg := by
  have hrun : (replay holdings putsBack closedMeanwhile withBlocks).map (fun cfg =>
      (quietly cfg, cfg.state.core.contextList, cfg.state.objs.sessionList 0,
        (cfg.state.objs.shm 0).shrdMemList.map (·.id))) = some (true, [0], [], [0]) := by
    rfl
  obtain ⟨cfg, hreplay, hend⟩ := Option.map_eq_some_iff.mp hrun
  obtain ⟨hquiet, hend⟩ := Prod.mk.inj hend
  obtain ⟨hcontexts, hend⟩ := Prod.mk.inj hend
  obtain ⟨hsessions, hshms⟩ := Prod.mk.inj hend
  have hreach := (reaches_beginTasks _).replay closedMeanwhile hreplay
  exact ⟨cfg, hreach, quiet_of_quietly hquiet, hcontexts, hsessions, hshms,
    putBack_reaches cfg hreach⟩

def tooLarge : OpenData :=
  { openOnThree with
    opFlag := some true
    operation := some {
      started := 0
      paramTypes := 0x5
      params := fun _ => { word := 0, size := 16, offset := 0 }
      cancelFlag := false }
    optMemSize := some 8
    optMem := some { maps := true, data := some fun _ => 0 } }

/-- `InitializeContext`, and `OpenSession` up to its end, which does not put the context. -/
def leaking : List (Nat × Env Addr) := initialized ++ List.replicate 6 (1, answer true 3)

theorem not_putBack_leaking : ¬ ∀ cfg : Requests,
    DaemonReaches (fun _ _ l a r => mallocs l a r) cfg →
    PutBack (fun _ _ l a r => mallocs l a r) cfg := by
  intro hall
  have hrun : (replay holdings (fun _ _ l a r => mallocs l a r) leaking (initAndOpen tooLarge)).map
      (fun cfg => (quietly cfg, cfg.state.core.contextList, (cfg.state.core.ctx 0).opsCnt)) =
      some (true, [0], 2) := by
    rfl
  obtain ⟨cfg, hreplay, hend⟩ := Option.map_eq_some_iff.mp hrun
  obtain ⟨hquiet, hend⟩ := Prod.mk.inj hend
  obtain ⟨hlist, hcnt⟩ := Prod.mk.inj hend
  have hput := hall cfg ((reaches_beginTasks _).replay leaking hreplay)
  have hone := (hput.quiet (quiet_of_quietly hquiet)).context 0 (hlist ▸ List.mem_cons_self)
  omega

end Balance

end TeeClient.Daemon.Lifetimes
