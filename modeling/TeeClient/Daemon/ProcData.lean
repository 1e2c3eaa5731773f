import Mathlib.Tactic
import TeeClient.Daemon.ServiceLaws

/-! `g_teecProcDataList` between requests: whatever the processes ask for, one request after
another, its slots record the open descriptors of their contexts, each of them once. -/

namespace TeeClient.Daemon.Service

open Vendor Vendor.Api Stub
open Resumption

def recorded (e : DaemonProcdata) : List Int := e.cxtFd.filter (· ≠ -1)

/-- `fd` is open for the context `c`, which has it and is not finalised. -/
structure LiveFd (s : Core) (fd : Int) (c : Nat) : Prop where
  isOpen : (fd, c) ∈ s.openFds
  has : (s.ctx c).fd = fd
  unfinalized : (s.ctx c).finalized = 0

structure TableOk (s : Core) : Prop where
  onePerPid : (s.procData.map (·.callerIdentity.pid)).Nodup
  slots : ∀ e ∈ s.procData, 0 < (recorded e).length ∧ (recorded e).length ≤ maxCxtcntOneca
  oneSlot : (s.procData.flatMap recorded).Nodup
  live : ∀ e ∈ s.procData, ∀ fd ∈ recorded e,
    ∃ c, LiveFd s fd c ∧ (s.ctx c).owner.pid = e.callerIdentity.pid
  reusable : ∀ fd, fd ∉ s.openFds.map (·.1) → fd ∉ s.procData.flatMap recorded

section Slots

theorem mem_recorded {e : DaemonProcdata} {fd : Int} :
    fd ∈ recorded e ↔ fd ∈ e.cxtFd ∧ fd ≠ -1 := by simp [recorded]

theorem setSlot_spec {fd : Int} {xs ys : List Int} (hfd : fd ≠ -1)
    (h : Core.setSlot fd xs = some ys) :
    ys.length = xs.length ∧ (ys.filter (· ≠ -1)).Perm (fd :: xs.filter (· ≠ -1)) := by
  induction xs generalizing ys with
  | nil => cases h
  | cons x xs ih =>
    rw [Core.setSlot] at h
    by_cases hx : x = -1
    · rw [if_pos hx] at h
      obtain rfl := Option.some.inj h
      simp [hx, hfd]
    · rw [if_neg hx] at h
      obtain ⟨zs, hzs, rfl⟩ := Option.map_eq_some_iff.mp h
      obtain ⟨hlen, hperm⟩ := ih hzs
      refine ⟨by simp [hlen], ?_⟩
      have hcons : ∀ zs : List Int, (x :: zs).filter (· ≠ -1) = x :: zs.filter (· ≠ -1) :=
        fun zs => List.filter_cons_of_pos (by simpa using hx)
      rw [hcons, hcons]
      exact (hperm.cons x).trans (List.Perm.swap fd x _)

theorem length_clearSlot (fd : Int) (xs : List Int) : (Core.clearSlot fd xs).length = xs.length := by
  induction xs with
  | nil => rfl
  | cons x xs ih =>
    rw [Core.clearSlot]
    by_cases hx : x = fd
    · simp [hx]
    · simp [hx, ih]

theorem filter_clearSlot (fd : Int) (xs : List Int) :
    (Core.clearSlot fd xs).filter (· ≠ -1) = (xs.filter (· ≠ -1)).erase fd := by
  induction xs with
  | nil => rfl
  | cons x xs ih =>
    rw [Core.clearSlot]
    by_cases hx1 : x = -1
    · have htail : (x :: xs).filter (· ≠ -1) = xs.filter (· ≠ -1) :=
        List.filter_cons_of_neg (by simpa using hx1)
      rw [htail]
      by_cases hx : x = fd
      · have hfree : fd ∉ xs.filter (· ≠ -1) := by simp [← hx, hx1]
        rw [if_pos hx, List.filter_cons_of_neg (by simp), List.erase_of_not_mem hfree]
      · rw [if_neg hx, List.filter_cons_of_neg (by simpa using hx1), ih]
    · by_cases hx : x = fd
      · subst hx
        rw [if_pos rfl, List.filter_cons_of_neg (by simp),
          List.filter_cons_of_pos (by simpa using hx1), List.erase_cons_head]
      · rw [if_neg hx, List.filter_cons_of_pos (by simpa using hx1), ih,
          List.filter_cons_of_pos (by simpa using hx1), List.erase_cons_tail (by simpa using hx)]

variable {pid : Int} {f : DaemonProcdata → Option DaemonProcdata} {es : List DaemonProcdata}
variable {e : DaemonProcdata}

theorem pids_updateProcData
    (hf : ∀ e e', f e = some e' → e'.callerIdentity.pid = e.callerIdentity.pid) :
    ((Core.updateProcData pid f es).map (·.callerIdentity.pid)).Sublist
      (es.map (·.callerIdentity.pid)) := by
  induction es with
  | nil => exact List.Sublist.refl _
  | cons e es ih =>
    rw [Core.updateProcData]
    by_cases he : e.callerIdentity.pid = pid
    · rw [if_pos he]
      cases hfe : f e with
      | none => exact List.sublist_cons_self _ _
      | some e' =>
        simp only [Option.elim_some, List.map_cons, hf e e' hfe]
        exact List.Sublist.refl _
    · rw [if_neg he]
      exact ih.cons_cons _

theorem mem_updateProcData (hpids : (es.map (·.callerIdentity.pid)).Nodup)
    (h : e ∈ Core.updateProcData pid f es) :
    (e ∈ es ∧ e.callerIdentity.pid ≠ pid) ∨
      ∃ e' ∈ es, e'.callerIdentity.pid = pid ∧ f e' = some e := by
  induction es with
  | nil => cases h
  | cons d es ih =>
    rw [List.map_cons, List.nodup_cons] at hpids
    rw [Core.updateProcData] at h
    by_cases hd : d.callerIdentity.pid = pid
    · rw [if_pos hd] at h
      have htail : e ∈ es → e ∈ d :: es ∧ e.callerIdentity.pid ≠ pid := fun he =>
        ⟨List.mem_cons_of_mem _ he, fun hpid =>
          hpids.1 (hd ▸ hpid ▸ List.mem_map_of_mem he)⟩
      cases hfd : f d with
      | none =>
        rw [hfd] at h
        exact .inl (htail h)
      | some d' =>
        rw [hfd] at h
        rcases List.mem_cons.mp h with rfl | h
        · exact .inr ⟨d, List.mem_cons_self, hd, hfd⟩
        · exact .inl (htail h)
    · rw [if_neg hd] at h
      rcases List.mem_cons.mp h with rfl | h
      · exact .inl ⟨List.mem_cons_self, hd⟩
      · rcases ih hpids.2 h with ⟨he, hne⟩ | ⟨e', he', hpid, hfe⟩
        · exact .inl ⟨List.mem_cons_of_mem _ he, hne⟩
        · exact .inr ⟨e', List.mem_cons_of_mem _ he', hpid, hfe⟩

theorem mem_of_getProcdataByPid {s : Core} (h : s.getProcdataByPid pid = some e) :
    e ∈ s.procData ∧ e.callerIdentity.pid = pid :=
  ⟨List.mem_of_find?_eq_some h, by simpa using List.find?_some h⟩

theorem recorded_of_isValidContext {s : Core} {fd : Int} {identity : CallerIdentity}
    (h : s.isValidContext fd identity = true) :
    ∃ e ∈ s.procData, e.callerIdentity = identity ∧ fd ∈ recorded e := by
  rw [Core.isValidContext] at h
  by_cases hneg : fd < 0
  · rw [if_pos hneg] at h
    cases h
  · rw [if_neg hneg] at h
    cases hget : s.getProcdataByPid identity.pid with
    | none =>
      rw [hget] at h
      cases h
    | some e =>
      rw [hget] at h
      have hmem : e.callerIdentity = identity ∧ fd ∈ e.cxtFd := by simpa using h
      exact ⟨e, (mem_of_getProcdataByPid hget).1, hmem.1, mem_recorded.mpr ⟨hmem.2, by omega⟩⟩

/-- What a descriptor that is recorded does to the table: it has a new entry, or one of the
slots of the entry of its process. -/
theorem setContextToProcData_spec {s : Core} {fd : Int} (malloc : Bool) (identity : CallerIdentity)
    (hfd : fd ≠ -1) (hpids : (s.procData.map (·.callerIdentity.pid)).Nodup) :
    ((s.setContextToProcData malloc identity fd).2.procData.map (·.callerIdentity.pid)).Nodup ∧
      ∀ e ∈ (s.setContextToProcData malloc identity fd).2.procData, e ∈ s.procData ∨
        e.callerIdentity = identity ∧
          (e.cxtFd.length = maxCxtcntOneca ∧ recorded e = [fd] ∨
            ∃ e₀ ∈ s.procData, e₀.callerIdentity = identity ∧ e.cxtFd.length = e₀.cxtFd.length ∧
              (recorded e).Perm (fd :: recorded e₀)) := by
  rw [Core.setContextToProcData]
  cases hget : s.getProcdataByPid identity.pid with
  | none =>
    simp only
    by_cases hm : malloc = true
    · rw [if_pos hm]
      have hno : ∀ e ∈ s.procData, e.callerIdentity.pid ≠ identity.pid := by
        simpa [Core.getProcdataByPid] using hget
      refine ⟨?_, fun e he => ?_⟩
      · rw [List.map_append]
        refine List.nodup_append'.mpr ⟨hpids, List.nodup_singleton _, ?_⟩
        refine List.disjoint_singleton.mpr fun hmem => ?_
        obtain ⟨e, he, hpid⟩ := List.mem_map.mp hmem
        exact hno e he hpid
      · rcases List.mem_append.mp he with he | he
        · exact .inl he
        · obtain rfl := List.mem_singleton.mp he
          exact .inr ⟨rfl, .inl ⟨by simp [maxCxtcntOneca], by simp [recorded, hfd]⟩⟩
    · rw [if_neg hm]
      exact ⟨hpids, fun _ he => .inl he⟩
  | some e₀ =>
    simp only
    by_cases hid : e₀.callerIdentity = identity
    · rw [if_pos hid]
      cases hset : Core.setSlot fd e₀.cxtFd with
      | none => exact ⟨hpids, fun _ he => .inl he⟩
      | some cxtFd =>
        obtain ⟨he₀, hpid₀⟩ := mem_of_getProcdataByPid hget
        obtain ⟨hlen, hperm⟩ := setSlot_spec hfd hset
        refine ⟨hpids.sublist (pids_updateProcData fun e e' heq => ?_), fun e he => ?_⟩
        · obtain rfl := Option.some.inj heq
          rfl
        · rcases mem_updateProcData hpids he with ⟨he, -⟩ | ⟨e', he', hpid, heq⟩
          · exact .inl he
          · obtain rfl := Option.some.inj heq
            obtain rfl : e' = e₀ := List.inj_on_of_nodup_map hpids he' he₀ (hpid.trans hpid₀.symm)
            exact .inr ⟨hid, .inr ⟨e', he', hid, hlen, hperm⟩⟩
    · rw [if_neg hid]
      exact ⟨hpids, fun _ he => .inl he⟩

theorem releaseProcData_spec {s : Core} (pid fd : Int)
    (hpids : (s.procData.map (·.callerIdentity.pid)).Nodup) :
    ((s.releaseProcData pid fd).procData.map (·.callerIdentity.pid)).Nodup ∧
      ∀ e ∈ (s.releaseProcData pid fd).procData,
        e ∈ s.procData ∧ e.callerIdentity.pid ≠ pid ∨ ∃ e₀ ∈ s.procData,
          e₀.callerIdentity.pid = pid ∧ e.callerIdentity = e₀.callerIdentity ∧
            e.cxtFd.length = e₀.cxtFd.length ∧ recorded e ≠ [] ∧
            recorded e = (recorded e₀).erase fd := by
  have hrel (e e' : DaemonProcdata) (h : (if (Core.clearSlot fd e.cxtFd).all (· = -1) then none
      else some { e with cxtFd := Core.clearSlot fd e.cxtFd }) = some e') :
      e' = { e with cxtFd := Core.clearSlot fd e.cxtFd } ∧ recorded e' ≠ [] := by
    by_cases hall : (Core.clearSlot fd e.cxtFd).all (· = -1) = true
    · rw [if_pos hall] at h
      cases h
    · rw [if_neg hall] at h
      obtain rfl := Option.some.inj h
      refine ⟨rfl, fun hnil => hall ?_⟩
      rw [List.all_eq_true]
      intro x hx
      by_contra hx1
      have : x ∈ ([] : List Int) := hnil ▸ mem_recorded.mpr ⟨hx, by simpa using hx1⟩
      cases this
  refine ⟨hpids.sublist (pids_updateProcData fun e e' h => ?_), fun e he => ?_⟩
  · rw [(hrel e e' h).1]
  · rcases mem_updateProcData hpids he with hkeep | ⟨e₀, he₀, hpid, h⟩
    · exact .inl hkeep
    · obtain ⟨rfl, hne⟩ := hrel e₀ e h
      exact .inr ⟨e₀, he₀, hpid, rfl, length_clearSlot _ _, hne, filter_clearSlot _ _⟩

variable {e' : DaemonProcdata} {fd : Int} {s : Core}

theorem mem_updateProcData_of_ne (h : e ∈ es) (hne : e.callerIdentity.pid ≠ pid) :
    e ∈ Core.updateProcData pid f es := by
  induction es with
  | nil => cases h
  | cons d es ih =>
    rw [Core.updateProcData]
    rcases List.mem_cons.mp h with rfl | h
    · rw [if_neg hne]
      exact List.mem_cons_self
    · split_ifs
      · cases f d with
        | none => exact h
        | some d' => exact List.mem_cons_of_mem _ h
      · exact List.mem_cons_of_mem _ (ih h)

theorem mem_updateProcData_of_eq (hpids : (es.map (·.callerIdentity.pid)).Nodup) (h : e ∈ es)
    (hpid : e.callerIdentity.pid = pid) (hf : f e = some e') :
    e' ∈ Core.updateProcData pid f es := by
  induction es with
  | nil => cases h
  | cons d es ih =>
    rw [List.map_cons, List.nodup_cons] at hpids
    rw [Core.updateProcData]
    rcases List.mem_cons.mp h with rfl | h
    · rw [if_pos hpid, hf]
      exact List.mem_cons_self
    · have hne : d.callerIdentity.pid ≠ pid := fun hd =>
        hpids.1 (hd ▸ hpid ▸ List.mem_map_of_mem h)
      rw [if_neg hne]
      exact List.mem_cons_of_mem _ (ih hpids.2 h)

theorem getProcdataByPid_of_mem (hpids : (s.procData.map (·.callerIdentity.pid)).Nodup)
    (h : e ∈ s.procData) : s.getProcdataByPid e.callerIdentity.pid = some e := by
  cases hget : s.getProcdataByPid e.callerIdentity.pid with
  | none =>
    have hno := List.find?_eq_none.mp hget e h
    simp at hno
  | some d =>
    obtain ⟨hd, hpid⟩ := mem_of_getProcdataByPid hget
    rw [List.inj_on_of_nodup_map hpids hd h hpid]

theorem setContextToProcData_false {malloc : Bool} {identity : CallerIdentity}
    (h : (s.setContextToProcData malloc identity fd).1 = false) :
    (s.setContextToProcData malloc identity fd).2 = s := by
  rw [Core.setContextToProcData] at h ⊢
  cases hget : s.getProcdataByPid identity.pid with
  | none =>
    simp only [hget] at h ⊢
    split_ifs at h ⊢
    rfl
  | some e =>
    simp only [hget] at h ⊢
    split_ifs at h ⊢
    · cases hset : Core.setSlot fd e.cxtFd with
      | none => rfl
      | some cxtFd =>
        rw [hset] at h
        cases h
    · rfl

/-- What was recorded still is when a descriptor is recorded. -/
theorem recorded_setContextToProcData {malloc : Bool} {identity : CallerIdentity} (hfd : fd ≠ -1)
    (hpids : (s.procData.map (·.callerIdentity.pid)).Nodup)
    (h : (s.setContextToProcData malloc identity fd).1 = true) :
    (∃ e ∈ (s.setContextToProcData malloc identity fd).2.procData, fd ∈ recorded e) ∧
      ∀ e ∈ s.procData, ∀ x ∈ recorded e,
        ∃ e' ∈ (s.setContextToProcData malloc identity fd).2.procData, x ∈ recorded e' := by
  rw [Core.setContextToProcData] at h ⊢
  cases hget : s.getProcdataByPid identity.pid with
  | none =>
    simp only [hget] at h ⊢
    split_ifs at h ⊢
    refine ⟨⟨_, List.mem_append_right _ List.mem_cons_self, ?_⟩, fun e he x hx =>
      ⟨e, List.mem_append_left _ he, hx⟩⟩
    simp [recorded, hfd]
  | some e =>
    simp only [hget] at h ⊢
    split_ifs at h ⊢
    cases hset : Core.setSlot fd e.cxtFd with
    | none =>
      rw [hset] at h
      cases h
    | some cxtFd =>
      obtain ⟨he, hpid⟩ := mem_of_getProcdataByPid hget
      obtain ⟨-, hperm⟩ := setSlot_spec hfd hset
      have hnew : { e with cxtFd } ∈ Core.updateProcData identity.pid
          (fun e => some { e with cxtFd }) s.procData := mem_updateProcData_of_eq hpids he hpid rfl
      refine ⟨⟨_, hnew, hperm.mem_iff.mpr List.mem_cons_self⟩, fun d hd x hx => ?_⟩
      by_cases hdpid : d.callerIdentity.pid = identity.pid
      · obtain rfl := List.inj_on_of_nodup_map hpids hd he (hdpid.trans hpid.symm)
        exact ⟨_, hnew, hperm.mem_iff.mpr (List.mem_cons_of_mem _ hx)⟩
      · exact ⟨d, mem_updateProcData_of_ne hd hdpid, hx⟩

theorem recorded_releaseProcData {x : Int} (hpids : (s.procData.map (·.callerIdentity.pid)).Nodup)
    (he : e ∈ s.procData) (hx : x ∈ recorded e) (hne : e.callerIdentity.pid = pid → x ≠ fd) :
    ∃ e' ∈ (s.releaseProcData pid fd).procData,
      e'.callerIdentity.pid = e.callerIdentity.pid ∧ x ∈ recorded e' := by
  by_cases hpid : e.callerIdentity.pid = pid
  · have hleft : x ∈ recorded { e with cxtFd := Core.clearSlot fd e.cxtFd } := by
      have hfilter := filter_clearSlot fd e.cxtFd
      rw [recorded, hfilter]
      exact (List.mem_erase_of_ne (hne hpid)).mpr hx
    refine ⟨_, mem_updateProcData_of_eq hpids he hpid (if_neg fun hall => ?_), rfl, hleft⟩
    obtain ⟨hmem, hx1⟩ := mem_recorded.mp hleft
    exact hx1 (of_decide_eq_true (List.all_eq_true.mp hall x hmem))
  · exact ⟨e, mem_updateProcData_of_ne he hpid, rfl, hx⟩

theorem recorded_takeProcData {x : Int} (hpids : (s.procData.map (·.callerIdentity.pid)).Nodup)
    (he : e ∈ s.procData) (hx : x ∈ recorded e) :
    x ∈ Option.elim (s.takeProcData pid).1 [] recorded ∨ e ∈ (s.takeProcData pid).2.procData := by
  by_cases hpid : e.callerIdentity.pid = pid
  · subst hpid
    rw [Core.takeProcData, getProcdataByPid_of_mem hpids he]
    exact .inl hx
  · exact .inr (mem_updateProcData_of_ne he hpid)

end Slots

structure TableInv (s : Core) : Prop where
  keys : (s.openFds.map (·.1)).Nodup
  opened : ∀ p ∈ s.openFds, 0 ≤ p.1 ∧ p.2 < s.next
  single : s.contextList.Nodup
  listed : ∀ c ∈ s.contextList, LiveFd s (s.ctx c).fd c ∧ 0 < (s.ctx c).opsCnt
  pids : (s.procData.map (·.callerIdentity.pid)).Nodup
  slots : ∀ e ∈ s.procData,
    e.cxtFd.length = maxCxtcntOneca ∧ recorded e ≠ [] ∧ (recorded e).Nodup
  live : ∀ e ∈ s.procData, ∀ fd ∈ recorded e,
    ∃ c, LiveFd s fd c ∧ (s.ctx c).owner.pid = e.callerIdentity.pid

def Unrecorded (es : List DaemonProcdata) (fd : Int) : Prop := ∀ e ∈ es, fd ∉ recorded e

namespace TableInv

variable {s s' : Core} {c d : Nat} {fd : Int} {pid : Int}

theorem unique (h : TableInv s) (hc : (fd, c) ∈ s.openFds) (hd : (fd, d) ∈ s.openFds) : c = d := by
  have := List.inj_on_of_nodup_map h.keys hc hd rfl
  exact congrArg Prod.snd this

theorem pid_eq {e e' : DaemonProcdata} (h : TableInv s) (he : e ∈ s.procData)
    (he' : e' ∈ s.procData) (hfd : fd ∈ recorded e) (hfd' : fd ∈ recorded e') :
    e.callerIdentity.pid = e'.callerIdentity.pid := by
  obtain ⟨c, hc, howner⟩ := h.live e he fd hfd
  obtain ⟨c', hc', howner'⟩ := h.live e' he' fd hfd'
  obtain rfl := h.unique hc.isOpen hc'.isOpen
  exact howner.symm.trans howner'

theorem tableOk (h : TableInv s) : TableOk s := by
  refine ⟨h.pids, fun e he => ?_, ?_, h.live, fun fd hfd hmem => ?_⟩
  · obtain ⟨hlen, hne, -⟩ := h.slots e he
    exact ⟨List.length_pos_iff.mpr hne, hlen ▸ List.length_filter_le _ _⟩
  · refine List.nodup_flatMap.mpr ⟨fun e he => (h.slots e he).2.2, ?_⟩
    have hpids := List.pairwise_map.mp h.pids
    exact hpids.imp_of_mem fun he he' hne fd hfd hfd' => hne (h.pid_eq he he' hfd hfd')
  · obtain ⟨e, he, hfde⟩ := List.mem_flatMap.mp hmem
    obtain ⟨c, hc, -⟩ := h.live e he fd hfde
    exact hfd (List.mem_map_of_mem hc.isOpen)

theorem mono (h : TableInv s) (hkeys : (s'.openFds.map (·.1)).Nodup)
    (hopened : ∀ p ∈ s'.openFds, 0 ≤ p.1 ∧ p.2 < s'.next)
    (hlist : s'.contextList.Sublist s.contextList) (hproc : s'.procData = s.procData)
    (hlive : ∀ fd c, LiveFd s fd c → c ∈ s'.contextList ∨ ¬ Unrecorded s.procData fd →
      LiveFd s' fd c ∧ (s'.ctx c).owner = (s.ctx c).owner)
    (hcnt : ∀ c ∈ s'.contextList, 0 < (s'.ctx c).opsCnt) : TableInv s' := by
  refine ⟨hkeys, hopened, h.single.sublist hlist, fun c hc => ?_, hproc ▸ h.pids,
    hproc ▸ h.slots, ?_⟩
  · have hlive' := (hlive _ c (h.listed c (hlist.subset hc)).1 (.inl hc)).1
    refine ⟨?_, hcnt c hc⟩
    rw [hlive'.has]
    exact hlive'
  · rw [hproc]
    intro e he fd hfd
    obtain ⟨c, hc, howner⟩ := h.live e he fd hfd
    obtain ⟨hc', howner'⟩ := hlive fd c hc (.inr fun hun => hun e he hfd)
    exact ⟨c, hc', howner' ▸ howner⟩

theorem contexts (h : TableInv s) (hopen : s'.openFds = s.openFds) (hnext : s.next ≤ s'.next)
    (hlist : s'.contextList.Sublist s.contextList) (hproc : s'.procData = s.procData)
    (hctx : ∀ fd c, LiveFd s fd c → c ∈ s'.contextList ∨ ¬ Unrecorded s.procData fd →
      (s'.ctx c).fd = (s.ctx c).fd ∧ (s'.ctx c).finalized = (s.ctx c).finalized ∧
        (s'.ctx c).owner = (s.ctx c).owner)
    (hcnt : ∀ c ∈ s'.contextList, 0 < (s'.ctx c).opsCnt) : TableInv s' := by
  refine h.mono (hopen ▸ h.keys) (fun p hp => ?_) hlist hproc (fun fd c hc hkept => ?_) hcnt
  · obtain ⟨hnonneg, hlt⟩ := h.opened p (hopen ▸ hp)
    exact ⟨hnonneg, hlt.trans_le hnext⟩
  · obtain ⟨hfd, hfin, howner⟩ := hctx fd c hc hkept
    exact ⟨⟨hopen ▸ hc.isOpen, hfd.trans hc.has, hfin.trans hc.unfinalized⟩, howner⟩

theorem modify {f : ContextInner → ContextInner} (h : TableInv s)
    (hf : (f (s.ctx c)).fd = (s.ctx c).fd ∧ (f (s.ctx c)).finalized = (s.ctx c).finalized ∧
      (f (s.ctx c)).owner = (s.ctx c).owner)
    (hcnt : c ∈ s.contextList → 0 < (f (s.ctx c)).opsCnt) : TableInv (s.modify c f) := by
  refine h.contexts rfl le_rfl (List.Sublist.refl _) rfl (fun _ d _ _ => ?_) fun d hd => ?_
  · by_cases hdc : d = c
    · subst hdc
      simpa [Core.modify] using hf
    · simp [Core.modify, hdc]
  · by_cases hdc : d = c
    · subst hdc
      simpa [Core.modify] using hcnt hd
    · simpa [Core.modify, hdc] using (h.listed d hd).2

theorem removeContext (h : TableInv s) : TableInv (s.removeContext c) := by
  refine h.contexts rfl le_rfl List.erase_sublist rfl (fun _ d _ _ => ?_) fun d hd => ?_
  · by_cases hdc : d = c
    · subst hdc
      simp [Core.removeContext, Core.modify]
    · simp [Core.removeContext, Core.modify, hdc]
  · have hpos := (h.listed d (List.mem_of_mem_erase hd)).2
    by_cases hdc : d = c
    · subst hdc
      simpa [Core.removeContext, Core.modify] using hpos
    · simpa [Core.removeContext, Core.modify, hdc] using hpos

theorem table {es : List DaemonProcdata} (h : TableInv s)
    (hpids : (es.map (·.callerIdentity.pid)).Nodup)
    (hslots : ∀ e ∈ es, e.cxtFd.length = maxCxtcntOneca ∧ recorded e ≠ [] ∧ (recorded e).Nodup)
    (hlive : ∀ e ∈ es, ∀ fd ∈ recorded e,
      ∃ c, LiveFd s fd c ∧ (s.ctx c).owner.pid = e.callerIdentity.pid) :
    TableInv { s with procData := es } := by
  have hsame : ∀ fd c, LiveFd s fd c → LiveFd { s with procData := es } fd c :=
    fun _ _ hc => ⟨hc.isOpen, hc.has, hc.unfinalized⟩
  refine ⟨h.keys, h.opened, h.single, fun c hc => ?_, hpids, hslots, fun e he fd hfd => ?_⟩
  · obtain ⟨hc, hpos⟩ := h.listed c hc
    exact ⟨hsame _ c hc, hpos⟩
  · obtain ⟨c, hc, howner⟩ := hlive e he fd hfd
    exact ⟨c, hsame fd c hc, howner⟩

theorem releaseProcData (h : TableInv s)
    (howner : ∀ e ∈ s.procData, fd ∈ recorded e → e.callerIdentity.pid = pid) :
    TableInv (s.releaseProcData pid fd) ∧ Unrecorded (s.releaseProcData pid fd).procData fd := by
  obtain ⟨hpids, hspec⟩ := releaseProcData_spec pid fd h.pids
  have hleft : ∀ e ∈ (s.releaseProcData pid fd).procData, ∃ e' ∈ s.procData,
      e.callerIdentity = e'.callerIdentity ∧ e.cxtFd.length = e'.cxtFd.length ∧
        recorded e ≠ [] ∧ recorded e = (recorded e').erase fd := by
    intro e he
    rcases hspec e he with ⟨he, hne⟩ | ⟨e', he', -, hspec⟩
    · refine ⟨e, he, rfl, rfl, (h.slots e he).2.1, (List.erase_of_not_mem fun hmem => ?_).symm⟩
      exact hne (howner e he hmem)
    · exact ⟨e', he', hspec⟩
  refine ⟨h.table hpids (fun e he => ?_) fun e he fd' hfd' => ?_, fun e he hmem => ?_⟩
  · obtain ⟨e', he', -, hlen, hne, herase⟩ := hleft e he
    obtain ⟨hlen', -, hnodup⟩ := h.slots e' he'
    exact ⟨hlen.trans hlen', hne, herase ▸ hnodup.erase fd⟩
  · obtain ⟨e', he', hid, -, -, herase⟩ := hleft e he
    rw [herase] at hfd'
    obtain ⟨c, hc, howner⟩ := h.live e' he' fd' (List.mem_of_mem_erase hfd')
    exact ⟨c, hc, hid ▸ howner⟩
  · obtain ⟨e', he', -, -, -, herase⟩ := hleft e he
    rw [herase] at hmem
    exact (h.slots e' he').2.2.not_mem_erase hmem

theorem takeProcData (h : TableInv s) :
    TableInv (s.takeProcData pid).2 ∧ ∀ e, (s.takeProcData pid).1 = some e →
      ∀ fd ∈ recorded e, Unrecorded (s.takeProcData pid).2.procData fd := by
  have hleft : ∀ e ∈ (s.takeProcData pid).2.procData,
      e ∈ s.procData ∧ e.callerIdentity.pid ≠ pid := by
    intro e he
    rcases mem_updateProcData h.pids he with hkeep | ⟨e', -, -, hnone⟩
    · exact hkeep
    · cases hnone
  refine ⟨h.table (h.pids.sublist (pids_updateProcData ?_)) (fun e he => h.slots e (hleft e he).1)
    fun e he => h.live e (hleft e he).1, ?_⟩
  · intro e e' hnone
    cases hnone
  · intro e hget fd hfd e' he' hfd'
    obtain ⟨he, hpid⟩ := mem_of_getProcdataByPid hget
    obtain ⟨he', hne⟩ := hleft e' he'
    exact hne (hpid ▸ h.pid_eq he' he hfd' hfd)

end TableInv

def finalized (s : Core) (c : Nat) : Core :=
  ((s.closeFd (s.ctx c).fd).modify c ({ · with fd := -1 })).modify c fun x =>
    { x with frees := x.frees + 1, finalized := x.finalized + 1 }

theorem TableInv.finalized {s : Core} {c : Nat} (h : TableInv s) (hc : LiveFd s (s.ctx c).fd c)
    (hlist : c ∉ s.contextList) (hrec : Unrecorded s.procData (s.ctx c).fd) :
    TableInv (finalized s c) := by
  have hfds : ((Service.finalized s c).openFds.map (·.1)).Sublist (s.openFds.map (·.1)) :=
    List.filter_sublist.map _
  have hctx : ∀ d, d ≠ c → (Service.finalized s c).ctx d = s.ctx d := fun d hd => by
    simp [Service.finalized, Core.modify, Core.closeFd, hd]
  refine h.mono (h.keys.sublist hfds) (fun p hp => h.opened p (List.mem_of_mem_filter hp))
    (List.Sublist.refl _) rfl (fun fd d hd hkept => ?_) fun d hd => ?_
  · have hdc : d ≠ c := by
      rintro rfl
      rcases hkept with hmem | hmem
      · exact hlist hmem
      · exact hmem (hd.has ▸ hrec)
    have hfd : fd ≠ (s.ctx c).fd := by
      rintro rfl
      exact hdc (h.unique hd.isOpen hc.isOpen)
    refine ⟨⟨List.mem_filter.mpr ⟨hd.isOpen, by simpa using hfd⟩, ?_, ?_⟩, ?_⟩
    · rw [hctx d hdc]
      exact hd.has
    · rw [hctx d hdc]
      exact hd.unfinalized
    · rw [hctx d hdc]
  · have hdc : d ≠ c := by
      rintro rfl
      exact hlist hd
    rw [hctx d hdc]
    exact (h.listed d hd).2

section Creation

structure Blank (s : Core) (c : Nat) (pid : Int) : Prop extends TableInv s where
  lt : c < s.next
  unlisted : c ∉ s.contextList
  closed : ∀ fd, (fd, c) ∉ s.openFds
  owner : (s.ctx c).owner.pid = pid
  unfinalized : (s.ctx c).finalized = 0

structure Opened (s : Core) (c : Nat) (fd pid : Int) : Prop extends TableInv s where
  isOpen : (fd, c) ∈ s.openFds
  only : ∀ fd', (fd', c) ∈ s.openFds → fd' = fd
  unlisted : c ∉ s.contextList
  unrecorded : Unrecorded s.procData fd
  owner : (s.ctx c).owner.pid = pid
  unfinalized : (s.ctx c).finalized = 0

structure Listed (s : Core) (c : Nat) (pid : Int) : Prop extends TableInv s where
  mem : c ∈ s.contextList
  counted : (s.ctx c).opsCnt = 2
  owner : (s.ctx c).owner.pid = pid

variable {s : Core} {c : Nat} {fd pid : Int}

theorem blank_mallocContext {owner : CallerIdentity} (h : TableInv s) :
    Blank (s.mallocContext owner) s.next owner.pid := by
  have hold : ∀ fd d, LiveFd s fd d → d ≠ s.next := fun _ d hd => by
    have := (h.opened _ hd.isOpen).2
    omega
  have hinv : TableInv (s.mallocContext owner) := by
    refine h.contexts rfl (Nat.le_succ _) (List.Sublist.refl _) rfl (fun fd d hd _ => ?_)
      fun d hd => ?_
    · simp [Core.mallocContext, hold fd d hd]
    · have hd' := h.listed d hd
      simpa [Core.mallocContext, hold _ d hd'.1] using hd'.2
  refine ⟨hinv, Nat.lt_succ_self _, fun hmem => ?_, fun fd hopen => ?_, ?_, ?_⟩
  · exact hold _ _ (h.listed _ hmem).1 rfl
  · exact (h.opened _ hopen).2.false
  · simp [Core.mallocContext]
  · simp [Core.mallocContext]

theorem Blank.freeContext (h : Blank s c pid) :
    TableInv (s.modify c fun x => { x with frees := x.frees + 1 }) :=
  h.modify ⟨rfl, rfl, rfl⟩ fun hmem => absurd hmem h.unlisted

theorem Blank.openTzdriver (h : Blank s c pid) (hfd : 0 ≤ fd) (hnew : fd ∉ s.openFds.map (·.1)) :
    Opened { s with openFds := (fd, c) :: s.openFds } c fd pid := by
  have hinv : TableInv { s with openFds := (fd, c) :: s.openFds } := by
    refine h.mono (List.nodup_cons.mpr ⟨hnew, h.keys⟩) (fun p hp => ?_) (List.Sublist.refl _) rfl
      (fun _ d hd _ => ⟨⟨List.mem_cons_of_mem _ hd.isOpen, hd.has, hd.unfinalized⟩, rfl⟩)
      fun d hd => (h.listed d hd).2
    rcases List.mem_cons.mp hp with rfl | hp
    · exact ⟨hfd, h.lt⟩
    · exact h.opened p hp
  refine ⟨hinv, List.mem_cons_self, fun fd' hopen => ?_, h.unlisted, fun e he hmem => ?_, h.owner,
    h.unfinalized⟩
  · rcases List.mem_cons.mp hopen with heq | hopen
    · exact congrArg Prod.fst heq
    · exact absurd hopen (h.closed fd')
  · obtain ⟨d, hd, -⟩ := h.live e he fd hmem
    exact hnew (List.mem_map_of_mem hd.isOpen)

theorem Opened.closeFd (h : Opened s c fd pid) : Blank (s.closeFd fd) c pid := by
  have hfds : ((s.closeFd fd).openFds.map (·.1)).Sublist (s.openFds.map (·.1)) :=
    List.filter_sublist.map _
  have hinv : TableInv (s.closeFd fd) := by
    refine h.mono (h.keys.sublist hfds) (fun p hp => h.opened p (List.mem_of_mem_filter hp))
      (List.Sublist.refl _) rfl (fun fd' d hd hkept => ⟨⟨?_, hd.has, hd.unfinalized⟩, rfl⟩)
      fun d hd => (h.listed d hd).2
    refine List.mem_filter.mpr ⟨hd.isOpen, decide_eq_true ?_⟩
    rintro rfl
    obtain rfl := h.unique hd.isOpen h.isOpen
    rcases hkept with hmem | hmem
    · exact h.unlisted hmem
    · exact hmem h.unrecorded
  refine ⟨hinv, (h.opened _ h.isOpen).2, h.unlisted, fun fd' hopen => ?_, h.owner, h.unfinalized⟩
  obtain ⟨hopen, hne⟩ := List.mem_filter.mp hopen
  exact of_decide_eq_true hne (h.only fd' hopen)

theorem Opened.setContext (h : Opened s c fd pid) :
    Opened (s.modify c fun x => { x with fd, opsCnt := 1 }) c fd pid := by
  have hinv : TableInv (s.modify c fun x => { x with fd, opsCnt := 1 }) := by
    have hother : ∀ fd' d, LiveFd s fd' d → d ∈ s.contextList ∨ ¬ Unrecorded s.procData fd' →
        d ≠ c := by
      rintro fd' d hd hkept rfl
      obtain rfl := h.only fd' hd.isOpen
      rcases hkept with hmem | hmem
      · exact h.unlisted hmem
      · exact hmem h.unrecorded
    refine h.contexts rfl le_rfl (List.Sublist.refl _) rfl (fun fd' d hd hkept => ?_) fun d hd => ?_
    · simp [Core.modify, hother fd' d hd hkept]
    · have hd' := h.listed d hd
      simpa [Core.modify, hother _ d hd'.1 (.inl hd)] using hd'.2
  refine ⟨hinv, h.isOpen, h.only, h.unlisted, h.unrecorded, ?_, ?_⟩
  · simpa [Core.modify] using h.owner
  · simpa [Core.modify] using h.unfinalized

theorem Opened.insertContext (h : Opened s c fd pid) (hfd : (s.ctx c).fd = fd)
    (hcnt : (s.ctx c).opsCnt = 1) :
    Listed (s.insertContext c) c pid ∧
      Unrecorded (s.insertContext c).procData ((s.insertContext c).ctx c).fd := by
  have hctx : ∀ d, ((s.insertContext c).ctx d).fd = (s.ctx d).fd ∧
      ((s.insertContext c).ctx d).finalized = (s.ctx d).finalized ∧
      ((s.insertContext c).ctx d).owner = (s.ctx d).owner := by
    intro d
    by_cases hdc : d = c
    · subst hdc
      simp [Core.insertContext, Core.modify]
    · simp [Core.insertContext, Core.modify, hdc]
  have hlive : ∀ fd' d, LiveFd s fd' d → LiveFd (s.insertContext c) fd' d := fun _ d hd =>
    ⟨hd.isOpen, (hctx d).1.trans hd.has, (hctx d).2.1.trans hd.unfinalized⟩
  have htwo : ((s.insertContext c).ctx c).opsCnt = 2 := by
    simp [Core.insertContext, Core.modify, hcnt]
  have hinv : TableInv (s.insertContext c) := by
    refine ⟨h.keys, h.opened, ?_, fun d hd => ?_, h.pids, h.slots, fun e he fd' hfd' => ?_⟩
    · exact List.nodup_append'.mpr ⟨h.single, List.nodup_singleton c,
        List.disjoint_singleton.mpr h.unlisted⟩
    · rw [(hctx d).1]
      rcases List.mem_append.mp hd with hold | hnew
      · have hdc : d ≠ c := fun heq => h.unlisted (heq ▸ hold)
        obtain ⟨hd, hpos⟩ := h.listed d hold
        exact ⟨hlive _ d hd, by simpa [Core.insertContext, Core.modify, hdc] using hpos⟩
      · obtain rfl := List.mem_singleton.mp hnew
        rw [htwo, hfd]
        exact ⟨hlive fd d ⟨h.isOpen, hfd, h.unfinalized⟩, Nat.zero_lt_two⟩
    · obtain ⟨d, hd, howner⟩ := h.live e he fd' hfd'
      exact ⟨d, hlive fd' d hd, (hctx d).2.2 ▸ howner⟩
  refine ⟨⟨hinv, List.mem_append_right _ List.mem_cons_self, htwo, ?_⟩, ?_⟩
  · rw [(hctx c).2.2]
    exact h.owner
  · rw [(hctx c).1, hfd]
    exact h.unrecorded

theorem Listed.setCallFromService (h : Listed s c pid) :
    Listed (s.modify c fun x => { x with callFromService := true }) c pid := by
  refine ⟨h.modify ⟨rfl, rfl, rfl⟩ fun hmem => (h.listed c hmem).2, h.mem, ?_, ?_⟩
  · simpa [Core.modify] using h.counted
  · simpa [Core.modify] using h.owner

theorem Listed.table {es : List DaemonProcdata} (h : Listed s c pid)
    (hinv : TableInv { s with procData := es }) : Listed { s with procData := es } c pid :=
  ⟨hinv, h.mem, h.counted, h.owner⟩

theorem Listed.setContextToProcData {identity : CallerIdentity} {malloc : Bool}
    (h : Listed s c identity.pid) (hrec : Unrecorded s.procData (s.ctx c).fd) :
    Listed (s.setContextToProcData malloc identity (s.ctx c).fd).2 c identity.pid := by
  have hlive := (h.listed c h.mem).1
  have hne : (s.ctx c).fd ≠ -1 := by
    have := (h.opened _ hlive.isOpen).1
    omega
  obtain ⟨hpids, hspec⟩ := setContextToProcData_spec malloc identity hne h.pids
  obtain ⟨es, hsame⟩ : ∃ procData, (s.setContextToProcData malloc identity (s.ctx c).fd).2 =
      { s with procData } := Core.setContextToProcData_eq
  rw [hsame] at hpids hspec ⊢
  refine h.table (h.toTableInv.table hpids (fun e he => ?_) fun e he fd hfd => ?_)
  · rcases hspec e he with he | ⟨-, ⟨hlen, hone⟩ | ⟨e₀, he₀, -, hlen, hperm⟩⟩
    · exact h.slots e he
    · rw [hone]
      exact ⟨hlen, List.cons_ne_nil _ _, List.nodup_singleton _⟩
    · obtain ⟨hlen₀, -, hnodup⟩ := h.slots e₀ he₀
      refine ⟨hlen.trans hlen₀, fun hnil => ?_, ?_⟩
      · rw [hnil] at hperm
        exact absurd hperm.symm (List.cons_ne_nil _ _ ·.eq_nil)
      · exact hperm.nodup_iff.mpr (List.nodup_cons.mpr ⟨hrec e₀ he₀, hnodup⟩)
  · rcases hspec e he with he | ⟨rfl, ⟨-, hone⟩ | ⟨e₀, he₀, hid, -, hperm⟩⟩
    · exact h.live e he fd hfd
    · rw [hone] at hfd
      obtain rfl := List.mem_singleton.mp hfd
      exact ⟨c, hlive, h.owner⟩
    · rcases List.mem_cons.mp (hperm.mem_iff.mp hfd) with rfl | hfd
      · exact ⟨c, hlive, h.owner⟩
      · obtain ⟨d, hd, howner⟩ := h.live e₀ he₀ fd hfd
        exact ⟨d, hd, hid ▸ howner⟩

end Creation

section Programs

def execMeeting (meets : (a : Act Addr) → Resp a → Bool) (w : World Addr) (env : Env Addr)
    (a : Act Addr) : Option (Resp a × World Addr) :=
  (exec w env a).filter fun x => meets a x.1

def aloneStep (meets : (a : Act Addr) → Resp a → Bool) (w : World Addr) (a : Act Addr) (r : Resp a)
    (w' : World Addr) : Prop :=
  ∃ env, execMeeting meets w env a = some (r, w')

/-- What an operation that was never written shows as a descriptor is not open. -/
def spares : (a : Act Addr) → Resp a → Bool
  | .core (.closeDupFd _), r => !r
  | _, _ => true

theorem exec_of_aloneStep {meets : (a : Act Addr) → Resp a → Bool} {w w' : World Addr}
    {a : Act Addr} {r : Resp a} (h : aloneStep meets w a r w') :
    ∃ env, exec w env a = some (r, w') := by
  obtain ⟨env, hexec⟩ := h
  exact ⟨env, (Option.filter_eq_some_iff.mp hexec).1⟩

def CoreTriple {α : Type} (pre : Core → Prop) (p : Program Addr α) (post : α → Core → Prop) :
    Prop :=
  Triple (aloneStep spares) (fun w => pre w.core) p fun x w => post x w.core

theorem core_of_works {c : Nat} {a : Act Addr} {r : Resp a} {w w' : World Addr}
    (ha : works c a = true) (hstep : aloneStep spares w a r w') : w'.core = w.core := by
  obtain ⟨env, hexec⟩ := exec_of_aloneStep hstep
  cases a with
  | obj a =>
    obtain ⟨⟨r', objs⟩, -, heq⟩ := Option.map_eq_some_iff.mp hexec
    obtain ⟨-, rfl⟩ := Prod.mk.inj heq
    rfl
  | core a =>
    obtain ⟨⟨r', s'⟩, hcore, heq⟩ := Option.map_eq_some_iff.mp hexec
    obtain ⟨-, rfl⟩ := Prod.mk.inj heq
    cases a
    case outcome | writeParcel | ioctl | readContextFd | readCallFromService =>
      exact (congrArg Prod.snd (Option.some.inj hcore)).symm
    all_goals cases ha

def onFound {α : Type} (no : Core → Prop) (yes : α → Core → Prop) : Option α → Core → Prop
  | none => no
  | some x => yes x

namespace CoreTriple

variable {α β : Type} {pre : Core → Prop} {post : α → Core → Prop} {c : Nat} {p : Program Addr α}

theorem pure {x : α} (h : ∀ s, pre s → post x s) : CoreTriple pre (.pure x) post :=
  Triple.pure fun w => h w.core

theorem core {a : CoreAct} {k : CoreResp a → Program Addr α} (mid : CoreResp a → Core → Prop)
    (ha : ∀ (env : Env Addr) s r s', pre s → s.exec env a = some (r, s') → mid r s')
    (hk : ∀ r, CoreTriple (mid r) (k r) post) : CoreTriple pre (.act (.core a) k) post := by
  refine Triple.act (fun w r w' hw hstep => ?_) hk
  obtain ⟨env, hexec⟩ := exec_of_aloneStep hstep
  obtain ⟨⟨r', s'⟩, hcore, heq⟩ := Option.map_eq_some_iff.mp hexec
  obtain ⟨rfl, rfl⟩ := Prod.mk.inj heq
  exact ha env w.core r' s' hw hcore

theorem obj {a : ObjAct Addr} {k : ObjResp a → Program Addr α}
    (hk : ∀ r, CoreTriple pre (k r) post) : CoreTriple pre (.act (.obj a) k) post := by
  refine Triple.act (fun w r w' hw hstep => ?_) hk
  obtain ⟨env, hexec⟩ := exec_of_aloneStep hstep
  obtain ⟨⟨r', objs⟩, -, heq⟩ := Option.map_eq_some_iff.mp hexec
  obtain ⟨-, rfl⟩ := Prod.mk.inj heq
  exact hw

theorem keep {a : Act Addr} {k : Resp a → Program Addr α} (ha : works c a = true)
    (hk : ∀ r, CoreTriple pre (k r) post) : CoreTriple pre (.act a k) post := by
  refine Triple.act (fun w r w' hw hstep => ?_) hk
  rw [core_of_works ha hstep]
  exact hw

theorem addTidData {k : Bool → Program Addr α} (hk : ∀ r, CoreTriple pre (k r) post) :
    CoreTriple pre (.act (.core .addTidData) k) post := by
  refine core (fun _ => pre) (fun env s r s' hs hexec => ?_) hk
  obtain ⟨-, rfl⟩ := Prod.mk.inj (Option.some.inj hexec)
  exact hs

theorem bind {f : α → Program Addr β} {mid : α → Core → Prop} {post : β → Core → Prop}
    (hp : CoreTriple pre p mid) (hf : ∀ x, CoreTriple (mid x) (f x) post) :
    CoreTriple pre (p.bind f) post :=
  Triple.bind hp hf

theorem mono {pre' : Core → Prop} {post' : α → Core → Prop} (h : CoreTriple pre' p post')
    (hpre : ∀ s, pre s → pre' s) (hpost : ∀ x s, post' x s → post x s) : CoreTriple pre p post :=
  Triple.mono h (fun w => hpre w.core) fun x w => hpost x w.core

theorem ite {b : Prop} [Decidable b] {q : Program Addr α} (hp : b → CoreTriple pre p post)
    (hq : ¬ b → CoreTriple pre q post) : CoreTriple pre (if b then p else q) post :=
  Triple.ite hp hq

theorem each {f : β → Program Addr Unit} {xs : List β}
    (hbody : ∀ x ∈ xs, CoreTriple pre (f x) fun _ => pre) :
    CoreTriple pre (Prog.each f xs) fun _ => pre :=
  Triple.each hbody

theorem given (h : ∀ s, pre s → CoreTriple (· = s) p post) : CoreTriple pre p post :=
  fun w hw => h w.core hw w rfl

theorem works (h : Works c p) : CoreTriple pre p fun _ => pre := by
  refine Triple.of_all h fun a ha w r w' hw hstep => ?_
  rw [core_of_works ha hstep]
  exact hw

theorem andThen {f : α → Program Addr β} {post : β → Core → Prop} (hp : Works c p)
    (hf : ∀ x, CoreTriple pre (f x) post) : CoreTriple pre (p.bind f) post :=
  bind (works hp) hf

theorem closeDupIonFd {stack : Operation Addr} {opFlag : Option Bool} :
    CoreTriple pre (closeDupIonFd stack opFlag) fun _ => pre := by
  have hclose (fd : Int) : CoreTriple pre (forget (Api.core (.closeDupFd fd))) fun _ => pre := by
    have hpure : CoreTriple pre (.pure ()) fun _ => pre := Triple.pure fun _ hw => hw
    refine Triple.act (fun w r w' hw hstep => ?_) fun _ => hpure
    obtain ⟨env, hexec⟩ := hstep
    obtain ⟨hexec, hspare⟩ := Option.filter_eq_some_iff.mp hexec
    obtain rfl : r = false := by simpa [spares] using hspare
    obtain ⟨⟨r', s'⟩, hcore, heq⟩ := Option.map_eq_some_iff.mp hexec
    obtain ⟨rfl, rfl⟩ := Prod.mk.inj heq
    rw [Core.exec] at hcore
    split_ifs at hcore
    · cases Option.some.inj hcore
    · obtain ⟨-, rfl⟩ := Prod.mk.inj (Option.some.inj hcore)
      exact hw
  exact ite (fun _ => each fun fd _ => hclose fd.toInt) fun _ => .pure fun _ hw => hw

theorem update {a : CoreAct} {k : CoreResp a → Program Addr α} {s s' : Core}
    (ha : ∀ (env : Env Addr) r t, s.exec env a = some (r, t) → t = s')
    (hk : ∀ r, CoreTriple (· = s') (k r) post) : CoreTriple (· = s) (.act (.core a) k) post := by
  refine core (fun _ t => t = s') (fun env _ r t hs hexec => ?_) hk
  subst hs
  exact ha env r t hexec

end CoreTriple

end Programs

section Puts

variable {s : Core} {c : Nat} {pid fd : Int}

def decContext (s : Core) (c : Nat) : Core := s.modify c fun x => { x with opsCnt := x.opsCnt - 1 }

theorem snd_of_exec {α : Type} {x y : α} {s s' : Core} (h : some (x, s) = some (y, s')) : s' = s :=
  (congrArg Prod.snd (Option.some.inj h)).symm

theorem triple_teecFinalizeContextInner :
    CoreTriple (· = s) (teecFinalizeContextInner c) fun _ t => t = finalized s c := by
  simp only [teecFinalizeContextInner, core, obj, Prog.bind_eq, Prog.bind_act, Prog.bind_pure]
  refine .obj fun sessions => .keep (c := c) (by simp [works]) fun callFromService => ?_
  refine .andThen (c := c) (Prog.All.each fun _ => works_finalizeSession) fun _ => .obj fun shms => ?_
  refine .andThen (c := c) (Prog.All.each fun _ => works_putBnShrMem) fun _ => ?_
  refine .update (fun _ _ _ hexec => snd_of_exec hexec) fun _ => ?_
  exact .update (fun _ _ _ hexec => snd_of_exec hexec) fun _ => .pure fun _ h => h

theorem triple_putBnContext :
    CoreTriple (· = s) (putBnContext (some c)) fun cleared t =>
      if (s.ctx c).opsCnt - 1 = 0 then cleared = true ∧ t = finalized (decContext s c) c
      else cleared = false ∧ t = decContext s c := by
  refine .core (fun zero t =>
    zero = decide ((s.ctx c).opsCnt - 1 = 0) ∧ t = decContext s c) ?_ fun zero => ?_
  · rintro env _ r s' rfl hexec
    obtain ⟨rfl, rfl⟩ := Prod.mk.inj (Option.some.inj hexec)
    exact ⟨rfl, rfl⟩
  · refine .given fun t ht => ?_
    obtain ⟨rfl, rfl⟩ := ht
    refine .ite (fun hzero => ?_) fun hzero => ?_
    · refine .bind triple_teecFinalizeContextInner fun _ => .pure fun t ht => ?_
      rw [if_pos (of_decide_eq_true hzero)]
      exact ⟨rfl, ht⟩
    · refine .pure fun t ht => ?_
      rw [if_neg fun hlast => hzero (decide_eq_true hlast)]
      exact ⟨rfl, ht⟩

def putAndRelease (s : Core) (pid : Int) (c : Nat) : Core :=
  if (s.ctx c).opsCnt - 1 = 0 then
    (finalized (decContext s c) c).releaseProcData pid (s.ctx c).fd
  else decContext s c

theorem triple_putBnContextAndReleaseFd :
    CoreTriple (· = s) (putBnContextAndReleaseFd pid (some c)) fun _ t =>
      t = { putAndRelease s pid c with procLock := false } := by
  simp only [putBnContextAndReleaseFd, core, Prog.bind_eq, Prog.bind_act, Prog.bind_pure]
  refine .core (fun contextFd t => contextFd = (s.ctx c).fd ∧ t = s) ?_ fun contextFd => ?_
  · rintro env _ r s' rfl hexec
    obtain ⟨rfl, rfl⟩ := Prod.mk.inj (Option.some.inj hexec)
    exact ⟨rfl, rfl⟩
  refine .given fun t ht => ?_
  obtain ⟨rfl, rfl⟩ := ht
  have hlocked : ∀ (env : Env Addr) r s', t.exec env .lockProcData = some (r, s') →
      s' = { t with procLock := true } := by
    intro env r s' hexec
    rw [Core.exec] at hexec
    by_cases hlock : t.procLock = true
    · rw [if_pos hlock] at hexec
      cases hexec
    · rw [if_neg hlock] at hexec
      exact snd_of_exec hexec
  refine .update hlocked fun _ => ?_
  refine .bind triple_putBnContext fun cleared => .given fun t' ht => ?_
  by_cases hlast : (t.ctx c).opsCnt - 1 = 0
  · rw [if_pos hlast] at ht
    obtain ⟨rfl, rfl⟩ := ht
    refine .update (fun _ _ _ hexec => snd_of_exec hexec) fun _ => ?_
    refine .update (fun _ _ _ hexec => snd_of_exec hexec) fun _ => .pure fun t' ht => ?_
    rw [putAndRelease, if_pos hlast, ht]
    rfl
  · rw [if_neg hlast] at ht
    obtain ⟨rfl, rfl⟩ := ht
    refine .update (fun _ _ _ hexec => snd_of_exec hexec) fun _ => .pure fun t' ht => ?_
    rw [putAndRelease, if_neg hlast, ht]
    rfl

end Puts

section Contexts

variable {s : Core} {c : Nat} {pid fd : Int}

theorem TableInv.congr {s' : Core} (h : TableInv s) (hctx : s'.ctx = s.ctx) (hnext : s'.next = s.next)
    (hlist : s'.contextList = s.contextList) (hopen : s'.openFds = s.openFds)
    (hproc : s'.procData = s.procData) : TableInv s' := by
  refine h.contexts hopen hnext.ge (hlist ▸ List.Sublist.refl _) hproc (fun _ c _ _ => ?_)
    fun c hc => ?_
  · rw [hctx]
    exact ⟨rfl, rfl, rfl⟩
  · rw [hctx]
    exact (h.listed c (hlist ▸ hc)).2

theorem TableInv.eq_of_fd {d : Nat} (h : TableInv s) (hc : c ∈ s.contextList)
    (hd : d ∈ s.contextList) (hfd : (s.ctx c).fd = (s.ctx d).fd) : c = d := by
  have hopen := (h.listed c hc).1.isOpen
  rw [hfd] at hopen
  exact h.unique hopen (h.listed d hd).1.isOpen

theorem of_findBnContext (h : s.findBnContext fd = some c) :
    c ∈ s.contextList ∧ (s.ctx c).fd = fd :=
  ⟨List.mem_of_find?_eq_some h, by simpa using List.find?_some h⟩

structure Held (s : Core) (c : Nat) : Prop extends TableInv s where
  mem : c ∈ s.contextList
  two : 2 ≤ (s.ctx c).opsCnt

theorem Held.dec (h : Held s c) : TableInv (decContext s c) := by
  have := h.two
  refine h.modify ⟨rfl, rfl, rfl⟩ fun _ => ?_
  simp only
  omega

theorem Held.putAndRelease (h : Held s c) : putAndRelease s pid c = decContext s c := by
  have := h.two
  exact if_neg (by omega)

theorem triple_putHeld :
    CoreTriple (Held · c) (putBnContextAndReleaseFd pid (some c)) fun _ => TableInv := by
  refine .given fun s h => triple_putBnContextAndReleaseFd.mono (fun _ hs => hs) fun _ t ht => ?_
  subst ht
  rw [h.putAndRelease]
  exact h.dec.congr rfl rfl rfl rfl rfl

theorem TableInv.putRemoved (h : TableInv s) (hc : c ∈ s.contextList)
    (howner : (s.ctx c).owner.pid = pid) : TableInv (putAndRelease (s.removeContext c) pid c) := by
  have hlive := (h.listed c hc).1
  have hgone : c ∉ (s.removeContext c).contextList := h.single.not_mem_erase
  have hfd : ((s.removeContext c).ctx c).fd = (s.ctx c).fd := by
    simp [Core.removeContext, Core.modify]
  rw [Service.putAndRelease]
  by_cases hlast : ((s.removeContext c).ctx c).opsCnt - 1 = 0
  · rw [if_pos hlast, hfd]
    have hpid : ∀ e ∈ s.procData, (s.ctx c).fd ∈ recorded e → e.callerIdentity.pid = pid := by
      intro e he hmem
      obtain ⟨d, hd, hpid⟩ := h.live e he _ hmem
      obtain rfl := h.unique hd.isOpen hlive.isOpen
      exact hpid.symm.trans howner
    have hrel := h.releaseProcData hpid
    -- the slot could as well be cleared before the rest
    refine TableInv.finalized (s := decContext ((s.releaseProcData pid (s.ctx c).fd).removeContext c) c)
      (c := c) ?_ ⟨?_, rfl, ?_⟩ hgone ?_
    · exact hrel.1.removeContext.modify ⟨rfl, rfl, rfl⟩ fun hmem => absurd hmem hgone
    · simpa [decContext, Core.removeContext, Core.modify, Core.releaseProcData] using hlive.isOpen
    · simpa [decContext, Core.removeContext, Core.modify, Core.releaseProcData]
        using hlive.unfinalized
    · simpa [decContext, Core.removeContext, Core.modify, Core.releaseProcData] using hrel.2
  · rw [if_neg hlast]
    exact h.removeContext.modify ⟨rfl, rfl, rfl⟩ fun hmem => absurd hmem hgone

theorem triple_callFinalizeContext :
    CoreTriple (fun s => TableInv s ∧ ∀ c ∈ s.contextList, (s.ctx c).fd = fd →
      (s.ctx c).owner.pid = pid) (callFinalizeContext pid fd) fun _ => TableInv := by
  simp only [callFinalizeContext, core, Prog.bind_eq, Prog.bind_act, Prog.bind_pure]
  refine .core (onFound TableInv fun c t =>
    TableInv { putAndRelease t pid c with procLock := false }) ?_ fun found => ?_
  · rintro env s r s' ⟨h, howner⟩ hexec
    obtain ⟨rfl, rfl⟩ := Prod.mk.inj (Option.some.inj hexec)
    cases hfind : s.findBnContext fd with
    | none => exact h
    | some c =>
      obtain ⟨hc, hfd⟩ := of_findBnContext hfind
      exact (h.putRemoved hc (howner c hc hfd)).congr rfl rfl rfl rfl rfl
  · cases found with
    | none => exact .pure fun _ h => h
    | some c =>
      refine .given fun s h => .bind triple_putBnContextAndReleaseFd fun _ => .pure fun t ht => ?_
      subst ht
      exact h

theorem triple_releaseContext :
    CoreTriple (Listed · c pid) (releaseContext pid c) fun _ => TableInv := by
  simp only [releaseContext, core, Prog.bind_eq, Prog.bind_act, Prog.bind_pure]
  refine .given fun s h => ?_
  have hheld : Held s c := ⟨h.toTableInv, h.mem, h.counted.ge⟩
  refine .bind triple_putBnContextAndReleaseFd fun _ => ?_
  rw [hheld.putAndRelease]
  refine .core (fun fd t => fd = (s.ctx c).fd ∧
    t = { decContext s c with procLock := false }) ?_ fun fd => ?_
  · rintro env _ r s' rfl hexec
    obtain ⟨rfl, rfl⟩ := Prod.mk.inj (Option.some.inj hexec)
    exact ⟨by simp [decContext, Core.modify], rfl⟩
  refine .bind (triple_callFinalizeContext.mono (fun t ht => ?_) fun _ _ ht => ht) fun _ =>
    .pure fun _ h => h
  obtain ⟨rfl, rfl⟩ := ht
  have hinv : TableInv { decContext s c with procLock := false } :=
    hheld.dec.congr rfl rfl rfl rfl rfl
  refine ⟨hinv, fun d hd hfd => ?_⟩
  obtain rfl : d = c := hinv.eq_of_fd hd h.mem (hfd.trans (by simp [decContext, Core.modify]))
  simpa [decContext, Core.modify] using h.owner

theorem Listed.toHeld (h : Listed s c pid) : Held s c := ⟨h.toTableInv, h.mem, h.counted.ge⟩

theorem triple_recordContext {identity : CallerIdentity} :
    CoreTriple (fun s => Listed s c identity.pid ∧ Unrecorded s.procData (s.ctx c).fd)
      (recordContext identity c) fun _ => TableInv := by
  simp only [recordContext, core, Prog.bind_eq, Prog.bind_act, Prog.bind_pure]
  have hrelease : ∀ x : TeecResult × Reply, CoreTriple (Listed · c identity.pid)
      ((releaseContext identity.pid c).bind fun _ => .pure x) fun _ => TableInv := fun x =>
    .bind triple_releaseContext fun _ => .pure fun _ h => h
  refine .core (fun _ s => Listed s c identity.pid ∧ Unrecorded s.procData (s.ctx c).fd) ?_
    fun _ => ?_
  · rintro env s r s' ⟨h, hrec⟩ hexec
    rw [snd_of_exec hexec]
    refine ⟨h.setCallFromService, ?_⟩
    simpa [Core.modify] using hrec
  refine .core (fun _ s => Listed s c identity.pid) ?_ fun recorded => ?_
  · rintro env s r s' ⟨h, hrec⟩ hexec
    rw [Core.exec] at hexec
    by_cases hlock : s.procLock = true
    · rw [if_pos hlock] at hexec
      cases hexec
    · rw [if_neg hlock] at hexec
      obtain rfl : _ = s' := congrArg Prod.snd (Option.some.inj hexec)
      exact h.setContextToProcData hrec
  refine .ite (fun _ => ?_) fun _ => hrelease _
  refine .andThen (c := c) (works_writeItems _) fun x => .ite (fun _ => ?_) fun _ => hrelease _
  refine .keep (c := c) (by simp [works]) fun fd => ?_
  refine .andThen (c := c) (works_writeItems _) fun x => .ite (fun _ => ?_) fun _ => hrelease _
  refine .bind (triple_putHeld.mono (fun _ h => h.toHeld) fun _ _ h => h) fun _ => .pure fun _ h => h

theorem triple_teecInitializeContextInner :
    CoreTriple (Blank · c pid) (teecInitializeContextInner false c) fun ret s =>
      if ret = .success then Listed s c pid ∧ Unrecorded s.procData (s.ctx c).fd
      else Blank s c pid := by
  simp only [teecInitializeContextInner, core, obj, Prog.bind_eq, Prog.bind_act, Prog.bind_pure]
  refine .core (onFound (Blank · c pid) fun fd s => Opened s c fd pid) ?_ fun connected => ?_
  · rintro env s r s' h hexec
    rw [Core.exec] at hexec
    by_cases hok : env.ok = true
    · rw [if_pos hok] at hexec
      by_cases hfd : 0 ≤ env.fd ∧ env.fd ∉ s.openFds.map (·.1)
      · rw [if_pos hfd] at hexec
        obtain ⟨rfl, rfl⟩ := Prod.mk.inj (Option.some.inj hexec)
        exact h.openTzdriver hfd.1 hfd.2
      · rw [if_neg hfd] at hexec
        cases hexec
    · rw [if_neg hok] at hexec
      obtain ⟨rfl, rfl⟩ := Prod.mk.inj (Option.some.inj hexec)
      exact h
  cases connected with
  | none => exact .pure fun _ h => h
  | some fd =>
    have hclose : ∀ ret : TeecResult, ret ≠ .success → CoreTriple (Opened · c fd pid)
        (.act (.core (.closeFd fd)) fun _ => .pure ret) fun ret s =>
          if ret = .success then Listed s c pid ∧ Unrecorded s.procData (s.ctx c).fd
          else Blank s c pid := by
      intro ret hret
      refine .core (fun _ s => Blank s c pid) ?_ fun _ => .pure fun s h => ?_
      · rintro env s r s' h hexec
        rw [snd_of_exec hexec]
        exact h.closeFd
      · rw [if_neg hret]
        exact h
    refine .keep (c := c) rfl fun loggedIn => .ite (fun _ => ?_) fun _ => hclose _ (by decide)
    refine .core (fun _ s => Opened s c fd pid ∧ (s.ctx c).fd = fd ∧ (s.ctx c).opsCnt = 1)
      ?_ fun _ => .obj fun _ => .keep (c := c) rfl fun cleared => ?_
    · rintro env s r s' h hexec
      rw [snd_of_exec hexec]
      exact ⟨h.setContext, by simp [Core.modify], by simp [Core.modify]⟩
    refine .ite (fun _ => ?_) fun _ => (hclose _ (by decide)).mono (fun _ h => h.1) fun _ _ h => h
    refine .core (fun _ s => Listed s c pid ∧ Unrecorded s.procData (s.ctx c).fd) ?_
      fun _ => .pure fun _ h => h
    rintro env s r s' ⟨h, hfd, hcnt⟩ hexec
    rw [snd_of_exec hexec]
    exact h.insertContext hfd hcnt

theorem triple_initializeContext {identity : CallerIdentity} :
    CoreTriple TableInv (initializeContext identity) fun _ => TableInv := by
  simp only [initializeContext, core, Prog.bind_eq, Prog.bind_act, Prog.bind_pure]
  refine .core (onFound TableInv fun c s => Blank s c identity.pid) ?_ fun contextInner =>
    .keep (c := 0) rfl fun caInfo => ?_
  · rintro env s r s' h hexec
    rw [Core.exec] at hexec
    by_cases hok : env.ok = true
    · rw [if_pos hok] at hexec
      obtain ⟨rfl, rfl⟩ := Prod.mk.inj (Option.some.inj hexec)
      exact blank_mallocContext h
    · rw [if_neg hok] at hexec
      obtain ⟨rfl, rfl⟩ := Prod.mk.inj (Option.some.inj hexec)
      exact h
  cases contextInner with
  | none => exact .pure fun _ h => h
  | some c =>
    have hfree : ∀ x : TeecResult × Reply, CoreTriple (Blank · c identity.pid)
        (.act (.core (.freeContext c)) fun _ => .pure x) fun _ => TableInv := by
      intro x
      refine .core (fun _ => TableInv) ?_ fun _ => .pure fun _ h => h
      rintro env s r s' h hexec
      rw [snd_of_exec hexec]
      exact h.freeContext
    have hauth : ∀ authInfo : Bool, CoreTriple (Blank · c identity.pid)
        (if authInfo = true then (teecInitializeContextInner false c).bind fun ret =>
            if ret = .success then recordContext identity c
            else .act (.core (.freeContext c)) fun _ => .pure (ret, [])
          else .act (.core (.freeContext c)) fun _ => .pure (.fail, [])) fun _ => TableInv := by
      intro authInfo
      refine .ite (fun _ => ?_) fun _ => hfree _
      refine .bind triple_teecInitializeContextInner fun ret => .ite (fun hret => ?_) fun hret => ?_
      · refine triple_recordContext.mono (fun s h => ?_) fun _ _ h => h
        rwa [if_pos hret] at h
      · refine (hfree _).mono (fun s h => ?_) fun _ _ h => h
        rwa [if_neg hret] at h
    exact .ite (fun _ => .keep (c := c) rfl hauth) fun _ => hauth false

theorem triple_isValidContext {α : Type} {identity : CallerIdentity} {k : Bool → Program Addr α}
    {post : α → Core → Prop}
    (hvalid : CoreTriple (fun s => TableInv s ∧ ∀ c ∈ s.contextList, (s.ctx c).fd = fd →
      (s.ctx c).owner.pid = identity.pid) (k true) post)
    (hinvalid : CoreTriple TableInv (k false) post) :
    CoreTriple TableInv (.act (.core (.isValidContext fd identity)) k) post := by
  refine .core (fun valid s => TableInv s ∧ (valid = true → ∀ c ∈ s.contextList,
    (s.ctx c).fd = fd → (s.ctx c).owner.pid = identity.pid)) ?_ fun valid => ?_
  · rintro env s r s' h hexec
    rw [Core.exec] at hexec
    by_cases hlock : s.procLock = true
    · rw [if_pos hlock] at hexec
      cases hexec
    · rw [if_neg hlock] at hexec
      obtain ⟨rfl, rfl⟩ := Prod.mk.inj (Option.some.inj hexec)
      refine ⟨h, fun hok c hc hfd => ?_⟩
      obtain ⟨e, he, rfl, hmem⟩ := recorded_of_isValidContext hok
      obtain ⟨d, hd, howner⟩ := h.live e he fd hmem
      obtain rfl := h.unique hd.isOpen (hfd ▸ (h.listed c hc).1.isOpen)
      exact howner
  · cases valid with
    | false => exact hinvalid.mono (fun _ h => h.1) fun _ _ h => h
    | true => exact hvalid.mono (fun _ h => ⟨h.1, h.2 rfl⟩) fun _ _ h => h

theorem triple_finalizeContext {identity : CallerIdentity} :
    CoreTriple TableInv (finalizeContext identity fd) fun _ => TableInv := by
  simp only [finalizeContext, core, Prog.bind_eq, Prog.bind_act, Prog.bind_pure]
  exact triple_isValidContext triple_callFinalizeContext (.pure fun _ h => h)

end Contexts

section Uses

variable {α : Type} {identity : CallerIdentity} {fd : Int} {c : Nat}

theorem TableInv.held {s : Core} (h : TableInv s) (hc : c ∈ s.contextList) :
    Held (s.modify c fun x => { x with opsCnt := x.opsCnt + 1 }) c := by
  refine ⟨h.modify ⟨rfl, rfl, rfl⟩ fun _ => Nat.succ_pos _, hc, ?_⟩
  have := (h.listed c hc).2
  simp only [Core.modify, Function.update_self]
  omega

theorem triple_use {k : Option Nat → Program Addr α} {q : Program Addr α} {post : α → Core → Prop}
    (hnone : CoreTriple TableInv (k none) post)
    (hsome : ∀ c, CoreTriple (Held · c) (k (some c)) post) (hinvalid : CoreTriple TableInv q post) :
    CoreTriple TableInv (.act (.core (.isValidContext fd identity)) fun valid =>
      if valid = true then .act (.core (.getBnContext fd)) k else q) post := by
  refine triple_isValidContext ?_ hinvalid
  refine .core (onFound TableInv fun c s => Held s c) ?_ fun found => ?_
  · rintro env s r s' ⟨h, -⟩ hexec
    obtain ⟨rfl, rfl⟩ := Prod.mk.inj (Option.some.inj hexec)
    cases hfind : s.findBnContext fd with
    | none => exact h
    | some c => exact h.held (of_findBnContext hfind).1
  · cases found with
    | none => exact hnone
    | some c => exact hsome c

def Got (r : Except TeecResult (Nat × Nat)) (s : Core) : Prop :=
  match r with
  | .error _ => TableInv s
  | .ok (c, _) => Held s c

theorem triple_callGetBnContext : CoreTriple TableInv (callGetBnContext identity fd) Got := by
  simp only [callGetBnContext, core, obj, Prog.bind_eq, Prog.bind_act, Prog.bind_pure]
  refine triple_use (.pure fun _ h => h) (fun c => .obj fun tempSession => ?_) (.pure fun _ h => h)
  cases tempSession with
  | none => exact .bind triple_putHeld fun _ => .pure fun _ h => h
  | some session => exact .pure fun _ h => h

theorem triple_callGetBnSession {sessionId : U32} :
    CoreTriple TableInv (callGetBnSession identity fd sessionId) Got := by
  simp only [callGetBnSession, core, obj, Prog.bind_eq, Prog.bind_act, Prog.bind_pure]
  refine triple_use (.pure fun _ h => h) (fun c => .obj fun tempSession => ?_) (.pure fun _ h => h)
  cases tempSession with
  | none => exact .bind triple_putHeld fun _ => .pure fun _ h => h
  | some session => exact .pure fun _ h => h

theorem Held.leak {p : Program Addr α} (h : Works c p) :
    CoreTriple (Held · c) p fun _ => TableInv :=
  (CoreTriple.works h).mono (fun _ h => h) fun _ _ h => h.toTableInv

theorem Held.put {pid : Int} {f : Unit → Program Addr α} (hf : ∀ x, Works c (f x)) :
    CoreTriple (Held · c) ((putBnContextAndReleaseFd pid (some c)).bind f) fun _ => TableInv :=
  .bind triple_putHeld fun x => .works (hf x)

variable {memory : BitVec 64 → SharedMemory Addr} {pointer : BitVec 64 → Addr}

theorem triple_openSession {destination : BitVec 128} {connectionMethod optMemSize : U32}
    {operation : Option (Operation Addr)} {optMem : Option Ashmem} :
    CoreTriple TableInv (openSession memory identity fd destination connectionMethod operation
      optMemSize optMem) fun _ => TableInv := by
  simp only [openSession, core, obj, Prog.bind_eq, Prog.bind_act, Prog.bind_pure]
  refine .bind triple_callGetBnContext fun got => ?_
  obtain ret | ⟨c, session⟩ := got
  · exact .works (c := 0) works_openSessionError
  refine .andThen works_decode fun x => .ite (fun _ => ?_) fun _ => ?_
  · refine .addTidData fun addTidData => .ite (fun _ => ?_) fun _ => ?_
    · refine .andThen works_teecOpenSessionInner fun result => ?_
      refine .andThen (c := c) works_putAllocShrMem fun _ => Held.put fun _ => ?_
      refine .bind works_recOpenReply fun x => .ite ?_ ?_
      · exact .bind works_putBnSession fun _ => .pure
      · exact .act (by simp [works]) fun _ => works_openSessionError
    · exact Held.leak (.act (by simp [works]) fun _ => works_openSessionError)
  · exact Held.leak (.act (by simp [works]) fun _ => works_openSessionError)

theorem triple_invokeCommand {sessionId optMemSize : U32} {operation : Option (Operation Addr)}
    {optMem : Option Ashmem} :
    CoreTriple TableInv (invokeCommand memory identity fd sessionId operation optMemSize optMem)
      fun _ => TableInv := by
  simp only [invokeCommand, core, Prog.bind_eq, Prog.bind_act, Prog.bind_pure]
  refine .bind triple_callGetBnSession fun got => ?_
  obtain ret | ⟨c, session⟩ := got
  · exact .works (c := 0) works_invokeCommandEnd
  have hput : ∀ ret operation, CoreTriple (Held · c) ((putBnSession c session).bind fun _ =>
      (putBnContextAndReleaseFd identity.pid (some c)).bind fun _ =>
        invokeCommandEnd originApi ret operation) fun _ => TableInv := fun ret operation =>
    .andThen (c := c) works_putBnSession fun _ => Held.put fun _ => works_invokeCommandEnd
  refine .andThen works_decode fun x => .ite (fun _ => ?_) fun _ => hput _ _
  refine .addTidData fun addTidData => .ite (fun _ => ?_) fun _ => hput _ _
  refine .andThen works_teecInvokeCommandInner fun result => ?_
  refine .andThen (c := c) works_putAllocShrMem fun _ => ?_
  exact .andThen (c := c) works_putBnSession fun _ => Held.put fun _ => works_invokeCommandEnd

theorem triple_closeSession {sessionId : U32} :
    CoreTriple TableInv (closeSession identity fd sessionId) fun _ => TableInv := by
  simp only [closeSession, core, obj, Prog.bind_eq, Prog.bind_act, Prog.bind_pure]
  refine triple_use (.pure fun _ h => h) (fun c => .obj fun outSession => ?_) (.pure fun _ h => h)
  cases outSession with
  | none => exact Held.put fun _ => .pure
  | some session =>
    refine .addTidData fun addTidData => .ite (fun _ => ?_) fun _ => Held.leak .pure
    refine .andThen (c := c) works_teecCloseSessionInner fun _ => ?_
    exact .andThen (c := c) works_putBnSession fun _ => Held.put fun _ => .pure

theorem triple_registerSharedMemory {sharedMem : ShmData} :
    CoreTriple TableInv (registerSharedMemory pointer identity fd sharedMem) fun _ => TableInv := by
  simp only [registerSharedMemory, registerSharedMemoryReply, core, obj, Prog.bind_eq,
    Prog.bind_act, Prog.bind_pure]
  refine triple_use (.works (c := 0) works_shmError) (fun c => .keep (c := c) rfl fun mallocInner => ?_)
    (.works (c := 0) works_shmError)
  refine .ite (fun _ => .obj fun outShm => ?_) fun _ => Held.leak works_shmError
  refine .andThen (c := c) works_teecRegisterSharedMemoryInner fun ret => .ite (fun _ => ?_) fun _ => ?_
  · refine .andThen (c := c) works_putBnShrMem fun _ => Held.put fun _ => ?_
    refine .act (by simp [works]) fun shm => .bind (works_writeItems _) fun x => .ite ?_ .pure
    exact .act (by simp [works]) fun shm => .bind (works_writeItems _) fun _ => .pure
  · exact .obj fun _ => Held.put fun _ => works_shmError

theorem triple_allocateSharedMemory {sharedMem : ShmData} :
    CoreTriple TableInv (allocateSharedMemory pointer identity fd sharedMem) fun _ => TableInv := by
  simp only [allocateSharedMemory, core, obj, Prog.bind_eq, Prog.bind_act, Prog.bind_pure]
  refine triple_use (.works (c := 0) works_shmError) (fun c => .keep (c := c) rfl fun mallocInner => ?_)
    (.works (c := 0) works_shmError)
  refine .ite (fun _ => .obj fun outShm => ?_) fun _ => Held.put fun _ => works_shmError
  refine .andThen (c := c) works_teecAllocateSharedMemoryInner fun ret => .ite (fun _ => ?_) fun _ => ?_
  · refine .obj fun shm => .keep (c := c) (by simp [works]) fun fd => ?_
    refine .andThen (c := c) (works_writeItems _) fun x => ?_
    refine .andThen (c := c) works_putBnShrMem fun _ => Held.put fun _ => .ite .pure ?_
    exact .act (by simp [works]) fun _ => .bind works_putBnShrMem fun _ => .pure
  · exact .obj fun _ => Held.put fun _ => works_shmError

theorem triple_releaseSharedMemory {sharedMem : ShmData} {shmOffset : U32} :
    CoreTriple TableInv (releaseSharedMemory pointer identity fd sharedMem shmOffset)
      fun _ => TableInv := by
  simp only [releaseSharedMemory, core, Prog.bind_eq, Prog.bind_act, Prog.bind_pure]
  refine triple_use (.pure fun _ h => h) (fun c => ?_) (.pure fun _ h => h)
  exact .andThen (c := c) works_teecReleaseSharedMemoryInner fun _ => Held.put fun _ => .pure

end Uses

section Deaths

variable {pid : Int}

theorem triple_cleanContext {es : List DaemonProcdata} {fd : Int} (hfd : Unrecorded es fd) :
    CoreTriple (fun s => TableInv s ∧ s.procData = es) (cleanContext fd) fun _ s =>
      TableInv s ∧ s.procData = es := by
  simp only [cleanContext, core, Prog.bind_eq, Prog.bind_act, Prog.bind_pure]
  refine .core (onFound (fun t => TableInv t ∧ t.procData = es) fun c t => ∃ s,
    (TableInv s ∧ s.procData = es) ∧ c ∈ s.contextList ∧ (s.ctx c).fd = fd ∧
      t = s.removeContext c) ?_ fun found => ?_
  · rintro env s r s' h hexec
    obtain ⟨rfl, rfl⟩ := Prod.mk.inj (Option.some.inj hexec)
    cases hfind : s.findBnContext fd with
    | none => exact h
    | some c =>
      obtain ⟨hc, hfd⟩ := of_findBnContext hfind
      exact ⟨s, h, hc, hfd, rfl⟩
  cases found with
  | none => exact .pure fun _ h => h
  | some c =>
    refine .given fun t ht => .bind triple_putBnContext fun cleared => .pure fun t' ht' => ?_
    obtain ⟨s, ⟨h, hes⟩, hc, rfl, rfl⟩ := ht
    have hlive := (h.listed c hc).1
    have hgone : c ∉ (s.removeContext c).contextList := h.single.not_mem_erase
    have hdec : TableInv (decContext (s.removeContext c) c) :=
      h.removeContext.modify ⟨rfl, rfl, rfl⟩ fun hmem => absurd hmem hgone
    by_cases hlast : ((s.removeContext c).ctx c).opsCnt - 1 = 0
    · rw [if_pos hlast] at ht'
      obtain ⟨-, rfl⟩ := ht'
      refine ⟨hdec.finalized ⟨?_, rfl, ?_⟩ hgone ?_, hes⟩
      · simpa [decContext, Core.removeContext, Core.modify] using hlive.isOpen
      · simpa [decContext, Core.removeContext, Core.modify] using hlive.unfinalized
      · simpa [decContext, Core.removeContext, Core.modify, hes] using hfd
    · rw [if_neg hlast] at ht'
      obtain ⟨-, rfl⟩ := ht'
      exact ⟨hdec, hes⟩

theorem triple_processCaDied : CoreTriple TableInv (processCaDied pid) fun _ => TableInv := by
  simp only [processCaDied, core, Prog.bind_eq, Prog.bind_act, Prog.bind_pure]
  refine .core (fun outProcData s => TableInv s ∧ ∀ e, outProcData = some e →
    ∀ fd ∈ recorded e, Unrecorded s.procData fd) ?_ fun outProcData => ?_
  · rintro env s r s' h hexec
    rw [Core.exec] at hexec
    by_cases hlock : s.procLock = true
    · rw [if_pos hlock] at hexec
      cases hexec
    · rw [if_neg hlock] at hexec
      obtain ⟨rfl, rfl⟩ := Prod.mk.inj (Option.some.inj hexec)
      exact h.takeProcData
  cases outProcData with
  | none => exact .pure fun _ h => h.1
  | some e =>
    refine .given fun s h => ?_
    have hloop : CoreTriple (fun t => TableInv t ∧ t.procData = s.procData)
        (Prog.each cleanContext (recorded e)) fun _ t => TableInv t ∧ t.procData = s.procData :=
      .each fun fd hfd => triple_cleanContext (h.2 e rfl fd hfd)
    refine hloop.mono (fun t ht => ?_) fun _ _ ht => ht.1
    subst ht
    exact ⟨h.1, rfl⟩

theorem triple_onRemoteDied : CoreTriple TableInv (onRemoteDied pid) fun _ => TableInv := by
  simp only [onRemoteDied, core, Prog.bind_eq, Prog.bind_act, Prog.bind_pure]
  refine .core (fun _ => TableInv) ?_ fun clients => ?_
  · rintro env s r s' h hexec
    rw [Core.exec] at hexec
    by_cases hlock : s.clientLock = true
    · rw [if_pos hlock] at hexec
      cases hexec
    · rw [if_neg hlock] at hexec
      obtain ⟨rfl, rfl⟩ := Prod.mk.inj (Option.some.inj hexec)
      exact h.congr rfl rfl rfl rfl rfl
  refine .bind (.each fun _ _ => .bind triple_processCaDied fun _ => ?_) fun _ => ?_
  · refine .core (fun _ => TableInv) ?_ fun _ => .pure fun _ h => h
    rintro env s r s' h hexec
    rw [snd_of_exec hexec]
    exact h.congr rfl rfl rfl rfl rfl
  · refine .core (fun _ => TableInv) ?_ fun _ => .pure fun _ h => h
    rintro env s r s' h hexec
    rw [snd_of_exec hexec]
    exact h.congr rfl rfl rfl rfl rfl

end Deaths

section Tasks

variable {stack : Operation Addr} {memory : BitVec 64 → SharedMemory Addr}
variable {pointer : BitVec 64 → Addr} {identity : CallerIdentity} {teeVersion : U32}

theorem triple_then {α β : Type} {p : Program Addr α} {f : α → β}
    (h : CoreTriple TableInv p fun _ => TableInv) :
    CoreTriple TableInv (p.bind fun x => .pure (f x)) fun _ => TableInv :=
  .bind h fun _ => .pure fun _ h => h

theorem triple_closing {α : Type} {p : Program Addr α} {opFlag : Option Bool}
    {f : α → StubResult × Reply} (h : CoreTriple TableInv p fun _ => TableInv) :
    CoreTriple TableInv (closing stack opFlag p f) fun _ => TableInv :=
  .bind h fun _ => .bind .closeDupIonFd fun _ => .pure fun _ h => h

theorem triple_setCallBack {pid : Int} :
    CoreTriple TableInv (setCallBack pid) fun _ => TableInv := by
  refine .core (fun _ => TableInv) ?_ fun _ => .pure fun _ h => h
  rintro env s r s' h hexec
  rw [Core.exec] at hexec
  by_cases hlock : s.clientLock = true
  · rw [if_pos hlock] at hexec
    cases hexec
  · rw [if_neg hlock] at hexec
    obtain rfl : _ = s' := congrArg Prod.snd (Option.some.inj hexec)
    obtain ⟨clients, heq⟩ : ∃ clients, (s.addClient env.ok pid).2 = { s with clients } :=
      Core.addClient_eq
    rw [heq]
    exact h.congr rfl rfl rfl rfl rfl

theorem triple_onRemoteRequest (message : IpcMessage) :
    CoreTriple TableInv (onRemoteRequest stack memory pointer identity teeVersion message)
      fun _ => TableInv := by
  refine Served.onRemoteRequest (motive := fun p => CoreTriple TableInv p fun _ => TableInv) ?_
    teeVersion message
  exact {
    nothing := fun _ => .pure fun _ h => h
    unmapped := fun _ _ => triple_then .closeDupIonFd
    initContext := fun _ => triple_then triple_initializeContext
    finalContext := fun _ _ => triple_then triple_finalizeContext
    openSession := fun _ _ _ _ _ _ _ _ => triple_closing triple_openSession
    closeSession := fun _ _ _ => triple_then triple_closeSession
    invokeCommand := fun _ _ _ _ _ _ _ => triple_closing triple_invokeCommand
    registerMem := fun _ _ _ => triple_then triple_registerSharedMemory
    allocMem := fun _ _ _ => triple_then triple_allocateSharedMemory
    releaseMem := fun _ _ _ _ => triple_then triple_releaseSharedMemory
    setCallBack := fun _ => triple_then triple_setCallBack
    other := fun _ hp => .works (hp 0) }

theorem triple_program (task : Task) :
    CoreTriple TableInv (task.program stack memory pointer teeVersion) fun _ => TableInv := by
  cases task with
  | request identity message => exact triple_then (triple_onRemoteRequest message)
  | caDied pid => exact triple_onRemoteDied

end Tasks

section Sequences

/-- Where the daemon gets with tasks that run one after another, each of them to its end. -/
inductive AfterTasks (meets : (a : Act Addr) → Resp a → Bool) (w₀ : World Addr) :
    World Addr → Prop
  | start : AfterTasks meets w₀ w₀
  | next {w w' : World Addr} (h : AfterTasks meets w₀ w) (task : Task) (stack : Operation Addr)
      (memory : BitVec 64 → SharedMemory Addr) (pointer : BitVec 64 → Addr) (teeVersion : U32)
      (hrun : Runs (aloneStep meets) w (task.program stack memory pointer teeVersion) () w') :
      AfterTasks meets w₀ w'

theorem tableInv_init (objs : Objects Addr) : TableInv (init objs).core where
  keys := List.nodup_nil
  opened := List.forall_mem_nil _
  single := List.nodup_nil
  listed := List.forall_mem_nil _
  pids := List.nodup_nil
  slots := List.forall_mem_nil _
  live := List.forall_mem_nil _

theorem tableInv_afterTasks {objs : Objects Addr} {w : World Addr}
    (h : AfterTasks spares (init objs) w) : TableInv w.core := by
  induction h with
  | start => exact tableInv_init objs
  | next _ task stack memory pointer teeVersion hrun ih =>
    exact wp_sound (triple_program task _ ih) hrun

theorem tableOk_afterTasks (objs : Objects Addr) (w : World Addr)
    (h : AfterTasks spares (init objs) w) : TableOk w.core :=
  (tableInv_afterTasks h).tableOk

def serve (meets : (a : Act Addr) → Resp a → Bool) (stack : Operation Addr) :
    List (Task × List (Env Addr)) → World Addr → Option (World Addr)
  | [], w => some w
  | (task, envs) :: tasks, w =>
    (solo (execMeeting meets) envs w (task.program stack noMemory .raw 0)).bind
      fun (_, w') => serve meets stack tasks w'

theorem AfterTasks.serve {meets : (a : Act Addr) → Resp a → Bool} {stack : Operation Addr}
    {w₀ w w' : World Addr} (tasks : List (Task × List (Env Addr))) (h : AfterTasks meets w₀ w)
    (hserve : serve meets stack tasks w = some w') : AfterTasks meets w₀ w' := by
  induction tasks generalizing w with
  | nil =>
    obtain rfl := Option.some.inj hserve
    exact h
  | cons x tasks ih =>
    obtain ⟨⟨⟨⟩, v⟩, hsolo, hrest⟩ := Option.bind_eq_some_iff.mp hserve
    exact ih (h.next x.1 _ _ _ _ (runs_of_solo hsolo)) hrest

def invokeNothing : IpcMessage := .invokeCommand {
  opFlag := some false
  operation := none
  ionFds := fun _ => -1
  optMemSize := some 0
  optMem := none
  interfaceToken := true
  context := some 9
  session := some 0
  commandID := some 0 }

/-- The process 1 opens a context and finalises it; then the process 2 gets the descriptor 3, and
the stack of the last request shows a descriptor 9 that is not open. -/
def reuse : List (Task × List (Env Addr)) :=
  [(.request ⟨1, 1, 1⟩ (.initContext true (some none)), List.replicate 18 (answer true 3)),
    (.request ⟨1, 1, 1⟩ (.finalContext true (some 3)), List.replicate 12 (answer true 3)),
    (.request ⟨2, 2, 2⟩ (.initContext true (some none)), List.replicate 18 (answer true 3)),
    (.request ⟨1, 1, 1⟩ invokeNothing, List.replicate 10 (answer false 3))]

theorem tableOk_reused : ∃ w, AfterTasks spares (init noObjects) w ∧
    w.core.procData.map (fun e => (e.callerIdentity.pid, recorded e)) = [(2, [3])] ∧
    TableOk w.core := by
  have hrun : (serve spares (stackBytes 0x8 9) reuse (init noObjects)).map (fun w =>
      w.core.procData.map fun e => (e.callerIdentity.pid, recorded e)) = some [(2, [3])] := by
    rfl
  obtain ⟨w, hserve, htable⟩ := Option.map_eq_some_iff.mp hrun
  have hafter : AfterTasks spares (init noObjects) w := AfterTasks.start.serve reuse hserve
  exact ⟨w, hafter, htable, tableOk_afterTasks noObjects w hafter⟩

def closedUnderneath : List (Task × List (Env Addr)) :=
  [(.request ⟨1, 1, 1⟩ (.initContext true (some none)), List.replicate 18 (answer true 3)),
    (.request ⟨2, 2, 2⟩ invokeNothing, List.replicate 10 (answer true 3))]

theorem not_tableOk_closedUnderneath : ¬ ∀ (objs : Objects Addr) (w : World Addr),
    AfterTasks (fun _ _ => true) (init objs) w → TableOk w.core := by
  intro hall
  have hrun : (serve (fun _ _ => true) (stackBytes 0x8 3) closedUnderneath (init noObjects)).map
      (fun w => (w.core.openFds.map (·.1), w.core.procData.flatMap recorded)) =
      some ([], [3]) := by
    rfl
  obtain ⟨w, hserve, hend⟩ := Option.map_eq_some_iff.mp hrun
  obtain ⟨hclosed, hrecorded⟩ := Prod.mk.inj hend
  have htable := hall noObjects w (AfterTasks.start.serve closedUnderneath hserve)
  have hnot := htable.reusable 3 (hclosed ▸ List.not_mem_nil)
  exact hnot (hrecorded ▸ List.mem_cons_self)

end Sequences

end TeeClient.Daemon.Service
