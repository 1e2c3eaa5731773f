import Mathlib.Tactic
import TeeClient.Vendor.ObjectLifetime

/-! Every critical section on sessions and blocks does to the counts, the lists and the memory
what its events say. -/

namespace TeeClient.Vendor

open RefCount

variable {P : Type}

section Lists

variable {s : Objects P}

theorem follows_takeAll {e : Nat → Shared} (he : Function.Injective e) {g g' : Ledger Shared}
    {ms : List Nat} (hcount : ∀ m, g.listed (e m) = ms.count m) (hknown : g'.known = g.known)
    (hlife : g'.life = g.life) (hempty : ∀ m, g'.listed (e m) = 0)
    (hother : ∀ o, (∀ m, o ≠ e m) → g'.listed o = g.listed o) :
    g.Follows (ms.map fun m => .remove (e m)) g' := by
  induction ms generalizing g with
  | nil =>
    have hlisted : g'.listed = g.listed := by
      funext o
      by_cases ho : ∃ m, o = e m
      · obtain ⟨m, rfl⟩ := ho
        rw [hempty, hcount]
        rfl
      · exact hother o fun m hm => ho ⟨m, hm⟩
    cases g
    cases g'
    simp_all
  | cons m ms ih =>
    have happly : g.apply (.remove (e m)) = {
        g with listed := Function.update g.listed (e m) (g.listed (e m) - 1) } := by
      rw [Ledger.apply_eq (by simp)]
      simp [Event.obj, Event.onLife, Event.onListed]
    refine ⟨?_, ?_⟩
    · rw [Ledger.Allows, hcount]
      simp
    · rw [happly]
      refine ih (fun p => ?_) hknown hlife fun o ho => ?_
      · by_cases hp : p = m
        · subst hp
          simp [hcount]
        · have hne : e p ≠ e m := fun heq => hp (he heq)
          simp [hne, hcount, Ne.symm hp]
      · simp [ho m, hother o ho]

theorem follows_takeSessions {c : Nat} :
    s.ledger.Follows ((s.sessionList c).map fun m => .remove (.session c m))
      (s.setSessionList c []).ledger := by
  refine follows_takeAll (e := .session c) (fun _ _ h => (Shared.session.inj h).2)
    (fun _ => rfl) ?_ ?_ (fun m => ?_) fun o ho => ?_
  · funext p
    cases p <;> rfl
  · funext p
    cases p <;> rfl
  · simp [Objects.ledger, Objects.listed, Objects.setSessionList]
  · cases o with
    | shm d b => rfl
    | session d m =>
      have hd : d ≠ c := by
        rintro rfl
        exact ho m rfl
      simp [Objects.ledger, Objects.listed, Objects.setSessionList, hd]

def ShmTable.unlistAll (t : ShmTable P) : ShmTable P :=
  { t with blocks := t.blocks.map ({ · with listed := false }) }

theorem find?_unlistAll (t : ShmTable P) (b : Nat) :
    t.unlistAll.blocks.find? (·.id = b) =
      (t.blocks.find? (·.id = b)).map ({ · with listed := false }) := by
  rw [ShmTable.unlistAll, List.find?_map]
  rfl

theorem follows_takeShms {c : Nat} (htidy : s.Tidy) :
    s.ledger.Follows (((s.shm c).shrdMemList.map (·.id)).map fun b => .remove (.shm c b))
      (s.setShm c (s.shm c).unlistAll).ledger := by
  have hfind (d b : Nat) : (s.setShm c (s.shm c).unlistAll).findShm d b =
      if d = c then (s.findShm d b).map ({ · with listed := false }) else s.findShm d b := by
    rw [findShm_setShm, find?_unlistAll]
    split_ifs with hd
    · rw [hd]
      rfl
    · rfl
  have hknown : (s.setShm c (s.shm c).unlistAll).known = s.known := by
    funext p
    cases p with
    | session d m => rfl
    | shm d b =>
      by_cases hd : d = c
      · subst hd
        simp [Objects.known, Objects.setShm, ShmTable.unlistAll]
      · simp [Objects.known, Objects.setShm, hd]
  have hlife (p : Shared) : (s.setShm c (s.shm c).unlistAll).life p = s.life p := by
    cases p with
    | session d m => rfl
    | shm d b =>
      simp only [Objects.life, hfind]
      split_ifs
      · cases s.findShm d b <;> rfl
      · rfl
  refine follows_takeAll (e := .shm c) (fun _ _ h => (Shared.shm.inj h).2)
    (fun b => htidy.count_shrdMemList.symm) hknown ?_ (fun b => ?_) fun o ho => ?_
  · funext p
    simp only [Objects.ledger, hknown, hlife]
  · simp only [Objects.ledger, Objects.listed, hfind]
    cases s.findShm c b <;> simp
  · cases o with
    | session d m => rfl
    | shm d b =>
      have hd : d ≠ c := by
        rintro rfl
        exact ho b rfl
      simp only [Objects.ledger, Objects.listed, hfind, if_neg hd]

end Lists

section Inserts

variable {s : Objects P} {n : Ref Shared → Nat}

theorem listed_of_findBnSession {c m : Nat} {sessionId : U32}
    (h : s.findBnSession c sessionId = some m) : 0 < s.listed (.session c m) :=
  List.count_pos_iff.mpr (List.mem_of_find?_eq_some h)

theorem follows_addSessionList {c m : Nat} {sessionId : U32} (hacc : Accounts s.ledger n)
    (hown : 0 < n (.own (.session c m))) :
    s.ledger.Follows [.set (.session c m), .insert (.session c m)]
      (s.addSessionList c m sessionId).ledger := by
  obtain ⟨hknown, hfrees, -, hlisted⟩ := facts_of_own hacc hown
  have hset := changes_modifySession (s := s) (c := c) (n := m)
    (f := fun x => { x with sessionId, opsCnt := 2, wasListed := true }) (fun _ => rfl) hknown
  have hlist := changes_setSessionList (n := m) (c := c)
    (s := s.modifySession m fun x => { x with sessionId, opsCnt := 2, wasListed := true })
    ((s.sessionList c).filter (· ≠ m) ++ [m]) fun p hp => by
      have hout : [m].count p = 0 := List.count_eq_zero.mpr (by simpa using hp)
      rw [List.count_append, List.count_filter (by simpa using hp), hout]
      rfl
  refine ⟨trivial, trivial, (hset.trans hlist).insert hknown ?_ ?_⟩
  · simp only [Objects.life] at hfrees ⊢
    simp [Objects.modifySession, lifeOf] at hfrees ⊢
    simp [hfrees]
  · have hzero : (s.sessionList c).count m = 0 := hlisted
    simp [List.count_append, Objects.listed, hzero, List.count_eq_zero]

theorem findShm_of_own {c b : Nat} (hacc : Accounts s.ledger n) (htidy : s.Tidy)
    (hown : 0 < n (.own (.shm c b))) : s.findShm c b = none := by
  obtain ⟨-, -, hnew, -⟩ := facts_of_own hacc hown
  cases hfind : s.findShm c b with
  | none => rfl
  | some x =>
    have hpresent := (htidy.present c b).mp (by rw [hfind]; rfl)
    exact absurd (hnew.symm.trans hpresent.2.1) (by simp)

theorem findShm_of_fin {c b : Nat} (hacc : Accounts s.ledger n) (htidy : s.Tidy)
    (hfin : 0 < n (.fin (.shm c b))) : ∃ x, s.findShm c b = some x := by
  obtain ⟨hknown, hfrees, hwas, -, -⟩ := facts_of_fin hacc hfin
  refine Option.isSome_iff_exists.mp ((htidy.present c b).mpr ⟨?_, hwas, hfrees⟩)
  simpa [Objects.known] using hknown

def insertedTable (s : Objects P) (c b : Nat) (shm : ShmArgs P) (isAllocated : Bool)
    (offset : U32) : ShmTable P :=
  { ({ s.shm c with nextId := b }.insert shm isAllocated offset) with nextId := (s.shm c).nextId }

theorem find?_insertedTable {c b d : Nat} {shm : ShmArgs P} {isAllocated : Bool} {offset : U32} :
    (insertedTable s c b shm isAllocated offset).blocks.find? (·.id = d) =
      (s.findShm c d).or (if b = d then some {
        id := b, buffer := shm.buffer, size := shm.size, flags := shm.flags, opsCnt := 2,
        isAllocated, offset, listed := true } else none) := by
  simp only [insertedTable, ShmTable.insert, List.find?_append]
  by_cases hd : b = d <;> simp [hd, Objects.findShm]

theorem follows_insertShm {c b : Nat} {shm : ShmArgs P} {isAllocated : Bool} {offset : U32}
    (hacc : Accounts s.ledger n) (htidy : s.Tidy) (hown : 0 < n (.own (.shm c b))) :
    s.ledger.Follows [.set (.shm c b), .insert (.shm c b)]
      (s.insertShm c b shm isAllocated offset).ledger := by
  obtain ⟨hknown, hfrees, -, hlisted⟩ := facts_of_own hacc hown
  have hnone := findShm_of_own hacc htidy hown
  have htable := changes_setShm (s := s) (c := c) (b := b)
    (t := insertedTable s c b shm isAllocated offset) rfl fun d hd => by
      rw [find?_insertedTable, if_neg (Ne.symm hd), Option.or_none]
  have hfate := changes_setFate (s := s.setShm c (insertedTable s c b shm isAllocated offset))
    (c := c) (b := b) { s.shmFate c b with wasListed := true }
  refine ⟨trivial, trivial, (htable.trans hfate).insert hknown ?_ ?_⟩
  · rw [findShm_setShm, if_pos rfl, find?_insertedTable, hnone]
    simp only [Objects.life, lifeOf] at hfrees ⊢
    simp [hfrees]
  · rw [htable.listed, find?_insertedTable, hnone, hlisted]
    simp

theorem follows_lookup {α : Type} {r : Option α} {f : α → Objects P} {e : α → Event Shared}
    {r' : Option α} (h : found r s f = some (r', s'))
    (hf : ∀ x, r = some x → s.ledger.Follows [e x] (f x).ledger) :
    s.ledger.Follows ((Option.toList r').map e) s'.ledger := by
  obtain ⟨rfl, rfl⟩ := Prod.mk.inj (Option.some.inj h)
  cases r with
  | none => rfl
  | some x => exact hf x rfl

theorem follows_modifySession {c m : Nat} {f : Session → Session} {e : Event Shared}
    (hf : ∀ x, (f x).home = x.home) (he : ∀ o, e ≠ .malloc o) (hobj : e.obj = .session c m)
    (hknown : s.known (.session c m) = true) (hallows : s.ledger.Allows e)
    (hlife : lifeOf (f (s.session m)).opsCnt (f (s.session m)).frees (f (s.session m)).wasListed =
      e.onLife (s.life (.session c m)))
    (hlisted : ∀ k, e.onListed k = k) :
    s.ledger.Follows [e] (s.modifySession m f).ledger := by
  have h := changes_modifySession (s := s) (c := c) (n := m) hf hknown
  rw [← hobj] at h hknown hlife
  exact Ledger.follows_one hallows (h.apply he hknown hlife (hlisted _).symm)

theorem setShm_self {c : Nat} : s.setShm c (s.shm c) = s := by
  simp [Objects.setShm]

theorem follows_modifyShm {c b : Nat} {f : SharedMemoryInner P → SharedMemoryInner P}
    {e : Event Shared} {x : SharedMemoryInner P} (htidy : s.Tidy) (hx : s.findShm c b = some x)
    (hf : ∀ x, (f x).id = x.id) (he : ∀ o, e ≠ .malloc o) (hobj : e.obj = .shm c b)
    (hallows : s.ledger.Allows e)
    (hlife : lifeOf (f x).opsCnt (s.shmFate c b).frees (s.shmFate c b).wasListed =
      e.onLife (s.life (.shm c b)))
    (hlisted : (if (f x).listed then 1 else 0) = e.onListed (s.listed (.shm c b))) :
    s.ledger.Follows [e] (s.setShm c ((s.shm c).modify b f)).ledger := by
  have hknown : s.known (.shm c b) = true := by
    have hpresent := (htidy.present c b).mp (by rw [hx]; rfl)
    simp [Objects.known, hpresent.1]
  have h := changes_modifyShm (s := s) (c := c) (b := b) hf
  rw [hx, Option.map_some, Option.elim_some, Option.any_some] at h
  rw [← hobj] at h hknown hlife hlisted
  exact Ledger.follows_one hallows (h.apply he hknown hlife hlisted)

theorem find?_releaseSharedMemory {c b d : Nat} [Zero P] [DecidableEq P] {x : SharedMemoryInner P}
    (hx : s.findShm c b = some x) :
    (releaseSharedMemory x (s.shm c)).blocks.find? (·.id = d) =
      if d = b then none else s.findShm c d := by
  simp only [releaseSharedMemory, List.find?_filter, findShm_id hx]
  split_ifs with hd
  · subst hd
    simp
  · simp only [Objects.findShm]
    congr 1
    funext y
    by_cases hy : y.id = d
    · simp [hy, hd]
    · simp [hy]

theorem follows_releaseShm {c b : Nat} [Zero P] [DecidableEq P] (hacc : Accounts s.ledger n)
    (hfin : 0 < n (.fin (.shm c b))) {x : SharedMemoryInner P}
    (hx : s.findShm c b = some x) :
    s.ledger.Follows [.free (.shm c b)]
      ((s.countFree c b).setShm c (releaseSharedMemory x (s.shm c))).ledger := by
  obtain ⟨hknown, hfrees, hwas, hlisted, hcnt⟩ := facts_of_fin hacc hfin
  have hfate := changes_setFate (s := s) (c := c) (b := b)
    { s.shmFate c b with frees := (s.shmFate c b).frees + 1 }
  have htable := changes_setShm (s := s.countFree c b) (c := c) (b := b)
    (t := releaseSharedMemory x (s.shm c)) rfl fun d hd => by
      rw [find?_releaseSharedMemory hx, if_neg hd]
      rfl
  refine Ledger.follows_one trivial ((hfate.trans htable).apply (by simp) hknown ?_ ?_)
  · rw [find?_releaseSharedMemory hx, if_pos rfl]
    simp only [Objects.life, lifeOf] at hcnt hwas
    simp [Event.onLife, Event.obj, Objects.life, lifeOf, Objects.countFree, Objects.setFate, hcnt,
      hwas]
  · rw [find?_releaseSharedMemory hx, if_pos rfl]
    simp [Event.onListed, Event.obj, hlisted]

theorem ledger_modifySession {m : Nat} {f : Session → Session}
    (hf : ∀ x, (f x).home = x.home ∧ (f x).opsCnt = x.opsCnt ∧ (f x).frees = x.frees ∧
      (f x).wasListed = x.wasListed) : (s.modifySession m f).ledger = s.ledger := by
  have hsame (k : Nat) : ((s.modifySession m f).session k).home = (s.session k).home ∧
      ((s.modifySession m f).session k).opsCnt = (s.session k).opsCnt ∧
      ((s.modifySession m f).session k).frees = (s.session k).frees ∧
      ((s.modifySession m f).session k).wasListed = (s.session k).wasListed := by
    by_cases hk : k = m
    · subst hk
      simpa [Objects.modifySession] using hf (s.session k)
    · simp [Objects.modifySession, hk]
  refine Objects.ledger_congr ?_ (fun p _ => ?_) ?_
  · funext p
    cases p with
    | session d k =>
      simp only [Objects.known, (hsame k).1]
      rfl
    | shm d b => rfl
  · cases p with
    | session d k => simp only [Objects.life, (hsame k).2.1, (hsame k).2.2.1, (hsame k).2.2.2]
    | shm d b => rfl
  · funext p
    cases p <;> rfl

theorem ledger_setShm {c : Nat} {t : ShmTable P} (hnext : t.nextId = (s.shm c).nextId)
    (hblocks : t.blocks = (s.shm c).blocks) : (s.setShm c t).ledger = s.ledger := by
  have hfind (d b : Nat) : (s.setShm c t).findShm d b = s.findShm d b := by
    rw [findShm_setShm, hblocks]
    split_ifs with hd
    · rw [hd]
      rfl
    · rfl
  refine Objects.ledger_congr ?_ (fun p _ => ?_) ?_
  · funext p
    cases p with
    | session d k => rfl
    | shm d b =>
      by_cases hd : d = c
      · subst hd
        simp [Objects.known, Objects.setShm, hnext]
      · simp [Objects.known, Objects.setShm, hd]
  · cases p with
    | session d k => rfl
    | shm d b =>
      simp only [Objects.life, hfind]
      rfl
  · funext p
    cases p with
    | session d k => rfl
    | shm d b => simp only [Objects.listed, hfind]

theorem ledger_initLists {c : Nat} (hacc : Accounts s.ledger n)
    (hnone : ∀ o : Shared, o.context = c → s.known o = false) :
    ((s.setSessionList c []).setShm c .init).ledger = s.ledger := by
  have hfresh (o : Shared) (ho : o.context = c) : s.listed o = 0 :=
    (hacc.fresh o (hnone o ho)).1
  have hfind (d b : Nat) (hd : d ≠ c) :
      ((s.setSessionList c []).setShm c .init).findShm d b = s.findShm d b := by
    rw [findShm_setShm, if_neg hd]
    rfl
  refine Objects.ledger_congr ?_ (fun p hp => ?_) ?_
  · funext p
    cases p with
    | session d k => rfl
    | shm d b =>
      by_cases hd : d = c
      · subst hd
        rw [hnone _ rfl]
        simp [Objects.known, Objects.setShm, ShmTable.init]
      · simp [Objects.known, Objects.setShm, Objects.setSessionList, hd]
  · cases p with
    | session d k => rfl
    | shm d b =>
      have hd : d ≠ c := by
        rintro rfl
        exact absurd (hp.symm.trans (hnone _ rfl)) (by simp)
      simp only [Objects.life, hfind d b hd]
      rfl
  · funext p
    by_cases hd : p.context = c
    · rw [hfresh p hd]
      cases p with
      | session d k =>
        obtain rfl : d = c := hd
        simp [Objects.listed, Objects.setShm, Objects.setSessionList]
      | shm d b =>
        obtain rfl : d = c := hd
        simp [Objects.listed, findShm_setShm, ShmTable.init]
    · cases p with
      | session d k =>
        have hd : d ≠ c := hd
        simp [Objects.listed, Objects.setShm, Objects.setSessionList, hd]
      | shm d b => simp only [Objects.listed, hfind d b hd]

end Inserts

section Exec

variable [DecidableEq P] [Zero P] {s s' : Objects P} {env : Env P} {n : Ref Shared → Nat}
  {l : List (Ref Shared)}

/-- What an action needs to find so that the count of references stays right. -/
def Backed (g : Ledger Shared) (n : Ref Shared → Nat) (l : List (Ref Shared)) : ObjAct P → Prop
  | .initLists c => ∀ o : Shared, o.context = c → g.known o = false
  | .addSessionList c m _ => 0 < n (.own (.session c m))
  | .freeSession c m =>
    if .own (.session c m) ∈ l then 0 < n (.own (.session c m))
    else 0 < n (.hold (.session c m)) ∧ (g.life (.session c m)).opsCnt = 1
  | .atomDecSession c m => 0 < n (.hold (.session c m)) + n (.removed (.session c m))
  | .releaseSession c m => 0 < n (.fin (.session c m))
  | .insertShm c b _ _ _ | .freeShm c b => 0 < n (.own (.shm c b))
  | .atomDecShm c b => 0 < n (.hold (.shm c b)) + n (.removed (.shm c b))
  | .releaseShm c b => 0 < n (.fin (.shm c b))
  | .unlinkShm c b => 0 < g.listed (.shm c b)
  | _ => True

theorem follows_objEvents {a : ObjAct P} {r : ObjResp a} (h : s.exec env a = some (r, s'))
    (hacc : Accounts s.ledger n) (htidy : s.Tidy) (hback : Backed s.ledger n l a) :
    s.ledger.Follows (objEvents l a r) s'.ledger := by
  cases a
  case mallocSession c =>
    simp only [Objects.exec] at h
    split_ifs at h
    · obtain ⟨rfl, rfl⟩ := Prod.mk.inj (Option.some.inj h)
      refine Ledger.follows_one ?_ ledger_mallocSession
      simp [Ledger.Allows, Objects.ledger, Objects.known]
    · obtain ⟨rfl, rfl⟩ := Prod.mk.inj (Option.some.inj h)
      exact rfl
  case addSessionList c m sessionId =>
    obtain ⟨-, rfl⟩ := Prod.mk.inj (Option.some.inj h)
    exact follows_addSessionList hacc hback
  case getBnSession c sessionId =>
    refine follows_lookup h fun m hm => ?_
    have hlisted := listed_of_findBnSession hm
    exact follows_modifySession (c := c) (fun _ => rfl) (by simp) rfl
      (known_of_listed hacc hlisted) hlisted rfl fun _ => rfl
  case findAndRemoveSession c sessionId =>
    refine follows_lookup h fun m hm => ?_
    have hlisted := listed_of_findBnSession hm
    have hlist := changes_setSessionList (s := s) (c := c) (n := m)
      ((s.sessionList c).erase m) fun p hp => List.count_erase_of_ne hp
    refine Ledger.follows_one hlisted (hlist.apply (e := .remove (.session c m)) (by simp)
      (known_of_listed hacc hlisted) rfl ?_)
    simp [Event.onListed, Event.obj, Objects.listed]
  case takeSessions c =>
    obtain ⟨rfl, rfl⟩ := Prod.mk.inj (Option.some.inj h)
    exact follows_takeSessions
  case atomDecSession c m =>
    obtain ⟨rfl, rfl⟩ := Prod.mk.inj (Option.some.inj h)
    obtain ⟨hknown, -, -⟩ := facts_of_counted hacc hback
    refine follows_modifySession (c := c) (fun _ => rfl) (by simp) rfl hknown ?_ rfl fun _ => rfl
    simp only [Ledger.Allows]
    have hlife := ledger_life hknown
    rw [hlife]
    rfl
  case freeSession c m =>
    obtain ⟨-, rfl⟩ := Prod.mk.inj (Option.some.inj h)
    simp only [Backed] at hback
    simp only [objEvents]
    split_ifs at hback ⊢ with hown
    · obtain ⟨hknown, -, hnew, -⟩ := facts_of_own hacc hback
      refine follows_modifySession (c := c) (fun _ => rfl) (by simp) rfl hknown trivial ?_
        fun _ => rfl
      simp only [Objects.life, lifeOf] at hnew ⊢
      simp [Event.onLife, hnew]
    · obtain ⟨hhold, hone⟩ := hback
      obtain ⟨hknown, hwas, -⟩ := facts_of_counted hacc (Nat.add_pos_left hhold _)
      refine follows_modifySession (c := c) (fun _ => rfl) (by simp) rfl hknown hone ?_
        fun _ => rfl
      simp only [Objects.life, lifeOf] at hwas ⊢
      simp [Event.onLife, hwas]
  case releaseSession c m =>
    obtain ⟨-, rfl⟩ := Prod.mk.inj (Option.some.inj h)
    obtain ⟨hknown, -, hwas, -⟩ := facts_of_fin hacc hback
    refine follows_modifySession (c := c) (fun _ => rfl) (by simp) rfl hknown trivial ?_
      fun _ => rfl
    simp only [Objects.life, lifeOf] at hwas ⊢
    simp [Event.onLife, hwas]
  case mallocShm c =>
    obtain ⟨rfl, rfl⟩ := Prod.mk.inj (Option.some.inj h)
    have hnone : s.findShm c (s.shm c).nextId = none := by
      cases hfind : s.findShm c (s.shm c).nextId with
      | none => rfl
      | some x =>
        have hpresent := (htidy.present c (s.shm c).nextId).mp (by rw [hfind]; rfl)
        exact absurd hpresent.1 (lt_irrefl _)
    refine Ledger.follows_one ?_ (ledger_mallocShm hnone)
    simp [Ledger.Allows, Objects.ledger, Objects.known]
  case freeShm c b =>
    obtain ⟨-, rfl⟩ := Prod.mk.inj (Option.some.inj h)
    obtain ⟨hknown, -, hnew, -⟩ := facts_of_own hacc hback
    have hfate := changes_setFate (s := s) (c := c) (b := b)
      { s.shmFate c b with frees := (s.shmFate c b).frees + 1 }
    refine Ledger.follows_one trivial
      (hfate.apply (e := .discard (.shm c b)) (by simp) hknown ?_ rfl)
    simp only [Objects.life, lifeOf] at hnew
    simp [Event.onLife, Event.obj, Objects.life, lifeOf, hnew]
  case insertShm c b shm isAllocated offset =>
    obtain ⟨-, rfl⟩ := Prod.mk.inj (Option.some.inj h)
    exact follows_insertShm hacc htidy hback
  case getBnShmByOffset c shmOffset =>
    simp only [Objects.exec, getBnShmByOffset] at h
    cases hfind : (s.shm c).shrdMemList.find? (·.offset = shmOffset) with
    | none =>
      rw [hfind] at h
      obtain ⟨rfl, rfl⟩ := Prod.mk.inj (Option.some.inj h)
      rw [setShm_self]
      exact rfl
    | some x =>
      rw [hfind] at h
      obtain ⟨rfl, rfl⟩ := Prod.mk.inj (Option.some.inj h)
      obtain ⟨hx, hlisted⟩ := htidy.findShm_of_mem (List.mem_of_find?_eq_some hfind)
      have hone := listed_eq_one hx hlisted
      refine follows_modifyShm (e := .get (.shm c x.id)) htidy hx (fun _ => rfl) (by simp) rfl
        (by simp [Ledger.Allows, Objects.ledger, hone]) ?_ ?_
      · simp [Event.onLife, Objects.life, lifeOf, hx]
      · simp [Event.onListed, hone, hlisted]
  case findAndRemoveShrMem c callFromService shm =>
    simp only [Objects.exec, teecFindAndRemoveShrMemInner] at h
    cases hfind : (s.shm c).shrdMemList.find? (matchesArgs callFromService shm) with
    | none =>
      rw [hfind] at h
      obtain ⟨rfl, rfl⟩ := Prod.mk.inj (Option.some.inj h)
      rw [setShm_self]
      exact rfl
    | some x =>
      rw [hfind] at h
      obtain ⟨rfl, rfl⟩ := Prod.mk.inj (Option.some.inj h)
      obtain ⟨hx, hlisted⟩ := htidy.findShm_of_mem (List.mem_of_find?_eq_some hfind)
      have hone := listed_eq_one hx hlisted
      refine follows_modifyShm (e := .remove (.shm c x.id)) htidy hx (fun _ => rfl) (by simp)
        rfl (by simp [Ledger.Allows, Objects.ledger, hone]) ?_ ?_
      · simp [Event.onLife, Objects.life, lifeOf, hx]
      · simp [Event.onListed, hone]
  case takeShms c =>
    obtain ⟨rfl, rfl⟩ := Prod.mk.inj (Option.some.inj h)
    exact follows_takeShms htidy
  case unlinkShm c b =>
    obtain ⟨-, rfl⟩ := Prod.mk.inj (Option.some.inj h)
    obtain ⟨x, hx, hlisted⟩ := findShm_of_listed hback
    have hone := listed_eq_one hx hlisted
    refine follows_modifyShm (e := .remove (.shm c b)) htidy hx (fun _ => rfl) (by simp) rfl
      hback ?_ ?_
    · simp [Event.onLife, Objects.life, lifeOf, hx]
    · simp [Event.onListed, hone]
  case atomDecShm c b =>
    obtain ⟨rfl, rfl⟩ := Prod.mk.inj (Option.some.inj h)
    obtain ⟨hknown, -, hcnt⟩ := facts_of_counted hacc hback
    cases hx : s.findShm c b with
    | none => simp [Objects.life, lifeOf, hx] at hcnt
    | some x =>
      refine follows_modifyShm (e := .put (.shm c b) _) htidy hx (fun _ => rfl) (by simp) rfl
        ?_ ?_ ?_
      · simp [Ledger.Allows, ledger_life hknown, Objects.life, lifeOf, hx]
      · simp [Event.onLife, Objects.life, lifeOf, hx]
      · simp [Event.onListed, Objects.listed, hx]
  case releaseShm c b =>
    obtain ⟨-, rfl⟩ := Prod.mk.inj (Option.some.inj h)
    obtain ⟨x, hx⟩ := findShm_of_fin hacc htidy hback
    rw [hx]
    exact follows_releaseShm hacc hback hx
  case initLists c =>
    obtain ⟨-, rfl⟩ := Prod.mk.inj (Option.some.inj h)
    exact ledger_initLists hacc hback
  case clearSession c m =>
    obtain ⟨-, rfl⟩ := Prod.mk.inj (Option.some.inj h)
    exact ledger_modifySession fun _ => ⟨rfl, rfl, rfl, rfl⟩
  case getAndSetBit | clearBit =>
    obtain ⟨-, rfl⟩ := Prod.mk.inj (Option.some.inj h)
    exact ledger_setShm rfl rfl
  case readSession | mapBuffer | readShm | checkSharedBufferExist =>
    obtain ⟨-, rfl⟩ := Prod.mk.inj (Option.some.inj h)
    exact rfl

omit [DecidableEq P] [Zero P] in
theorem tidy_insertShm {c b : Nat} {shm : ShmArgs P} {isAllocated : Bool} {offset : U32}
    (hacc : Accounts s.ledger n) (htidy : s.Tidy) (hown : 0 < n (.own (.shm c b))) :
    (s.insertShm c b shm isAllocated offset).Tidy := by
  obtain ⟨hknown, hfrees, -, -⟩ := facts_of_own hacc hown
  have hnone := findShm_of_own hacc htidy hown
  have hlt : b < (s.shm c).nextId := by simpa [Objects.known] using hknown
  have hzero : (s.shmFate c b).frees = 0 := hfrees
  have hfind (d e : Nat) : (s.insertShm c b shm isAllocated offset).findShm d e =
      if d = c then (insertedTable s c b shm isAllocated offset).blocks.find? (·.id = e)
      else s.findShm d e := findShm_setShm
  refine ⟨ids_setShm htidy ?_, fun d e => ?_⟩
  · have hnew (x : SharedMemoryInner P) (hx : x ∈ (s.shm c).blocks) : x.id ≠ b := by
      rintro rfl
      exact absurd (hnone.symm.trans (ShmTable.find?_id (htidy.ids c) hx)) (by simp)
    refine List.pairwise_append.mpr ⟨htidy.ids c, List.pairwise_singleton _ _, fun x hx y hy => ?_⟩
    rw [List.mem_singleton.mp hy]
    exact hnew x hx
  · have hfate : (s.insertShm c b shm isAllocated offset).shmFate d e =
        if d = c ∧ e = b then { s.shmFate c b with wasListed := true } else s.shmFate d e :=
      shmFate_setFate _
    have hnext : ((s.insertShm c b shm isAllocated offset).shm d).nextId = (s.shm d).nextId := by
      refine nextId_setShm.trans ?_
      by_cases hd : d = c <;> simp [hd]
    rw [hfind, hfate, hnext]
    by_cases hd : d = c
    · subst hd
      rw [if_pos rfl, find?_insertedTable]
      by_cases he : e = b
      · subst he
        simp [hnone, hlt, hzero]
      · simpa [he, Ne.symm he] using htidy.present d e
    · simpa [hd] using htidy.present d e

omit [DecidableEq P] [Zero P] in
theorem tidy_mallocShm {c : Nat} (htidy : s.Tidy) : (s.mallocShm c).Tidy := by
  have hnew : (s.setShm c { s.shm c with nextId := (s.shm c).nextId + 1 }).findShm c
      (s.shm c).nextId = none := by
    rw [findShm_setShm, if_pos rfl]
    cases hfind : s.findShm c (s.shm c).nextId with
    | none => exact hfind
    | some x =>
      have hpresent := (htidy.present c (s.shm c).nextId).mp (by rw [hfind]; rfl)
      exact absurd hpresent.1 (lt_irrefl _)
  refine ⟨ids_setShm htidy (htidy.ids c), fun d e => ?_⟩
  have hfind : (s.mallocShm c).findShm d e = s.findShm d e := by
    refine findShm_setShm.trans ?_
    by_cases hd : d = c
    · subst hd
      simp [Objects.findShm]
    · simp [hd]
  have hfate : (s.mallocShm c).shmFate d e =
      if d = c ∧ e = (s.shm c).nextId then { frees := 0, wasListed := false } else s.shmFate d e :=
    shmFate_setFate _
  have hnext : ((s.mallocShm c).shm d).nextId =
      if d = c then (s.shm c).nextId + 1 else (s.shm d).nextId := nextId_setShm
  rw [hfind, hfate, hnext]
  by_cases hd : d = c
  · subst hd
    by_cases he : e = (s.shm d).nextId
    · subst he
      rw [findShm_setShm, if_pos rfl] at hnew
      have hnone : s.findShm d (s.shm d).nextId = none := hnew
      simp [hnone]
    · have hiff : e < (s.shm d).nextId + 1 ↔ e < (s.shm d).nextId := by omega
      simpa [he, hiff] using htidy.present d e
  · simpa [hd] using htidy.present d e

theorem tidy_releaseShm {c b : Nat} {x : SharedMemoryInner P} (htidy : s.Tidy)
    (hx : s.findShm c b = some x) :
    ((s.countFree c b).setShm c (releaseSharedMemory x (s.shm c))).Tidy := by
  have hsub : (releaseSharedMemory x (s.shm c)).blocks.Pairwise (·.id ≠ ·.id) :=
    (htidy.ids c).sublist List.filter_sublist
  have hids (d : Nat) : (((s.countFree c b).setShm c (releaseSharedMemory x (s.shm c))).shm d
      ).blocks.Pairwise (·.id ≠ ·.id) := by
    by_cases hd : d = c
    · subst hd
      simpa [Objects.setShm] using hsub
    · have hsame : ((s.countFree c b).shm d).blocks = (s.shm d).blocks := rfl
      simpa [Objects.setShm, hd, hsame] using htidy.ids d
  refine ⟨hids, fun d e => ?_⟩
  have hcount : (s.countFree c b).findShm d e = s.findShm d e := rfl
  have hfate : ((s.countFree c b).setShm c (releaseSharedMemory x (s.shm c))).shmFate d e =
      if d = c ∧ e = b then { s.shmFate c b with frees := (s.shmFate c b).frees + 1 }
      else s.shmFate d e := shmFate_setFate _
  have hnext : (((s.countFree c b).setShm c (releaseSharedMemory x (s.shm c))).shm d).nextId =
      (s.shm d).nextId := by
    rw [nextId_setShm]
    by_cases hd : d = c
    · subst hd
      simp [releaseSharedMemory]
    · simp only [if_neg hd]
      rfl
  rw [findShm_setShm, hcount, hfate, hnext]
  by_cases hd : d = c
  · subst hd
    rw [if_pos rfl, find?_releaseSharedMemory hx]
    by_cases he : e = b
    · subst he
      simp
    · simpa [he] using htidy.present d e
  · simpa [hd] using htidy.present d e

theorem tidy_exec {a : ObjAct P} {r : ObjResp a} (h : s.exec env a = some (r, s'))
    (hacc : Accounts s.ledger n) (htidy : s.Tidy) (hback : Backed s.ledger n l a) : s'.Tidy := by
  cases a
  case mallocSession c =>
    simp only [Objects.exec] at h
    split_ifs at h
    all_goals
      obtain ⟨-, rfl⟩ := Prod.mk.inj (Option.some.inj h)
      exact ⟨htidy.ids, htidy.present⟩
  case getBnSession c sessionId =>
    obtain ⟨-, rfl⟩ := Prod.mk.inj (Option.some.inj h)
    cases s.findBnSession c sessionId <;> exact ⟨htidy.ids, htidy.present⟩
  case findAndRemoveSession c sessionId =>
    obtain ⟨-, rfl⟩ := Prod.mk.inj (Option.some.inj h)
    cases s.findBnSession c sessionId <;> exact ⟨htidy.ids, htidy.present⟩
  case insertShm c b shm isAllocated offset =>
    obtain ⟨-, rfl⟩ := Prod.mk.inj (Option.some.inj h)
    exact tidy_insertShm hacc htidy hback
  case getBnShmByOffset c shmOffset =>
    simp only [Objects.exec, getBnShmByOffset] at h
    cases hfind : (s.shm c).shrdMemList.find? (·.offset = shmOffset) with
    | none =>
      rw [hfind] at h
      obtain ⟨-, rfl⟩ := Prod.mk.inj (Option.some.inj h)
      rwa [setShm_self]
    | some x =>
      rw [hfind] at h
      obtain ⟨-, rfl⟩ := Prod.mk.inj (Option.some.inj h)
      exact htidy.modify fun _ => rfl
  case findAndRemoveShrMem c callFromService shm =>
    simp only [Objects.exec, teecFindAndRemoveShrMemInner] at h
    cases hfind : (s.shm c).shrdMemList.find? (matchesArgs callFromService shm) with
    | none =>
      rw [hfind] at h
      obtain ⟨-, rfl⟩ := Prod.mk.inj (Option.some.inj h)
      rwa [setShm_self]
    | some x =>
      rw [hfind] at h
      obtain ⟨-, rfl⟩ := Prod.mk.inj (Option.some.inj h)
      exact htidy.modify fun _ => rfl
  case unlinkShm | atomDecShm =>
    obtain ⟨-, rfl⟩ := Prod.mk.inj (Option.some.inj h)
    exact htidy.modify fun _ => rfl
  case takeShms c =>
    obtain ⟨-, rfl⟩ := Prod.mk.inj (Option.some.inj h)
    refine htidy.setShm (t := (s.shm c).unlistAll) rfl ?_ fun b => ?_
    · rw [ShmTable.unlistAll, List.pairwise_map]
      exact htidy.ids c
    · rw [find?_unlistAll, Option.isSome_map]
      rfl
  case getAndSetBit c =>
    obtain ⟨-, rfl⟩ := Prod.mk.inj (Option.some.inj h)
    exact htidy.setShm rfl (htidy.ids c) fun b => rfl
  case clearBit c bit =>
    obtain ⟨-, rfl⟩ := Prod.mk.inj (Option.some.inj h)
    exact htidy.setShm rfl (htidy.ids c) fun b => rfl
  case initLists c =>
    obtain ⟨-, rfl⟩ := Prod.mk.inj (Option.some.inj h)
    have hlists : (s.setSessionList c []).Tidy := ⟨htidy.ids, htidy.present⟩
    refine ⟨ids_setShm hlists List.Pairwise.nil, fun d b => ?_⟩
    have hfate : ((s.setSessionList c []).setShm c .init).shmFate d b = s.shmFate d b := rfl
    rw [findShm_setShm, nextId_setShm, hfate]
    by_cases hd : d = c
    · simp [hd, ShmTable.init]
    · rw [if_neg hd, if_neg hd]
      exact hlists.present d b
  case mallocShm c =>
    obtain ⟨-, rfl⟩ := Prod.mk.inj (Option.some.inj h)
    exact tidy_mallocShm htidy
  case freeShm c b =>
    obtain ⟨-, rfl⟩ := Prod.mk.inj (Option.some.inj h)
    obtain ⟨-, -, hnew, -⟩ := facts_of_own hacc hback
    refine ⟨htidy.ids, fun d e => ?_⟩
    have hfate := shmFate_setFate (s := s) (c := c) (b := b) (d := d) (e := e)
      { s.shmFate c b with frees := (s.shmFate c b).frees + 1 }
    have hfate' : (s.countFree c b).shmFate d e = _ := hfate
    have hsame : (s.countFree c b).findShm d e = s.findShm d e := rfl
    have hnext : ((s.countFree c b).shm d).nextId = (s.shm d).nextId := rfl
    rw [hfate', hsame, hnext]
    by_cases hde : d = c ∧ e = b
    · obtain ⟨rfl, rfl⟩ := hde
      have hwas : (s.shmFate d e).wasListed = false := hnew
      simp [findShm_of_own hacc htidy hback, hwas]
    · simpa [hde] using htidy.present d e
  case releaseShm c b =>
    obtain ⟨-, rfl⟩ := Prod.mk.inj (Option.some.inj h)
    obtain ⟨x, hx⟩ := findShm_of_fin hacc htidy hback
    rw [hx]
    exact tidy_releaseShm htidy hx
  all_goals
    obtain ⟨-, rfl⟩ := Prod.mk.inj (Option.some.inj h)
    exact ⟨htidy.ids, htidy.present⟩

end Exec

end TeeClient.Vendor
